import SerialWorkers.Proofs.Workshop.Runs
import SerialWorkers.Workshop.Rest

/-!
# What goes on unasked

Threads that are neither at a gate nor out of work go on by themselves, and so do
clients in a call.  Nobody commands these moves, and nothing is said about
their order.

* `Move.Unasked` — the moves that nobody has to ask for.
* `Workshop.length_add_weight_le` — there are only so many of them in a row.
* `Workshop.run_settle` — coming to rest is a run of such moves.
-/

namespace SerialWorkers.Workshop

variable {α : Type}

/-- A move that nobody has to ask for: a thread or a client in a call goes on. -/
inductive Move.Unasked : Move α → Prop
  /-- A worker's thread takes its next step. -/
  | work (k : Nat) : Unasked (.work k)
  /-- A job sends another one, come what may. -/
  | insist (k : Nat) : Unasked (.insist k)
  /-- A job looks at the lifecycle of whom it sends another one. -/
  | enter (k : Nat) : Unasked (.enterFrom k)
  /-- A client in a call gets on. -/
  | resume (c : Nat) : Unasked (.resume c)

variable {w w' : Workshop α}

/-- A job that sends another one, come what may, leaves less to be run. -/
theorem weight_insist {k : Nat} (h : w.insist k = some w') : w'.weight < w.weight := by
  unfold insist at h
  split at h
  · rename_i route job rest hphase
    cases h
    obtain ⟨u, hu, hp⟩ := Option.map_eq_some_iff.1 hphase
    exact w.weight_sendTo hu hp _ _
  · cases h

/-- So does a job that has only looked. -/
theorem weight_enterFrom {k : Nat} (h : w.enterFrom k = some w') : w'.weight < w.weight := by
  unfold enterFrom at h
  split at h
  · rename_i route job rest hphase
    obtain ⟨u, hu, hp⟩ := Option.map_eq_some_iff.1 hphase
    unfold enterTo at h
    split at h
    · cases h
    · rename_i v hv
      split at h
      · cases h
      · cases h
        have hsend := weight_send (x := v.counted) hu hv (by simp [hp]) (fun _ => rfl)
          (f := fun u => { u with
            phase := .sending route.manner (route.whom.getD k) (v.mailFrom (.worker k) job) rest })
          (n := job.weight + rest.weight + 7) (fun x => rfl)
        have hcounted : workerWeight v.counted = workerWeight v := rfl
        simp only [hp, Phase.weight, Job.weight_send] at hsend
        omega
  · cases h

/-- **Each move that goes on unasked leaves less to be run.** -/
theorem weight_of_unasked {m : Move α} (hm : m.Unasked) (h : w.move m = some w') :
    w'.weight < w.weight := by
  cases hm with
  | work => exact weight_work h
  | insist => exact weight_insist h
  | enter => exact weight_enterFrom h
  | resume => exact weight_resume h

/-- **Only so many moves go on unasked in a row**, whoever makes them. -/
theorem length_add_weight_le {moves : List (Move α)} (hm : ∀ m ∈ moves, m.Unasked)
    (h : w.run moves = some w') : moves.length + w'.weight ≤ w.weight := by
  induction moves generalizing w with
  | nil =>
      cases h
      simp
  | cons m moves ih =>
      rw [run_cons] at h
      obtain ⟨u, hu, h⟩ := Option.bind_eq_some_iff.1 h
      have hrest := ih (fun m' hm' => hm m' (List.mem_cons_of_mem _ hm')) h
      have hfirst := weight_of_unasked (hm m List.mem_cons_self) hu
      rw [List.length_cons]
      omega

/-- What somebody does unasked, by number, is a move. -/
theorem exists_move_of_next? (h : w.next? = some w') :
    ∃ m : Move α, m.Unasked ∧ w.move m = some w' := by
  unfold next? at h
  cases hc : (List.range w.clients.length).findSome? w.resume with
  | some x =>
      rw [hc] at h
      cases h
      obtain ⟨c, -, hc⟩ := List.exists_of_findSome?_eq_some hc
      exact ⟨.resume c, .resume c, hc⟩
  | none =>
      rw [hc] at h
      obtain ⟨k, -, hk⟩ := List.exists_of_findSome?_eq_some
        (show (List.range w.workers.length).findSome? w.work = some w' from h)
      exact ⟨.work k, .work k, hk⟩

theorem settle_of_next? (h : w.next? = some w') : w.settle = w'.settle := by
  rw [settle]
  split
  · rename_i hn
    rw [h] at hn
    cases hn
  · rename_i w₂ hn
    rw [h] at hn
    cases hn
    rfl

theorem settle_of_still (h : w.next? = none) : w.settle = w := by
  rw [settle]
  split
  · rfl
  · rename_i w₂ hn
    rw [h] at hn
    cases hn

/-- **Coming to rest is a run of moves nobody asked for.** -/
theorem run_settle (w : Workshop α) :
    ∃ moves : List (Move α), (∀ m ∈ moves, m.Unasked) ∧ w.run moves = some w.settle := by
  fun_induction settle w with
  | case1 w h => exact ⟨[], by simp, rfl⟩
  | case2 w w' h ih =>
      obtain ⟨m, hm, hmove⟩ := exists_move_of_next? h
      obtain ⟨moves, hmoves, hrun⟩ := ih
      refine ⟨m :: moves, ?_, ?_⟩
      · intro m' hm'
        rcases List.mem_cons.1 hm' with rfl | hm'
        · exact hm
        · exact hmoves m' hm'
      · rw [run_cons, hmove]
        exact hrun

end SerialWorkers.Workshop
