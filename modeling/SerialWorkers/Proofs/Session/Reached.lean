import SerialWorkers.Proofs.Isolation.Transcripts

/-!
# Sessions at rest

A session's workshop is at rest, and some run of moves led to it.  Which run that was is
left open: threads and clients may have gone on in any order on the way.

* `Workshop.Reached` — some run leads to a workshop.
* `Session.AtRest` — such a workshop at rest, and what the session knows of it.
* `Session.atRest_after` — sessions are at rest after any commands.
-/

namespace SerialWorkers

open Workshop

variable {α : Type}

namespace Workshop

variable {w w₁ : Workshop α} {m : Move α}

/-- Some run leads to the workshop. -/
def Reached (w : Workshop α) : Prop := ∃ moves, run {} moves = some w

theorem Reached.run (h : w.Reached) {moves : List (Move α)} (hrun : w.run moves = some w₁) :
    w₁.Reached := by
  obtain ⟨first, hfirst⟩ := h
  exact ⟨first ++ moves, by rw [run_append_of_run hfirst, hrun]⟩

theorem Reached.move (h : w.Reached) (hm : w.move m = some w₁) : w₁.Reached := by
  have hrun : w.run [m] = some w₁ := by
    rw [run_cons, hm]
    rfl
  exact Reached.run h hrun

theorem Reached.settle (h : w.Reached) : w.settle.Reached := by
  obtain ⟨moves, -, hrun⟩ := run_settle w
  exact Reached.run h hrun

/-- Moves on behalf of a worker, with rest in between, are a run. -/
theorem Reached.dealing (h : w.Reached) {k first : Nat} {jobs : List (Work α)}
    (hd : Dealing k first jobs w w₁) : w₁.Reached := by
  induction hd with
  | refl => exact h
  | move _ _ hm ih => exact Reached.move ih hm
  | settle _ ih => exact Reached.settle ih

end Workshop

namespace Session

variable {s s₁ : Session α} {c : Command α} {k : Nat}

/-- A session is at rest: some run led to its workshop, nobody can go on, and all that is
known by now was taken note of. -/
structure AtRest (s : Session α) : Prop where
  /-- Some run leads there. -/
  reached : s.shop.Reached
  /-- All is at rest and noted. -/
  resting : s.Resting
  /-- Who runs an errand has come. -/
  errands : ∀ e ∈ s.errands, e.client < s.shop.clients.length

theorem atRest_empty : AtRest ({} : Session α) :=
  ⟨⟨[], rfl⟩, resting_empty, fun _ he => by cases he⟩

/-- A note on an errand does not change whose it is. -/
theorem errands_restWith {w : Workshop α} (h : ∀ e ∈ s.errands, e.client < w.clients.length) :
    ∀ e ∈ (s.restWith w).errands, e.client < (s.restWith w).shop.clients.length := by
  intro e he
  obtain ⟨e', he', rfl⟩ := List.mem_map.1 he
  exact Nat.lt_of_lt_of_le (h e' he') (length_clients_le_settle w)

/-- What a command does on behalf of a worker ends at rest. -/
theorem AtRest.dealt (h : s.AtRest) (hd : Dealt k c s s₁) : s₁.AtRest := by
  cases hd with
  | idle => exact h
  | hired hc hk hm =>
      refine ⟨Reached.settle (Reached.move h.reached hm), resting_restWith s _,
        errands_restWith fun e he => ?_⟩
      exact Nat.lt_of_lt_of_le (h.errands e he) (length_clients_le_of_move hm)
  | acts hs es ws hw hhs hes hws =>
      refine ⟨Reached.settle (Reached.dealing h.reached hw), resting_restWith _ _,
        errands_restWith fun e he => ?_⟩
      rcases List.mem_append.1 he with he | he
      · exact Nat.lt_of_lt_of_le (h.errands e he) hw.length_clients_le
      · exact (hes e he).2.2
  | answers => exact ⟨h.reached, ⟨h.resting.still, h.resting.noted⟩, h.errands⟩

/-- **Every command ends at rest.** -/
theorem AtRest.perform (h : s.AtRest) (c : Command α) : (s.perform c).2.AtRest := by
  cases hk : s.target c with
  | none =>
      rw [perform_eq_of_target_eq_none h.resting hk]
      exact h
  | some k => exact h.dealt (dealt_perform hk)

/-- **Sessions are at rest after any commands.** -/
theorem atRest_after (cs : List (Command α)) : (({} : Session α).after cs).AtRest := by
  suffices h : ∀ s : Session α, s.AtRest → (s.after cs).AtRest from h _ atRest_empty
  induction cs with
  | nil => exact fun s hs => hs
  | cons c cs ih => exact fun s hs => ih _ (hs.perform c)

end Session

end SerialWorkers
