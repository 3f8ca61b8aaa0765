import SerialWorkers.Proofs.Workshop.Standing

/-!
# What bears on a worker's end

Of all that goes on in a workshop little bears on the end of one worker: requests
to stop it, and the steps of its own thread.  Whatever else is done leaves the stage
of life of its mailbox, the status on record, the slot for the notice and what its
thread has decided as they are.

* `Move.Requests` — the moves in which a worker is requested to stop.
* `Workshop.Steers` — what a move can do to a worker's prospects;
  `steers_of_move` finds the case.
-/

namespace SerialWorkers

namespace Workshop

/-- What bears on the end of a worker. -/
structure Prospect where
  /-- The stage of life of its mailbox. -/
  lifecycle : Lifecycle
  /-- The status last recorded. -/
  status : Int
  /-- Whether a notice to stop waits in the slot. -/
  notice : Bool
  /-- What its thread has decided, if it has. -/
  verdict : Option Verdict
  deriving Repr, DecidableEq

end Workshop

open Workshop

variable {α : Type}

namespace Worker

/-! ## The prospects of one worker -/

/-- What bears on the end of a worker. -/
def prospect (v : Worker α) : Prospect :=
  ⟨v.mailbox.lifecycle, v.mailbox.status, v.mailbox.notice, v.phase.verdict?⟩

theorem prospect_put (v : Worker α) (mail : Mail α) : (v.put mail).2.prospect = v.prospect := by
  have hh := handed_put v mail
  generalize v.put mail = put at hh ⊢
  cases hh with
  | passed hi hc hw hn => simp [prospect, begin, hw, Phase.verdict?]
  | refused | queued | waits => rfl

theorem prospect_counted (v : Worker α) : v.counted.prospect = v.prospect := rfl

theorem prospect_post (v : Worker α) (sender : Sender) (job : Work α) :
    (v.post sender job).2.prospect = v.prospect := by
  unfold post
  split
  · exact prospect_put _ _
  · exact v.prospect_counted

/-- A job under way bears on nothing. -/
theorem prospect_of_inJob {v v' : Worker α} (hm : v'.mailbox = v.mailbox)
    (hv : v.phase.inJob = true) (hv' : v'.phase.inJob = true) : v'.prospect = v.prospect := by
  rw [prospect, prospect, hm, verdict?_eq_none_of_inJob hv, verdict?_eq_none_of_inJob hv']

end Worker

namespace Workshop

variable {w w' : Workshop α} {m : Move α}

/-! ## The prospects in a workshop -/

/-- What bears on the end of worker `k`. -/
def prospect (w : Workshop α) (k : Nat) : Option Prospect := (w.workers[k]?).map Worker.prospect

theorem prospect_of_getElem? {k : Nat} {v : Worker α} (hv : w.workers[k]? = some v) :
    w.prospect k = some v.prospect := by
  rw [prospect, hv]
  rfl

/-- A change that leaves the prospects of the worker changed alone. -/
theorem prospect_change {t : Nat} {f : Worker α → Worker α}
    (hf : ∀ v, w.workers[t]? = some v → (f v).prospect = v.prospect) (k : Nat) :
    (w.change t f).prospect k = w.prospect k := by
  rw [prospect, prospect, workers_change]
  split
  · rename_i ht
    subst ht
    cases hv : w.workers[t]? with
    | none => rfl
    | some v => simp [hf v hv]
  · rfl

/-- Nobody but worker `t` has other prospects when `t` is changed. -/
theorem prospect_change_of_ne {t k : Nat} (h : t ≠ k) (f : Worker α → Worker α) :
    (w.change t f).prospect k = w.prospect k := by
  rw [prospect, prospect, workers_change, if_neg h]

theorem prospect_report (w : Workshop α) (thread : Thread) (e : Event) (k : Nat) :
    (w.report thread e).prospect k = w.prospect k := by
  cases thread with
  | outside => rfl
  | worker j => exact prospect_change (f := (·.report [e])) (fun _ _ => rfl) k

theorem prospect_stopBy_of_ne {t k : Nat} (h : t ≠ k) (thread : Thread) (status : Int) :
    (w.stopBy thread t status).prospect k = w.prospect k := by
  unfold stopBy
  split
  · rfl
  · simp only
    split
    · rw [prospect_report, prospect_change_of_ne h]
    · exact prospect_change_of_ne h _

theorem prospect_stopBy_self {k : Nat} {v : Worker α} (hv : w.workers[k]? = some v)
    (thread : Thread) (status : Int) :
    (w.stopBy thread k status).prospect k = some (v.stop status).2.prospect := by
  have hstop : (w.change k fun v => (v.stop status).2).prospect k
      = some (v.stop status).2.prospect := by
    rw [prospect, workers_change, if_pos rfl, hv]
    rfl
  unfold stopBy
  rw [hv]
  simp only
  split
  · rw [prospect_report, hstop]
  · exact hstop

/-- A job under way that gets on. -/
theorem prospect_change_of_inJob {j : Nat} {f : Worker α → Worker α}
    (hj : ∀ v, w.workers[j]? = some v → v.phase.inJob = true)
    (hf : ∀ v, (f v).mailbox = v.mailbox ∧ (f v).phase.inJob = true) (k : Nat) :
    (w.change j f).prospect k = w.prospect k :=
  prospect_change (fun v hv => Worker.prospect_of_inJob (hf v).1 (hj v hv) (hf v).2) k

/-- A worker takes in a job, as far as it does. -/
theorem prospect_of_intake {t : Nat} {v v' : Worker α} (hv : w.workers[t]? = some v)
    (h : v'.prospect = v.prospect) (k : Nat) :
    (w.change t fun _ => v').prospect k = w.prospect k := by
  apply prospect_change
  intro x hx
  rw [hv] at hx
  cases hx
  exact h

/-- A job under way sends a job and gets on, or is in the call. -/
theorem prospect_of_send {j t : Nat} {u v v' : Worker α} (hu : w.workers[j]? = some u)
    (hv : w.workers[t]? = some v) (hj : u.phase.inJob = true)
    (hsame : v.phase ≠ .waiting → v'.phase = v.phase) (h : v'.prospect = v.prospect)
    {f : Worker α → Worker α} (hf : ∀ v, (f v).mailbox = v.mailbox ∧ (f v).phase.inJob = true)
    (k : Nat) : ((w.change t fun _ => v').change j f).prospect k = w.prospect k := by
  rw [prospect_change_of_inJob (fun x hx => ?_) hf, prospect_of_intake hv h]
  rw [phase_of_change hu hv hj hsame hx, hj]

/-! ## What a move does to them -/

/-- A request to stop worker `k` with this status, as a move of workshop `w`: by its
owner, who may do so in giving it up or letting it go, or by a job. -/
inductive Move.Requests (w : Workshop α) (k : Nat) : Int → Move α → Prop
  /-- Its owner requests it. -/
  | stop {status : Int} : Requests w k status (.stop k status)
  /-- Its owner gives it up, and nobody has stopped it before. -/
  | leave {v : Worker α} (hv : w.workers[k]? = some v) (ho : v.mailbox.isOpen = true) :
      Requests w k 0 (.leave k)
  /-- Its owner lets it go, and nobody has stopped it before. -/
  | abandon {v : Worker α} (hv : w.workers[k]? = some v) (ho : v.mailbox.isOpen = true) :
      Requests w k 0 (.abandon k)
  /-- A job, of the same worker or another one, requests it. -/
  | job {j : Nat} {u : Worker α} {status : Int} {whom : Option Nat} {rest : Work α}
      (hu : w.workers[j]? = some u) (hp : u.phase = .running (.act (.stop status whom) rest))
      (hk : whom.getD j = k) : Requests w k status (.work j)

/-- What a move can do to the prospects of worker `k`. -/
inductive Steers (w : Workshop α) (m : Move α) (w' : Workshop α) (k : Nat) : Prop
  /-- Nothing. -/
  | not (h : w'.prospect k = w.prospect k)
  /-- The worker is hired. -/
  | hired (hn : w.workers[k]? = none) (h : w'.prospect k = some ⟨.running, 0, false, none⟩)
  /-- It is requested to stop. -/
  | requested {v : Worker α} {status : Int} (hv : w.workers[k]? = some v)
      (hm : m.Requests w k status) (h : w'.prospect k = some (v.stop status).2.prospect)
  /-- Its own thread takes a step. -/
  | own {v v' : Worker α} (hv : w.workers[k]? = some v) (hm : m = .work k)
      (ha : v.advance = some v') (h : w'.prospect k = some v'.prospect)

theorem steers_hire (w : Workshop α) (settings : Settings) (identity : String)
    (outside : List Event) (m : Move α) (k : Nat) :
    Steers w m { w with
      workers := w.workers ++ [Worker.hired settings identity], outside := outside } k := by
  by_cases hk : k < w.workers.length
  · apply Steers.not
    simp only [prospect, List.getElem?_append_left hk]
  · rw [Nat.not_lt] at hk
    have hn : w.workers[k]? = none := List.getElem?_eq_none_iff.2 hk
    by_cases hlast : k = w.workers.length
    · subst hlast
      exact .hired hn (by simp [prospect]; rfl)
    · apply Steers.not
      have hbeyond : (w.workers ++ [Worker.hired settings identity]).length ≤ k := by
        rw [List.length_append, List.length_singleton]
        omega
      simp only [prospect, hn, List.getElem?_eq_none_iff.2 hbeyond]

/-- A stop by an owner who goes. -/
theorem steers_stopUnlessStopped {t : Nat} {f : Worker α → Worker α}
    (hf : ∀ v, (f v).prospect = v.prospect)
    (hm : ∀ v, w.workers[t]? = some v → v.mailbox.isOpen = true → m.Requests w t 0) (k : Nat) :
    Steers w m ((w.stopUnlessStopped t).change t f) k := by
  have hchange : ∀ u : Workshop α, (u.change t f).prospect k = u.prospect k :=
    fun u => prospect_change (fun v _ => hf v) k
  unfold stopUnlessStopped
  split
  · exact .not (hchange w)
  · rename_i v hv
    split
    · rename_i ho
      by_cases ht : t = k
      · subst ht
        exact .requested hv (hm v hv ho) ((hchange _).trans (prospect_stopBy_self hv _ _))
      · exact .not ((hchange _).trans (prospect_stopBy_of_ne ht _ _))
    · exact .not (hchange w)

/-- **All that a move can do to the prospects of a worker.** -/
theorem steers_of_move (h : w.move m = some w') (k : Nat) : Steers w m w' k := by
  obtain ⟨rs, hm⟩ : ∃ rs, Moved w m rs w' := ⟨_, moved_of_move h⟩
  cases hm with
  | hire => exact steers_hire w _ _ _ _ k
  | hireFails | welcome => exact .not rfl
  | called hc hs hv => exact .not (prospect_of_intake hv (Worker.prospect_post _ _ _) k)
  | enters _ hc hs hv => exact .not (prospect_of_intake hv (Worker.prospect_counted _) k)
  | resumed hc hs hv => exact .not (prospect_of_intake hv (Worker.prospect_put _ _) k)
  | @goesOn _ j u job f rest es hj hu hp hd hf =>
      apply Steers.not
      apply prospect_change
      intro x hx
      rw [hu] at hx
      cases hx
      rw [hf]
      exact Worker.prospect_of_inJob rfl (Worker.inJob_of_running hp) rfl
  | @stopsFrom j t u status whom rest hu hp ht ho =>
      have hrest : ((w.stopBy (.worker j) t status).change j (·.resume rest)).prospect k
          = (w.stopBy (.worker j) t status).prospect k := by
        refine prospect_change_of_inJob (fun v hv => ?_) (fun _ => by exact ⟨rfl, rfl⟩) k
        rw [phase_of_stopBy hu hv, Worker.inJob_of_running hp]
      by_cases hk : t = k
      · subst hk
        obtain ⟨v, hv, -⟩ := exists_of_owns ho
        exact .requested hv (.job hu hp ht) (hrest.trans (prospect_stopBy_self hv _ _))
      · exact .not (hrest.trans (prospect_stopBy_of_ne hk _ _))
  | sends hj hu hp hv =>
      exact .not (prospect_of_send hu hv (Worker.inJob_of_running hp) (phase_post _ _ _)
        (Worker.prospect_post _ _ _) (fun _ => by exact ⟨rfl, rfl⟩) k)
  | sendEnters hj hu hp hv =>
      exact .not (prospect_of_send hu hv (Worker.inJob_of_running hp) (fun _ => by rfl)
        (Worker.prospect_counted _) (fun _ => by exact ⟨rfl, rfl⟩) k)
  | sendsOn hu hp hv =>
      exact .not (prospect_of_send hu hv (by rw [hp]; rfl) (phase_put _ _)
        (Worker.prospect_put _ _) (fun _ => by exact ⟨rfl, rfl⟩) k)
  | @advances j u u' hu ha =>
      by_cases hk : j = k
      · subst hk
        refine .own hu rfl ha ?_
        rw [prospect, workers_change, if_pos rfl, hu]
        rfl
      · exact .not (prospect_change_of_ne hk _)
  | @stops t status ho =>
      by_cases hk : t = k
      · subst hk
        obtain ⟨v, hv, -⟩ := exists_of_owns ho
        exact .requested hv .stop (prospect_stopBy_self hv _ _)
      · exact .not (prospect_stopBy_of_ne hk _ _)
  | leaves => exact steers_stopUnlessStopped (fun _ => by rfl) (fun _ => .leave) k
  | abandons => exact steers_stopUnlessStopped (fun _ => by rfl) (fun _ => .abandon) k
  | @clones t n =>
      exact .not (prospect_change (f := fun v => { v with mailbox := v.mailbox.cloneHandle n })
        (fun _ _ => rfl) k)
  | @drops t n h0 =>
      exact .not (prospect_change (f := fun v => { v with mailbox := v.mailbox.dropHandle n })
        (fun _ _ => rfl) k)

end Workshop

end SerialWorkers
