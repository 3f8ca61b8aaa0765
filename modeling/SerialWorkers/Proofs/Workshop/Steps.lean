import SerialWorkers.Proofs.Workshop.Moves

/-!
# One worker's share in a run

Whatever goes on in a workshop, to one worker only a few kinds of things can
happen.  A course is a row of such steps; every move, and so every run, leads each
worker along a course, and what all steps keep holds of every worker of every run.

* `Worker.Step`, `Worker.Course` — what can happen to a worker.
* `Workshop.follows_of_move` — a move leads every worker along a course.
* `Workshop.worker_invariant` — what new workers have and steps keep, all
  workers have at all times.
-/

namespace SerialWorkers

open Workshop

variable {α : Type}

namespace Worker

/-! ## Steps and courses -/

/-- One thing that happens to a worker, with what is told of its thread. -/
inductive Step : Worker α → List (LoopEvent α) → Worker α → Prop
  /-- Somebody tries to send it a job. -/
  | count (v : Worker α) : Step v [] { v with attempts := v.attempts + 1 }
  /-- A job whose sender found the mailbox open is put in. -/
  | put (v : Worker α) (mail : Mail α) : Step v [] (v.put mail).2
  /-- It is requested to stop. -/
  | stop (v : Worker α) (status : Int) : Step v [] (v.stop status).2
  /-- Its thread takes a step of its own. -/
  | advance {v v' : Worker α} (h : v.advance = some v') : Step v v.loopEvent.toList v'
  /-- Its job gets on and is not over. -/
  | goOn {v : Worker α} {p : Phase α} (log : List (Entry α)) (hv : v.phase.inJob = true)
      (hd : v.loopEvent = none) (hp : p.inJob = true) (hg : v.phase.GetsOn p) :
      Step v [] { v with phase := p, log := log }
  /-- Its thread reports that it was the first to request a stop of some worker. -/
  | report (v : Worker α) (identity : String) (status : Int) :
      Step v [] (v.report [.stopRequested identity status])
  /-- Handles are copied or let go of, the owner's excepted. -/
  | handles {v : Worker α} {hs : List Bool}
      (h : v.mailbox.holds 0 = true → hs.getD 0 false = true) :
      Step v [] { v with mailbox := { v.mailbox with handles := hs } }
  /-- Its owner gives it up, after it was stopped. -/
  | leave {v : Worker α} (h : v.mailbox.isOpen = false) : Step v [] { v with owned := false }
  /-- Its owner lets it go, after it was stopped. -/
  | abandon {v : Worker α} (h : v.mailbox.isOpen = false) :
      Step v [] { v with owned := false, mailbox := (v.mailbox.dropHandle 0).dropCancelSender }

/-- A row of steps, with all that is told of the thread. -/
inductive Course : Worker α → List (LoopEvent α) → Worker α → Prop
  /-- Nothing happens. -/
  | refl (v : Worker α) : Course v [] v
  /-- One more step is taken. -/
  | tail {v v' v'' : Worker α} {ds es : List (LoopEvent α)} (first : Course v ds v')
      (last : Step v' es v'') : Course v (ds ++ es) v''

theorem Step.course {v v' : Worker α} {ds : List (LoopEvent α)} (h : Step v ds v') :
    Course v ds v' := by
  simpa using Course.tail (.refl v) h

theorem Course.trans {v v' v'' : Worker α} {ds es : List (LoopEvent α)} (h : Course v ds v')
    (h' : Course v' es v'') : Course v (ds ++ es) v'' := by
  induction h' with
  | refl => simpa using h
  | tail _ last ih =>
      rw [← List.append_assoc]
      exact ih.tail last

/-- A quiet step, of whose worker's thread nothing is told. -/
theorem Course.quiet {v v' v'' : Worker α} {ds : List (LoopEvent α)} (h : Course v ds v')
    (h' : Step v' [] v'') : Course v ds v'' := by
  simpa using h.tail h'

/-- What every step keeps, every course keeps. -/
theorem Course.invariant (ds : List (LoopEvent α)) {P : List (LoopEvent α) → Worker α → Prop}
    (step : ∀ {ds es : List (LoopEvent α)} {v v' : Worker α},
      P ds v → Step v es v' → P (ds ++ es) v')
    {es : List (LoopEvent α)} {v v' : Worker α} (hv : P ds v) (h : Course v es v') :
    P (ds ++ es) v' := by
  induction h with
  | refl => simpa using hv
  | tail _ last ih =>
      rw [← List.append_assoc]
      exact step ih last

/-- A job is sent: the attempt is counted and, where the mailbox is open, the job
handed in. -/
theorem course_post (v : Worker α) (sender : Sender) (job : Work α) :
    Course v [] (v.post sender job).2 := by
  unfold post
  split
  · exact (Step.count v).course.quiet (.put _ _)
  · exact (Step.count v).course

theorem inJob_of_running {v : Worker α} {rest : Work α} (h : v.phase = .running rest) :
    v.phase.inJob = true := by
  rw [h]
  rfl

theorem ne_waiting_of_inJob {v : Worker α} (h : v.phase.inJob = true) : v.phase ≠ .waiting := by
  intro hw
  rw [hw] at h
  cases h

/-- Whether a job ends next is seen from where the thread stands. -/
theorem loopEvent_eq_none_of_phase {v v' : Worker α} (hp : v'.phase = v.phase)
    (hv : v.phase.inJob = true) (hd : v.loopEvent = none) : v'.loopEvent = none := by
  unfold loopEvent at *
  rw [hp]
  split at hd <;> simp_all [Phase.inJob]

end Worker

namespace Workshop

open Worker (Step Course)

/-! ## All workers together -/

/-- Every worker is led along a course with `ds` told of its thread, and workers
that were not there before are newly hired. -/
structure Follows (ds : Nat → List (LoopEvent α)) (w w' : Workshop α) : Prop where
  /-- The workers that were there. -/
  course : ∀ {j : Nat} {v : Worker α}, w.workers[j]? = some v →
    ∃ v', w'.workers[j]? = some v' ∧ Course v (ds j) v'
  /-- The workers that were not. -/
  fresh : ∀ {j : Nat} {v' : Worker α}, w.workers[j]? = none → w'.workers[j]? = some v' →
    ∃ settings identity, Course (Worker.hired settings identity) [] v'

/-- Nothing is told of any thread. -/
def silence (_ : Nat) : List (LoopEvent α) := []

theorem follows_of_workers_eq {w w' : Workshop α} (h : w'.workers = w.workers) :
    Follows silence w w' where
  course hv := ⟨_, by rw [h, hv], .refl _⟩
  fresh hn hv := by
    rw [h, hn] at hv
    cases hv

theorem follows_refl (w : Workshop α) : Follows silence w w := follows_of_workers_eq rfl

/-- A hire changes no worker that was there. -/
theorem follows_hire (w : Workshop α) (settings : Settings) (identity : String)
    (outside : List Event) :
    Follows silence w
      { w with workers := w.workers ++ [Worker.hired settings identity], outside := outside } where
  course {j v} hv := by
    have hj : j < w.workers.length := (List.getElem?_eq_some_iff.1 hv).1
    exact ⟨v, by simpa [List.getElem?_append_left hj] using hv, .refl _⟩
  fresh {j v'} hn hv := by
    refine ⟨settings, identity, ?_⟩
    have hj : w.workers.length ≤ j := List.getElem?_eq_none_iff.1 hn
    simp only [List.getElem?_append_right hj] at hv
    rw [List.getElem?_singleton] at hv
    split at hv
    · cases hv
      exact .refl _
    · cases hv

/-- A change of one worker, put behind what happened before. -/
theorem Follows.change {w w' : Workshop α} {ds : Nat → List (LoopEvent α)} (h : Follows ds w w')
    {k : Nat} {f : Worker α → Worker α} (hf : ∀ v, w'.workers[k]? = some v → Course v [] (f v)) :
    Follows ds w (w'.change k f) where
  course {j v} hv := by
    obtain ⟨v', hv', hp⟩ := h.course hv
    rw [workers_change]
    by_cases hk : k = j
    · subst hk
      exact ⟨f v', by simp [hv'], by simpa using hp.trans (hf v' hv')⟩
    · exact ⟨v', by simp [hk, hv'], hp⟩
  fresh {j v'} hn hv := by
    rw [workers_change] at hv
    by_cases hk : k = j
    · subst hk
      rw [if_pos rfl] at hv
      obtain ⟨u, hu, rfl⟩ := Option.map_eq_some_iff.1 hv
      obtain ⟨settings, identity, hp⟩ := h.fresh hn hu
      exact ⟨settings, identity, by simpa using hp.trans (hf u hu)⟩
    · rw [if_neg hk] at hv
      exact h.fresh hn hv

/-- One worker goes along a course, and no other is touched. -/
theorem follows_change_const {w : Workshop α} {k : Nat} {v v' : Worker α}
    (hv : w.workers[k]? = some v) (hc : Course v [] v') :
    Follows silence w (w.change k fun _ => v') := by
  apply (follows_refl w).change
  intro x hx
  rw [hv] at hx
  cases hx
  exact hc

/-- A client has to do with one worker, and with no other. -/
theorem follows_changeClient {w : Workshop α} {k c : Nat} {v v' : Worker α}
    {f : Client α → Client α} (hv : w.workers[k]? = some v) (hc : Course v [] v') :
    Follows silence w ((w.change k fun _ => v').changeClient c f) where
  course hj := (follows_change_const hv hc).course hj
  fresh hn hj := (follows_change_const hv hc).fresh hn hj

/-- A change of one worker by a step of its thread. -/
theorem follows_advance {w : Workshop α} {k : Nat} {u u' : Worker α}
    (hu : w.workers[k]? = some u) (h : u.advance = some u') :
    Follows (fun j => loopEvents j w (.work k)) w (w.change k fun _ => u') where
  course {j v} hv := by
    rw [workers_change]
    by_cases hk : k = j
    · subst hk
      rw [hu] at hv
      cases hv
      exact ⟨u', by simp [hu], by simpa [loopEvents, hu] using (Step.advance h).course⟩
    · exact ⟨v, by simp [hk, hv], by simpa [loopEvents, hk] using Course.refl v⟩
  fresh {j v'} hn hv := by
    rw [workers_change] at hv
    by_cases hk : k = j
    · subst hk
      rw [hu] at hn
      cases hn
    · rw [if_neg hk, hn] at hv
      cases hv

/-! ## Stops -/

theorem follows_report {w w' : Workshop α} {ds : Nat → List (LoopEvent α)} (h : Follows ds w w')
    (thread : Thread) (identity : String) (status : Int) :
    Follows ds w (w'.report thread (.stopRequested identity status)) := by
  cases thread with
  | outside => exact ⟨h.course, h.fresh⟩
  | worker k => exact h.change fun v _ => (Step.report v identity status).course

theorem follows_stopBy (w : Workshop α) (thread : Thread) (k : Nat) (status : Int) :
    Follows silence w (w.stopBy thread k status) := by
  have hstop : Follows silence w (w.change k fun v => (v.stop status).2) :=
    (follows_refl w).change fun v _ => (Step.stop v status).course
  unfold stopBy
  split
  · exact follows_refl w
  · simp only
    split
    · exact follows_report hstop thread _ _
    · exact hstop

theorem follows_stopUnlessStopped (w : Workshop α) (k : Nat) :
    Follows silence w (w.stopUnlessStopped k) := by
  unfold stopUnlessStopped
  split
  · exact follows_refl w
  · split
    · exact follows_stopBy w _ k 0
    · exact follows_refl w

/-- A mailbox is closed once its worker was requested to stop. -/
theorem isOpen_stop (m : Mailbox (Mail α)) (status : Int) :
    (m.stop status).2.isOpen = false := by
  unfold Mailbox.stop Mailbox.beginStop
  by_cases ho : (m.setStatus status).isOpen = true
  · rw [if_pos ho]
    simp only [Mailbox.giveNotice]
    split
    · rfl
    · split <;> rfl
  · rw [if_neg ho]
    simpa using ho

theorem isOpen_stopUnlessStopped {w : Workshop α} {k : Nat} {v : Worker α}
    (hv : (w.stopUnlessStopped k).workers[k]? = some v) : v.mailbox.isOpen = false := by
  unfold stopUnlessStopped at hv
  split at hv
  · rename_i hn
    rw [hn] at hv
    cases hv
  · rename_i u hu
    split at hv
    · simp only [stopBy, hu] at hv
      split at hv
      · simp only [report, workers_change, if_true, hu, Option.map_some, Option.some.injEq] at hv
        subst hv
        exact isOpen_stop _ _
      · simp only [workers_change, if_true, hu, Option.map_some, Option.some.injEq] at hv
        subst hv
        exact isOpen_stop _ _
    · rename_i ho
      rw [hu] at hv
      cases hv
      simpa using ho

/-! ## Moves -/

/-- A handle that is held is still held when another one is given out. -/
theorem getD_append_of_getD {hs more : List Bool} {n : Nat} (h : hs.getD n false = true) :
    (hs ++ more).getD n false = true := by
  rw [List.getD_eq_getElem?_getD] at h ⊢
  cases hn : hs[n]? with
  | none => simp [hn] at h
  | some b =>
      have hlt : n < hs.length := (List.getElem?_eq_some_iff.1 hn).1
      rw [List.getElem?_append_left hlt]
      exact h

/-- Where a worker in a job stands is not changed by what is done to a worker that
keeps its place, be it the same one. -/
theorem phase_of_change {w : Workshop α} {k t : Nat} {u v v' v₀ : Worker α}
    (hu : w.workers[k]? = some u) (hv : w.workers[t]? = some v) (hk : u.phase.inJob = true)
    (hsame : v.phase ≠ .waiting → v'.phase = v.phase)
    (h : (w.change t fun _ => v').workers[k]? = some v₀) : v₀.phase = u.phase := by
  rw [workers_change] at h
  by_cases ht : t = k
  · subst ht
    rw [hu] at hv
    cases hv
    simp only [hu, if_true, Option.map_some, Option.some.injEq] at h
    subst h
    exact hsame (Worker.ne_waiting_of_inJob hk)
  · rw [if_neg ht, hu] at h
    cases h
    rfl

/-- A job under way that gets on, after something was done to worker `t`. -/
theorem Follows.goOn {w w' : Workshop α} {ds : Nat → List (LoopEvent α)} (h : Follows ds w w')
    {k : Nat} {u : Worker α} (hk : u.phase.inJob = true) (hd : u.loopEvent = none)
    (hsame : ∀ v, w'.workers[k]? = some v → v.phase = u.phase) {f : Worker α → Worker α}
    {p : Phase α} (hp : p.inJob = true) (hg : u.phase.GetsOn p)
    (hf : ∀ v, ∃ log, f v = { v with phase := p, log := log }) :
    Follows ds w (w'.change k f) := by
  apply h.change
  intro v hv
  obtain ⟨log, hf⟩ := hf v
  have hphase := hsame v hv
  rw [hf]
  exact (Step.goOn log (by rw [hphase, hk]) (Worker.loopEvent_eq_none_of_phase hphase hk hd) hp
    (by rw [hphase]; exact hg)).course

/-- Nothing is told of a thread whose step ends nothing. -/
theorem loopEvents_of_loopEvent_eq_none {w : Workshop α} {m : Move α} {k : Nat} {u : Worker α}
    (hm : m.OfJob k) (hu : w.workers[k]? = some u) (hd : u.loopEvent = none) :
    (fun j => loopEvents j w m) = silence := by
  cases hm with
  | work =>
      funext j
      by_cases hk : k = j
      · subst hk
        simp [loopEvents, hu, hd, silence]
      · simp [loopEvents, hk, silence]
  | insist | enter | release => rfl

/-- Worker `t` takes in a job from a job of worker `k`, which then gets on. -/
theorem follows_send {w : Workshop α} {m : Move α} {k t : Nat} {u v v' : Worker α}
    (hm : m.OfJob k) (hu : w.workers[k]? = some u) (hv : w.workers[t]? = some v)
    (hk : u.phase.inJob = true) (hd : u.loopEvent = none) (hcourse : Course v [] v')
    (hsame : v.phase ≠ .waiting → v'.phase = v.phase) {f : Worker α → Worker α}
    {p : Phase α} (hp : p.inJob = true) (hg : u.phase.GetsOn p)
    (hf : ∀ v, ∃ log, f v = { v with phase := p, log := log }) :
    Follows (fun j => loopEvents j w m) w ((w.change t fun _ => v').change k f) := by
  rw [loopEvents_of_loopEvent_eq_none hm hu hd]
  exact (follows_change_const hv hcourse).goOn hk hd
    (fun x hx => phase_of_change hu hv hk hsame hx) hp hg hf

/-- **A move leads every worker along a course.** -/
theorem follows_of_move {w w' : Workshop α} {m : Move α} (h : w.move m = some w') :
    Follows (fun j => loopEvents j w m) w w' := by
  obtain ⟨rs, hm⟩ : ∃ rs, Moved w m rs w' := ⟨_, moved_of_move h⟩
  cases hm with
  | hire => exact follows_hire w _ _ _
  | hireFails => exact follows_refl w
  | welcome => exact follows_of_workers_eq rfl
  | @called _ c k job client v r hc hs hv hr hw =>
      exact follows_changeClient hv (Worker.course_post v _ job)
  | @enters m manner c k job client v hm hc hs hv ho =>
      have hquiet : (fun j => loopEvents j w m) = silence := by cases hm <;> rfl
      rw [hquiet]
      exact follows_changeClient hv (Step.count v).course
  | @resumed c k client mail v r hc hs hv hr hw =>
      exact follows_changeClient hv (Step.put v mail).course
  | @goesOn _ k u job f rest es hm hu hp hd hf hr =>
      rw [loopEvents_of_loopEvent_eq_none hm hu hd]
      apply (follows_refl w).change
      intro x hx
      rw [hu] at hx
      cases hx
      rw [hf]
      exact (Step.goOn _ (Worker.inJob_of_running hp) hd rfl (by rw [hp]; exact .acts hr)).course
  | @stopsFrom k t u status whom rest hu hp =>
      have hd : u.loopEvent = none := by rw [Worker.loopEvent, hp]
      rw [loopEvents_of_loopEvent_eq_none .work hu hd]
      exact (follows_stopBy w _ t status).goOn (Worker.inJob_of_running hp) hd
        (fun v hv => phase_of_stopBy hu hv) rfl (by rw [hp]; exact .acts rfl) fun v => ⟨v.log, rfl⟩
  | @sends _ k t u v route job rest r hm hu hp hv hr hw =>
      exact follows_send hm hu hv (Worker.inJob_of_running hp) (by rw [Worker.loopEvent, hp])
        (Worker.course_post v _ job) (phase_post v _ job) rfl (by rw [hp]; exact .acts rfl)
        fun x => ⟨_, rfl⟩
  | @sendEnters _ k t u v route job rest hm hu hp hv ho =>
      exact follows_send hm hu hv (Worker.inJob_of_running hp) (by rw [Worker.loopEvent, hp])
        (Step.count v).course (fun _ => rfl) rfl (by rw [hp]; exact .calls rfl) fun x => ⟨_, rfl⟩
  | @sendsOn k t u v manner mail rest r hu hp hv hr hw =>
      exact follows_send .work hu hv (by rw [hp]; rfl) (by rw [Worker.loopEvent, hp])
        (Step.put v mail).course (phase_put v mail) rfl (by rw [hp]; exact .told)
        fun x => ⟨_, rfl⟩
  | advances hu hadv => exact follows_advance hu hadv
  | stops => exact follows_stopBy w _ _ _
  | leaves =>
      exact (follows_stopUnlessStopped w _).change fun v hv =>
        (Step.leave (isOpen_stopUnlessStopped hv)).course
  | abandons =>
      exact (follows_stopUnlessStopped w _).change fun v hv =>
        (Step.abandon (isOpen_stopUnlessStopped hv)).course
  | clones =>
      refine (follows_refl w).change fun v _ => (Step.handles ?_).course
      intro h0
      exact getD_append_of_getD h0
  | drops h0 =>
      refine (follows_refl w).change fun v _ => (Step.handles ?_).course
      intro h
      rw [List.getD_eq_getElem?_getD, List.getElem?_set_ne h0, ← List.getD_eq_getElem?_getD]
      exact h

/-! ## Runs -/

/-- **A run leads every worker along a course.** -/
theorem course_of_run {w w' : Workshop α} {moves : List (Move α)} (h : w.run moves = some w')
    {k : Nat} {v : Worker α} (hv : w.workers[k]? = some v) :
    ∃ v', w'.workers[k]? = some v' ∧ Course v (w.trace (loopEvents k) moves) v' := by
  refine trace_invariant (loopEvents k) []
    (P := fun told w' => ∃ v', w'.workers[k]? = some v' ∧ Course v told v') ?_ ⟨v, hv, .refl v⟩ h
  rintro told w w' m ⟨u, hu, hp⟩ hm
  obtain ⟨v', hv', hp'⟩ := (follows_of_move hm).course hu
  exact ⟨v', hv', hp.trans hp'⟩

/-- Nothing is told of the thread of a worker that is not there. -/
theorem loopEvents_of_getElem?_eq_none {w : Workshop α} {k : Nat} (h : w.workers[k]? = none)
    (m : Move α) : loopEvents k w m = [] := by
  unfold loopEvents
  split
  · split <;> simp [h]
  · rfl

/-- **What new workers have and every step keeps, all workers have at all times.** -/
theorem worker_invariant {P : List (LoopEvent α) → Worker α → Prop}
    (hired : ∀ settings identity, P [] (Worker.hired settings identity))
    (step : ∀ {ds es : List (LoopEvent α)} {v v' : Worker α},
      P ds v → Step v es v' → P (ds ++ es) v')
    {moves : List (Move α)} {w : Workshop α} (h : run {} moves = some w) {k : Nat}
    {v : Worker α} (hv : w.workers[k]? = some v) : P (trace (loopEvents k) {} moves) v := by
  -- until the worker is hired nothing is told of it, and then its course begins
  suffices hall : (w.workers[k]? = none → trace (loopEvents k) {} moves = []) ∧
      ∀ v, w.workers[k]? = some v → P (trace (loopEvents k) {} moves) v from hall.2 v hv
  refine trace_invariant (loopEvents k) []
    (P := fun told w => (w.workers[k]? = none → told = []) ∧
      ∀ v, w.workers[k]? = some v → P told v) ?_ ⟨fun _ => rfl, fun v hv => by simp at hv⟩ h
  rintro told w w' m ⟨hnone, hsome⟩ hm
  have hf := follows_of_move hm
  cases hk : w.workers[k]? with
  | none =>
      rw [hnone hk, loopEvents_of_getElem?_eq_none hk]
      refine ⟨fun _ => rfl, fun v hv => ?_⟩
      obtain ⟨settings, identity, hp⟩ := hf.fresh hk hv
      exact hp.invariant [] step (hired settings identity)
  | some u =>
      obtain ⟨v', hv', hp⟩ := hf.course hk
      refine ⟨?_, ?_⟩
      · intro hn
        rw [hn] at hv'
        cases hv'
      · intro v hv
        rw [hv] at hv'
        cases hv'
        exact hp.invariant _ step (hsome u hk)

end Workshop

end SerialWorkers
