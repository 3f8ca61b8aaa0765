import SerialWorkers.Proofs.Workshop.Endings
import SerialWorkers.Proofs.Workshop.StopRequests

/-!
# The status on record and the report of the stop

A worker can be called on to stop in two ways: by a request, which names a status, and by
its owner's going, which names none and requests a stop only where nobody has done so.  The
status on record is that of the last request.  Of all calls the first one alone can find the
worker open; it is then reported by the thread that made it, with its status, and no thread
reports any other.

* `Workshop.StopCall`, `Workshop.stopCalls` — who calls on whom to stop, in a move.
* `Workshop.Records` — what calls leave behind, and that nothing else does;
  `records_of_move` and `records_of_run` say so of every move and every run.
* `Workshop.stops_on_record` — what the calls of a run come to.
-/

namespace SerialWorkers

/-- Whether an event tells of a request to stop. -/
def Event.tellsStop : Event → Bool
  | .stopRequested .. => true
  | _ => false

namespace Workshop

/-! ## Calls on a worker to stop -/

/-- A call on a worker to stop. -/
structure StopCall where
  /-- The worker. -/
  whom : Nat
  /-- Its name. -/
  identity : String
  /-- The thread that calls. -/
  thread : Thread
  /-- The status requested; its owner names none in giving it up or letting it go. -/
  asked : Option Int
  /-- Whether the worker was still open. -/
  foundOpen : Bool
  deriving Repr, DecidableEq

namespace StopCall

/-- The status on record after a call, where it was `s` before. -/
def record (s : Int) (c : StopCall) : Int :=
  match c.asked with
  | some status => status
  | none => if c.foundOpen then 0 else s

/-- What is reported of a call that found the worker open. -/
def told (c : StopCall) : Event := .stopRequested c.identity (c.asked.getD 0)

end StopCall

variable {α : Type}

/-- The call of `thread` on worker `k` to stop, if there is such a worker. -/
def stopCallOn (w : Workshop α) (k : Nat) (thread : Thread) (asked : Option Int) : List StopCall :=
  match w.workers[k]? with
  | none => []
  | some v => [⟨k, v.mailbox.identity, thread, asked, v.mailbox.isOpen⟩]

/-- The call to stop that is made in a move. -/
def stopCalls (w : Workshop α) : Move α → List StopCall
  | .stop k status => w.stopCallOn k .outside (some status)
  | .leave k => w.stopCallOn k .outside none
  | .abandon k => w.stopCallOn k .outside none
  | .work j =>
      match (w.workers[j]?).map Worker.phase with
      | some (.running (.act (.stop status whom) _)) =>
          let k := whom.getD j
          if w.owns k then w.stopCallOn k (.worker j) (some status) else []
      | _ => []
  | _ => []

/-- The calls on worker `k`. -/
def callsOn (k : Nat) (calls : List StopCall) : List StopCall := calls.filter (·.whom == k)

theorem callsOn_append (k : Nat) (calls more : List StopCall) :
    callsOn k (calls ++ more) = callsOn k calls ++ callsOn k more := List.filter_append ..

/-! ## What calls leave behind -/

/-- The status on record of worker `k`; nothing is on record of one who is not there yet. -/
def statusOf (w : Workshop α) (k : Nat) : Int := (w.prospect k).elim 0 Prospect.status

/-- The stage of life of worker `k`; nobody has stopped one who is not there yet. -/
def lifeOf (w : Workshop α) (k : Nat) : Lifecycle := (w.prospect k).elim .running Prospect.lifecycle

section Lookup

variable {w : Workshop α} {k : Nat} {v : Worker α} (hv : w.workers[k]? = some v)
include hv

theorem statusOf_of_getElem? : w.statusOf k = v.mailbox.status := by
  rw [statusOf, prospect_of_getElem? hv]
  rfl

theorem lifeOf_of_getElem? : w.lifeOf k = v.mailbox.lifecycle := by
  rw [lifeOf, prospect_of_getElem? hv]
  rfl

/-- Whether a worker is found open. -/
theorem isOpen_iff_lifeOf : v.mailbox.isOpen = true ↔ w.lifeOf k = .running := by
  rw [lifeOf_of_getElem? hv]
  simp [Mailbox.isOpen]

end Lookup

/-- What a thread has reported of requests to stop. -/
def stopsTold (w : Workshop α) : Thread → List Event
  | .outside => w.outside.filter Event.tellsStop
  | .worker j => (w.workers[j]?).elim [] fun v => v.events.filter Event.tellsStop

/-- What `calls` leave behind, from `w` to `w'`, and that nothing else is left behind. -/
structure Records (calls : List StopCall) (w w' : Workshop α) : Prop where
  /-- The status on record is changed by calls only. -/
  status : ∀ k, w'.statusOf k = (callsOn k calls).foldl StopCall.record (w.statusOf k)
  /-- Each thread has reported its calls that found the worker open, and no other. -/
  told : ∀ thread, w'.stopsTold thread = w.stopsTold thread
    ++ (calls.filter fun c => c.foundOpen && c.thread == thread).map StopCall.told
  /-- Whoever is open was so before and was not called on. -/
  running : ∀ k, w'.lifeOf k = .running → w.lifeOf k = .running ∧ callsOn k calls = []
  /-- Whoever has come to be stopping was open when called on. -/
  stopping : ∀ k, w'.lifeOf k = .stopping →
    w.lifeOf k = .stopping ∨ ∃ c ∈ callsOn k calls, c.foundOpen = true
  /-- Whoever was found open was so before. -/
  found : ∀ k, ∀ c ∈ callsOn k calls, c.foundOpen = true → w.lifeOf k = .running
  /-- None but the first call found the worker open. -/
  first : ∀ k, ∀ c ∈ (callsOn k calls).tail, c.foundOpen = false

variable {w w₁ w' : Workshop α} {calls more : List StopCall} {m : Move α} {k : Nat}
  {v : Worker α} {thread : Thread}

/-- **What is left behind by some calls and then by more.** -/
theorem Records.trans (h : Records calls w w₁) (h' : Records more w₁ w') :
    Records (calls ++ more) w w' where
  status k := by rw [h'.status, h.status, callsOn_append, List.foldl_append]
  told thread := by
    rw [h'.told, h.told, List.filter_append, List.map_append, List.append_assoc]
  running k hl := by
    obtain ⟨hl, hmore⟩ := h'.running k hl
    obtain ⟨hl, hcalls⟩ := h.running k hl
    exact ⟨hl, by rw [callsOn_append, hcalls, hmore]; rfl⟩
  stopping k hl := by
    rw [callsOn_append]
    rcases h'.stopping k hl with hl | ⟨c, hc, hf⟩
    · rcases h.stopping k hl with hl | ⟨c, hc, hf⟩
      · exact .inl hl
      · exact .inr ⟨c, List.mem_append_left _ hc, hf⟩
    · exact .inr ⟨c, List.mem_append_right _ hc, hf⟩
  found k c hc hf := by
    rw [callsOn_append] at hc
    rcases List.mem_append.1 hc with hc | hc
    · exact h.found k c hc hf
    · exact (h.running k (h'.found k c hc hf)).1
  first k c hc := by
    rw [callsOn_append] at hc
    cases hcalls : callsOn k calls with
    | nil =>
        rw [hcalls] at hc
        exact h'.first k c hc
    | cons c₀ rest =>
        rw [hcalls, List.cons_append, List.tail_cons] at hc
        rcases List.mem_append.1 hc with hc | hc
        · exact h.first k c (by rw [hcalls]; exact hc)
        · -- somebody called before, so the worker was not open any more
          cases hf : c.foundOpen with
          | false => rfl
          | true =>
              rw [(h.running k (h'.found k c hc hf)).2] at hcalls
              cases hcalls

/-- Nobody has called on a worker that is open. -/
theorem Records.callsOn_of_isOpen (h : Records calls w w') (hv : w'.workers[k]? = some v)
    (ho : v.mailbox.isOpen = true) : callsOn k calls = [] :=
  (h.running k ((isOpen_iff_lifeOf hv).1 ho)).2

/-- Nothing is left behind where neither a worker nor a thread outside comes to anything. -/
theorem records_of_eq (hp : ∀ k, w'.statusOf k = w.statusOf k ∧
      (w'.lifeOf k = w.lifeOf k ∨ w'.lifeOf k = .ended))
    (ht : ∀ thread, w'.stopsTold thread = w.stopsTold thread) : Records [] w w' where
  status k := (hp k).1
  told thread := by rw [ht]; exact (List.append_nil _).symm
  running k hl := by
    rcases (hp k).2 with heq | heq
    · exact ⟨heq ▸ hl, rfl⟩
    · rw [hl] at heq
      cases heq
  stopping k hl := by
    rcases (hp k).2 with heq | heq
    · exact .inl (heq ▸ hl)
    · rw [hl] at heq
      cases heq
  found k c hc := by cases hc
  first k c hc := by cases hc

theorem records_refl (w : Workshop α) : Records [] w w :=
  records_of_eq (fun _ => ⟨rfl, .inl rfl⟩) fun _ => rfl

/-- Clients have no part in it. -/
theorem Records.of_workers_eq (h : Records calls w w₁) (hw : w'.workers = w₁.workers)
    (ho : w'.outside = w₁.outside) : Records calls w w' := by
  have hsame : Records [] w₁ w' := by
    refine records_of_eq (fun k => ?_) fun thread => ?_
    · simp only [statusOf, lifeOf, prospect, hw, true_or, and_self]
    · cases thread <;> simp only [stopsTold, hw, ho]
  simpa using h.trans hsame

end Workshop

open Workshop

variable {α : Type}

namespace Worker

variable {v v' : Worker α}

/-- Nothing of it bears on the record: the status and the reports of requests to stop are as
before, and so is the stage of life, unless the worker is done. -/
structure Silent (v v' : Worker α) : Prop where
  /-- The status on record. -/
  status : v'.mailbox.status = v.mailbox.status
  /-- The stage of life. -/
  life : v'.mailbox.lifecycle = v.mailbox.lifecycle ∨ v'.mailbox.lifecycle = .ended
  /-- The reports of requests to stop. -/
  told : v'.events.filter Event.tellsStop = v.events.filter Event.tellsStop

/-- What bears on nothing but a job. -/
theorem silent_of_prospect (hp : v'.prospect = v.prospect)
    (ht : v'.events.filter Event.tellsStop = v.events.filter Event.tellsStop) : Silent v v' :=
  ⟨congrArg Prospect.status hp, .inl (congrArg Prospect.lifecycle hp), ht⟩

/-- A job under way that gets on. -/
theorem silent_getsOn (hv : v.phase.inJob = true) (hm : v'.mailbox = v.mailbox)
    (he : v'.events = v.events) (hv' : v'.phase.inJob = true) : Silent v v' :=
  silent_of_prospect (prospect_of_inJob hm hv hv') (by rw [he])

theorem silent_put (v : Worker α) (mail : Mail α) : Silent v (v.put mail).2 := by
  refine silent_of_prospect (prospect_put v mail) ?_
  have hh := handed_put v mail
  generalize v.put mail = put at hh ⊢
  cases hh with
  | passed => simp [begin, Event.tellsStop]
  | refused | queued | waits => rfl

theorem silent_counted (v : Worker α) : Silent v v.counted := silent_of_prospect rfl rfl

theorem silent_post (v : Worker α) (sender : Sender) (job : Work α) :
    Silent v (v.post sender job).2 := by
  unfold post
  split
  · have h := silent_put v.counted (v.mailFrom sender job)
    exact ⟨h.status, h.life, h.told⟩
  · exact silent_counted v

/-- A thread's own step is no request to stop. -/
theorem silent_advance (h : v.advance = some v') : Silent v v' := by
  refine ⟨?_, Scene.lifecycle_advance h, ?_⟩
  · cases advanced_of_advance h with
    | begins hp hn => exact (congrArg Mailbox.status (Mailbox.next_eq_item hn).2.2.2 :)
    | heeds hp hn => exact (congrArg Mailbox.status (Mailbox.next_eq_noticed hn).2 :)
    | despairs hp hn => exact (congrArg Mailbox.status (Mailbox.next_eq_deserted hn).2.2.2.2 :)
    | panics hp =>
        unfold Worker.panic
        split <;> rfl
    | finishes | writes | marks | goes => rfl
  · cases advanced_of_advance h with
    | begins => simp [begin, Event.tellsStop]
    | heeds =>
        simp only [Worker.retire, Mailbox.reasonEvents, List.filter_append]
        split <;> simp [Event.tellsStop]
    | despairs => simp [Worker.retire, Mailbox.reasonEvents, Event.tellsStop]
    | panics hp =>
        unfold Worker.panic
        split <;> simp [Worker.retire, Worker.report, Mailbox.reasonEvents, Event.tellsStop]
    | finishes | writes | goes => rfl
    | marks => simp [Mailbox.exitEvent, Event.tellsStop]

end Worker

namespace Workshop

variable {w w₁ w' : Workshop α} {calls more : List StopCall} {m : Move α} {k : Nat}
  {v : Worker α} {thread : Thread}

/-! ## Moves in which nobody is called on to stop -/

theorem stopsTold_change {f : Worker α → Worker α} (hf : ∀ v, w.workers[k]? = some v →
      (f v).events.filter Event.tellsStop = v.events.filter Event.tellsStop) (thread : Thread) :
    (w.change k f).stopsTold thread = w.stopsTold thread := by
  cases thread with
  | outside => rfl
  | worker j =>
      simp only [stopsTold, workers_change]
      split
      · rename_i hj
        subst hj
        cases hv : w.workers[k]? with
        | none => rfl
        | some v => exact hf v hv
      · rfl

/-- A change of one worker that bears on nothing. -/
theorem records_change {f : Worker α → Worker α}
    (hf : ∀ v, w.workers[k]? = some v → Worker.Silent v (f v)) : Records [] w (w.change k f) := by
  refine records_of_eq (fun j => ?_) (stopsTold_change fun v hv => (hf v hv).told)
  by_cases hj : k = j
  · subst hj
    simp only [statusOf, lifeOf, prospect, workers_change, if_true]
    cases hv : w.workers[k]? with
    | none => exact ⟨rfl, .inl rfl⟩
    | some v => exact ⟨(hf v hv).status, (hf v hv).life⟩
  · simp only [statusOf, lifeOf, prospect_change_of_ne hj, true_or, and_self]

/-- Nothing is added by a change that bears on nothing. -/
theorem Records.change {f : Worker α → Worker α} (h : Records calls w w₁)
    (hf : ∀ v, w₁.workers[k]? = some v → Worker.Silent v (f v)) :
    Records calls w (w₁.change k f) := by
  simpa using h.trans (records_change hf)

/-- A worker that is known is changed so that it bears on nothing. -/
theorem records_change_const {v' : Worker α} (hv : w.workers[k]? = some v)
    (hs : Worker.Silent v v') : Records [] w (w.change k fun _ => v') := by
  refine records_change fun x hx => ?_
  rw [hv] at hx
  cases hx
  exact hs

/-- Of a new worker nothing is on record. -/
theorem records_hire (w : Workshop α) (settings : Settings) (identity : String) :
    Records [] w { w with
      workers := w.workers ++ [Worker.hired settings identity]
      outside := w.outside ++ [.hired identity settings.capacity] } := by
  have hnew : ∀ k : Nat, (w.workers ++ [Worker.hired settings identity])[k]? = w.workers[k]? ∨
      w.workers[k]? = none ∧ (w.workers ++ [Worker.hired settings identity])[k]?
        = some (Worker.hired settings identity) := by
    intro k
    rcases Nat.lt_trichotomy k w.workers.length with hk | rfl | hk
    · exact .inl (List.getElem?_append_left hk)
    · exact .inr ⟨by simp, by simp⟩
    · refine .inl ?_
      rw [List.getElem?_eq_none_iff.2 (Nat.le_of_lt hk), List.getElem?_eq_none_iff.2 (by simpa)]
  refine records_of_eq (fun k => ?_) fun thread => ?_
  · simp only [statusOf, lifeOf, prospect]
    rcases hnew k with h | ⟨hn, h⟩
    · rw [h]
      exact ⟨rfl, .inl rfl⟩
    · rw [h, hn]
      exact ⟨rfl, .inl rfl⟩
  · cases thread with
    | outside => simp [stopsTold, Event.tellsStop]
    | worker j =>
        simp only [stopsTold]
        rcases hnew j with h | ⟨hn, h⟩
        · rw [h]
        · rw [h, hn]
          rfl

/-! ## Calls -/

theorem stopsTold_report {e : Event} (he : e.tellsStop = true)
    (ht : ∀ j, thread = .worker j → w.workers[j]? ≠ none) (other : Thread) :
    (w.report thread e).stopsTold other
      = w.stopsTold other ++ if thread = other then [e] else [] := by
  cases thread with
  | outside =>
      cases other with
      | outside => simp [report, stopsTold, he]
      | worker j => simp [report, stopsTold]
  | worker i =>
      cases other with
      | outside => simp [report, stopsTold, change]
      | worker j =>
          simp only [report, stopsTold, workers_change, Thread.worker.injEq]
          split
          · rename_i hij
            subst hij
            cases hv : w.workers[i]? with
            | none => exact absurd hv (ht i rfl)
            | some v => simp [Worker.report, he]
          · simp

/-- **A call leaves behind** the status it comes to, a worker that is stopping if it found the
worker open, and the report of that. -/
theorem records_call {c : StopCall}
    (hother : ∀ j, c.whom ≠ j → w'.statusOf j = w.statusOf j ∧ w'.lifeOf j = w.lifeOf j)
    (hstatus : w'.statusOf c.whom = c.record (w.statusOf c.whom))
    (hfound : c.foundOpen = true ↔ w.lifeOf c.whom = .running)
    (hlife : w'.lifeOf c.whom = if c.foundOpen = true then .stopping else w.lifeOf c.whom)
    (htold : ∀ thread, w'.stopsTold thread = w.stopsTold thread
      ++ if c.foundOpen && c.thread == thread then [c.told] else []) : Records [c] w w' := by
  have hown : ∀ j, callsOn j [c] = if c.whom = j then [c] else [] := by
    intro j
    simp [callsOn, List.filter_cons]
  refine ⟨fun j => ?_, fun thread => ?_, fun j hl => ?_, fun j hl => ?_, fun j c' hc hf => ?_,
    fun j c' hc => ?_⟩
  · rw [hown]
    by_cases hj : c.whom = j
    · rw [if_pos hj, ← hj]
      exact hstatus
    · rw [if_neg hj]
      exact (hother j hj).1
  · rw [htold, List.filter_cons]
    split <;> rfl
  · by_cases hj : c.whom = j
    · rw [← hj, hlife] at hl
      split at hl
      · cases hl
      · exact absurd (hfound.2 hl) ‹_›
    · rw [hown, if_neg hj, ← (hother j hj).2]
      exact ⟨hl, rfl⟩
  · by_cases hj : c.whom = j
    · rw [hown, if_pos hj]
      rw [← hj, hlife] at hl
      split at hl
      · exact .inr ⟨c, List.mem_singleton.2 rfl, ‹_›⟩
      · exact .inl (hj ▸ hl)
    · exact .inl ((hother j hj).2 ▸ hl)
  · rw [hown] at hc
    split at hc
    · rename_i hj
      rw [List.mem_singleton.1 hc] at hf
      rw [← hj]
      exact hfound.1 hf
    · cases hc
  · rw [hown] at hc
    split at hc <;> cases hc

/-- **A call that is a request to stop.**  It names a status, or finds the worker open. -/
theorem records_stopBy (hv : w.workers[k]? = some v) (thread : Thread)
    (ht : ∀ j, thread = .worker j → w.workers[j]? ≠ none) (asked : Option Int)
    (ha : asked = none → v.mailbox.isOpen = true) :
    Records [⟨k, v.mailbox.identity, thread, asked, v.mailbox.isOpen⟩] w
      (w.stopBy thread k (asked.getD 0)) := by
  have hprospect := prospect_stopBy_self hv thread (asked.getD 0)
  refine records_call (fun j hj => ?_) ?_ (isOpen_iff_lifeOf hv) ?_ fun other => ?_
  · simp only [statusOf, lifeOf, prospect_stopBy_of_ne hj, and_self]
  · rw [statusOf, hprospect]
    refine (Mailbox.status_stop v.mailbox _).trans ?_
    cases asked with
    | some status => rfl
    | none =>
        rw [ha rfl]
        rfl
  · rw [lifeOf_of_getElem? hv, lifeOf, hprospect]
    exact Mailbox.lifecycle_stop v.mailbox _
  · have hquiet : ∀ other, (w.change k fun v => (v.stop (asked.getD 0)).2).stopsTold other
        = w.stopsTold other := stopsTold_change fun _ _ => rfl
    have hfirst : (v.stop (asked.getD 0)).1 = v.mailbox.isOpen := Mailbox.fst_stop v.mailbox _
    simp only [stopBy, hv, hfirst]
    cases ho : v.mailbox.isOpen with
    | false => simp [hquiet]
    | true =>
        rw [if_pos rfl, stopsTold_report rfl, hquiet]
        · by_cases hother : thread = other <;> simp [hother, StopCall.told]
        · intro j hj
          rw [workers_change]
          have := ht j hj
          split <;> simpa

/-- **A call that comes too late.**  A worker is given up or let go of that somebody has
stopped before. -/
theorem records_late (hv : w.workers[k]? = some v) (ho : v.mailbox.isOpen = false) :
    Records [⟨k, v.mailbox.identity, thread, none, false⟩] w w :=
  records_call (fun _ _ => ⟨rfl, rfl⟩) rfl (ho ▸ isOpen_iff_lifeOf hv) rfl fun other => by simp

/-! ## What is left behind by a move -/

/-- The owner of a worker is about to go. -/
theorem records_stopUnlessStopped (ho : w.owns k = true) :
    Records (w.stopCallOn k .outside none) w (w.stopUnlessStopped k) := by
  obtain ⟨v, hv, -⟩ := exists_of_owns ho
  rw [stopCallOn, stopUnlessStopped, hv]
  simp only
  cases hopen : v.mailbox.isOpen with
  | false => exact records_late hv hopen
  | true =>
      have h := records_stopBy hv .outside (fun _ hj => by cases hj) none fun _ => hopen
      rw [hopen] at h
      exact h

/-- A job requests a worker to stop, or finds that its owner has let it go. -/
theorem records_stopFrom {u : Worker α} {status : Int} {whom : Option Nat} {rest : Work α}
    (hu : w.workers[k]? = some u) (hp : u.phase = .running (.act (.stop status whom) rest)) :
    Records (w.stopCalls (.work k)) w (w.stopFrom k (whom.getD k) status rest) := by
  have hcalls : w.stopCalls (.work k) = if w.owns (whom.getD k)
      then w.stopCallOn (whom.getD k) (.worker k) (some status) else [] := by
    simp only [stopCalls, hu, Option.map_some, hp]
  rw [hcalls, stopFrom]
  split
  · rename_i ho
    obtain ⟨v, hv, -⟩ := exists_of_owns ho
    rw [stopCallOn, hv]
    have hstop := records_stopBy hv (.worker k) (fun j hj => by cases hj; simp [hu]) (some status)
      fun ha => by cases ha
    refine hstop.change fun x (hx : (w.stopBy _ _ status).workers[k]? = some x) =>
      Worker.silent_getsOn ?_ rfl rfl rfl
    -- the job that makes the request is under way meanwhile, be it about its own worker
    rw [phase_of_stopBy hu hx, hp]
    rfl
  · refine records_change fun x hx => ?_
    rw [hu] at hx
    cases hx
    exact Worker.silent_getsOn (Worker.inJob_of_running hp) rfl rfl rfl

/-- A job under way that sends another one. -/
theorem records_send {t : Nat} {u v' : Worker α} (hu : w.workers[k]? = some u)
    (hv : w.workers[t]? = some v) (hk : u.phase.inJob = true)
    (hsame : v.phase ≠ .waiting → v'.phase = v.phase) (hs : Worker.Silent v v')
    {f : Worker α → Worker α}
    (hf : ∀ x, (f x).mailbox = x.mailbox ∧ (f x).events = x.events ∧ (f x).phase.inJob = true) :
    Records [] w ((w.change t fun _ => v').change k f) := by
  refine (records_change_const hv hs).change fun x hx => ?_
  obtain ⟨hm, he, hj⟩ := hf x
  refine Worker.silent_getsOn ?_ hm he hj
  rw [phase_of_change hu hv hk hsame hx, hk]

/-- Nobody is called on to stop by a job that does not come to a request. -/
theorem stopCalls_of_ofJob (hm : m.OfJob k) (hno : ∀ u status whom rest, m = .work k →
      w.workers[k]? = some u → u.phase ≠ .running (.act (.stop status whom) rest)) :
    w.stopCalls m = [] := by
  cases hm with
  | insist | enter | release => rfl
  | work =>
      rw [stopCalls]
      split
      · rename_i hphase
        obtain ⟨u, hu, hp⟩ := Option.map_eq_some_iff.1 hphase
        exact absurd hp (hno u _ _ _ rfl hu)
      · rfl

/-- **What is left behind by a move.** -/
theorem records_of_move (h : w.move m = some w') : Records (w.stopCalls m) w w' := by
  by_cases hstop : ∃ k u status whom rest, m = .work k ∧ w.workers[k]? = some u ∧
      u.phase = .running (.act (.stop status whom) rest)
  · obtain ⟨k, u, status, whom, rest, rfl, hu, hp⟩ := hstop
    simp only [move, work, hu, hp, Option.some.injEq] at h
    subst h
    exact records_stopFrom hu hp
  have hno : ∀ {k}, m.OfJob k → w.stopCalls m = [] := fun {k} hm =>
    stopCalls_of_ofJob hm fun u status whom rest hw hu hp =>
      hstop ⟨k, u, status, whom, rest, hw, hu, hp⟩
  obtain ⟨rs, hm⟩ : ∃ rs, Moved w m rs w' := ⟨_, moved_of_move h⟩
  cases hm with
  | hire => exact records_hire w _ _
  | hireFails => exact records_refl w
  | welcome => exact (records_refl w).of_workers_eq rfl rfl
  | called hc hs hv =>
      exact (records_change_const hv (Worker.silent_post _ _ _)).of_workers_eq rfl rfl
  | enters hcalls hc hs hv =>
      have hcounted := records_change_const hv (Worker.silent_counted _)
      cases hcalls <;> exact hcounted.of_workers_eq rfl rfl
  | resumed hc hs hv =>
      exact (records_change_const hv (Worker.silent_put _ _)).of_workers_eq rfl rfl
  | @goesOn _ k u job f rest es hj hu hp hd hf =>
      rw [hno hj]
      refine records_change fun x hx => ?_
      rw [hu] at hx
      cases hx
      rw [hf]
      exact Worker.silent_getsOn (Worker.inJob_of_running hp) rfl rfl rfl
  | stopsFrom hu hp => exact absurd ⟨_, _, _, _, _, rfl, hu, hp⟩ hstop
  | sends hj hu hp hv =>
      rw [hno hj]
      exact records_send hu hv (Worker.inJob_of_running hp) (phase_post _ _ _)
        (Worker.silent_post _ _ _) fun _ => ⟨rfl, rfl, rfl⟩
  | sendEnters hj hu hp hv =>
      rw [hno hj]
      exact records_send hu hv (Worker.inJob_of_running hp) (fun _ => by rfl)
        (Worker.silent_counted _) fun _ => ⟨rfl, rfl, rfl⟩
  | sendsOn hu hp hv =>
      rw [hno .work]
      exact records_send hu hv (by rw [hp]; rfl) (phase_put _ _) (Worker.silent_put _ _)
        fun _ => ⟨rfl, rfl, rfl⟩
  | advances hu ha =>
      rw [hno .work]
      exact records_change_const hu (Worker.silent_advance ha)
  | @stops k status ho =>
      obtain ⟨v, hv, -⟩ := exists_of_owns ho
      have hcalls : w.stopCalls (.stop k status)
          = [⟨k, v.mailbox.identity, .outside, some status, v.mailbox.isOpen⟩] := by
        rw [stopCalls, stopCallOn, hv]
      rw [hcalls]
      exact records_stopBy hv .outside (fun _ hj => by cases hj) (some status) fun ha => by cases ha
  | leaves ho => exact (records_stopUnlessStopped ho).change fun _ _ => ⟨rfl, .inl rfl, rfl⟩
  | abandons ho => exact (records_stopUnlessStopped ho).change fun _ _ => ⟨rfl, .inl rfl, rfl⟩
  | @clones k n =>
      exact records_change (f := fun v => { v with mailbox := v.mailbox.cloneHandle n })
        fun _ _ => ⟨rfl, .inl rfl, rfl⟩
  | @drops k n h0 =>
      exact records_change (f := fun v => { v with mailbox := v.mailbox.dropHandle n })
        fun _ _ => ⟨rfl, .inl rfl, rfl⟩

/-- **What is left behind by a run.** -/
theorem records_of_run {moves : List (Move α)} (h : w.run moves = some w') :
    Records (w.trace stopCalls moves) w w' := by
  have hall := trace_invariant stopCalls [] (P := fun calls w' => Records calls w w')
    (fun hw hm => hw.trans (records_of_move hm)) (records_refl w) h
  rwa [List.nil_append] at hall

/-! ## What the calls of a run come to -/

/-- Of calls that found the worker closed, the last request counts. -/
theorem foldl_record {cs : List StopCall} (h : ∀ c ∈ cs, c.foundOpen = false) (s : Int) :
    cs.foldl StopCall.record s = (cs.filterMap StopCall.asked).getLast?.getD s := by
  induction cs generalizing s with
  | nil => rfl
  | cons c cs ih =>
      have hc := h c List.mem_cons_self
      rw [List.foldl_cons, ih fun c' hc' => h c' (List.mem_cons_of_mem _ hc'), StopCall.record]
      cases ha : c.asked with
      | none => simp [hc, ha]
      | some status => simp [ha, List.getLast?_cons]

/-- A call that names no status records none, if it is the first one. -/
theorem foldl_record_zero {cs : List StopCall} (h : ∀ c ∈ cs.tail, c.foundOpen = false) :
    cs.foldl StopCall.record 0 = (cs.filterMap StopCall.asked).getLast?.getD 0 := by
  cases cs with
  | nil => rfl
  | cons c cs =>
      rw [List.tail_cons] at h
      rw [List.foldl_cons, foldl_record h, StopCall.record]
      cases ha : c.asked with
      | none => simp [ha]
      | some status => simp [ha, List.getLast?_cons]

/-- Of a worker that is stopping somebody has called on. -/
theorem exists_found_of_stopping {moves : List (Move α)} (h : run {} moves = some w)
    (hl : w.lifeOf k = .stopping) :
    ∃ c ∈ callsOn k (trace stopCalls {} moves), c.foundOpen = true :=
  ((records_of_run h).stopping k hl).resolve_left nofun

/-- Of a worker whose thread has found a notice somebody has called on, too. -/
theorem exists_found_of_endedOnNotice {moves : List (Move α)} {d : Verdict}
    (h : EndedOnNotice moves k d) :
    ∃ c ∈ callsOn k (trace stopCalls {} moves), c.foundOpen = true := by
  obtain ⟨before, request, between, after, rfl, ⟨w₁, w₂, _, _, _, _, hbefore, hcloses, -⟩, -⟩ := h
  have hrun : run {} (before ++ [request]) = some w₂ := by
    rw [run_append_of_run hbefore, run_cons, hcloses.made]
    rfl
  obtain ⟨c, hc, hf⟩ := exists_found_of_stopping hrun (k := k) (by rw [lifeOf, hcloses.after]; rfl)
  refine ⟨c, ?_, hf⟩
  rw [List.append_cons, trace_append hrun, callsOn_append]
  exact List.mem_append_left _ hc

/-- **Whom nobody found open, a panic has ended**, unless it is open still. -/
theorem brokeOff_of_not_found {moves : List (Move α)} (h : run {} moves = some w)
    (hv : w.workers[k]? = some v) (hc : v.mailbox.isOpen = false)
    (hno : ∀ c ∈ callsOn k (trace stopCalls {} moves), c.foundOpen = false) :
    ∃ p, Worker.BrokeOff (trace (loopEvents k) {} moves) v p := by
  have hfound : ¬ ∃ c ∈ callsOn k (trace stopCalls {} moves), c.foundOpen = true := by
    rintro ⟨c, hc, hf⟩
    rw [hno c hc] at hf
    cases hf
  have hs := sound_of_run h hv
  rcases Mailbox.stopping_or_ended_of_not_isOpen hc with hl | hl
  · exact absurd (exists_found_of_stopping h ((lifeOf_of_getElem? hv).trans hl)) hfound
  · obtain ⟨d, hd⟩ : ∃ d, v.phase.verdict? = some d := by
      have hout := hs.out.1 hl
      cases hp : v.phase <;> simp_all [Phase.isOut, Phase.verdict?]
    rcases hs.decided d hd with ⟨hr, -⟩ | ⟨⟨message, hr⟩, -⟩
    · exact absurd (exists_found_of_endedOnNotice (endedOnNotice_of_run h hv hd hr)) hfound
    · obtain ⟨p, hb, -⟩ := (conduct_of_run h hv).broke d message hd hr
      exact ⟨p, hb⟩

/-- **What the calls to stop come to.**  In every run, each thread has reported those of its
calls that found the worker open, with their statuses, and no others.  Of every worker: the
status on record is that of the last request, or zero; nobody has called on it while it is
open, and of all calls only the first one can have found it open; if it is closed and that one
did not, a panic has ended it; and once it is closed nobody ever finds it open again. -/
theorem stops_on_record {moves : List (Move α)} (h : run {} moves = some w) :
    (∀ thread, w.stopsTold thread = ((trace stopCalls {} moves).filter
      fun c => c.foundOpen && c.thread == thread).map StopCall.told) ∧
    ∀ {k : Nat} {v : Worker α}, w.workers[k]? = some v →
      v.mailbox.status
        = ((callsOn k (trace stopCalls {} moves)).filterMap StopCall.asked).getLast?.getD 0 ∧
      (v.mailbox.isOpen = true → callsOn k (trace stopCalls {} moves) = []) ∧
      (∀ c ∈ (callsOn k (trace stopCalls {} moves)).tail, c.foundOpen = false) ∧
      (v.mailbox.isOpen = false →
        (∃ c rest, callsOn k (trace stopCalls {} moves) = c :: rest ∧ c.foundOpen = true) ∨
          (∀ c ∈ callsOn k (trace stopCalls {} moves), c.foundOpen = false) ∧
            ∃ p, Worker.BrokeOff (trace (loopEvents k) {} moves) v p) ∧
      (v.mailbox.isOpen = false → ∀ after w', w.run after = some w' →
        ∀ c ∈ callsOn k (w.trace stopCalls after), c.foundOpen = false) := by
  have hr := records_of_run h
  refine ⟨fun thread => ?_, fun {k v} hv => ⟨?_, fun ho => ?_, hr.first k, fun hc => ?_,
    fun hc after w' hafter c hcall => ?_⟩⟩
  · rw [hr.told]
    cases thread <;> rfl
  · have hstatus := hr.status k
    rw [statusOf_of_getElem? hv] at hstatus
    exact hstatus.trans (foldl_record_zero (hr.first k))
  · exact hr.callsOn_of_isOpen hv ho
  · cases hcalls : callsOn k (trace stopCalls {} moves) with
    | nil =>
        refine .inr ⟨by simp, brokeOff_of_not_found h hv hc ?_⟩
        simp [hcalls]
    | cons c rest =>
        have hrest := hr.first k
        rw [hcalls, List.tail_cons] at hrest
        cases hf : c.foundOpen with
        | true => exact .inl ⟨c, rest, rfl, hf⟩
        | false =>
            have hnone : ∀ c' ∈ c :: rest, c'.foundOpen = false :=
              List.forall_mem_cons.2 ⟨hf, hrest⟩
            exact .inr ⟨hnone, brokeOff_of_not_found h hv hc (by rwa [hcalls])⟩
  · cases hf : c.foundOpen with
    | false => rfl
    | true =>
        have hl := (records_of_run hafter).found k c hcall hf
        rw [(isOpen_iff_lifeOf hv).2 hl] at hc
        cases hc

/-- A run in which a job of one worker stops another one, whose owner is too late twice, a third
one panics before its owner comes to stop it, and the first one is let go of. -/
def latecomersRun : List (Move Nat) :=
  [ .hire {} "pot" none, .hire {} "kettle" none, .hire {} "jug" none, .welcome,
    .call .prompt 0 0 (.act (.stop 7 (some 1)) .done),
    .call .prompt 0 2 (.act (.panic (.built "cracked")) .done),
    .work 0, .work 0, .stop 1 9, .leave 1, .work 2, .work 2, .work 2, .stop 2 3, .abandon 0 ]

/-- One call each is reported of the pot and the kettle, and none of the jug, now or later; on
record are the statuses last requested. -/
theorem stops_on_record_latecomers :
    ∃ w pot kettle jug, run {} latecomersRun = some w ∧ w.workers[0]? = some pot ∧
      w.workers[1]? = some kettle ∧ w.workers[2]? = some jug ∧
      w.stopsTold .outside = [.stopRequested "pot" 0] ∧
      w.stopsTold (.worker 0) = [.stopRequested "kettle" 7] ∧
      pot.mailbox.status = 0 ∧ kettle.mailbox.status = 9 ∧ jug.mailbox.status = 3 ∧
      (∃ p, Worker.BrokeOff (trace (loopEvents 2) {} latecomersRun) jug p) ∧
      ∀ after w', w.run after = some w' →
        ∀ c ∈ callsOn 2 (w.trace stopCalls after), c.foundOpen = false := by
  obtain ⟨htold, hworkers⟩ := @stops_on_record Nat _ latecomersRun rfl
  obtain ⟨hpot, -⟩ := hworkers (k := 0) rfl
  obtain ⟨hkettle, -⟩ := hworkers (k := 1) rfl
  obtain ⟨hjug, -, -, hended, hlater⟩ := hworkers (k := 2) rfl
  refine ⟨_, _, _, _, rfl, rfl, rfl, rfl, htold .outside, htold (.worker 0), hpot, hkettle, hjug,
    ?_, hlater rfl⟩
  -- the owner's call on the jug is the only one, and it did not find it open
  rcases hended rfl with ⟨c, rest, hcalls, hf⟩ | ⟨-, hbroke⟩
  · cases hcalls
    cases hf
  · exact hbroke

end Workshop

end SerialWorkers
