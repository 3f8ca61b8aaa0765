import SerialWorkers.Proofs.Workshop.Runs
import SerialWorkers.Workshop.Rest

/-!
# What a move does

The kinds of moves are told apart here once and for all, together with what can
be seen of a move from outside: what the sender of a job is told, how a job under
way ends, and what a thread leaves behind.

* `Workshop.submitResults` — what senders are told in a move.
* `Workshop.loopEvents` — what is told of a worker's thread in a move.
* `Workshop.Moved` — what a move can be; `moved_of_move` finds the case.
* `Workshop.call_eq_enter`, `Workshop.sendTo_eq_enterTo` — to send is to look at the
  lifecycle and then to put the job in.
-/

namespace SerialWorkers

namespace Workshop

variable {α : Type}

/-! ## Where a thread stands -/

/-- Whether a thread that stands here is in a job. -/
def Phase.inJob : Phase α → Bool
  | .running _ => true
  | .sending .. => true
  | _ => false

/-- The call a thread that stands here is in: whom it sends what. -/
def Phase.calling : Phase α → Option (Nat × Mail α)
  | .sending _ whom mail _ => some (whom, mail)
  | _ => none

/-- How the place of a thread in a job changes when the job gets on: an act is done,
or a job is sent and the thread may be in the call meanwhile. -/
inductive Phase.GetsOn : Phase α → Phase α → Prop
  /-- The next act is done. -/
  | acts {job rest : Work α} (hr : job.rest? = some rest) : GetsOn (.running job) (.running rest)
  /-- The next act is to send a job, and the thread is in the call. -/
  | calls {route : Route} {job rest : Work α} {manner : Manner} {whom : Nat} {mail : Mail α}
      (hj : mail.job = job) :
      GetsOn (.running (.send route job rest)) (.sending manner whom mail rest)
  /-- The call is over. -/
  | told {manner : Manner} {whom : Nat} {mail : Mail α} {rest : Work α} :
      GetsOn (.sending manner whom mail rest) (.running rest)

/-- The call that `sender` is in, if it is: the worker whose mailbox it found open, and the job
it has yet to put in. -/
def calling (w : Workshop α) : Sender → Option (Nat × Mail α)
  | .client c => (w.clients[c]?).bind Client.sending
  | .worker k => (w.workers[k]?).bind fun v => v.phase.calling

/-! ## What can be seen of a move -/

/-- What is told of a worker's thread: how its jobs end, and what it leaves. -/
inductive LoopEvent (α : Type) where
  /-- A job was done to its end. -/
  | finished
  /-- A job panicked. -/
  | panicked (payload : Payload)
  /-- The thread went and left this queue behind. -/
  | left (queue : List (Mail α))
  deriving Repr, DecidableEq

/-- Whether a job ends with it. -/
def LoopEvent.endsJob : LoopEvent α → Bool
  | .left _ => false
  | _ => true

/-- The jobs left behind with it. -/
def LoopEvent.leftBehind : LoopEvent α → List (Mail α)
  | .left queue => queue
  | _ => []

end Workshop

open Workshop in
/-- What is told of the next step of a worker's thread. -/
def Worker.loopEvent {α : Type} (v : Worker α) : Option (LoopEvent α) :=
  match v.phase with
  | .running .done => some .finished
  | .running (.act (.panic payload) _) => some (.panicked payload)
  | .leaving _ => some (.left v.mailbox.queue)
  | _ => none

namespace Workshop

variable {α : Type}

/-- The moves in which a job that worker `k` runs gets on. -/
inductive Move.OfJob (k : Nat) : Move α → Prop
  /-- Its thread takes a step. -/
  | work : OfJob k (.work k)
  /-- It sends a job, come what may. -/
  | insist : OfJob k (.insist k)
  /-- It looks at the lifecycle of whom it sends a job. -/
  | enter : OfJob k (.enterFrom k)
  /-- It is let past its gate. -/
  | release : OfJob k (.release k)

/-- The moves in which client `c` may enter a call. -/
inductive Move.OfCall (manner : Manner) (c k : Nat) (job : Work α) : Move α → Prop
  /-- It sends a job at once. -/
  | call : OfCall manner c k job (.call manner c k job)
  /-- It looks at the lifecycle of whom it sends a job. -/
  | enter : OfCall manner c k job (.enter manner c k job)

/-- What is told of the thread of worker `k` in a move. -/
def loopEvents (k : Nat) (w : Workshop α) : Move α → List (LoopEvent α)
  | .work j => if j = k then ((w.workers[k]?).bind Worker.loopEvent).toList else []
  | _ => []

/-- What the sender of a job is told in the end. -/
structure SubmitResult (α : Type) where
  /-- The worker the job was sent to. -/
  worker : Nat
  /-- The job on its way. -/
  mail : Mail α
  /-- Whether it was taken in or refused. -/
  receipt : Receipt
  deriving Repr, DecidableEq

/-- What is told of `mail` by a receipt; one that has to wait is told nothing. -/
def submitResult (k : Nat) (mail : Mail α) : Receipt → List (SubmitResult α)
  | .waits => []
  | r => [⟨k, mail, r⟩]

theorem submitResult_of_ne_waits {k : Nat} {mail : Mail α} {r : Receipt} (h : r ≠ .waits) :
    submitResult k mail r = [⟨k, mail, r⟩] := by
  cases r with
  | waits => exact absurd rfl h
  | accepted => rfl
  | refused r => rfl

/-- What `sender` is told when it sends `job` to worker `k`. -/
def resultOfPost (w : Workshop α) (sender : Sender) (k : Nat) (manner : Manner)
    (job : Work α) : List (SubmitResult α) :=
  match w.workers[k]? with
  | none => []
  | some v => submitResult k (v.mailFrom sender job) ((v.post sender job).1.inManner manner)

/-- What the sender of `mail` to worker `k` is told when it puts it in. -/
def resultOfPut (w : Workshop α) (k : Nat) (manner : Manner) (mail : Mail α) :
    List (SubmitResult α) :=
  match w.workers[k]? with
  | none => []
  | some v => submitResult k mail ((v.put mail).1.inManner manner)

/-- What senders are told in a move. -/
def submitResults (w : Workshop α) : Move α → List (SubmitResult α)
  | .call manner c k job => w.resultOfPost (.client c) k manner job
  | .resume c =>
      match (w.clients[c]?).map fun client => (client.manner, client.sending) with
      | some (manner, some (k, mail)) => w.resultOfPut k manner mail
      | _ => []
  | .work k =>
      match (w.workers[k]?).map Worker.phase with
      | some (.running (.send route job _)) =>
          let t := route.whom.getD k
          if route.manner = .patient ∧ (w.workers[t]?).any (wouldWait k t) then []
          else w.resultOfPost (.worker k) t route.manner job
      | some (.sending manner t mail _) => w.resultOfPut t manner mail
      | _ => []
  | .insist k =>
      match (w.workers[k]?).map Worker.phase with
      | some (.running (.send route job _)) =>
          w.resultOfPost (.worker k) (route.whom.getD k) route.manner job
      | _ => []
  | _ => []

/-- Whoever has an owner is there. -/
theorem exists_of_owns {w : Workshop α} {k : Nat} (h : w.owns k = true) :
    ∃ v, w.workers[k]? = some v ∧ v.owned = true := by
  unfold owns at h
  cases hv : w.workers[k]? with
  | none => simp [hv] at h
  | some v => exact ⟨v, rfl, by simpa [hv] using h⟩

/-! ## What a move can be -/

/-- What a move can be: the move, what senders are told in it, and the workshop
after it. -/
inductive Moved (w : Workshop α) : Move α → List (SubmitResult α) → Workshop α → Prop
  /-- A worker is hired. -/
  | hire {settings : Settings} {identity : String} {fault : Option Fault} :
      Moved w (.hire settings identity fault) []
        { w with
          workers := w.workers ++ [Worker.hired settings identity]
          outside := w.outside ++ [.hired identity settings.capacity] }
  /-- Nobody is hired. -/
  | hireFails {settings : Settings} {identity : String} {fault : Option Fault} :
      Moved w (.hire settings identity fault) [] w
  /-- A client comes. -/
  | welcome : Moved w .welcome [] w.welcome
  /-- A client sends a job and is told at once. -/
  | called {manner : Manner} {c k : Nat} {job : Work α} {client : Client α} {v : Worker α}
      {r : Receipt} (hc : w.clients[c]? = some client) (hs : client.sending = none)
      (hv : w.workers[k]? = some v) (hr : (v.post (.client c) job).1.inManner manner = r)
      (hw : r ≠ .waits) :
      Moved w (.call manner c k job) [⟨k, v.mailFrom (.client c) job, r⟩]
        ((w.change k fun _ => (v.post (.client c) job).2).changeClient c (·.told r))
  /-- A client that sends a job found the mailbox open, and is in the call. -/
  | enters {m : Move α} {manner : Manner} {c k : Nat} {job : Work α} {client : Client α}
      {v : Worker α} (hm : m.OfCall manner c k job) (hc : w.clients[c]? = some client)
      (hs : client.sending = none) (hv : w.workers[k]? = some v)
      (ho : v.mailbox.isOpen = true) :
      Moved w m []
        ((w.change k fun _ => v.counted).changeClient c fun client =>
          { client with sending := some (k, v.mailFrom (.client c) job), manner := manner })
  /-- A client in a call is told. -/
  | resumed {c k : Nat} {client : Client α} {mail : Mail α} {v : Worker α} {r : Receipt}
      (hc : w.clients[c]? = some client) (hs : client.sending = some (k, mail))
      (hv : w.workers[k]? = some v) (hr : (v.put mail).1.inManner client.manner = r)
      (hw : r ≠ .waits) :
      Moved w (.resume c) [⟨k, mail, r⟩]
        ((w.change k fun _ => (v.put mail).2).changeClient c (·.told r))
  /-- A job gets on, and no other worker is changed by it. -/
  | goesOn {m : Move α} {k : Nat} {u : Worker α} {job : Work α} {f : Worker α → Worker α}
      (rest : Work α) (es : List (Entry α)) (hm : m.OfJob k) (hu : w.workers[k]? = some u)
      (hp : u.phase = .running job) (he : u.loopEvent = none)
      (hf : f u = { u with log := u.log ++ es, phase := .running rest })
      (hr : job.rest? = some rest) :
      Moved w m [] (w.change k f)
  /-- A job requests a worker to stop. -/
  | stopsFrom {k t : Nat} {u : Worker α} {status : Int} {whom : Option Nat} {rest : Work α}
      (hu : w.workers[k]? = some u) (hp : u.phase = .running (.act (.stop status whom) rest))
      (ht : whom.getD k = t) (ho : w.owns t = true) :
      Moved w (.work k) [] ((w.stopBy (.worker k) t status).change k (·.resume rest))
  /-- A job sends a job and is told at once. -/
  | sends {m : Move α} {k t : Nat} {u v : Worker α} {route : Route} {job rest : Work α}
      {r : Receipt} (hm : m.OfJob k) (hu : w.workers[k]? = some u)
      (hp : u.phase = .running (.send route job rest)) (hv : w.workers[t]? = some v)
      (hr : (v.post (.worker k) job).1.inManner route.manner = r) (hw : r ≠ .waits)
      (ht : route.whom.getD k = t) :
      Moved w m [⟨t, v.mailFrom (.worker k) job, r⟩]
        ((w.change t fun _ => (v.post (.worker k) job).2).change k fun u =>
          (u.write (.sent route.manner r)).resume rest)
  /-- A job that sends a job found the mailbox open, and is in the call. -/
  | sendEnters {m : Move α} {k t : Nat} {u v : Worker α} {route : Route} {job rest : Work α}
      (hm : m.OfJob k) (hu : w.workers[k]? = some u)
      (hp : u.phase = .running (.send route job rest)) (hv : w.workers[t]? = some v)
      (ho : v.mailbox.isOpen = true) (ht : route.whom.getD k = t) :
      Moved w m []
        ((w.change t fun _ => v.counted).change k fun u =>
          { u with phase := .sending route.manner t (v.mailFrom (.worker k) job) rest })
  /-- A job in a call is told. -/
  | sendsOn {k t : Nat} {u v : Worker α} {manner : Manner} {mail : Mail α} {rest : Work α}
      {r : Receipt} (hu : w.workers[k]? = some u) (hp : u.phase = .sending manner t mail rest)
      (hv : w.workers[t]? = some v) (hr : (v.put mail).1.inManner manner = r) (hw : r ≠ .waits) :
      Moved w (.work k) [⟨t, mail, r⟩]
        ((w.change t fun _ => (v.put mail).2).change k fun u =>
          (u.write (.sent manner r)).resume rest)
  /-- A thread takes a step that concerns no other worker. -/
  | advances {k : Nat} {u u' : Worker α} (hu : w.workers[k]? = some u)
      (h : u.advance = some u') : Moved w (.work k) [] (w.change k fun _ => u')
  /-- An owner requests its worker to stop. -/
  | stops {k : Nat} {status : Int} (ho : w.owns k = true) :
      Moved w (.stop k status) [] (w.stopBy .outside k status)
  /-- An owner gives its worker up to wait for its end. -/
  | leaves {k : Nat} (ho : w.owns k = true) :
      Moved w (.leave k) []
        ((w.stopUnlessStopped k).change k fun v => { v with owned := false })
  /-- An owner lets its worker go. -/
  | abandons {k : Nat} (ho : w.owns k = true) :
      Moved w (.abandon k) []
        ((w.stopUnlessStopped k).change k fun v =>
          { v with owned := false, mailbox := (v.mailbox.dropHandle 0).dropCancelSender })
  /-- Somebody copies a handle. -/
  | clones {k h : Nat} : Moved w (.cloneHandle k h) [] (w.cloneHandle k h)
  /-- Somebody other than the owner lets go of a handle. -/
  | drops {k h : Nat} (h0 : h ≠ 0) : Moved w (.dropHandle k h) [] (w.dropHandle k h)

theorem moved_of_call {w w' : Workshop α} {manner : Manner} {c k : Nat} {job : Work α}
    (h : w.call manner c k job = some w') :
    Moved w (.call manner c k job) (w.submitResults (.call manner c k job)) w' := by
  unfold call at h
  split at h
  · rename_i client v hc hv
    simp only [Option.isSome_iff_ne_none, ne_eq, ite_not] at h
    split at h
    · rename_i hs
      simp only [submitResults, resultOfPost, hv]
      split at h
      · rename_i hr
        cases h
        obtain ⟨ho, hcounted⟩ := post_of_waits (Receipt.inManner_eq_waits_iff.1 hr).1
        rw [hr, hcounted]
        exact .enters .call hc hs hv ho
      · rename_i hr
        cases h
        rw [submitResult_of_ne_waits hr]
        exact .called hc hs hv rfl hr
    · cases h
  · cases h

theorem moved_of_enter {w w' : Workshop α} {manner : Manner} {c k : Nat} {job : Work α}
    (h : w.enter manner c k job = some w') : Moved w (.enter manner c k job) [] w' := by
  unfold enter at h
  split at h
  · rename_i client v hc hv
    split at h
    · cases h
    · rename_i hfree
      cases h
      simp only [Bool.or_eq_true, not_or, Bool.not_eq_true, Option.isSome_eq_false_iff,
        Option.isNone_iff_eq_none, Mailbox.isClosed, Bool.not_eq_false'] at hfree
      exact .enters .enter hc hfree.1 hv hfree.2
  · cases h

theorem moved_of_resume {w w' : Workshop α} {c : Nat} (h : w.resume c = some w') :
    Moved w (.resume c) (w.submitResults (.resume c)) w' := by
  obtain ⟨client, k, mail, v, r, hc, hs, hv, rfl, hr, rfl⟩ := resume_eq_some h
  simp only [submitResults, hc, Option.map_some, hs, resultOfPut, hv]
  rw [submitResult_of_ne_waits hr]
  exact .resumed hc hs hv rfl hr

/-- What a move of a job is, in which it sends a job. -/
theorem moved_of_sendTo {w : Workshop α} {m : Move α} {k : Nat} {u : Worker α} {route : Route}
    {job rest : Work α} (hm : m.OfJob k) (hu : w.workers[k]? = some u)
    (hp : u.phase = .running (.send route job rest)) {t : Nat} (ht : route.whom.getD k = t) :
    Moved w m (w.resultOfPost (.worker k) t route.manner job)
      (w.sendTo k t route.manner job rest) := by
  unfold sendTo resultOfPost
  cases hv : w.workers[t]? with
  | none => exact .goesOn _ _ hm hu hp (by rw [Worker.loopEvent, hp]) rfl rfl
  | some v =>
      simp only
      split
      · rename_i hr
        obtain ⟨ho, hcounted⟩ := post_of_waits (Receipt.inManner_eq_waits_iff.1 hr).1
        rw [hr, hcounted]
        exact .sendEnters hm hu hp hv ho ht
      · rename_i hr
        rw [submitResult_of_ne_waits hr]
        exact .sends hm hu hp hv rfl hr ht

/-- What a step of a worker's thread is, when its job sends a job. -/
theorem moved_of_sendFrom {w : Workshop α} {k : Nat} {u : Worker α} {route : Route}
    {job rest : Work α} (hu : w.workers[k]? = some u)
    (hp : u.phase = .running (.send route job rest)) {t : Nat} (ht : route.whom.getD k = t) :
    Moved w (.work k)
      (if route.manner = .patient ∧ (w.workers[t]?).any (wouldWait k t) then []
        else w.resultOfPost (.worker k) t route.manner job)
      (w.sendFrom k t route.manner job rest) := by
  unfold sendFrom
  by_cases hw : route.manner = .patient ∧ (w.workers[t]?).any (wouldWait k t) = true
  · rw [if_pos hw, if_pos hw]
    exact .goesOn _ _ .work hu hp (by rw [Worker.loopEvent, hp]) rfl rfl
  · rw [if_neg hw, if_neg hw]
    exact moved_of_sendTo .work hu hp ht

theorem moved_of_sendOn {w w' : Workshop α} {k t : Nat} {u : Worker α} {manner : Manner}
    {mail : Mail α} {rest : Work α} (hu : w.workers[k]? = some u)
    (hp : u.phase = .sending manner t mail rest) (h : w.sendOn k t manner mail rest = some w') :
    Moved w (.work k) (w.resultOfPut t manner mail) w' := by
  unfold sendOn at h
  split at h
  · cases h
  · rename_i v hv
    simp only at h
    split at h
    · cases h
    · rename_i hr
      cases h
      simp only [resultOfPut, hv]
      rw [submitResult_of_ne_waits hr]
      exact .sendsOn hu hp hv rfl hr

/-- A thread's own step tells no sender anything. -/
theorem submitResults_of_advance {w : Workshop α} {k : Nat} {u u' : Worker α}
    (hu : w.workers[k]? = some u) (h : u.advance = some u') : w.submitResults (.work k) = [] := by
  simp only [submitResults, hu, Option.map_some]
  unfold Worker.advance at h
  split at h <;> rename_i hp <;> simp_all

/-- What a step of a worker's thread is, when its job looks at a worker. -/
theorem moved_of_viewFrom {w : Workshop α} {k : Nat} {u : Worker α} {whom : Option Nat}
    {rest : Work α} (hu : w.workers[k]? = some u)
    (hp : u.phase = .running (.act (.view whom) rest)) (t : Nat) :
    Moved w (.work k) [] (w.viewFrom k t rest) := by
  have he : u.loopEvent = none := by rw [Worker.loopEvent, hp]
  unfold viewFrom
  split
  · refine .goesOn rest [] .work hu hp he ?_ rfl
    rw [List.append_nil]
    rfl
  · exact .goesOn _ _ .work hu hp he rfl rfl

/-- What a step of a worker's thread is, when its job requests a stop. -/
theorem moved_of_stopFrom {w : Workshop α} {k : Nat} {u : Worker α} {status : Int}
    {whom : Option Nat} {rest : Work α} (hu : w.workers[k]? = some u)
    (hp : u.phase = .running (.act (.stop status whom) rest)) {t : Nat} (ht : whom.getD k = t) :
    Moved w (.work k) [] (w.stopFrom k t status rest) := by
  have he : u.loopEvent = none := by rw [Worker.loopEvent, hp]
  unfold stopFrom
  split
  · rename_i ho
    exact .stopsFrom hu hp ht ho
  · exact .goesOn _ _ .work hu hp he rfl rfl

theorem moved_of_work {w w' : Workshop α} {k : Nat} (h : w.work k = some w') :
    Moved w (.work k) (w.submitResults (.work k)) w' := by
  unfold work at h
  split at h
  · cases h
  · rename_i u hu
    have hr : w.submitResults (.work k) = match some u.phase with
        | some (.running (.send route job _)) =>
            let t := route.whom.getD k
            if route.manner = .patient ∧ (w.workers[t]?).any (wouldWait k t) then []
            else w.resultOfPost (.worker k) t route.manner job
        | some (.sending manner t mail _) => w.resultOfPut t manner mail
        | _ => [] := by
      rw [submitResults, hu, Option.map_some]
    split at h <;> rename_i hp
    · cases h
      rw [hr, hp]
      exact moved_of_viewFrom hu hp _
    · cases h
      rw [hr, hp]
      exact moved_of_stopFrom hu hp rfl
    · cases h
      rw [hr, hp]
      exact moved_of_sendFrom hu hp rfl
    · rw [hr, hp]
      exact moved_of_sendOn hu hp h
    · obtain ⟨u', hu', rfl⟩ := Option.map_eq_some_iff.1 h
      rw [submitResults_of_advance hu hu']
      exact .advances hu hu'

theorem moved_of_insist {w w' : Workshop α} {k : Nat} (h : w.insist k = some w') :
    Moved w (.insist k) (w.submitResults (.insist k)) w' := by
  unfold insist at h
  split at h
  · rename_i route job rest hphase
    cases h
    simp only [submitResults, hphase]
    obtain ⟨u, hu, hp⟩ := Option.map_eq_some_iff.1 hphase
    exact moved_of_sendTo .insist hu hp rfl
  · cases h

theorem moved_of_enterFrom {w w' : Workshop α} {k : Nat} (h : w.enterFrom k = some w') :
    Moved w (.enterFrom k) [] w' := by
  unfold enterFrom at h
  split at h
  · rename_i route job rest hphase
    obtain ⟨u, hu, hp⟩ := Option.map_eq_some_iff.1 hphase
    unfold enterTo at h
    split at h
    · cases h
    · rename_i v hv
      split at h
      · cases h
      · rename_i ho
        cases h
        exact .sendEnters .enter hu hp hv (by simpa [Mailbox.isClosed] using ho) rfl
  · cases h

theorem moved_of_hire (w : Workshop α) (settings : Settings) (identity : String)
    (fault : Option Fault) :
    Moved w (.hire settings identity fault) []
      (w.afterHiring (w.hire settings identity fault)) := by
  unfold hire
  split
  · exact .hireFails
  · exact .hireFails
  · exact .hire

theorem moved_of_release {w w' : Workshop α} {k : Nat} (h : w.release k = some w') :
    Moved w (.release k) [] w' := by
  unfold release at h
  split at h
  · cases h
  · rename_i v' hg
    cases h
    obtain ⟨u, hu, hg⟩ := Option.bind_eq_some_iff.1 hg
    unfold Worker.pastGate at hg
    split at hg
    · rename_i rest hp
      cases hg
      refine .goesOn rest [] .release hu hp (by rw [Worker.loopEvent, hp]) ?_ rfl
      rw [List.append_nil]
      rfl
    · cases hg

/-- **Every move is one of those**, and tells senders what that one tells. -/
theorem moved_of_move {w w' : Workshop α} {m : Move α} (h : w.move m = some w') :
    Moved w m (w.submitResults m) w' := by
  cases m with
  | hire settings identity fault =>
      cases h
      exact moved_of_hire w settings identity fault
  | welcome =>
      cases h
      exact .welcome
  | call manner c k job => exact moved_of_call h
  | enter manner c k job => exact moved_of_enter h
  | resume c => exact moved_of_resume h
  | work k => exact moved_of_work h
  | insist k => exact moved_of_insist h
  | enterFrom k => exact moved_of_enterFrom h
  | release k => exact moved_of_release h
  | stop k status =>
      simp only [move, stop] at h
      split at h
      · rename_i ho
        cases h
        exact .stops ho
      · cases h
  | leave k =>
      simp only [move, leave] at h
      split at h
      · rename_i ho
        cases h
        exact .leaves ho
      · cases h
  | abandon k =>
      simp only [move, abandon] at h
      split at h
      · rename_i ho
        cases h
        exact .abandons ho
      · cases h
  | cloneHandle k h' =>
      cases h
      exact .clones
  | dropHandle k h' =>
      simp only [move] at h
      split at h
      · cases h
      · rename_i h0
        cases h
        exact .drops h0

/-! ## Calls in two steps -/

section TwoSteps

variable {w : Workshop α} {k t : Nat} {u v : Worker α}

/-- **A call of a client is its look and then its put**, if that brings it an end. -/
theorem call_eq_enter (hv : w.workers[k]? = some v) (ho : v.mailbox.isOpen = true)
    (manner : Manner) (c : Nat) (job : Work α) :
    w.call manner c k job
      = (w.enter manner c k job).map fun looked => (looked.resume c).getD looked := by
  unfold call enter
  rw [hv]
  cases hc : w.clients[c]? with
  | none => rfl
  | some client =>
      have hclosed : v.mailbox.isClosed = false := by simp [Mailbox.isClosed, ho]
      simp only [hclosed, Bool.or_false, Worker.post_of_isOpen ho]
      split
      · rfl
      · by_cases hr : (v.counted.put (v.mailFrom (.client c) job)).1.inManner manner = .waits
        · have hput := put_of_waits (Receipt.inManner_eq_waits_iff.1 hr).1
          simp [resume, changeClient, change, hc, hv, hr, hput]
        · simp [resume, changeClient, change, hc, hv, hr, List.modify_modify_eq,
            Function.comp_def, Client.told]

/-- A thread in a job is passed nothing, wherever in the job it is. -/
theorem put_of_inJob {p : Phase α} (hv : v.phase.inJob = true) (hp : p.inJob = true)
    (mail : Mail α) :
    ({ v with phase := p } : Worker α).put mail
      = ((v.put mail).1, { (v.put mail).2 with phase := p }) := by
  have hidle : ∀ x : Worker α, x.phase.inJob = true → x.idle = false := by
    intro x hx
    unfold Worker.idle
    cases h : x.phase <;> simp_all [Phase.inJob]
  unfold Worker.put
  rw [hidle v hv, hidle _ hp]
  cases v.mailbox.inbox with
  | false => rfl
  | true => cases v.mailbox.isFull <;> simp

/-- **So is that of a job.** -/
theorem sendTo_eq_enterTo (hu : w.workers[k]? = some u) (hj : u.phase.inJob = true)
    (hv : w.workers[t]? = some v) (ho : v.mailbox.isOpen = true) (manner : Manner)
    (job rest : Work α) :
    some (w.sendTo k t manner job rest)
      = (w.enterTo k t manner job rest).map fun looked =>
          (looked.sendOn k t manner (v.mailFrom (.worker k) job) rest).getD looked := by
  unfold sendTo enterTo
  have hclosed : v.mailbox.isClosed = false := by simp [Mailbox.isClosed, ho]
  simp only [hv, hclosed, Worker.post_of_isOpen ho]
  have hwait : ∀ r : Receipt, r.inManner manner = .waits → r = .waits := fun _ hr =>
    (Receipt.inManner_eq_waits_iff.1 hr).1
  by_cases hkt : t = k
  · -- a job that sends its own worker another one finds its own thread in the call
    subst hkt
    rw [hu] at hv
    cases hv
    have hput := put_of_inJob (v := u.counted) (p := .sending manner t (u.mailFrom (.worker t) job)
      rest) hj rfl (u.mailFrom (.worker t) job)
    by_cases hr : (u.counted.put (u.mailFrom (.worker t) job)).1.inManner manner = .waits
    · simp [sendOn, change, hu, hput, hr, put_of_waits (hwait _ hr), List.modify_modify_eq,
        Function.comp_def]
    · simp [sendOn, change, hu, hput, hr, List.modify_modify_eq, Function.comp_def]
      rfl
  · by_cases hr : (v.counted.put (v.mailFrom (.worker k) job)).1.inManner manner = .waits
    · simp [sendOn, change, hv, Ne.symm hkt, hr, put_of_waits (hwait _ hr)]
    · -- the mark that the job is in the call is gone again with the put
      simp only [sendOn, change, List.getElem?_modify_ne, List.getElem?_modify_eq, hv, hr,
        Option.map_eq_map, Option.map_some, Option.getD_some, Bool.false_eq_true, if_false,
        ne_eq, Ne.symm hkt, not_false_eq_true]
      rw [List.modify_modify_ne _ _ _ (Ne.symm hkt), List.modify_modify_eq, List.modify_modify_eq]
      rfl

end TwoSteps

end Workshop

end SerialWorkers
