import SerialWorkers.Proofs.Mapping
import SerialWorkers.Proofs.Workshop.Runs

/-!
# Runs whose statuses are blotted out

A request to stop bears a status.  Nobody looks at it before the worker is about to end, and
then it decides how the end is called and what is told of it, but not what is done.  So
whoever blots out every status of a run, in the requests, in the jobs that make them and in
all that shows them, is left with a run in which the same is done.

* `Worker.mute`, `Workshop.mute` — workers and workshops with their statuses blotted out.
* `Worker.advance_mute`, `Workshop.move_mute` — whatever is done leads to the same there.
* `Workshop.Parallel` — workshops that differ in statuses at most, and what is the same in
  them.
* `Workshop.run_parallel` — two runs that differ in statuses lead to such workshops.
-/

namespace SerialWorkers

/-! ## Statuses blotted out -/

/-- How a service ended, if nobody had looked at the status: an end on request is an orderly
one. -/
def Outcome.mute : Outcome → Outcome
  | .orderly => .orderly
  | .broken (.abnormal _) => .orderly
  | .broken (.panicked message) => .broken (.panicked message)

/-- An event without its status; the one that is only told because of it is not told. -/
def Event.mute : Event → Option Event
  | .stopRequested identity _ => some (.stopRequested identity 0)
  | .stoppedAbnormally .. => none
  | e => some e

namespace Mailbox

variable {ι κ : Type} (g : ι → κ) (m : Mailbox ι)

/-- The mailbox with its status blotted out, and each item changed by `g`. -/
def mute : Mailbox κ := (m.map g).setStatus 0

@[simp] theorem pending_mute : (m.mute g).pending = m.pending := pending_map g m

@[simp] theorem isFull_mute : (m.mute g).isFull = m.isFull := isFull_map g m

theorem outcome_mute (reason : Reason) : (m.mute g).outcome reason = (m.outcome reason).mute := by
  cases reason with
  | noticed => by_cases h : m.status = 0 <;> simp [outcome, mute, setStatus, Outcome.mute, h]
  | deserted | panicked => rfl

theorem reasonEvents_mute (reason : Reason) :
    (m.mute g).reasonEvents reason = (m.reasonEvents reason).filterMap Event.mute := by
  cases reason with
  | noticed => by_cases h : m.status = 0 <;> simp [reasonEvents, mute, setStatus, Event.mute, h]
  | deserted | panicked => rfl

theorem exitEvent_mute : [(m.mute g).exitEvent] = [m.exitEvent].filterMap Event.mute := by
  simp only [exitEvent, pending_mute]
  rfl

theorem push_mute (x : ι) : (m.mute g).push (g x) = (m.push x).mute g :=
  congrArg (setStatus · 0) (push_map g m x)

theorem freeInbox_mute : (m.mute g).freeInbox = m.freeInbox.mute g :=
  congrArg (setStatus · 0) (freeInbox_map g m)

/-- **A request to stop does the same whatever its status.** -/
theorem stop_mute (status : Int) :
    (m.mute g).stop 0 = ((m.stop status).1, (m.stop status).2.mute g) := by
  have hopen : ((m.mute g).setStatus 0).isOpen = m.isOpen := rfl
  have hopen' : (m.setStatus status).isOpen = m.isOpen := rfl
  unfold stop beginStop
  rw [hopen, hopen']
  cases m.isOpen with
  | false => rfl
  | true => cases hi : m.inbox <;> cases hn : m.notice <;>
      simp [giveNotice, mute, map, setStatus, hi, hn]

/-- **A wait returns the same.** -/
theorem next_mute : (m.mute g).next = m.next.map fun p => (p.1.map g, p.2.mute g) := by
  have hstatus : (m.mute g).next = (m.map g).next.map fun p => (p.1, p.2.setStatus 0) := by
    have hcause : ((m.mute g).notice || !(m.mute g).cancelSender)
        = ((m.map g).notice || !(m.map g).cancelSender) := rfl
    have hqueue : (m.mute g).queue = (m.map g).queue := rfl
    have hproducer : (m.mute g).hasProducer = (m.map g).hasProducer := rfl
    unfold next
    rw [hcause, hqueue, hproducer]
    split
    · rfl
    · split
      · rfl
      · split <;> rfl
  rw [hstatus, next_map, Option.map_map]
  rfl

end Mailbox

namespace Workshop

variable {α : Type}

/-- An act without its status. -/
def Act.mute : Act α → Act α
  | .log v => .log v
  | .threadName => .threadName
  | .view whom => .view whom
  | .gate => .gate
  | .panic p => .panic p
  | .stop _ whom => .stop 0 whom

/-- A job without the statuses of its requests, and of those of the jobs sent in it. -/
def muteJob : Work α → Work α
  | .done => .done
  | .act a rest => .act a.mute (muteJob rest)
  | .send route job rest => .send route (muteJob job) (muteJob rest)

/-- A job on its way, without its statuses. -/
def muteMail (mail : Mail α) : Mail α := ⟨mail.ticket, mail.sender, muteJob mail.job⟩

/-- What can be seen of a worker, but for the status. -/
def View.mute (view : View) : View := { view with status := 0 }

/-- An entry of the log, without the status it shows. -/
def Entry.mute : Entry α → Entry α
  | .view v => .view v.mute
  | e => e

/-- A verdict, if nobody had looked at the status. -/
def Verdict.mute (verdict : Verdict) : Verdict := ⟨verdict.reason, verdict.outcome.mute⟩

/-- Where a thread stands, without statuses. -/
def Phase.mute : Phase α → Phase α
  | .waiting => .waiting
  | .running rest => .running (muteJob rest)
  | .sending manner whom mail rest => .sending manner whom (muteMail mail) (muteJob rest)
  | .retiring verdict => .retiring verdict.mute
  | .leaving verdict => .leaving verdict.mute
  | .ended verdict => .ended verdict.mute

/-- A client, without the statuses in the job it sends. -/
def Client.mute (client : Client α) : Client α :=
  ⟨client.sending.map fun call => (call.1, muteMail call.2), client.manner, client.receipts⟩

@[simp] theorem Client.isSome_sending_mute (client : Client α) :
    client.mute.sending.isSome = client.sending.isSome := Option.isSome_map ..

@[simp] theorem Client.isNone_sending_mute (client : Client α) :
    client.mute.sending.isNone = client.sending.isNone := Option.isNone_map ..

end Workshop

namespace Worker

open Workshop

variable {α : Type} (v : Worker α)

/-! ## Workers -/

/-- A worker with every status blotted out. -/
def mute : Worker α :=
  ⟨v.threadName, v.policy, v.mailbox.mute muteMail, v.phase.mute, v.owned, v.log.map Entry.mute,
    v.events.filterMap Event.mute, v.attempts, v.accepted.map muteMail, v.started.map muteMail⟩

@[simp] theorem isOpen_mute : v.mute.mailbox.isOpen = v.mailbox.isOpen := rfl

@[simp] theorem isFull_mute : v.mute.mailbox.isFull = v.mailbox.isFull := Mailbox.isFull_mute ..

@[simp] theorem view_mute : v.mute.view = v.view.mute := by
  simp only [view, mute, Mailbox.pending_mute]
  rfl

@[simp] theorem verdict_mute : v.mute.verdict = v.verdict.map Verdict.mute := by
  simp only [verdict, mute]
  cases v.phase <;> rfl

@[simp] theorem held_mute : v.mute.held = v.held := by
  simp only [held, mute]
  cases v.phase with
  | running rest =>
      cases rest with
      | act a rest => cases a <;> rfl
      | done | send => rfl
  | waiting | sending | retiring | leaving | ended => rfl

@[simp] theorem idle_mute : v.mute.idle = v.idle := by
  simp only [idle, mute, Mailbox.next_mute, Option.isNone_map]
  cases v.phase <;> rfl

@[simp] theorem peak_mute : v.mute.peak = v.peak := by
  simp [peak, mute]

theorem write_mute (e : Entry α) : v.mute.write e.mute = (v.write e).mute := by
  simp [write, mute]

theorem report_mute (es : List Event) :
    v.mute.report (es.filterMap Event.mute) = (v.report es).mute := by
  simp [report, mute]

theorem begin_mute (mail : Mail α) : v.mute.begin (muteMail mail) = (v.begin mail).mute := by
  simp [begin, mute, Phase.mute, muteMail, Event.mute]

/-- **A job handed in.** -/
theorem put_mute (mail : Mail α) :
    v.mute.put (muteMail mail) = ((v.put mail).1, (v.put mail).2.mute) := by
  have hinbox : v.mute.mailbox.inbox = v.mailbox.inbox := rfl
  have hcapacity : v.mute.mailbox.capacity = v.mailbox.capacity := rfl
  unfold put
  rw [hinbox, hcapacity, isFull_mute, idle_mute]
  split
  · rfl
  · simp only
    split
    · simp [mute, Mailbox.push_mute]
    · split
      · refine Prod.ext rfl ?_
        rw [← begin_mute]
        simp [mute]
      · rfl

@[simp] theorem counted_mute : v.mute.counted = v.counted.mute := rfl

/-- **A job sent.** -/
theorem post_mute (sender : Sender) (job : Work α) :
    v.mute.post sender (muteJob job) = ((v.post sender job).1, (v.post sender job).2.mute) := by
  unfold post
  rw [isOpen_mute]
  split
  · exact put_mute v.counted (v.mailFrom sender job)
  · rfl

/-- **A request to stop.** -/
theorem stop_mute (status : Int) :
    v.mute.stop 0 = ((v.stop status).1, (v.stop status).2.mute) := by
  have hstop : v.mute.mailbox.stop 0
      = ((v.mailbox.stop status).1, (v.mailbox.stop status).2.mute muteMail) :=
    Mailbox.stop_mute ..
  simp only [stop, hstop]
  rfl

theorem retire_mute (reason : Reason) : v.mute.retire reason = (v.retire reason).mute := by
  simp [retire, mute, Phase.mute, Verdict.mute, Mailbox.outcome_mute, Mailbox.reasonEvents_mute]

theorem panic_mute (payload : Payload) : v.mute.panic payload = (v.panic payload).mute := by
  have htold := report_mute v [.jobPanicked v.mailbox.identity payload.message v.policy]
  have hpolicy : v.mute.policy = v.policy := rfl
  unfold panic
  rw [hpolicy]
  cases hp : v.policy with
  | retire =>
      rw [hp] at htold
      rw [← retire_mute, ← htold]
      rfl
  | carryOn =>
      rw [hp] at htold
      exact congrArg (fun u : Worker α => { u with phase := .waiting }) htold

/-- **A step of a thread.**  A worker that heeds a notice decides to end, whatever it makes of
the status. -/
theorem advance_mute : v.mute.advance = v.advance.map mute := by
  unfold advance
  cases hp : v.phase with
  | waiting =>
      have hphase : v.mute.phase = .waiting := by simp [mute, hp, Phase.mute]
      have hnext : v.mute.mailbox.next
          = v.mailbox.next.map fun p => (p.1.map muteMail, p.2.mute muteMail) :=
        Mailbox.next_mute ..
      rw [hphase]
      simp only [hnext]
      cases hn : v.mailbox.next with
      | none => rfl
      | some p =>
          obtain ⟨wake, box⟩ := p
          cases wake with
          | item mail => exact congrArg some (begin_mute { v with mailbox := box } mail)
          | noticed => exact congrArg some (retire_mute { v with mailbox := box } _)
          | deserted => exact congrArg some (retire_mute { v with mailbox := box } _)
  | running rest =>
      cases rest with
      | done => simp [mute, hp, Phase.mute, muteJob]
      | send route job rest => simp [mute, hp, Phase.mute, muteJob]
      | act a rest =>
          cases a with
          | panic payload =>
              have hphase : v.mute.phase = .running (.act (.panic payload) (muteJob rest)) := by
                simp [mute, hp, Phase.mute, muteJob, Act.mute]
              rw [hphase]
              exact congrArg some (panic_mute v payload)
          | log | threadName | gate | view | stop =>
              simp [mute, hp, Phase.mute, muteJob, Act.mute, Entry.mute, write, resume]
  | sending | ended => simp [mute, hp, Phase.mute]
  | retiring verdict =>
      simp only [mute, hp, Phase.mute, Option.map_some, List.filterMap_append,
        Mailbox.exitEvent_mute]
      rfl
  | leaving verdict =>
      simp only [mute, hp, Phase.mute, Option.map_some, Mailbox.freeInbox_mute]

theorem pastGate_mute : v.mute.pastGate = v.pastGate.map mute := by
  unfold pastGate
  cases hp : v.phase with
  | running rest =>
      cases rest with
      | act a rest => cases a <;> simp [mute, hp, Phase.mute, muteJob, Act.mute, resume]
      | done | send => simp [mute, hp, Phase.mute, muteJob]
  | waiting | sending | retiring | leaving | ended => simp [mute, hp, Phase.mute]

end Worker

namespace Workshop

variable {α : Type} (w : Workshop α)

/-! ## Workshops -/

/-- A workshop with every status blotted out. -/
def mute : Workshop α :=
  ⟨w.workers.map Worker.mute, w.clients.map Client.mute, w.outside.filterMap Event.mute⟩

/-- What came of a hire, with every status blotted out. -/
def Hiring.mute : Hiring α → Hiring α
  | .hired w => .hired w.mute
  | .refused f => .refused f
  | .panicked p => .panicked p

/-- A move without the statuses in it. -/
def Move.mute : Move α → Move α
  | .call manner c k job => .call manner c k (muteJob job)
  | .enter manner c k job => .enter manner c k (muteJob job)
  | .stop k _ => .stop k 0
  | m => m

@[simp] theorem getElem?_workers_mute (k : Nat) :
    w.mute.workers[k]? = (w.workers[k]?).map Worker.mute := List.getElem?_map ..

@[simp] theorem getElem?_clients_mute (c : Nat) :
    w.mute.clients[c]? = (w.clients[c]?).map Client.mute := List.getElem?_map ..

@[simp] theorem owns_mute (k : Nat) : w.mute.owns k = w.owns k := by
  simp only [owns, getElem?_workers_mute, Option.any_map]
  rfl

/-- Changes that come to the same in one place come to the same in a list. -/
theorem map_modify_of_comm {β γ : Type} {f : β → γ} {g : β → β} {g' : γ → γ}
    (h : ∀ b, f (g b) = g' (f b)) (l : List β) (k : Nat) :
    (l.modify k g).map f = (l.map f).modify k g' := by
  refine List.ext_getElem? fun i => ?_
  rw [List.getElem?_map, List.getElem?_modify, List.getElem?_modify, List.getElem?_map]
  cases l[i]? with
  | none => simp
  | some b =>
      by_cases hk : k = i
      · simp [hk, h]
      · simp [hk]

variable {w}

theorem change_mute {f g : Worker α → Worker α} (h : ∀ v, (f v).mute = g v.mute) (k : Nat) :
    w.mute.change k g = (w.change k f).mute := by
  simp only [change, mute, map_modify_of_comm h]

theorem changeClient_mute {f g : Client α → Client α} (h : ∀ c, (f c).mute = g c.mute)
    (c : Nat) : w.mute.changeClient c g = (w.changeClient c f).mute := by
  simp only [changeClient, mute, map_modify_of_comm h]

variable (w)

/-- A worker put in the place of another. -/
theorem change_const_mute (k : Nat) (v : Worker α) :
    w.mute.change k (fun _ => v.mute) = (w.change k fun _ => v).mute :=
  change_mute (fun _ => by rfl) k

theorem report_mute (thread : Thread) {e e' : Event} (he : e.mute = some e') :
    w.mute.report thread e' = (w.report thread e).mute := by
  have hfilter : [e].filterMap Event.mute = [e'] := by simp [he]
  cases thread with
  | outside => simp [report, mute, he]
  | worker k =>
      refine change_mute (fun v => ?_) k
      rw [← Worker.report_mute, hfilter]

/-! ## Moves -/

/-- **A request to stop.** -/
theorem stopBy_mute (thread : Thread) (k : Nat) (status : Int) :
    w.mute.stopBy thread k 0 = (w.stopBy thread k status).mute := by
  unfold stopBy
  rw [getElem?_workers_mute]
  cases w.workers[k]? with
  | none => rfl
  | some v =>
      have hchange : w.mute.change k (fun v => (v.stop 0).2)
          = (w.change k fun v => (v.stop status).2).mute :=
        change_mute (fun v => by rw [v.stop_mute status]) k
      simp only [Option.map_some, v.stop_mute status, hchange]
      split
      · exact report_mute _ thread rfl
      · rfl

theorem stopUnlessStopped_mute (k : Nat) :
    w.mute.stopUnlessStopped k = (w.stopUnlessStopped k).mute := by
  unfold stopUnlessStopped
  rw [getElem?_workers_mute]
  cases w.workers[k]? with
  | none => rfl
  | some v =>
      simp only [Option.map_some]
      rw [Worker.isOpen_mute]
      split
      · exact stopBy_mute w .outside k 0
      · rfl

/-- **A call of a client.** -/
theorem call_mute (manner : Manner) (c k : Nat) (job : Work α) :
    w.mute.call manner c k (muteJob job) = (w.call manner c k job).map mute := by
  unfold call
  rw [getElem?_clients_mute, getElem?_workers_mute]
  cases w.clients[c]? with
  | none => rfl
  | some client =>
      cases w.workers[k]? with
      | none => rfl
      | some v =>
          simp only [Option.map_some, client.isSome_sending_mute, v.post_mute, change_const_mute]
          split
          · rfl
          · split <;> exact congrArg some (changeClient_mute (fun _ => by rfl) c)

/-- **A client enters a call.** -/
theorem enter_mute (manner : Manner) (c k : Nat) (job : Work α) :
    w.mute.enter manner c k (muteJob job) = (w.enter manner c k job).map mute := by
  unfold enter
  rw [getElem?_clients_mute, getElem?_workers_mute]
  cases w.clients[c]? with
  | none => rfl
  | some client =>
      cases w.workers[k]? with
      | none => rfl
      | some v =>
          have hclosed : v.mute.mailbox.isClosed = v.mailbox.isClosed := rfl
          simp only [Option.map_some, client.isSome_sending_mute, hclosed, v.counted_mute,
            change_const_mute]
          split
          · rfl
          · exact congrArg some (changeClient_mute (fun _ => by rfl) c)

/-- **A client gets on.** -/
theorem resume_mute (c : Nat) : w.mute.resume c = (w.resume c).map mute := by
  unfold resume
  rw [getElem?_clients_mute]
  cases w.clients[c]? with
  | none => rfl
  | some client =>
      cases hs : client.sending with
      | none => simp [Client.mute, hs]
      | some call =>
          obtain ⟨k, mail⟩ := call
          have hcall : client.mute.sending = some (k, muteMail mail) := by simp [Client.mute, hs]
          have hmanner : client.mute.manner = client.manner := rfl
          simp only [Option.map_some, hcall, hs, hmanner, getElem?_workers_mute]
          cases w.workers[k]? with
          | none => rfl
          | some v =>
              simp only [Option.map_some, v.put_mute, change_const_mute]
              split
              · rfl
              · exact congrArg some (changeClient_mute (fun _ => by rfl) c)

/-- A worker that logs something and goes on with its job. -/
theorem change_resume_mute (k : Nat) (e : Entry α) (rest : Work α) :
    w.mute.change k (fun u => (u.write e.mute).resume (muteJob rest))
      = (w.change k fun u => (u.write e).resume rest).mute :=
  change_mute (fun u => by rw [u.write_mute]; rfl) k

/-- **A job sends another one.** -/
theorem sendTo_mute (k t : Nat) (manner : Manner) (job rest : Work α) :
    w.mute.sendTo k t manner (muteJob job) (muteJob rest)
      = (w.sendTo k t manner job rest).mute := by
  unfold sendTo
  rw [getElem?_workers_mute]
  cases w.workers[t]? with
  | none => exact change_resume_mute w k (.sent manner (.refused .closed)) rest
  | some v =>
      simp only [Option.map_some, v.post_mute, change_const_mute]
      split
      · exact change_mute (fun _ => by rfl) k
      · exact change_resume_mute _ k (.sent manner _) rest

theorem wouldWait_mute (k t : Nat) (v : Worker α) : wouldWait k t v.mute = wouldWait k t v := by
  simp only [wouldWait, Worker.held_mute, Worker.isOpen_mute, Worker.isFull_mute]

theorem sendFrom_mute (k t : Nat) (manner : Manner) (job rest : Work α) :
    w.mute.sendFrom k t manner (muteJob job) (muteJob rest)
      = (w.sendFrom k t manner job rest).mute := by
  have hwait : (w.mute.workers[t]?).any (wouldWait k t)
      = (w.workers[t]?).any (wouldWait k t) := by
    rw [getElem?_workers_mute, Option.any_map]
    exact congrArg (Option.any · _) (funext (wouldWait_mute k t))
  unfold sendFrom
  rw [hwait]
  split
  · exact change_resume_mute w k (.sent manner .waits) rest
  · exact sendTo_mute w k t manner job rest

/-- **A job enters a call.** -/
theorem enterTo_mute (k t : Nat) (manner : Manner) (job rest : Work α) :
    w.mute.enterTo k t manner (muteJob job) (muteJob rest)
      = (w.enterTo k t manner job rest).map mute := by
  unfold enterTo
  rw [getElem?_workers_mute]
  cases w.workers[t]? with
  | none => rfl
  | some v =>
      have hclosed : v.mute.mailbox.isClosed = v.mailbox.isClosed := rfl
      simp only [Option.map_some, hclosed, v.counted_mute, change_const_mute]
      split
      · rfl
      · exact congrArg some (change_mute (fun _ => by rfl) k)

theorem sendOn_mute (k t : Nat) (manner : Manner) (mail : Mail α) (rest : Work α) :
    w.mute.sendOn k t manner (muteMail mail) (muteJob rest)
      = (w.sendOn k t manner mail rest).map mute := by
  unfold sendOn
  rw [getElem?_workers_mute]
  cases w.workers[t]? with
  | none => rfl
  | some v =>
      simp only [Option.map_some, v.put_mute, change_const_mute]
      split
      · rfl
      · exact congrArg some (change_resume_mute _ k (.sent manner _) rest)

/-- **A job requests a stop**, with whatever status. -/
theorem stopFrom_mute (k t : Nat) (status : Int) (rest : Work α) :
    w.mute.stopFrom k t 0 (muteJob rest) = (w.stopFrom k t status rest).mute := by
  unfold stopFrom
  rw [owns_mute]
  split
  · rw [stopBy_mute w (.worker k) t status]
    exact change_mute (fun _ => by rfl) k
  · exact change_resume_mute w k .ownerGone rest

theorem viewFrom_mute (k t : Nat) (rest : Work α) :
    w.mute.viewFrom k t (muteJob rest) = (w.viewFrom k t rest).mute := by
  unfold viewFrom
  rw [getElem?_workers_mute]
  cases w.workers[t]? with
  | none => exact change_mute (fun _ => by rfl) k
  | some v =>
      simp only [Option.map_some, v.view_mute]
      exact change_resume_mute w k (.view v.view) rest

/-- **The next step of a thread.** -/
theorem work_mute (k : Nat) : w.mute.work k = (w.work k).map mute := by
  unfold work
  rw [getElem?_workers_mute]
  cases hk : w.workers[k]? with
  | none => rfl
  | some v =>
      -- a step that concerns nobody else
      have hown : (v.mute.advance.map fun v' => w.mute.change k fun _ => v')
          = (v.advance.map fun v' => w.change k fun _ => v').map mute := by
        rw [v.advance_mute, Option.map_map, Option.map_map]
        exact congrArg (Option.map · _) (funext fun v' => change_const_mute w k v')
      have hphase : v.mute.phase = v.phase.mute := rfl
      simp only [Option.map_some, hphase]
      cases hp : v.phase with
      | running rest =>
          cases rest with
          | done => exact hown
          | send route job rest =>
              exact congrArg some (sendFrom_mute w k _ route.manner job rest)
          | act a rest =>
              cases a with
              | view whom => exact congrArg some (viewFrom_mute w k _ rest)
              | stop status whom => exact congrArg some (stopFrom_mute w k _ status rest)
              | log | threadName | gate | panic => exact hown
      | sending manner t mail rest => exact sendOn_mute w k t manner mail rest
      | waiting | retiring | leaving | ended => exact hown

theorem insist_mute (k : Nat) : w.mute.insist k = (w.insist k).map mute := by
  unfold insist
  rw [getElem?_workers_mute]
  cases w.workers[k]? with
  | none => rfl
  | some v =>
      have hphase : v.mute.phase = v.phase.mute := rfl
      simp only [Option.map_some, hphase]
      cases v.phase with
      | running rest =>
          cases rest with
          | send route job rest => exact congrArg some (sendTo_mute w k _ route.manner job rest)
          | done | act => rfl
      | sending | waiting | retiring | leaving | ended => rfl

theorem enterFrom_mute (k : Nat) : w.mute.enterFrom k = (w.enterFrom k).map mute := by
  unfold enterFrom
  rw [getElem?_workers_mute]
  cases w.workers[k]? with
  | none => rfl
  | some v =>
      have hphase : v.mute.phase = v.phase.mute := rfl
      simp only [Option.map_some, hphase]
      cases v.phase with
      | running rest =>
          cases rest with
          | send route job rest => exact enterTo_mute w k _ route.manner job rest
          | done | act => rfl
      | sending | waiting | retiring | leaving | ended => rfl

theorem release_mute (k : Nat) : w.mute.release k = (w.release k).map mute := by
  unfold release
  rw [getElem?_workers_mute]
  cases w.workers[k]? with
  | none => rfl
  | some v =>
      simp only [Option.map_some, Option.bind_some, v.pastGate_mute]
      cases v.pastGate with
      | none => rfl
      | some v' => exact congrArg some (change_const_mute w k v')

/-- **The owner requests a stop**, with whatever status. -/
theorem stop_mute (k : Nat) (status : Int) :
    w.mute.stop k 0 = (w.stop k status).map mute := by
  unfold stop
  rw [owns_mute, stopBy_mute w .outside k status]
  split <;> rfl

theorem leave_mute (k : Nat) : w.mute.leave k = (w.leave k).map mute := by
  unfold leave
  rw [owns_mute, stopUnlessStopped_mute]
  split
  · exact congrArg some (change_mute (fun _ => by rfl) k)
  · rfl

theorem abandon_mute (k : Nat) : w.mute.abandon k = (w.abandon k).map mute := by
  unfold abandon
  rw [owns_mute, stopUnlessStopped_mute]
  split
  · exact congrArg some (change_mute (fun _ => by rfl) k)
  · rfl

theorem hire_mute (settings : Settings) (identity : String) (fault : Option Fault) :
    w.mute.hire settings identity fault = (w.hire settings identity fault).mute := by
  unfold hire
  cases settings.objection? identity with
  | some p => rfl
  | none =>
      cases fault with
      | some fault => rfl
      | none => simp [Hiring.mute, mute, report, Worker.hired, Worker.mute, Phase.mute, Event.mute,
          Mailbox.mute, Mailbox.map, Mailbox.setStatus]

theorem afterHiring_mute (hiring : Hiring α) :
    w.mute.afterHiring hiring.mute = (w.afterHiring hiring).mute := by
  cases hiring <;> rfl

/-- **Every move does the same**, whatever the statuses. -/
theorem move_mute (m : Move α) : w.mute.move m.mute = (w.move m).map mute := by
  cases m with
  | hire settings identity fault =>
      simp only [move, Move.mute, hire_mute, afterHiring_mute]
      rfl
  | welcome => simp [move, Move.mute, welcome, mute, Client.mute]
  | call manner c k job => exact call_mute w manner c k job
  | enter manner c k job => exact enter_mute w manner c k job
  | resume c => exact resume_mute w c
  | work k => exact work_mute w k
  | insist k => exact insist_mute w k
  | enterFrom k => exact enterFrom_mute w k
  | release k => exact release_mute w k
  | stop k status => exact stop_mute w k status
  | leave k => exact leave_mute w k
  | abandon k => exact abandon_mute w k
  | cloneHandle k h => exact congrArg some (change_mute (fun _ => by rfl) k)
  | dropHandle k h =>
      simp only [move, Move.mute]
      split
      · rfl
      · exact congrArg some (change_mute (fun _ => by rfl) k)

/-- **Every run does the same**, whatever the statuses. -/
theorem run_mute (moves : List (Move α)) :
    w.mute.run (moves.map Move.mute) = (w.run moves).map mute := by
  induction moves generalizing w with
  | nil => rfl
  | cons m moves ih =>
      rw [List.map_cons, run_cons, run_cons, move_mute]
      cases w.move m with
      | none => rfl
      | some w' => exact ih w'

end Workshop

/-! ## Side by side -/

/-- What is the same under `f` is related. -/
theorem rel_of_map_eq {β γ : Type} {f : β → γ} {R : β → β → Prop} {x y : Option β}
    (h : x.map f = y.map f) (hR : ∀ a b, f a = f b → R a b) : Option.Rel R x y := by
  cases x with
  | none =>
      cases y with
      | none => exact .none
      | some b => cases h
  | some a =>
      cases y with
      | none => cases h
      | some b => exact .some (hR a b (Option.some.inj h))

/-- Two ends that differ in a status at most. -/
inductive Outcome.Parallel : Outcome → Outcome → Prop
  /-- Both by a panic, with the same message. -/
  | panicked (message : String) :
      Parallel (.broken (.panicked message)) (.broken (.panicked message))
  /-- Both in good order or on request. -/
  | unbroken {o o' : Outcome} (h : o.mute = .orderly) (h' : o'.mute = .orderly) : Parallel o o'

/-- An end is by a panic, or the status may have decided how it is called. -/
theorem Outcome.mute_eq_orderly_or (o : Outcome) :
    o.mute = .orderly ∨ ∃ message, o = .broken (.panicked message) := by
  cases o with
  | orderly => exact .inl rfl
  | broken b =>
      cases b with
      | abnormal => exact .inl rfl
      | panicked message => exact .inr ⟨message, rfl⟩

theorem Outcome.parallel_of_mute {o o' : Outcome} (h : o.mute = o'.mute) : o.Parallel o' := by
  rcases o.mute_eq_orderly_or with ho | ⟨message, rfl⟩
  · exact .unbroken ho (h.symm.trans ho)
  · rcases o'.mute_eq_orderly_or with ho' | ⟨message', rfl⟩
    · cases h.trans ho'
    · cases h
      exact .panicked message

variable {α : Type}

open Workshop in
/-- Two workers that differ in statuses at most. -/
structure Worker.Parallel (v v' : Worker α) : Prop where
  /-- They are at the same stage of life. -/
  lifecycle : v.mailbox.lifecycle = v'.mailbox.lifecycle
  /-- Both have stopped taking jobs, or neither has. -/
  closed : v.mailbox.isClosed = v'.mailbox.isClosed
  /-- As many jobs are queued. -/
  pending : v.mailbox.pending = v'.mailbox.pending
  /-- The same jobs were accepted, but for the statuses in them. -/
  accepted : v.accepted.map muteMail = v'.accepted.map muteMail
  /-- And the same were started. -/
  started : v.started.map muteMail = v'.started.map muteMail
  /-- Their jobs were told and logged the same, but for a status they saw. -/
  log : v.log.map Entry.mute = v'.log.map Entry.mute
  /-- Their threads reported the same, but for statuses, and for ends called abnormal. -/
  events : v.events.filterMap Event.mute = v'.events.filterMap Event.mute
  /-- Both are gone or neither is, and if they are it is for the same reason and in the same
  way. -/
  verdict : Option.Rel
    (fun u u' : Verdict => u.reason = u'.reason ∧ u.outcome.Parallel u'.outcome)
    v.verdict v'.verdict
  /-- Nor is there any other difference. -/
  rest : v.mute = v'.mute

open Workshop in
/-- Workers that are the same with their statuses blotted out. -/
theorem Worker.parallel_of_mute {v v' : Worker α} (h : v.mute = v'.mute) : v.Parallel v' where
  lifecycle := congrArg (·.mailbox.lifecycle) h
  closed := congrArg (·.mailbox.isClosed) h
  pending := by
    have hpending := congrArg (·.mailbox.pending) h
    simpa only [Worker.mute, Mailbox.pending_mute] using hpending
  accepted := congrArg (·.accepted) h
  started := congrArg (·.started) h
  log := congrArg (·.log) h
  events := congrArg (·.events) h
  verdict := by
    have hverdict : v.verdict.map Verdict.mute = v'.verdict.map Verdict.mute := by
      rw [← verdict_mute, h, verdict_mute]
    refine rel_of_map_eq hverdict fun u u' hu => ?_
    have hreason := congrArg Verdict.reason hu
    have houtcome := congrArg Verdict.outcome hu
    exact ⟨hreason, Outcome.parallel_of_mute houtcome⟩
  rest := h

namespace Workshop

/-- Two workshops that differ in statuses at most. -/
structure Parallel (w w' : Workshop α) : Prop where
  /-- Worker by worker. -/
  workers : ∀ k : Nat, Option.Rel Worker.Parallel w.workers[k]? w'.workers[k]?
  /-- All clients were told the same. -/
  receipts : w.clients.map Client.receipts = w'.clients.map Client.receipts
  /-- Nor is there any other difference. -/
  rest : w.mute = w'.mute

theorem parallel_of_mute {w w' : Workshop α} (h : w.mute = w'.mute) : w.Parallel w' where
  workers k := by
    have hk : (w.workers[k]?).map Worker.mute = (w'.workers[k]?).map Worker.mute := by
      rw [← getElem?_workers_mute, h, getElem?_workers_mute]
    exact rel_of_map_eq hk fun _ _ => Worker.parallel_of_mute
  receipts := by
    have hreceipts := congrArg (·.clients.map Client.receipts) h
    simp only [mute, List.map_map] at hreceipts
    exact hreceipts
  rest := h

/-- **Two runs that differ in statuses go side by side**, and neither stops short of the
other. -/
theorem run_parallel {w w' : Workshop α} (hw : w.mute = w'.mute) {moves moves' : List (Move α)}
    (h : moves.map Move.mute = moves'.map Move.mute) (n : Nat) :
    Option.Rel Parallel (w.run (moves.take n)) (w'.run (moves'.take n)) := by
  have hrun : (w.run (moves.take n)).map mute = (w'.run (moves'.take n)).map mute := by
    rw [← run_mute, ← run_mute, hw, List.map_take, List.map_take, h]
  exact rel_of_map_eq hrun fun _ _ => parallel_of_mute

end Workshop

end SerialWorkers
