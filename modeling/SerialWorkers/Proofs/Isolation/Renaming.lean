import SerialWorkers.Proofs.Mapping
import SerialWorkers.Workshop.Basic

/-!
# Workers and clients by other numbers

Jobs name workers by number, and a job on its way bears the number of who sent it.
Nothing that a worker does depends on what these numbers are: whoever renames them
everywhere finds the same done, under the new names.

* `Renaming` — new numbers for workers and clients.
* `Worker.put_rename`, `Worker.post_rename`, `Worker.stop_rename`,
  `Worker.advance_rename` — what is done to a worker, under new names.
-/

namespace SerialWorkers

namespace Workshop

variable {α : Type}

/-! ## Jobs -/

/-- New numbers for workers and clients. -/
structure Renaming where
  /-- The new number of a worker. -/
  worker : Nat → Nat
  /-- The new number of a client. -/
  client : Nat → Nat

/-- An act with the workers it names renamed. -/
def Act.rename (f : Nat → Nat) : Act α → Act α
  | .log v => .log v
  | .threadName => .threadName
  | .view whom => .view (whom.map f)
  | .gate => .gate
  | .panic p => .panic p
  | .stop status whom => .stop status (whom.map f)

/-- A route with the worker it names renamed. -/
def Route.rename (f : Nat → Nat) (route : Route) : Route := ⟨route.manner, route.whom.map f⟩

/-- A job with the workers it names renamed, and those the jobs sent in it name. -/
def renameJob (f : Nat → Nat) : Work α → Work α
  | .done => .done
  | .act a rest => .act (a.rename f) (renameJob f rest)
  | .send route job rest => .send (route.rename f) (renameJob f job) (renameJob f rest)

/-- Whom an act means, under the new names. -/
theorem getD_map (f : Nat → Nat) (whom : Option Nat) (k : Nat) :
    (whom.map f).getD (f k) = f (whom.getD k) := by
  cases whom <;> rfl

/-- A sender renamed. -/
def Sender.rename (r : Renaming) : Sender → Sender
  | .client c => .client (r.client c)
  | .worker k => .worker (r.worker k)

/-- A job on its way, renamed. -/
def renameMail (r : Renaming) (mail : Mail α) : Mail α :=
  ⟨mail.ticket, mail.sender.rename r, renameJob r.worker mail.job⟩

/-- Where a thread stands, renamed. -/
def Phase.rename (r : Renaming) : Phase α → Phase α
  | .waiting => .waiting
  | .running rest => .running (renameJob r.worker rest)
  | .sending manner whom mail rest =>
      .sending manner (r.worker whom) (renameMail r mail) (renameJob r.worker rest)
  | .retiring verdict => .retiring verdict
  | .leaving verdict => .leaving verdict
  | .ended verdict => .ended verdict

/-- A client renamed. -/
def Client.rename (r : Renaming) (client : Client α) : Client α :=
  ⟨client.sending.map fun call => (r.worker call.1, renameMail r call.2), client.manner,
    client.receipts⟩

end Workshop

namespace Worker

open Workshop

variable {α : Type} (r : Renaming) (v : Worker α)

/-! ## Workers -/

/-- A worker with its jobs renamed. -/
def rename : Worker α :=
  ⟨v.threadName, v.policy, v.mailbox.map (renameMail r), v.phase.rename r, v.owned, v.log,
    v.events, v.attempts, v.accepted.map (renameMail r), v.started.map (renameMail r)⟩

@[simp] theorem view_rename : (v.rename r).view = v.view := by
  simp only [view, rename, Mailbox.pending_map]
  rfl

@[simp] theorem verdict_rename : (v.rename r).verdict = v.verdict := by
  simp only [verdict, rename]
  cases v.phase <;> rfl

@[simp] theorem held_rename : (v.rename r).held = v.held := by
  simp only [held, rename]
  cases v.phase with
  | running rest =>
      cases rest with
      | act a rest => cases a <;> rfl
      | done | send => rfl
  | waiting | sending | retiring | leaving | ended => rfl

@[simp] theorem idle_rename : (v.rename r).idle = v.idle := by
  simp only [idle, rename, Mailbox.next_map, Option.isNone_map]
  cases v.phase <;> rfl

@[simp] theorem peak_rename : (v.rename r).peak = v.peak := by
  simp [peak, rename]

theorem begin_rename (mail : Mail α) :
    (v.rename r).begin (renameMail r mail) = (v.begin mail).rename r := by
  simp [begin, rename, Phase.rename, renameMail]

/-- **A job handed in, under new names.** -/
theorem put_rename (mail : Mail α) :
    (v.rename r).put (renameMail r mail) = ((v.put mail).1, (v.put mail).2.rename r) := by
  have hinbox : (v.rename r).mailbox.inbox = v.mailbox.inbox := rfl
  have hcapacity : (v.rename r).mailbox.capacity = v.mailbox.capacity := rfl
  have hfull : (v.rename r).mailbox.isFull = v.mailbox.isFull := Mailbox.isFull_map ..
  unfold put
  rw [hinbox, hcapacity, hfull, idle_rename]
  split
  · rfl
  · simp only
    split
    · simp [rename, Mailbox.push_map]
    · split
      · refine Prod.ext rfl ?_
        rw [← begin_rename]
        simp [rename]
      · rfl

/-- **A job sent, under new names.** -/
theorem post_rename (sender : Sender) (job : Work α) :
    (v.rename r).post (sender.rename r) (renameJob r.worker job)
      = ((v.post sender job).1, (v.post sender job).2.rename r) := by
  unfold post
  have hopen : (v.rename r).mailbox.isOpen = v.mailbox.isOpen := rfl
  rw [hopen]
  split
  · exact put_rename r v.counted (v.mailFrom sender job)
  · rfl

/-- **A request to stop, under new names.** -/
theorem stop_rename (status : Int) :
    (v.rename r).stop status = ((v.stop status).1, (v.stop status).2.rename r) := by
  have hstop : (v.rename r).mailbox.stop status
      = ((v.mailbox.stop status).1, (v.mailbox.stop status).2.map (renameMail r)) :=
    Mailbox.stop_map ..
  simp only [stop, hstop]
  rfl

theorem retire_rename (reason : Reason) :
    (v.rename r).retire reason = (v.retire reason).rename r := by
  simp [retire, rename, Phase.rename]

theorem panic_rename (payload : Payload) :
    (v.rename r).panic payload = (v.panic payload).rename r := by
  unfold panic
  have hpolicy : (v.rename r).policy = v.policy := rfl
  rw [hpolicy]
  cases v.policy with
  | retire =>
      exact retire_rename r (v.report [.jobPanicked v.mailbox.identity payload.message .retire]) _
  | carryOn => rfl

/-- **A step of a thread, under new names.** -/
theorem advance_rename : (v.rename r).advance = v.advance.map (rename r) := by
  unfold advance
  cases hp : v.phase with
  | waiting =>
      have hphase : (v.rename r).phase = .waiting := by simp [rename, hp, Phase.rename]
      have hnext : (v.rename r).mailbox.next
          = v.mailbox.next.map fun p => (p.1.map (renameMail r), p.2.map (renameMail r)) :=
        Mailbox.next_map ..
      rw [hphase]
      simp only [hnext]
      cases hn : v.mailbox.next with
      | none => rfl
      | some p =>
          obtain ⟨wake, box⟩ := p
          cases wake with
          | item mail => exact congrArg some (begin_rename r { v with mailbox := box } mail)
          | noticed => exact congrArg some (retire_rename r { v with mailbox := box } _)
          | deserted => exact congrArg some (retire_rename r { v with mailbox := box } _)
  | running rest =>
      cases rest with
      | done => simp [rename, hp, Phase.rename, renameJob]
      | send route job rest => simp [rename, hp, Phase.rename, renameJob]
      | act a rest =>
          cases a with
          | panic payload =>
              have hphase : (v.rename r).phase
                  = .running (.act (.panic payload) (renameJob r.worker rest)) := by
                simp [rename, hp, Phase.rename, renameJob, Act.rename]
              rw [hphase]
              exact congrArg some (panic_rename r v payload)
          | log | threadName | gate | view | stop =>
              simp [rename, hp, Phase.rename, renameJob, Act.rename, write, resume]
  | sending | ended => simp [rename, hp, Phase.rename]
  | retiring verdict =>
      simp only [rename, hp, Phase.rename, Option.map_some, Mailbox.exitEvent_map]
      rfl
  | leaving verdict =>
      simp only [rename, hp, Phase.rename, Option.map_some, Mailbox.freeInbox_map]

theorem pastGate_rename : (v.rename r).pastGate = v.pastGate.map (rename r) := by
  unfold pastGate
  cases hp : v.phase with
  | running rest =>
      cases rest with
      | act a rest =>
          cases a <;> simp [rename, hp, Phase.rename, renameJob, Act.rename, resume]
      | done | send => simp [rename, hp, Phase.rename, renameJob]
  | waiting | sending | retiring | leaving | ended => simp [rename, hp, Phase.rename]

end Worker

end SerialWorkers
