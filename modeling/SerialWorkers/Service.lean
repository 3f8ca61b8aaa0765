import SerialWorkers.Event
import SerialWorkers.Job
import SerialWorkers.Mailbox

/-!
# How a service ends

A worker serves its mailbox until one of three reasons ends the service.  The
reason and the status on record at that moment settle the outcome, and both are
told in the log before the mailbox is marked as ended.

* `queueWeight` — what the jobs of a queue will take, nested ones included.
* `Mailbox.outcome` — how the service is said to have ended.
* `Mailbox.reasonEvents` — what the log says before the mark.
-/

namespace SerialWorkers

/-- Why a service ends. -/
inductive Reason where
  /-- The wait returned with a notice to stop. -/
  | noticed
  /-- The wait returned because no producer is left. -/
  | deserted
  /-- A job panicked, with this message, and the policy is to retire. -/
  | panicked (message : String)
  deriving Repr, DecidableEq

/-- How a service ended. -/
inductive Outcome where
  /-- In good order. -/
  | orderly
  /-- By a breakdown. -/
  | broken (b : Breakdown)
  deriving Repr, DecidableEq

/-- One job on its way: a number that tells it from all others sent to the same
mailbox, its sender, and the job itself. -/
structure Parcel (σ ι : Type) where
  /-- How many attempts to send to this mailbox came before. -/
  ticket : Nat
  /-- Who sent it. -/
  sender : σ
  /-- What is to be done. -/
  job : ι
  deriving Repr, DecidableEq

section Queues

variable {σ α β : Type}

/-- What a queue of jobs will take. -/
def queueWeight : List (Parcel σ (Job α β)) → Nat
  | [] => 0
  | mail :: queue => mail.job.weight + 2 + queueWeight queue

@[simp] theorem queueWeight_nil : queueWeight ([] : List (Parcel σ (Job α β))) = 0 := rfl

@[simp] theorem queueWeight_cons (mail : Parcel σ (Job α β)) (queue : List (Parcel σ (Job α β))) :
    queueWeight (mail :: queue) = mail.job.weight + 2 + queueWeight queue := rfl

@[simp] theorem queueWeight_append (first second : List (Parcel σ (Job α β))) :
    queueWeight (first ++ second) = queueWeight first + queueWeight second := by
  induction first with
  | nil => simp
  | cons mail first ih =>
      simp only [List.cons_append, queueWeight_cons, ih]
      omega

end Queues

namespace Mailbox

variable {ι : Type}

/-- How a service that ends for `reason` is said to have ended.  A notice with
status zero is an intended stop. -/
def outcome (m : Mailbox ι) : Reason → Outcome
  | .noticed => if m.status = 0 then .orderly else .broken (.abnormal m.status)
  | .deserted => .orderly
  | .panicked message => .broken (.panicked message)

/-- What the log says about `reason` before the mailbox is marked as ended. -/
def reasonEvents (m : Mailbox ι) : Reason → List Event
  | .noticed =>
      if m.status = 0 then [] else [.stoppedAbnormally m.identity m.status m.pending]
  | .deserted => [.deserted m.identity]
  | .panicked _ => []

/-- What the log says last. -/
def exitEvent (m : Mailbox ι) : Event := .serviceEnded m.identity m.pending

end Mailbox

end SerialWorkers
