import SerialWorkers.Job
import SerialWorkers.Payload
import SerialWorkers.Service

/-!
# The desk

At a desk one thread works a mailbox by hand: it sends jobs, waits for the next
one and runs it on the spot, or hands the inbox to a service until that ends.
Jobs run at the desk may ask of it whatever its user may, so requests nest.

This file holds the desk, the requests and the replies that come at once;
`SerialWorkers.Desk.Machine` runs the jobs that a wait or a service delivers.

* `Desk.send` — send a job by one of the handles.
* `Desk.ask` — any other request, answered or begun.
-/

namespace SerialWorkers

namespace Desk

/-! ## Requests -/

/-- A request to the desk, other than to send a job. -/
inductive Call where
  /-- Copy handle `h`. -/
  | cloneHandle (h : Nat)
  /-- Let go of handle `h`. -/
  | dropHandle (h : Nat)
  /-- Read what handle `h` shows. -/
  | inspect (h : Nat)
  /-- Free the inbox. -/
  | dropInbox
  /-- Leave a notice to stop. -/
  | giveNotice
  /-- Drop the cancel sender. -/
  | dropCancelSender
  /-- Record a status. -/
  | setStatus (status : Int)
  /-- Move from running to stopping. -/
  | beginStop
  /-- Move to the last stage of life. -/
  | markEnded
  /-- Ask whether the mailbox is open. -/
  | isOpen
  /-- Ask whose mailbox it is. -/
  | identity
  /-- Look at the desk as a whole. -/
  | look
  /-- Wait for what comes next, and run it if it is a job. -/
  | wait
  /-- Serve the mailbox to the end. -/
  | serve (policy : PanicPolicy)
  deriving Repr, DecidableEq

/-- The short name by which users of the desk know `Call.dropCancelSender`. -/
@[match_pattern]
abbrev Call.dropWarden : Call := .dropCancelSender

/-- How and by which handle a job is sent. -/
structure Route where
  /-- Whether the sender would wait for room. -/
  manner : Manner
  /-- The handle used. -/
  handle : Nat
  deriving Repr, DecidableEq

/-- A plain act of a job run at the desk. -/
inductive Act (α : Type) where
  /-- Write a value to the log. -/
  | log (v : α)
  /-- Panic. -/
  | panic (p : Payload)
  /-- Make a request; what it answers is logged. -/
  | call (c : Call)
  deriving Repr, DecidableEq

/-- A job run at the desk. -/
abbrev Work (α : Type) := Job (Act α) Route

/-- A job on its way to the desk; the sender is the handle used. -/
abbrev Mail (α : Type) := Parcel Nat (Work α)

/-- Any request to the desk. -/
inductive Request (α : Type) where
  /-- Send a job. -/
  | send (route : Route) (job : Work α)
  /-- Anything else. -/
  | call (c : Call)
  deriving Repr, DecidableEq

/-! ## Replies -/

/-- What can be seen of a desk. -/
structure View where
  /-- The stage of life. -/
  lifecycle : Lifecycle
  /-- The status last recorded. -/
  status : Int
  /-- How many jobs are queued, where the inbox is at hand. -/
  pending : Option Nat
  /-- Whether a notice waits, where one can still be left. -/
  notice : Option Bool
  deriving Repr, DecidableEq

/-- What a wait came to. -/
inductive Woken where
  /-- It returned with a notice to stop. -/
  | noticed
  /-- It returned because nobody is left to send a job. -/
  | deserted
  /-- It delivered a job, which ran to its end. -/
  | finished
  /-- It delivered a job, which panicked with this message. -/
  | panicked (message : String)
  deriving Repr, DecidableEq

/-- What the desk answers. -/
inductive Reply where
  /-- It was done. -/
  | done
  /-- Yes or no. -/
  | flag (b : Bool)
  /-- A text. -/
  | text (s : String)
  /-- What a handle shows: whose mailbox, whether closed, how many queued. -/
  | handle (identity : String) (closed : Bool) (pending : Nat)
  /-- What can be seen of the desk. -/
  | view (v : View)
  /-- The job was refused. -/
  | refused (r : Refusal)
  /-- It would wait, and nobody could end the wait. -/
  | wouldWait
  /-- The handle is not held. -/
  | noHandle
  /-- The inbox is freed, or handed to a service. -/
  | noInbox
  /-- The cancel sender is gone. -/
  | noCancelSender
  /-- What became of a notice. -/
  | notice (r : NoticeReceipt)
  /-- What a wait came to. -/
  | woken (w : Woken)
  /-- How a service ended. -/
  | served (o : Outcome)
  deriving Repr, DecidableEq

/-- The short name by which users of the desk know `Reply.noCancelSender`. -/
@[match_pattern]
abbrev Reply.noWarden : Reply := .noCancelSender

/-- An entry of the log that jobs write. -/
inductive Entry (α : Type) where
  /-- A value a job wrote. -/
  | value (v : α)
  /-- What a request of a job was answered. -/
  | answered (c : Call) (r : Reply)
  /-- What a job's sending of another was answered. -/
  | sent (m : Manner) (r : Reply)
  deriving Repr, DecidableEq

end Desk

/-! ## The desk -/

/-- A desk: its mailbox, the log of its jobs, the events of its services, and
the record of what was accepted and what was delivered, in order. -/
structure Desk (α : Type) where
  /-- The mailbox worked at the desk. -/
  mailbox : Mailbox (Desk.Mail α)
  /-- What the jobs wrote. -/
  log : List (Desk.Entry α) := []
  /-- What the services reported. -/
  events : List Event := []
  /-- How many jobs somebody tried to send. -/
  attempts : Nat := 0
  /-- The jobs accepted so far. -/
  accepted : List (Desk.Mail α) := []
  /-- The jobs delivered so far. -/
  delivered : List (Desk.Mail α) := []
  deriving Repr, DecidableEq

namespace Desk

variable {α : Type}

/-- A fresh desk: one handle, an inbox, and a place to leave notices from. -/
def fresh (identity : String) (capacity : Option Nat) : Desk α :=
  { mailbox := { identity := identity, capacity := capacity } }

/-- Writes an entry to the log. -/
def write (d : Desk α) (e : Entry α) : Desk α := { d with log := d.log ++ [e] }

/-- Reports events. -/
def report (d : Desk α) (es : List Event) : Desk α := { d with events := d.events ++ es }

/-- Sends a job by one of the handles. -/
def send (d : Desk α) (route : Route) (job : Work α) : Reply × Desk α :=
  if !d.mailbox.holds route.handle then (.noHandle, d)
  else
    let mail : Mail α := ⟨d.attempts, route.handle, job⟩
    let posted := d.mailbox.post mail
    match posted.1.inManner route.manner with
    | .accepted =>
        (.done, { d with
          mailbox := posted.2
          attempts := d.attempts + 1
          accepted := d.accepted ++ [mail] })
    | .refused r => (.refused r, { d with attempts := d.attempts + 1 })
    | .waits => (.wouldWait, d)

/-- What can be seen of the desk, given whether the inbox is with a service. -/
def view (d : Desk α) (lent : Bool) : View where
  lifecycle := d.mailbox.lifecycle
  status := d.mailbox.status
  pending := if d.mailbox.inbox && !lent then some d.mailbox.pending else none
  notice := if d.mailbox.cancelSender then some d.mailbox.notice else none

/-- What a request comes to at once. -/
inductive Begun (α : Type) where
  /-- It is answered. -/
  | replied (r : Reply)
  /-- A wait delivered a job, which is to be run. -/
  | delivered (mail : Mail α)
  /-- A service begins. -/
  | serving (policy : PanicPolicy)
  deriving Repr, DecidableEq

/-- Takes a delivered job into the record. -/
def deliver (d : Desk α) (m : Mailbox (Mail α)) (mail : Mail α) : Desk α :=
  { d with mailbox := m, delivered := d.delivered ++ [mail] }

/-- Answers or begins a request, given whether the inbox is with a service. -/
def ask (d : Desk α) (lent : Bool) : Call → Begun α × Desk α
  | .cloneHandle h =>
      (.replied (if d.mailbox.holds h then .done else .noHandle),
        { d with mailbox := d.mailbox.cloneHandle h })
  | .dropHandle h =>
      (.replied (if d.mailbox.holds h then .done else .noHandle),
        { d with mailbox := d.mailbox.dropHandle h })
  | .inspect h =>
      (.replied (if d.mailbox.holds h then
          .handle d.mailbox.identity d.mailbox.isClosed d.mailbox.pending
        else .noHandle), d)
  | .dropInbox =>
      if d.mailbox.inbox && !lent then (.replied .done, { d with mailbox := d.mailbox.freeInbox })
      else (.replied .noInbox, d)
  | .giveNotice =>
      if d.mailbox.cancelSender then
        (.replied (.notice d.mailbox.giveNotice.1), { d with mailbox := d.mailbox.giveNotice.2 })
      else (.replied .noCancelSender, d)
  | .dropCancelSender =>
      (.replied (if d.mailbox.cancelSender then .done else .noCancelSender),
        { d with mailbox := d.mailbox.dropCancelSender })
  | .setStatus status => (.replied .done, { d with mailbox := d.mailbox.setStatus status })
  | .beginStop =>
      (.replied (.flag d.mailbox.beginStop.1), { d with mailbox := d.mailbox.beginStop.2 })
  | .markEnded => (.replied .done, { d with mailbox := d.mailbox.markEnded })
  | .isOpen => (.replied (.flag d.mailbox.isOpen), d)
  | .identity => (.replied (.text d.mailbox.identity), d)
  | .look => (.replied (.view (d.view lent)), d)
  | .wait =>
      if d.mailbox.inbox && !lent then
        match d.mailbox.next with
        | none => (.replied .wouldWait, d)
        | some (.item mail, m) => (.delivered mail, d.deliver m mail)
        | some (.noticed, m) => (.replied (.woken .noticed), { d with mailbox := m })
        | some (.deserted, m) => (.replied (.woken .deserted), { d with mailbox := m })
      else (.replied .noInbox, d)
  | .serve policy =>
      if d.mailbox.inbox && !lent then
        if d.mailbox.next.isNone then (.replied .wouldWait, d)
        else (.serving policy, d.report [.serviceBegan d.mailbox.identity])
      else (.replied .noInbox, d)

/-- Ends a service for `reason`: the log is told, the mailbox marked. -/
def conclude (d : Desk α) (reason : Reason) : Desk α :=
  { d with
    mailbox := d.mailbox.markEnded
    events := d.events ++ d.mailbox.reasonEvents reason ++ [d.mailbox.exitEvent] }

end Desk

end SerialWorkers
