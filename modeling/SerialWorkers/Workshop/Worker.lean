import SerialWorkers.Job
import SerialWorkers.Payload
import SerialWorkers.Service

/-!
# One worker of a workshop

A worker has a thread of its own.  Its phase says where the thread stands: at
the wait of its mailbox, inside a job, inside a call of that job to send another
one, or on its way out.

* `Worker.put` — a producer that found the mailbox open puts its job in.
* `Worker.post` — a producer looks at the lifecycle and puts its job in at once.
* `Worker.stop` — somebody requests it to stop.
* `Worker.advance` — one step of its thread that concerns no other worker.
-/

namespace SerialWorkers

namespace Workshop

/-! ## Jobs in a workshop -/

/-- A plain act of a job; `whom` is the worker meant, by default the one that
runs the job. -/
inductive Act (α : Type) where
  /-- Write a value to the log. -/
  | log (v : α)
  /-- Write the name of the thread to the log. -/
  | threadName
  /-- Write what can be seen of a worker to the log. -/
  | view (whom : Option Nat)
  /-- Stand at the gate until released. -/
  | gate
  /-- Panic. -/
  | panic (p : Payload)
  /-- Request a worker to stop. -/
  | stop (status : Int) (whom : Option Nat)
  deriving Repr, DecidableEq

/-- How and to whom a job sends another. -/
structure Route where
  /-- Whether it waits for room. -/
  manner : Manner
  /-- The worker meant, by default the one that runs the job. -/
  whom : Option Nat
  deriving Repr, DecidableEq

/-- A job of a worker. -/
abbrev Work (α : Type) := Job (Act α) Route

/-- Who sends a job. -/
inductive Sender where
  /-- A client of the workshop, on a thread of its own. -/
  | client (c : Nat)
  /-- A job that worker `k` runs. -/
  | worker (k : Nat)
  deriving Repr, DecidableEq

/-- A job on its way to a worker. -/
abbrev Mail (α : Type) := Parcel Sender (Work α)

/-- What can be seen of a worker. -/
structure View where
  /-- The stage of life. -/
  lifecycle : Lifecycle
  /-- Whether it has stopped taking jobs. -/
  closed : Bool
  /-- The status last recorded. -/
  status : Int
  /-- How many jobs are queued. -/
  pending : Nat
  deriving Repr, DecidableEq

/-- An entry of the log that the jobs of a worker write. -/
inductive Entry (α : Type) where
  /-- A value. -/
  | value (v : α)
  /-- The name of the thread. -/
  | threadName (name : String)
  /-- What could be seen of a worker. -/
  | view (v : View)
  /-- A request to stop found that its owner had let the worker go. -/
  | ownerGone
  /-- What became of a job that was sent; `waits` if the call was not made,
  since nobody could have ended its wait. -/
  | sent (manner : Manner) (r : Receipt)
  deriving Repr, DecidableEq

/-- Why and how a service ended. -/
structure Verdict where
  /-- Why it ended. -/
  reason : Reason
  /-- How it is said to have ended. -/
  outcome : Outcome
  deriving Repr, DecidableEq

/-- Where a worker's thread stands. -/
inductive Phase (α : Type) where
  /-- At the wait of its mailbox. -/
  | waiting
  /-- In a job, with this left of it. -/
  | running (rest : Work α)
  /-- In a job that sends `mail` to `whom`: it found that mailbox open, and has yet to
  put the mail in. -/
  | sending (manner : Manner) (whom : Nat) (mail : Mail α) (rest : Work α)
  /-- Decided to end, and about to mark the mailbox. -/
  | retiring (verdict : Verdict)
  /-- Done with the service, and about to free the inbox. -/
  | leaving (verdict : Verdict)
  /-- Gone. -/
  | ended (verdict : Verdict)
  deriving Repr, DecidableEq

end Workshop

open Workshop in
/-- A worker: the terms it serves on, its mailbox, where its thread stands, what
its jobs logged, what its thread reported, and the record of the jobs accepted
and started, in order. -/
structure Worker (α : Type) where
  /-- The name of its thread. -/
  threadName : String
  /-- What it does about a panic. -/
  policy : PanicPolicy
  /-- Its mailbox. -/
  mailbox : Mailbox (Mail α)
  /-- Where its thread stands. -/
  phase : Phase α := .waiting
  /-- Whether its owner still has it. -/
  owned : Bool := true
  /-- What its jobs wrote. -/
  log : List (Entry α) := []
  /-- What its thread reported. -/
  events : List Event := []
  /-- How many jobs somebody tried to send it. -/
  attempts : Nat := 0
  /-- The jobs accepted so far. -/
  accepted : List (Mail α) := []
  /-- The jobs started so far. -/
  started : List (Mail α) := []
  deriving Repr, DecidableEq

namespace Worker

open Workshop

variable {α : Type}

/-- A worker newly hired as `identity`. -/
def hired (settings : Settings) (identity : String) : Worker α where
  threadName := settings.threadName identity
  policy := settings.policy
  mailbox := { identity := identity, capacity := settings.capacity }
  events := [.serviceBegan identity]

/-! ## What can be seen of it -/

/-- What can be seen of a worker. -/
def view (v : Worker α) : View where
  lifecycle := v.mailbox.lifecycle
  closed := v.mailbox.isClosed
  status := v.mailbox.status
  pending := v.mailbox.pending

/-- Whether its thread stands at a gate. -/
def held (v : Worker α) : Bool :=
  match v.phase with
  | .running (.act .gate _) => true
  | _ => false

/-- Whether its thread stands at the wait, with nothing to end it. -/
def idle (v : Worker α) : Bool := v.phase matches .waiting && v.mailbox.next.isNone

/-- How the service ended, once the thread is gone. -/
def verdict (v : Worker α) : Option Verdict :=
  match v.phase with
  | .ended verdict => some verdict
  | _ => none

/-- The most jobs that ever ran at a time: a thread is in at most one job. -/
def peak (v : Worker α) : Nat := if v.started.isEmpty then 0 else 1

/-! ## What others do to it -/

/-- Writes an entry to its jobs' log. -/
def write (v : Worker α) (e : Entry α) : Worker α := { v with log := v.log ++ [e] }

/-- Reports events by its thread. -/
def report (v : Worker α) (es : List Event) : Worker α := { v with events := v.events ++ es }

/-- Takes up a job. -/
def begin (v : Worker α) (mail : Mail α) : Worker α :=
  { v with
    phase := .running mail.job
    started := v.started ++ [mail]
    events := v.events ++ [.jobBegan] }

/-- Puts in a job, whatever the lifecycle: it is queued where there is room, and a
mailbox without any room ever passes it straight to an idle worker. -/
def put (v : Worker α) (mail : Mail α) : Receipt × Worker α :=
  if !v.mailbox.inbox then (.refused .closed, v)
  else
    let noted := { v with accepted := v.accepted ++ [mail] }
    if !v.mailbox.isFull then (.accepted, { noted with mailbox := v.mailbox.push mail })
    else if v.mailbox.capacity = some 0 ∧ v.idle then (.accepted, noted.begin mail)
    else (.waits, v)

/-- The next job from `sender`, with the ticket it would get. -/
def mailFrom (v : Worker α) (sender : Sender) (job : Work α) : Mail α := ⟨v.attempts, sender, job⟩

/-- Takes note of one more attempt to send it a job. -/
def counted (v : Worker α) : Worker α := { v with attempts := v.attempts + 1 }

/-- A producer sends a job, with nothing between its look at the lifecycle and the
put. -/
def post (v : Worker α) (sender : Sender) (job : Work α) : Receipt × Worker α :=
  if v.mailbox.isOpen then v.counted.put (v.mailFrom sender job)
  else (.refused .closed, v.counted)

theorem post_of_isOpen {v : Worker α} (ho : v.mailbox.isOpen = true) (sender : Sender)
    (job : Work α) : v.post sender job = v.counted.put (v.mailFrom sender job) := by
  simp [post, ho]

/-- Somebody requests a stop; says whether it was the first request. -/
def stop (v : Worker α) (status : Int) : Bool × Worker α :=
  let stopped := v.mailbox.stop status
  (stopped.1, { v with mailbox := stopped.2 })

/-! ## What its thread does -/

/-- Decides to end for `reason`, and tells the log. -/
def retire (v : Worker α) (reason : Reason) : Worker α :=
  { v with
    phase := .retiring ⟨reason, v.mailbox.outcome reason⟩
    events := v.events ++ v.mailbox.reasonEvents reason }

/-- Its job panics. -/
def panic (v : Worker α) (payload : Payload) : Worker α :=
  let told := v.report [.jobPanicked v.mailbox.identity payload.message v.policy]
  match v.policy with
  | .retire => told.retire (.panicked payload.message)
  | .carryOn => { told with phase := .waiting }

/-- Goes on with the rest of its job. -/
def resume (v : Worker α) (rest : Work α) : Worker α := { v with phase := .running rest }

/-- The worker past the gate it stands at, if it does. -/
def pastGate (v : Worker α) : Option (Worker α) :=
  match v.phase with
  | .running (.act .gate rest) => some (v.resume rest)
  | _ => none

/-- One step of its thread, where that concerns no other worker. -/
def advance (v : Worker α) : Option (Worker α) :=
  match v.phase with
  | .waiting =>
      match v.mailbox.next with
      | none => none
      | some (.item mail, box) => some ({ v with mailbox := box }.begin mail)
      | some (.noticed, box) => some ({ v with mailbox := box }.retire .noticed)
      | some (.deserted, box) => some ({ v with mailbox := box }.retire .deserted)
  | .running .done => some { v with phase := .waiting }
  | .running (.act (.log x) rest) => some ((v.write (.value x)).resume rest)
  | .running (.act .threadName rest) => some ((v.write (.threadName v.threadName)).resume rest)
  | .running (.act (.panic payload) _) => some (v.panic payload)
  | .running (.act .gate _) => none
  | .running (.act (.view _) _) => none
  | .running (.act (.stop ..) _) => none
  | .running (.send ..) => none
  | .sending .. => none
  | .retiring verdict =>
      some { v with
        mailbox := v.mailbox.markEnded
        events := v.events ++ [v.mailbox.exitEvent]
        phase := .leaving verdict }
  | .leaving verdict => some { v with mailbox := v.mailbox.freeInbox, phase := .ended verdict }
  | .ended _ => none

end Worker

end SerialWorkers
