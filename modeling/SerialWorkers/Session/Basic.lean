import SerialWorkers.Workshop.Rest

/-!
# A session with a workshop

Somebody outside commands a workshop step by step, and after each command the
workshop comes to rest.  What the session hands out — handles, errands run on
threads of their own, waits for a worker's end — goes by number.

* `Session.perform` — a command, its answer, and the session at rest after it.
-/

namespace SerialWorkers

namespace Session

open Workshop

/-! ## Commands and answers -/

/-- Whom a command means. -/
inductive Address where
  /-- Worker `k`. -/
  | worker (k : Nat)
  /-- The worker of handle `h`. -/
  | handle (h : Nat)
  deriving Repr, DecidableEq

/-- A command. -/
inductive Command (α : Type) where
  /-- Hire a worker, unless the system says `fault`. -/
  | hire (settings : Settings) (identity : String) (fault : Option Fault)
  /-- Hire a worker on the usual terms. -/
  | hireUsual (identity : String) (fault : Option Fault)
  /-- Send a job. -/
  | send (whom : Address) (manner : Manner) (job : Work α)
  /-- Send several jobs promptly, with no rest between them. -/
  | sendAll (whom : Address) (jobs : List (Work α))
  /-- Have a thread of its own send a job patiently. -/
  | sendAside (whom : Address) (job : Work α)
  /-- Ask what became of errand `n`. -/
  | collect (n : Nat)
  /-- Request a stop. -/
  | stop (whom : Address) (status : Int)
  /-- Let the worker go. -/
  | abandon (whom : Address)
  /-- Let the worker past its gate. -/
  | release (whom : Address)
  /-- Wait for the worker's end. -/
  | await (whom : Address)
  /-- Have another thread wait for the worker's end. -/
  | awaitAside (whom : Address)
  /-- Ask what wait `n` came to. -/
  | awaited (n : Nat)
  /-- Ask for a handle. -/
  | handle (whom : Address)
  /-- Read what a handle shows. -/
  | inspect (whom : Address)
  /-- Ask for the worker's name. -/
  | identity (whom : Address)
  /-- Have `threads` threads send `jobs` empty jobs each. -/
  | rush (whom : Address) (manner : Manner) (threads jobs : Nat)
  deriving Repr, DecidableEq

/-- The counts of a rush. -/
structure Tally where
  /-- How many jobs were accepted. -/
  accepted : Nat
  /-- How many were refused. -/
  refused : Nat
  /-- How many ran. -/
  ran : Nat
  /-- Whether the jobs of each thread ran in its order. -/
  inOrder : Bool
  /-- The most jobs of the worker that ever ran at a time. -/
  peak : Nat
  deriving Repr, DecidableEq

/-- What a command is answered. -/
inductive Answer where
  /-- It was done. -/
  | done
  /-- Worker `k` was hired. -/
  | hired (k : Nat) (identity : String)
  /-- The system refused the thread. -/
  | hireRefused (f : HireFailure)
  /-- The attempt to hire panicked. -/
  | panicked (p : HirePanic)
  /-- The job was refused. -/
  | refused (r : Refusal)
  /-- What became of several jobs. -/
  | receipts (rs : List Receipt)
  /-- It would wait for somebody who stands at a gate. -/
  | wouldWait
  /-- There is no such handle. -/
  | noHandle
  /-- There is no such worker. -/
  | noWorker
  /-- The worker has no owner any more. -/
  | gone
  /-- The worker does not stand at a gate. -/
  | notHeld
  /-- There is no such errand. -/
  | noErrand
  /-- There is no such wait, or it was answered before. -/
  | noWait
  /-- Errand `n` is on its way. -/
  | errand (n : Nat)
  /-- Wait `n` has begun. -/
  | wait (n : Nat)
  /-- There is handle `h`. -/
  | handle (h : Nat)
  /-- What a handle shows. -/
  | shown (identity : String) (closed : Bool) (pending : Nat)
  /-- A text. -/
  | text (s : String)
  /-- How the worker ended. -/
  | ended (o : Outcome)
  /-- The counts of a rush. -/
  | tally (t : Tally)
  deriving Repr, DecidableEq

/-- A job sent by a thread of its own. -/
structure Errand where
  /-- The client that sends it. -/
  client : Nat
  /-- The worker it is sent to. -/
  worker : Nat
  /-- Whether its end is known. -/
  settled : Bool := false
  deriving Repr, DecidableEq

/-- A wait for a worker's end, on a thread of its own. -/
structure Wait where
  /-- The worker waited for. -/
  worker : Nat
  /-- Whether the end was asked for and told. -/
  answered : Bool := false
  deriving Repr, DecidableEq

end Session

open Session in
/-- A session: the workshop, and what was handed out.  Every command that calls a
worker does so as a client of its own: whoever commands waits for the answer, and no
two of its calls are under way at a time. -/
structure Session (α : Type) where
  /-- The workshop, at rest. -/
  shop : Workshop α := {}
  /-- For each handle given out, its worker and its number there. -/
  handles : List (Nat × Nat) := []
  /-- The errands, in the order they were sent. -/
  errands : List Errand := []
  /-- The waits, in the order they were begun. -/
  waits : List Wait := []
  deriving Repr, DecidableEq

namespace Session

open Workshop

variable {α : Type}

/-! ## Whom a command means -/

/-- The worker that `whom` means and the handle used, whether or not the worker
has an owner. -/
def reach (s : Session α) : Address → Except Answer (Nat × Nat)
  | .handle h =>
      match s.handles[h]? with
      | none => .error .noHandle
      | some reached => .ok reached
  | .worker k => if k < s.shop.workers.length then .ok (k, 0) else .error .noWorker

/-- The worker that `whom` means and the handle used, or the reason there is none.
A worker without an owner can only be reached by a handle. -/
def resolve (s : Session α) (whom : Address) : Except Answer (Nat × Nat) :=
  match whom, s.reach whom with
  | .worker _, .ok (k, h) => if s.shop.owns k then .ok (k, h) else .error .gone
  | _, reached => reached

/-- The worker that `whom` means, where that has to have an owner. -/
def resolveOwned (s : Session α) (whom : Address) : Except Answer Nat :=
  match s.resolve whom with
  | .error a => .error a
  | .ok (k, _) => if s.shop.owns k then .ok k else .error .gone

/-! ## Errands -/

/-- Whether the end of errand `e` is known: its call has returned, and nobody who
stands at a gate stands between that call and its worker's end. -/
def known (w : Workshop α) (e : Errand) : Bool :=
  let returned := (w.clients[e.client]?).any fun client => client.sending.isNone
  returned && (w.workers[e.worker]?).any fun v => v.mailbox.isOpen || !v.held

/-- Takes note of the errands whose end has become known. -/
def note (s : Session α) : Session α :=
  { s with
    errands := s.errands.map fun e : Errand =>
      { e with settled := e.settled || known s.shop e } }

/-- The session at rest with workshop `w`. -/
def restWith (s : Session α) (w : Workshop α) : Session α :=
  note { s with shop := w.settle }

/-- What client `c` was last told. -/
def lastReceipt (w : Workshop α) (c : Nat) : Receipt :=
  ((w.clients[c]?).bind fun client =>
    if client.sending.isSome then none else client.receipts.getLast?).getD .waits

/-- A receipt as an answer. -/
def Answer.ofReceipt : Receipt → Answer
  | .accepted => .done
  | .refused r => .refused r
  | .waits => .wouldWait

/-! ## Sending -/

/-- Client `c` sends worker `k` a job; nothing happens if it cannot call now. -/
def callBy (w : Workshop α) (manner : Manner) (c k : Nat) (job : Work α) : Workshop α :=
  (w.call manner c k job).getD w

/-- Whether a patient client would wait for somebody who stands at a gate. -/
def wouldWait (w : Workshop α) (k : Nat) : Bool :=
  (w.workers[k]?).any fun v => v.held && v.mailbox.isOpen && v.mailbox.isFull

/-- Sends worker `k` a job. -/
def send (s : Session α) (k : Nat) (manner : Manner) (job : Work α) : Answer × Session α :=
  if manner = .patient ∧ wouldWait s.shop k then (.wouldWait, s)
  else
    let c := s.shop.clients.length
    let s' := s.restWith (callBy s.shop.welcome manner c k job)
    (.ofReceipt (lastReceipt s'.shop c), s')

/-- Client `c` sends worker `k` several jobs, and is told what became of each. -/
def sendAll (c k : Nat) : List (Work α) → Workshop α → List Receipt × Workshop α
  | [], w => ([], w)
  | job :: jobs, w =>
      let w' := callBy w .prompt c k job
      let rest := sendAll c k jobs w'
      (lastReceipt w' c :: rest.1, rest.2)

/-- Has a new client send worker `k` a job. -/
def sendAside (s : Session α) (k : Nat) (job : Work α) : Answer × Session α :=
  let c := s.shop.clients.length
  let errand : Errand := { client := c, worker := k }
  let s' : Session α := { s with errands := s.errands ++ [errand] }
  (.errand s.errands.length, s'.restWith (callBy s.shop.welcome .patient c k job))

/-! ## A rush -/

/-- The calls of a rush: `jobs` by each of `threads` new clients, numbered from
`first`. -/
def rushCalls (first threads jobs : Nat) : List Nat :=
  (List.range threads).flatMap fun t => List.replicate jobs (first + t)

/-- Makes the calls of a rush one after the other. -/
def rushWith (manner : Manner) (k : Nat) (calls : List Nat) (w : Workshop α) : Workshop α :=
  calls.foldl (fun w c => (callBy w manner c k .done).settle) w

/-- The tickets of the jobs of client `c` that worker `v` started, in order. -/
def startedTickets (v : Worker α) (c : Nat) : List Nat :=
  (v.started.filter fun mail => mail.sender == .client c).map (·.ticket)

/-- The counts of a rush of the clients numbered from `first`. -/
def tally (w : Workshop α) (v : Worker α) (first threads : Nat) : Tally :=
  let clients := (List.range threads).map (first + ·)
  let receipts := (w.clients.drop first).flatMap Client.receipts
  let tickets := clients.map (startedTickets v)
  { accepted := receipts.count .accepted
    refused := (receipts.filter fun r => r matches .refused _).length
    ran := tickets.flatten.length
    inOrder := tickets.all fun ts => decide (ts.Pairwise (· < ·))
    peak := v.peak }

/-- Has new clients send worker `k` empty jobs. -/
def rush (s : Session α) (k : Nat) (manner : Manner) (threads jobs : Nat) :
    Answer × Session α :=
  if (s.shop.workers[k]?).any fun v => v.held && v.mailbox.capacity.isSome then (.wouldWait, s)
  else
    let first := s.shop.clients.length
    let w : Workshop α := { s.shop with clients := s.shop.clients ++ List.replicate threads {} }
    let s' := s.restWith (rushWith manner k (rushCalls first threads jobs) w)
    match s'.shop.workers[k]? with
    | none => (.noWorker, s')
    | some v => (.tally (tally s'.shop v first threads), s')

/-! ## The end of a worker -/

/-- What somebody who waits for the end of worker `k` is told. -/
def endOf (w : Workshop α) (k : Nat) : Answer :=
  match (w.workers[k]?).bind Worker.verdict with
  | none => .wouldWait
  | some verdict => .ended verdict.outcome

/-- Whether worker `k` stands at a gate. -/
def held (w : Workshop α) (k : Nat) : Bool := (w.workers[k]?).any Worker.held

/-- Waits for the end of worker `k`. -/
def await (s : Session α) (k : Nat) : Answer × Session α :=
  if held s.shop k then (.wouldWait, s)
  else
    let s' := s.restWith ((s.shop.leave k).getD s.shop)
    (endOf s'.shop k, s')

/-- Answers wait `n` once its worker has ended. -/
def awaited (s : Session α) (n : Nat) : Answer × Session α :=
  match s.waits[n]? with
  | some ⟨k, false⟩ =>
      match endOf s.shop k with
      | .wouldWait => (.wouldWait, s)
      | a => (a, { s with waits := s.waits.modify n fun v => { v with answered := true } })
  | _ => (.noWait, s)

/-! ## All commands -/

/-- Goes on with whom a command means. -/
def withWorker (s : Session α) (whom : Address) (f : Nat → Nat → Answer × Session α) :
    Answer × Session α :=
  match s.resolve whom with
  | .error a => (a, s)
  | .ok (k, h) => f k h

/-- Goes on with whom a command means, which has to have an owner. -/
def withOwned (s : Session α) (whom : Address) (f : Nat → Answer × Session α) :
    Answer × Session α :=
  match s.resolveOwned whom with
  | .error a => (a, s)
  | .ok k => f k

/-- The answer to a hire. -/
def hiringAnswer (s : Session α) (identity : String) : Hiring α → Answer
  | .hired _ => .hired s.shop.workers.length identity
  | .refused f => .hireRefused f
  | .panicked p => .panicked p

/-- Performs a command: its answer, and the session at rest after it. -/
def perform (s : Session α) : Command α → Answer × Session α
  | .hire settings identity fault =>
      let hiring := s.shop.hire settings identity fault
      (s.hiringAnswer identity hiring, s.restWith (s.shop.afterHiring hiring))
  | .hireUsual identity fault =>
      let hiring := s.shop.hireUsual identity fault
      (s.hiringAnswer identity hiring, s.restWith (s.shop.afterHiring hiring))
  | .send whom manner job => s.withWorker whom fun k _ => s.send k manner job
  | .sendAll whom jobs =>
      s.withWorker whom fun k _ =>
        let sent := sendAll s.shop.clients.length k jobs s.shop.welcome
        (.receipts sent.1, s.restWith sent.2)
  | .sendAside whom job => s.withWorker whom fun k _ => s.sendAside k job
  | .collect n =>
      match s.errands[n]? with
      | none => (.noErrand, s)
      | some e => (if e.settled then .ofReceipt (lastReceipt s.shop e.client) else .wouldWait, s)
  | .stop whom status =>
      s.withOwned whom fun k => (.done, s.restWith ((s.shop.stop k status).getD s.shop))
  | .abandon whom => s.withOwned whom fun k => (.done, s.restWith ((s.shop.abandon k).getD s.shop))
  | .release whom =>
      match s.reach whom with
      | .error a => (a, s)
      | .ok (k, _) =>
          match s.shop.release k with
          | none => (.notHeld, s)
          | some w => (.done, s.restWith w)
  | .await whom => s.withOwned whom fun k => s.await k
  | .awaitAside whom =>
      s.withOwned whom fun k =>
        let s' : Session α := { s with waits := s.waits ++ [{ worker := k }] }
        (.wait s.waits.length, s'.restWith ((s.shop.leave k).getD s.shop))
  | .awaited n => s.awaited n
  | .handle whom =>
      s.withWorker whom fun k h =>
        let given := ((s.shop.workers[k]?).map fun v => v.mailbox.handles.length).getD 0
        let s' : Session α := { s with handles := s.handles ++ [(k, given)] }
        (.handle s.handles.length, s'.restWith (s.shop.cloneHandle k h))
  | .inspect whom =>
      s.withWorker whom fun k _ =>
        match whom, s.shop.workers[k]? with
        | .handle _, some v => (.shown v.mailbox.identity v.mailbox.isClosed v.mailbox.pending, s)
        | _, _ => (.noHandle, s)
  | .identity whom =>
      s.withWorker whom fun k _ =>
        match s.shop.workers[k]? with
        | none => (.noWorker, s)
        | some v => (.text v.mailbox.identity, s)
  | .rush whom manner threads jobs =>
      s.withWorker whom fun k _ => s.rush k manner threads jobs

end Session

end SerialWorkers
