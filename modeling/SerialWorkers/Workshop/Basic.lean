import SerialWorkers.Workshop.Worker

/-!
# Workshops

A workshop holds workers and clients.  Clients are threads outside that send
jobs.  To send is a look at the lifecycle and then a put, and much may happen in
between: the mailbox may be closed, or have no room, and then a patient sender
waits in the call.  The jobs of workers send in the same way.  Everything that
happens is a move, and each move is one step of one participant, so the moves in
every order are all the runs there are.

* `Workshop.enter`, `Workshop.enterFrom` — a sender looks at the lifecycle.
* `Workshop.resume`, `Workshop.sendOn` — it puts its job in.
* `Workshop.call`, `Workshop.sendTo` — both, with nothing in between.
* `Workshop.work` — the next step of a worker's thread.
* `Workshop.move` — any move, where it can be made.
-/

namespace SerialWorkers

namespace Workshop

/-- Who reports an event. -/
inductive Thread where
  /-- Any thread that is no worker's. -/
  | outside
  /-- The thread of worker `k`. -/
  | worker (k : Nat)
  deriving Repr, DecidableEq

/-- A client: the call it is in, and what its earlier calls came to. -/
structure Client (α : Type) where
  /-- The worker whose mailbox it found open, and the job it has yet to put in. -/
  sending : Option (Nat × Mail α) := none
  /-- Whether it waits for room in that call. -/
  manner : Manner := .patient
  /-- What its calls came to, in order. -/
  receipts : List Receipt := []
  deriving Repr, DecidableEq

/-- The client is told what its call came to, and is in no call. -/
def Client.told {α : Type} (client : Client α) (r : Receipt) : Client α :=
  { receipts := client.receipts ++ [r] }

@[simp] theorem Client.sending_told {α : Type} (client : Client α) (r : Receipt) :
    (client.told r).sending = none := rfl

end Workshop

open Workshop in
/-- A workshop: its workers and clients by number, and what the threads outside
reported. -/
structure Workshop (α : Type) where
  /-- The workers, in the order they were hired. -/
  workers : List (Worker α) := []
  /-- The clients, in the order they came. -/
  clients : List (Client α) := []
  /-- What threads that are no worker's reported. -/
  outside : List Event := []
  deriving Repr, DecidableEq

namespace Workshop

variable {α : Type}

/-! ## Changing one participant -/

/-- Changes worker `k`. -/
def change (w : Workshop α) (k : Nat) (f : Worker α → Worker α) : Workshop α :=
  { w with workers := w.workers.modify k f }

/-- Changes client `c`. -/
def changeClient (w : Workshop α) (c : Nat) (f : Client α → Client α) : Workshop α :=
  { w with clients := w.clients.modify c f }

/-- Reports an event by `thread`. -/
def report (w : Workshop α) (thread : Thread) (e : Event) : Workshop α :=
  match thread with
  | .outside => { w with outside := w.outside ++ [e] }
  | .worker k => w.change k (·.report [e])

/-! ## Hiring -/

/-- What came of a hire. -/
inductive Hiring (α : Type) where
  /-- There is one more worker. -/
  | hired (w : Workshop α)
  /-- The operating system refused the thread. -/
  | refused (f : HireFailure)
  /-- The attempt panicked. -/
  | panicked (p : HirePanic)
  deriving Repr, DecidableEq

/-- Hires a worker, where `fault` is what the operating system says to a new
thread, if it refuses one.  Terms nobody can be hired on are found out before
the system is asked. -/
def hire (w : Workshop α) (settings : Settings) (identity : String) (fault : Option Fault) :
    Hiring α :=
  match settings.objection? identity, fault with
  | some p, _ => .panicked p
  | none, some fault => .refused ⟨identity, fault⟩
  | none, none =>
      .hired ({ w with workers := w.workers ++ [Worker.hired settings identity] }.report .outside
        (.hired identity settings.capacity))

/-- Hires a worker on the usual terms; a refusal is a panic. -/
def hireUsual (w : Workshop α) (identity : String) (fault : Option Fault) : Hiring α :=
  match w.hire {} identity fault with
  | .refused _ => .panicked .refused
  | other => other

/-- The workshop after a hire; a failed one leaves no trace. -/
def afterHiring (w : Workshop α) : Hiring α → Workshop α
  | .hired w' => w'
  | _ => w

/-! ## Stopping -/

/-- Requests worker `k` to stop, on `thread`, which reports the first request. -/
def stopBy (w : Workshop α) (thread : Thread) (k : Nat) (status : Int) : Workshop α :=
  match w.workers[k]? with
  | none => w
  | some v =>
      let w' := w.change k fun v => (v.stop status).2
      if (v.stop status).1 then w'.report thread (.stopRequested v.mailbox.identity status) else w'

/-- Whether worker `k` still has its owner. -/
def owns (w : Workshop α) (k : Nat) : Bool := (w.workers[k]?).any (·.owned)

/-- Stops worker `k` with status zero on behalf of its owner, unless somebody
has stopped it before. -/
def stopUnlessStopped (w : Workshop α) (k : Nat) : Workshop α :=
  match w.workers[k]? with
  | none => w
  | some v => if v.mailbox.isOpen then w.stopBy .outside k 0 else w

/-! ## Clients -/

/-- Client `c` sends worker `k` a job, with nothing between its look at the lifecycle
and the put; it stays in the call if it is patient and there is no room.  It can call
only when it is in no other call. -/
def call (w : Workshop α) (manner : Manner) (c k : Nat) (job : Work α) : Option (Workshop α) :=
  match w.clients[c]?, w.workers[k]? with
  | some client, some v =>
      if client.sending.isSome then none
      else
        let posted := v.post (.client c) job
        let w' := w.change k fun _ => posted.2
        match posted.1.inManner manner with
        | .waits =>
            some (w'.changeClient c fun client =>
              { client with sending := some (k, v.mailFrom (.client c) job), manner := manner })
        | r => some (w'.changeClient c (·.told r))
  | _, _ => none

/-- Client `c` looks at the lifecycle of worker `k` to send it a job, and finds the
mailbox open.  Where it is closed the call ends with that look, as in `call`. -/
def enter (w : Workshop α) (manner : Manner) (c k : Nat) (job : Work α) : Option (Workshop α) :=
  match w.clients[c]?, w.workers[k]? with
  | some client, some v =>
      if client.sending.isSome || v.mailbox.isClosed then none
      else
        some ((w.change k fun _ => v.counted).changeClient c fun client =>
          { client with sending := some (k, v.mailFrom (.client c) job), manner := manner })
  | _, _ => none

/-- Client `c`, which found a mailbox open, puts its job in: unless it is patient and
there is no room, the call is over.  It does not look at the lifecycle again. -/
def resume (w : Workshop α) (c : Nat) : Option (Workshop α) :=
  match w.clients[c]? with
  | none => none
  | some client =>
      match client.sending with
      | none => none
      | some (k, mail) =>
          match w.workers[k]? with
          | none => none
          | some v =>
              let put := v.put mail
              let r := put.1.inManner client.manner
              if r = .waits then none
              else
                some ((w.change k fun _ => put.2).changeClient c (·.told r))

/-! ## Workers -/

/-- Whether a job that worker `k` runs would wait for ever if it waited for room
at worker `t`: that is itself, or stands at a gate. -/
def wouldWait (k t : Nat) (v : Worker α) : Bool :=
  (k == t || v.held) && v.mailbox.isOpen && v.mailbox.isFull

/-- Worker `k` sends a job to worker `t`, in a job with `rest` left to do. -/
def sendTo (w : Workshop α) (k t : Nat) (manner : Manner) (job rest : Work α) : Workshop α :=
  match w.workers[t]? with
  | none => w.change k fun v => (v.write (.sent manner (.refused .closed))).resume rest
  | some v =>
      let posted := v.post (.worker k) job
      let w' := w.change t fun _ => posted.2
      match posted.1.inManner manner with
      | .waits =>
          w'.change k fun u =>
            { u with phase := .sending manner t (v.mailFrom (.worker k) job) rest }
      | r => w'.change k fun u => (u.write (.sent manner r)).resume rest

/-- Worker `k` sends a job to worker `t`, unless it would have to wait for ever. -/
def sendFrom (w : Workshop α) (k t : Nat) (manner : Manner) (job rest : Work α) : Workshop α :=
  if manner = .patient ∧ (w.workers[t]?).any (wouldWait k t) then
    w.change k fun u => (u.write (.sent manner .waits)).resume rest
  else w.sendTo k t manner job rest

/-- Worker `k`, in a job with `rest` left to do, looks at the lifecycle of worker `t` to
send it a job, and finds the mailbox open. -/
def enterTo (w : Workshop α) (k t : Nat) (manner : Manner) (job rest : Work α) :
    Option (Workshop α) :=
  match w.workers[t]? with
  | none => none
  | some v =>
      if v.mailbox.isClosed then none
      else
        some ((w.change t fun _ => v.counted).change k fun u =>
          { u with phase := .sending manner t (v.mailFrom (.worker k) job) rest })

/-- Worker `k`, which found the mailbox of worker `t` open, puts `mail` in: unless it
is patient and there is no room, its job goes on. -/
def sendOn (w : Workshop α) (k t : Nat) (manner : Manner) (mail : Mail α) (rest : Work α) :
    Option (Workshop α) :=
  match w.workers[t]? with
  | none => none
  | some v =>
      let put := v.put mail
      let r := put.1.inManner manner
      if r = .waits then none
      else
        some ((w.change t fun _ => put.2).change k fun u =>
          (u.write (.sent manner r)).resume rest)

/-- Worker `k` requests worker `t` to stop, in a job with `rest` left to do. -/
def stopFrom (w : Workshop α) (k t : Nat) (status : Int) (rest : Work α) : Workshop α :=
  if w.owns t then (w.stopBy (.worker k) t status).change k (·.resume rest)
  else w.change k fun u => (u.write .ownerGone).resume rest

/-- Worker `k` logs what can be seen of worker `t`, in a job with `rest` left. -/
def viewFrom (w : Workshop α) (k t : Nat) (rest : Work α) : Workshop α :=
  match w.workers[t]? with
  | none => w.change k (·.resume rest)
  | some v => w.change k fun u => (u.write (.view v.view)).resume rest

/-- The next step of the thread of worker `k`. -/
def work (w : Workshop α) (k : Nat) : Option (Workshop α) :=
  match w.workers[k]? with
  | none => none
  | some v =>
      match v.phase with
      | .running (.act (.view whom) rest) => some (w.viewFrom k (whom.getD k) rest)
      | .running (.act (.stop status whom) rest) => some (w.stopFrom k (whom.getD k) status rest)
      | .running (.send route job rest) =>
          some (w.sendFrom k (route.whom.getD k) route.manner job rest)
      | .sending manner t mail rest => w.sendOn k t manner mail rest
      | _ => v.advance.map fun v' => w.change k fun _ => v'

/-- The job that worker `k` runs sends another one, come what may: it does not ask
first whether it would have to wait for ever. -/
def insist (w : Workshop α) (k : Nat) : Option (Workshop α) :=
  match (w.workers[k]?).map Worker.phase with
  | some (.running (.send route job rest)) =>
      some (w.sendTo k (route.whom.getD k) route.manner job rest)
  | _ => none

/-- The job that worker `k` runs looks at the lifecycle of whom it sends another one,
and finds the mailbox open. -/
def enterFrom (w : Workshop α) (k : Nat) : Option (Workshop α) :=
  match (w.workers[k]?).map Worker.phase with
  | some (.running (.send route job rest)) =>
      w.enterTo k (route.whom.getD k) route.manner job rest
  | _ => none

/-! ## Owners -/

/-- Lets worker `k` pass the gate it stands at. -/
def release (w : Workshop α) (k : Nat) : Option (Workshop α) :=
  match (w.workers[k]?).bind Worker.pastGate with
  | none => none
  | some v' => some (w.change k fun _ => v')

/-- The owner of worker `k` requests it to stop. -/
def stop (w : Workshop α) (k : Nat) (status : Int) : Option (Workshop α) :=
  if w.owns k then some (w.stopBy .outside k status) else none

/-- The owner of worker `k` gives it up to wait for its end: it is stopped first,
unless it was before. -/
def leave (w : Workshop α) (k : Nat) : Option (Workshop α) :=
  if w.owns k then some ((w.stopUnlessStopped k).change k fun v => { v with owned := false })
  else none

/-- The owner of worker `k` lets it go: it is stopped first, unless it was
before, and then the handle and the cancel sender of its owner are dropped. -/
def abandon (w : Workshop α) (k : Nat) : Option (Workshop α) :=
  if w.owns k then
    some ((w.stopUnlessStopped k).change k fun v =>
      { v with owned := false, mailbox := (v.mailbox.dropHandle 0).dropCancelSender })
  else none

/-! ## All moves -/

/-- Anything that can happen in a workshop, as one step of one participant. -/
inductive Move (α : Type) where
  /-- Somebody hires a worker. -/
  | hire (settings : Settings) (identity : String) (fault : Option Fault)
  /-- A new client comes. -/
  | welcome
  /-- Client `c` sends worker `k` a job at once. -/
  | call (manner : Manner) (c k : Nat) (job : Work α)
  /-- Client `c` looks at the lifecycle of worker `k` to send it a job. -/
  | enter (manner : Manner) (c k : Nat) (job : Work α)
  /-- Client `c` puts its job in. -/
  | resume (c : Nat)
  /-- The thread of worker `k` takes its next step. -/
  | work (k : Nat)
  /-- The job that worker `k` runs sends another one, come what may. -/
  | insist (k : Nat)
  /-- The job that worker `k` runs looks at the lifecycle of whom it sends another one. -/
  | enterFrom (k : Nat)
  /-- Worker `k` is let past its gate. -/
  | release (k : Nat)
  /-- The owner of worker `k` requests it to stop. -/
  | stop (k : Nat) (status : Int)
  /-- The owner of worker `k` gives it up to wait for its end. -/
  | leave (k : Nat)
  /-- The owner of worker `k` lets it go. -/
  | abandon (k : Nat)
  /-- Somebody copies handle `h` of worker `k`. -/
  | cloneHandle (k h : Nat)
  /-- Somebody lets go of handle `h` of worker `k`, other than its owner's. -/
  | dropHandle (k h : Nat)
  deriving Repr, DecidableEq

/-- A new client comes. -/
def welcome (w : Workshop α) : Workshop α := { w with clients := w.clients ++ [{}] }

/-- Copies handle `h` of worker `k`. -/
def cloneHandle (w : Workshop α) (k h : Nat) : Workshop α :=
  w.change k fun v => { v with mailbox := v.mailbox.cloneHandle h }

/-- Lets go of handle `h` of worker `k`. -/
def dropHandle (w : Workshop α) (k h : Nat) : Workshop α :=
  w.change k fun v => { v with mailbox := v.mailbox.dropHandle h }

/-- The workshop after a move; `none` where the move cannot be made. -/
def move (w : Workshop α) : Move α → Option (Workshop α)
  | .hire settings identity fault => some (w.afterHiring (w.hire settings identity fault))
  | .welcome => some w.welcome
  | .call manner c k job => w.call manner c k job
  | .enter manner c k job => w.enter manner c k job
  | .resume c => w.resume c
  | .work k => w.work k
  | .insist k => w.insist k
  | .enterFrom k => w.enterFrom k
  | .release k => w.release k
  | .stop k status => w.stop k status
  | .leave k => w.leave k
  | .abandon k => w.abandon k
  | .cloneHandle k h => some (w.cloneHandle k h)
  | .dropHandle k h => if h = 0 then none else some (w.dropHandle k h)

end Workshop

end SerialWorkers
