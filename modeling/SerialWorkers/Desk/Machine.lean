import SerialWorkers.Desk.Basic

/-!
# Running jobs at the desk

A job run at the desk may itself wait, or hand the inbox to a service, and so
have further jobs run inside it.  The machine keeps what is under way on a
stack, the innermost first, and moves by single steps.

* `Machine.step` — one step; `none` when all is done, or when a service stands
  at a wait that nothing can end.
* `Machine.start` — the machine that works off a request.
-/

namespace SerialWorkers.Desk

variable {α : Type}

/-! ## What is under way -/

/-- How a running job came to be delivered. -/
inductive Via where
  /-- By a wait. -/
  | waiting
  /-- By a service with this policy. -/
  | serving (policy : PanicPolicy)
  deriving Repr, DecidableEq

/-- One thing under way. -/
inductive Frame (α : Type) where
  /-- A job, with what is left of it. -/
  | job (via : Via) (rest : Work α)
  /-- A service, at its wait. -/
  | service (policy : PanicPolicy)
  deriving Repr, DecidableEq

/-- Whether the inbox is with the service this frame belongs to. -/
def Frame.holdsInbox : Frame α → Bool
  | .job .waiting _ => false
  | .job (.serving _) _ => true
  | .service _ => true

/-- A desk at work: what is under way, and the answer once nothing is. -/
structure Machine (α : Type) where
  /-- The desk. -/
  desk : Desk α
  /-- What is under way, the innermost first. -/
  stack : List (Frame α)
  /-- The answer to the request that set all off. -/
  answer : Option Reply := none
  deriving Repr, DecidableEq

namespace Machine

/-- Whether the inbox is with a service. -/
def lent (stack : List (Frame α)) : Bool := stack.any Frame.holdsInbox

/-- Brings the answer `r` of a request `c` that took its time back to whoever
made it: a job, which logs it, or the desk's user. -/
def answerTo (d : Desk α) (c : Call) (r : Reply) : List (Frame α) → Machine α
  | [] => { desk := d, stack := [], answer := some r }
  | below => { desk := d.write (.answered c r), stack := below }

/-- Ends a service for `reason`. -/
def endService (d : Desk α) (policy : PanicPolicy) (reason : Reason)
    (below : List (Frame α)) : Machine α :=
  answerTo (d.conclude reason) (.serve policy) (.served (d.mailbox.outcome reason)) below

/-- A job panics with `payload`. -/
def panic (d : Desk α) (payload : Payload) (below : List (Frame α)) : Via → Machine α
  | .waiting => answerTo d .wait (.woken (.panicked payload.message)) below
  | .serving policy =>
      let told := d.report [.jobPanicked d.mailbox.identity payload.message policy]
      match policy with
      | .retire => endService told policy (.panicked payload.message) below
      | .carryOn => { desk := told, stack := .service policy :: below }

/-- A job comes to its end. -/
def finish (d : Desk α) (below : List (Frame α)) : Via → Machine α
  | .waiting => answerTo d .wait (.woken .finished) below
  | .serving policy => { desk := d, stack := .service policy :: below }

/-- A job makes the request `c`. -/
def request (d : Desk α) (c : Call) (via : Via) (rest : Work α) (below : List (Frame α)) :
    Machine α :=
  match d.ask (lent (.job via rest :: below)) c with
  | (.replied r, d') => { desk := d'.write (.answered c r), stack := .job via rest :: below }
  | (.delivered mail, d') =>
      { desk := d', stack := .job .waiting mail.job :: .job via rest :: below }
  | (.serving policy, d') => { desk := d', stack := .service policy :: .job via rest :: below }

/-- One step of the machine. -/
def step (m : Machine α) : Option (Machine α) :=
  match m.stack with
  | [] => none
  | .service policy :: below =>
      match m.desk.mailbox.next with
      | none => none
      | some (.item mail, box) =>
          some { desk := (m.desk.deliver box mail).report [.jobBegan]
                 stack := .job (.serving policy) mail.job :: below }
      | some (.noticed, box) =>
          some (endService { m.desk with mailbox := box } policy .noticed below)
      | some (.deserted, box) =>
          some (endService { m.desk with mailbox := box } policy .deserted below)
  | .job via .done :: below => some (finish m.desk below via)
  | .job via (.act (.log v) rest) :: below =>
      some { desk := m.desk.write (.value v), stack := .job via rest :: below }
  | .job via (.act (.panic p) _) :: below => some (panic m.desk p below via)
  | .job via (.act (.call c) rest) :: below => some (request m.desk c via rest below)
  | .job via (.send route job rest) :: below =>
      let sent := m.desk.send route job
      some { desk := sent.2.write (.sent route.manner sent.1), stack := .job via rest :: below }

/-- The machine that works off the request `r`. -/
def start (d : Desk α) : Request α → Machine α
  | .send route job =>
      let sent := d.send route job
      { desk := sent.2, stack := [], answer := some sent.1 }
  | .call c =>
      match d.ask false c with
      | (.replied r, d') => { desk := d', stack := [], answer := some r }
      | (.delivered mail, d') => { desk := d', stack := [.job .waiting mail.job] }
      | (.serving policy, d') => { desk := d', stack := [.service policy] }

end Machine

end SerialWorkers.Desk
