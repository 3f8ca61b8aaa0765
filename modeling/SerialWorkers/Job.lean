/-!
# Jobs

A job is a finite list of acts.  Most acts are plain; one kind sends a further
job somewhere, so jobs nest.  `α` is the type of plain acts and `β` says where
and how a nested job is sent.

* `Job.weight` — a size that counts every nested act, however deep, and makes
  running a job always a step down.
* `Job.rest?` — what is left of a job after its next act.
* `Job.findSome?` — the first of its acts with a given property.
-/

namespace SerialWorkers

/-- A job: what is left to do. -/
inductive Job (α β : Type) where
  /-- Nothing is left. -/
  | done
  /-- Do `act`, then the rest. -/
  | act (act : α) (rest : Job α β)
  /-- Send `job` by `route`, then do the rest. -/
  | send (route : β) (job : Job α β) (rest : Job α β)
  deriving Repr, DecidableEq

namespace Job

variable {α β γ : Type}

/-- A size of a job that counts nested jobs with the steps that sending,
queueing and taking them up will cost. -/
def weight : Job α β → Nat
  | done => 0
  | act _ rest => 2 + rest.weight
  | send _ job rest => 4 + job.weight + rest.weight

@[simp] theorem weight_done : (done : Job α β).weight = 0 := rfl

@[simp] theorem weight_act (a : α) (rest : Job α β) : (act a rest).weight = 2 + rest.weight := rfl

@[simp] theorem weight_send (r : β) (job rest : Job α β) :
    (send r job rest).weight = 4 + job.weight + rest.weight := rfl

/-- What is left of a job after its next act. -/
def rest? : Job α β → Option (Job α β)
  | done => none
  | act _ rest => some rest
  | send _ _ rest => some rest

/-- What `f` makes of the first act of a job that it makes something of; the acts of nested
jobs are not asked. -/
def findSome? (f : α → Option γ) : Job α β → Option γ
  | done => none
  | act a rest => (f a).or (rest.findSome? f)
  | send _ _ rest => rest.findSome? f

end Job

end SerialWorkers
