import SerialWorkers.Fault

/-!
# Everything that can go wrong

Three kinds of failure, each a cause and not a text: a job is refused by a
mailbox, a worker breaks down, or a worker cannot be hired at all.  The wording
of each cause lives in one `message` function.

* `Failure.message` — the wording of any failure.
* `Failure.source` — the underlying fault, which only a hire has.
-/

namespace SerialWorkers

/-! ## Refused jobs -/

/-- Why a job was not taken into a mailbox. -/
inductive Refusal where
  /-- The mailbox takes no more jobs, ever. -/
  | closed
  /-- A bounded mailbox has no room now. -/
  | full
  deriving Repr, DecidableEq

/-- The wording of a refusal. -/
def Refusal.message : Refusal → String
  | .closed => "active object is closed"
  | .full => "mailbox is full"

/-! ## Workers that broke down -/

/-- How a worker ended, when it did not end in good order. -/
inductive Breakdown where
  /-- It was stopped with a status other than zero. -/
  | abnormal (status : Int)
  /-- A job panicked and the worker retired over it. -/
  | panicked (message : String)
  deriving Repr, DecidableEq

/-- The wording of a breakdown. -/
def Breakdown.message : Breakdown → String
  | .abnormal status => "worker killed with abnormal status " ++ toString status
  | .panicked message => "worker stopped after a work unit panicked: " ++ message

/-! ## Workers that could not be hired -/

/-- The operating system refused the thread a worker needs. -/
structure HireFailure where
  /-- The worker that was to be hired. -/
  identity : String
  /-- What the system said. -/
  fault : Fault
  deriving Repr, DecidableEq

/-- The wording of a failed hire. -/
def HireFailure.message (f : HireFailure) : String :=
  "failed to spawn worker thread for `" ++ f.identity ++ "`: " ++ f.fault.message

/-- Why an attempt to hire panics, and nobody is told of a failure. -/
inductive HirePanic where
  /-- The places of a bounded mailbox could not be laid out, and laying them out
  panicked with this message. -/
  | unallocated (message : String)
  /-- The name of the thread holds the character NUL. -/
  | unnameable
  /-- The operating system refused the thread, where a worker was taken for
  granted. -/
  | refused
  deriving Repr, DecidableEq

/-- What a panicking attempt to hire says. -/
def HirePanic.message : HirePanic → String
  | .unallocated message => message
  | .unnameable => "thread name may not contain interior null bytes"
  | .refused => "Failed to spawn active object worker thread"

/-! ## All failures together -/

/-- Any failure of the library. -/
inductive Failure where
  /-- A job was refused. -/
  | refusal (r : Refusal)
  /-- A worker broke down. -/
  | breakdown (b : Breakdown)
  /-- A worker could not be hired. -/
  | hire (f : HireFailure)
  deriving Repr, DecidableEq

/-- The wording of a failure. -/
def Failure.message : Failure → String
  | .refusal r => r.message
  | .breakdown b => b.message
  | .hire f => f.message

/-- The text of the fault behind a failure; only a failed hire has one. -/
def Failure.source : Failure → Option String
  | .hire f => some f.fault.message
  | _ => none

end SerialWorkers
