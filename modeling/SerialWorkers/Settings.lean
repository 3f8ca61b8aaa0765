import SerialWorkers.Failure

/-!
# The terms a worker is hired on

* `Settings.allocationPanic` — what is said where the mailbox is to be laid out.
* `Settings.threadName` — the name a worker's thread bears.
* `Settings.objection?` — what makes hiring on these terms panic, whatever the
  operating system would say.
-/

namespace SerialWorkers

/-- What a worker does when one of its jobs panics. -/
inductive PanicPolicy where
  /-- Retire at once, leaving what is queued. -/
  | retire
  /-- Go on with the next job. -/
  | carryOn
  deriving Repr, DecidableEq

/-- The word a policy is known by in the log. -/
def PanicPolicy.label : PanicPolicy → String
  | .retire => "Terminate"
  | .carryOn => "Continue"

/-- The message with which the checks of a bounded channel and of its buffer panic on
machines with words of 64 bits, if they do: the capacity has to leave two bits of a
word free, and the buffer, of 24 bytes for each place, has to be smaller than half of
what a word can address. -/
def allocationCheck : Option Nat → Option String
  | none => none
  | some n =>
      if 0x4000_0000_0000_0000 ≤ n then some "bounded channel capacity is too large"
      else if 0x8000_0000_0000_0000 ≤ n * 24 then some "capacity overflow"
      else none

/-- The terms of a worker's service. -/
structure Settings where
  /-- What its thread's name starts with. -/
  threadPrefix : String := "active-object"
  /-- How many jobs may be queued; `none` sets no bound. -/
  capacity : Option Nat := none
  /-- What it does about a panic. -/
  policy : PanicPolicy := .retire
  /-- The message with which laying out a mailbox of this capacity panics, if it does.
  That is not for the hirer to settle but for the machine the worker is hired on, as a
  fault of the operating system is, and nothing is proved of it: it may be any message
  for any capacity, at one time and not at another.  By default it is what the checks
  say.  Where a capacity passes them and there is no memory for it the process is
  aborted, so no such attempt is ever made in a run. -/
  allocationPanic : Option String := allocationCheck capacity
  deriving Repr, DecidableEq

/-- The name of the thread that serves `identity`. -/
def Settings.threadName (s : Settings) (identity : String) : String :=
  s.threadPrefix ++ "-" ++ identity

/-- A thread's name may not hold the character NUL. -/
def Settings.namesThread (s : Settings) (identity : String) : Bool :=
  !(s.threadName identity).toList.contains '\x00'

/-! ## Terms nobody can be hired on -/

/-- Whether the mailbox can be made: all places of a bounded one are laid out then, and
an unbounded one has none. -/
def Settings.Allocates (s : Settings) : Prop := s.capacity ≠ none → s.allocationPanic = none

instance (s : Settings) : Decidable s.Allocates :=
  inferInstanceAs (Decidable (s.capacity ≠ none → s.allocationPanic = none))

/-- What makes hiring a worker as `identity` on these terms panic, if anything:
the mailbox is made first, and then the thread is named. -/
def Settings.objection? (s : Settings) (identity : String) : Option HirePanic :=
  match s.capacity, s.allocationPanic with
  | some _, some message => some (.unallocated message)
  | _, _ => if s.namesThread identity then none else some .unnameable

/-- Where the mailbox can be made, only the name can be in the way. -/
theorem Settings.objection?_of_allocates {s : Settings} (h : s.Allocates) (identity : String) :
    s.objection? identity = if s.namesThread identity then none else some .unnameable := by
  unfold objection?
  split
  · rename_i hcapacity hpanic
    rw [h (by simp [hcapacity])] at hpanic
    cases hpanic
  · rfl

/-- Nothing stands in the way of hiring when the mailbox can be made and the
thread can be named. -/
theorem Settings.objection?_eq_none_iff {s : Settings} {identity : String} :
    s.objection? identity = none ↔ s.Allocates ∧ s.namesThread identity = true := by
  unfold objection? Allocates
  cases s.capacity with
  | none => simp
  | some n => cases s.allocationPanic <;> simp

end SerialWorkers
