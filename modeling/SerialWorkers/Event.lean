import SerialWorkers.Settings

/-!
# Log events

What a thread reports about its own doings.  Each event is a case with its
data; its level, message and fields are read off the case.
-/

namespace SerialWorkers

/-- How weighty an event is. -/
inductive Level where
  /-- Every single step. -/
  | trace
  /-- Turning points. -/
  | debug
  /-- Something went wrong. -/
  | error
  deriving Repr, DecidableEq

/-- The word a level is known by. -/
def Level.label : Level → String
  | .trace => "TRACE"
  | .debug => "DEBUG"
  | .error => "ERROR"

/-- One log event. -/
inductive Event where
  /-- A worker was hired, with this bound on its mailbox. -/
  | hired (identity : String) (capacity : Option Nat)
  /-- The first request to stop was made, with this status. -/
  | stopRequested (identity : String) (status : Int)
  /-- The worker began its service. -/
  | serviceBegan (identity : String)
  /-- The worker took up a job. -/
  | jobBegan
  /-- A job panicked. -/
  | jobPanicked (identity : String) (message : String) (policy : PanicPolicy)
  /-- The worker saw a request to stop with a status other than zero. -/
  | stoppedAbnormally (identity : String) (status : Int) (discarded : Nat)
  /-- The worker saw that nobody can send it a job any more. -/
  | deserted (identity : String)
  /-- The worker ended its service, leaving this many jobs behind. -/
  | serviceEnded (identity : String) (discarded : Nat)
  deriving Repr, DecidableEq

/-- A value attached to an event. -/
inductive FieldValue where
  /-- A text. -/
  | text (s : String)
  /-- A number. -/
  | number (n : Int)
  deriving Repr, DecidableEq

/-- The level of an event. -/
def Event.level : Event → Level
  | .jobBegan => .trace
  | .jobPanicked .. => .error
  | .stoppedAbnormally .. => .error
  | _ => .debug

/-- The message of an event. -/
def Event.message : Event → String
  | .hired .. => "active object spawned"
  | .stopRequested .. => "kill requested"
  | .serviceBegan _ => "active_object.worker.start"
  | .jobBegan => "active_object.worker.execute"
  | .jobPanicked .. => "work unit panicked"
  | .stoppedAbnormally .. => "worker was killed with abnormal status"
  | .deserted _ => "all producers dropped"
  | .serviceEnded .. => "active_object.worker.exit"

/-- How a bound on a mailbox is written in the log. -/
def capacityText : Option Nat → String
  | none => "None"
  | some n => "Some(" ++ toString n ++ ")"

/-- The fields of an event, by name. -/
def Event.fields : Event → List (String × FieldValue)
  | .hired identity capacity =>
      [("object", .text identity), ("capacity", .text (capacityText capacity))]
  | .stopRequested identity status => [("object", .text identity), ("status", .number status)]
  | .serviceBegan identity => [("object", .text identity)]
  | .jobBegan => []
  | .jobPanicked identity message policy =>
      [("object", .text identity), ("panic", .text message), ("policy", .text policy.label)]
  | .stoppedAbnormally identity status discarded =>
      [("object", .text identity), ("status", .number status), ("discarded", .number discarded)]
  | .deserted identity => [("object", .text identity)]
  | .serviceEnded identity discarded =>
      [("object", .text identity), ("discarded", .number discarded)]

/-- How many jobs an event says were left behind. -/
def Event.discarded? : Event → Option Nat
  | .stoppedAbnormally _ _ discarded => some discarded
  | .serviceEnded _ discarded => some discarded
  | _ => none

end SerialWorkers
