import SerialWorkers.Session.Basic

/-!
# What a command brought about

After each command the session's user is shown every worker as it stands, and
what was logged and reported since the command was given.
-/

namespace SerialWorkers.Session

open Workshop

variable {α : Type}

/-- What a command brought about. -/
structure Report (α : Type) where
  /-- Every worker, as it stands. -/
  views : List View
  /-- By worker, what its jobs logged; workers without news are left out. -/
  log : List (Nat × List (Entry α))
  /-- By thread, what it reported; threads without news are left out. -/
  events : List (Thread × List Event)
  deriving Repr, DecidableEq

/-- What is new in each of the lists `new`, by number, against the lists `old`;
numbers without news are left out. -/
def newsByNumber {β : Type} (old new : List (List β)) : List (Nat × List β) :=
  (new.zipIdx.map fun (entries, k) =>
    (k, entries.drop ((old[k]?).map List.length |>.getD 0))).filter fun (_, news) => !news.isEmpty

/-- What the workers' jobs logged between the two states of a workshop. -/
def newEntries (old new : Workshop α) : List (Nat × List (Entry α)) :=
  newsByNumber (old.workers.map Worker.log) (new.workers.map Worker.log)

/-- What the threads reported between the two states of a workshop. -/
def newEvents (old new : Workshop α) : List (Thread × List Event) :=
  let outside := new.outside.drop old.outside.length
  let inside := newsByNumber (old.workers.map Worker.events) (new.workers.map Worker.events)
  (if outside.isEmpty then [] else [(.outside, outside)])
    ++ inside.map fun (k, es) => (.worker k, es)

/-- What was brought about between the sessions `old` and `new`. -/
def report (old new : Session α) : Report α where
  views := new.shop.workers.map Worker.view
  log := newEntries old.shop new.shop
  events := newEvents old.shop new.shop

end SerialWorkers.Session
