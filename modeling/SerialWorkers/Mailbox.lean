import SerialWorkers.Failure

/-!
# Mailboxes

A mailbox queues items for one reader.  Beside the queue it has a slot for one
notice to stop, the status last recorded, and a lifecycle that only moves
forward.  Producers hold numbered handles; the reader holds the inbox.

* `Mailbox.post` — put an item in, as a producer.
* `Mailbox.next` — what the reader's wait returns.
* `Mailbox.stop` — record a status and, the first time, close the mailbox and
  leave the notice.
-/

namespace SerialWorkers

/-! ## Lifecycle -/

/-- Where a mailbox and its reader are in their life. -/
inductive Lifecycle where
  /-- Items are taken in and worked off. -/
  | running
  /-- A stop was requested and the reader has not yet seen it. -/
  | stopping
  /-- The reader is gone for good. -/
  | ended
  deriving Repr, DecidableEq

/-- The word a stage of life is known by. -/
def Lifecycle.label : Lifecycle → String
  | .running => "Running"
  | .stopping => "Terminating"
  | .ended => "Terminated"

/-! ## What a mailbox answers -/

/-- What became of an item that was to be put in. -/
inductive Receipt where
  /-- It is queued. -/
  | accepted
  /-- It is not, and will not be. -/
  | refused (r : Refusal)
  /-- It is not yet: there is no room now. -/
  | waits
  deriving Repr, DecidableEq

/-- How a producer sends. -/
inductive Manner where
  /-- It waits for room. -/
  | patient
  /-- It never waits. -/
  | prompt
  deriving Repr, DecidableEq

/-- A prompt producer takes "no room now" for an answer. -/
def Receipt.inManner : Receipt → Manner → Receipt
  | .waits, .prompt => .refused .full
  | r, _ => r

/-- A producer is told to wait when the mailbox says so, and only then, and only if
it is patient. -/
theorem Receipt.inManner_eq_waits_iff {r : Receipt} {manner : Manner} :
    r.inManner manner = .waits ↔ r = .waits ∧ manner = .patient := by
  cases r <;> cases manner <;> simp [inManner]

/-- Every producer is told that its item is queued when the mailbox says so, and only
then. -/
theorem Receipt.inManner_eq_accepted_iff {r : Receipt} {manner : Manner} :
    r.inManner manner = .accepted ↔ r = .accepted := by
  cases r <;> cases manner <;> simp [inManner]

/-- What became of a notice to stop. -/
inductive NoticeReceipt where
  /-- It waits in the slot. -/
  | left
  /-- Another one waits in the slot already. -/
  | slotTaken
  /-- There is no inbox to read it. -/
  | unread
  deriving Repr, DecidableEq

/-- Why the reader's wait returned. -/
inductive Wake (ι : Type) where
  /-- The next item, in the order they were taken in. -/
  | item (x : ι)
  /-- There was a notice to stop, or nobody is left to leave one. -/
  | noticed
  /-- The queue is empty and nobody is left to fill it. -/
  | deserted
  deriving Repr, DecidableEq

/-! ## The mailbox -/

/-- A mailbox of items of type `ι`. -/
structure Mailbox (ι : Type) where
  /-- Whose mailbox it is. -/
  identity : String
  /-- How many items may be queued; `none` sets no bound. -/
  capacity : Option Nat := none
  /-- The stage of life. -/
  lifecycle : Lifecycle := .running
  /-- The status last recorded. -/
  status : Int := 0
  /-- The items queued, the next one first. -/
  queue : List ι := []
  /-- For every handle given out so far, whether it is still held. -/
  handles : List Bool := [true]
  /-- Whether a notice to stop waits in the slot. -/
  notice : Bool := false
  /-- Whether the cancel sender is still held, by which a notice is left. -/
  cancelSender : Bool := true
  /-- Whether the reader still holds the inbox. -/
  inbox : Bool := true
  deriving Repr, DecidableEq

namespace Mailbox

variable {ι : Type}

/-- How many items are queued. -/
def pending (m : Mailbox ι) : Nat := m.queue.length

/-- Whether the mailbox is still open to producers. -/
def isOpen (m : Mailbox ι) : Bool := m.lifecycle == .running

/-- Whether the mailbox has stopped taking items. -/
def isClosed (m : Mailbox ι) : Bool := !m.isOpen

/-- Whether a bounded mailbox has no room. -/
def isFull (m : Mailbox ι) : Bool :=
  match m.capacity with
  | none => false
  | some n => decide (n ≤ m.pending)

/-- Whether handle `h` is held. -/
def holds (m : Mailbox ι) (h : Nat) : Bool := m.handles.getD h false

/-- Whether any producer is left. -/
def hasProducer (m : Mailbox ι) : Bool := m.handles.any id

/-! ### Producers -/

/-- Queues `x` behind all others. -/
def push (m : Mailbox ι) (x : ι) : Mailbox ι := { m with queue := m.queue ++ [x] }

/-- Queues `x` if there is an inbox and room for it, whatever the lifecycle. -/
def put (m : Mailbox ι) (x : ι) : Receipt × Mailbox ι :=
  if !m.inbox then (.refused .closed, m)
  else if m.isFull then (.waits, m)
  else (.accepted, m.push x)

/-- Puts `x` in as a producer does: only while the mailbox is open. -/
def post (m : Mailbox ι) (x : ι) : Receipt × Mailbox ι :=
  if m.isOpen then m.put x else (.refused .closed, m)

/-- Gives out one more handle, a copy of `h`: held if `h` is, and otherwise a
dead number. -/
def cloneHandle (m : Mailbox ι) (h : Nat) : Mailbox ι :=
  { m with handles := m.handles ++ [m.holds h] }

/-- Lets go of handle `h`. -/
def dropHandle (m : Mailbox ι) (h : Nat) : Mailbox ι :=
  { m with handles := m.handles.set h false }

/-! ### Stopping -/

/-- Records a status. -/
def setStatus (m : Mailbox ι) (status : Int) : Mailbox ι := { m with status := status }

/-- Moves from running to stopping; says whether it did. -/
def beginStop (m : Mailbox ι) : Bool × Mailbox ι :=
  if m.isOpen then (true, { m with lifecycle := .stopping }) else (false, m)

/-- Moves to the last stage of life, from wherever. -/
def markEnded (m : Mailbox ι) : Mailbox ι := { m with lifecycle := .ended }

/-- Leaves a notice to stop, if there is an inbox and the slot is free. -/
def giveNotice (m : Mailbox ι) : NoticeReceipt × Mailbox ι :=
  if !m.inbox then (.unread, m)
  else if m.notice then (.slotTaken, m)
  else (.left, { m with notice := true })

/-- Drops the cancel sender. -/
def dropCancelSender (m : Mailbox ι) : Mailbox ι := { m with cancelSender := false }

/-- Requests a stop: the status is recorded every time, and the first request
closes the mailbox and leaves the notice.  Says whether it was the first. -/
def stop (m : Mailbox ι) (status : Int) : Bool × Mailbox ι :=
  match (m.setStatus status).beginStop with
  | (true, m') => (true, m'.giveNotice.2)
  | (false, m') => (false, m')

/-! ### The reader -/

/-- What the reader's wait returns, and the mailbox after it; `none` if the
wait goes on.  A notice beats queued items, and queued items are still handed
out after the last producer has gone. -/
def next (m : Mailbox ι) : Option (Wake ι × Mailbox ι) :=
  if m.notice || !m.cancelSender then some (.noticed, { m with notice := false })
  else match m.queue with
    | x :: rest => some (.item x, { m with queue := rest })
    | [] => if m.hasProducer then none else some (.deserted, m)

/-- Frees the inbox: an unbounded queue is thrown away with it, a bounded one
stays as it was. -/
def freeInbox (m : Mailbox ι) : Mailbox ι :=
  { m with inbox := false, queue := if m.capacity.isNone then [] else m.queue }

/-! ### What the wait says about the mailbox -/

/-- A wait hands out the item at the head of the queue. -/
theorem next_eq_item {m m' : Mailbox ι} {x : ι} (h : m.next = some (.item x, m')) :
    m.notice = false ∧ m.cancelSender = true ∧ m.queue = x :: m'.queue
      ∧ m' = { m with queue := m'.queue } := by
  unfold next at h
  split at h
  · cases h
  · rename_i hn
    simp only [Bool.or_eq_true, Bool.not_eq_true', not_or, Bool.not_eq_true,
      Bool.not_eq_false] at hn
    split at h
    · rename_i y rest hq
      cases h
      exact ⟨hn.1, hn.2, hq, rfl⟩
    · split at h <;> cases h

/-- A wait that returns with a notice has emptied the slot. -/
theorem next_eq_noticed {m m' : Mailbox ι} (h : m.next = some (.noticed, m')) :
    (m.notice = true ∨ m.cancelSender = false) ∧ m' = { m with notice := false } := by
  unfold next at h
  split at h
  · rename_i hn
    cases h
    exact ⟨by simpa using hn, rfl⟩
  · split at h
    · cases h
    · split at h <;> cases h

/-- A wait finds the mailbox deserted only when nothing is queued. -/
theorem next_eq_deserted {m m' : Mailbox ι} (h : m.next = some (.deserted, m')) :
    m.notice = false ∧ m.cancelSender = true ∧ m.queue = [] ∧ m.hasProducer = false ∧ m' = m := by
  unfold next at h
  split at h
  · cases h
  · rename_i hn
    simp only [Bool.or_eq_true, Bool.not_eq_true', not_or, Bool.not_eq_true,
      Bool.not_eq_false] at hn
    split at h
    · cases h
    · rename_i hq
      split at h
      · cases h
      · rename_i hp
        cases h
        exact ⟨hn.1, hn.2, hq, by simpa using hp, rfl⟩

/-- **When a wait goes on.**  There is no notice, somebody could leave one,
nothing is queued, and somebody could send something. -/
theorem next_eq_none_iff {m : Mailbox ι} :
    m.next = none ↔
      m.notice = false ∧ m.cancelSender = true ∧ m.queue = [] ∧ m.hasProducer = true := by
  unfold next
  split
  · rename_i hn
    simp only [Bool.or_eq_true, Bool.not_eq_true'] at hn
    simp only [reduceCtorEq, false_iff, not_and]
    intro h1 h2
    rcases hn with hn | hn <;> simp_all
  · rename_i hn
    simp only [Bool.or_eq_true, Bool.not_eq_true', not_or, Bool.not_eq_true,
      Bool.not_eq_false] at hn
    split
    · rename_i hq
      simp [hq]
    · rename_i hq
      split <;> simp_all

/-- The queue is left alone by every wake but an item. -/
theorem queue_next {m m' : Mailbox ι} {w : Wake ι} (h : m.next = some (w, m'))
    (hw : ∀ x, w ≠ .item x) : m'.queue = m.queue := by
  cases w with
  | item x => exact absurd rfl (hw x)
  | noticed => rw [(next_eq_noticed h).2]
  | deserted => rw [(next_eq_deserted h).2.2.2.2]

@[simp] theorem queue_giveNotice (m : Mailbox ι) : m.giveNotice.2.queue = m.queue := by
  unfold giveNotice
  split
  · rfl
  · split <;> rfl

@[simp] theorem queue_beginStop (m : Mailbox ι) : m.beginStop.2.queue = m.queue := by
  unfold beginStop
  split <;> rfl

@[simp] theorem queue_setStatus (m : Mailbox ι) (status : Int) :
    (m.setStatus status).queue = m.queue := rfl

@[simp] theorem queue_stop (m : Mailbox ι) (status : Int) : (m.stop status).2.queue = m.queue := by
  unfold stop
  split <;> rename_i m' h <;> have := congrArg (fun p => p.2.queue) h <;> simp at this <;>
    simp [this]

end Mailbox

end SerialWorkers
