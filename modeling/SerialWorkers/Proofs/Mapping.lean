import SerialWorkers.Service

/-!
# Mailboxes with other items

A mailbox does not look at its items.  Whoever changes each of them finds the mailbox
do and answer what it did, with the changed items.

* `Mailbox.map` — the mailbox with each item changed.
* `Mailbox.next_map`, `Mailbox.post_map`, `Mailbox.stop_map` — what it does then.
-/

namespace SerialWorkers

/-- A wake with its item changed by `g`. -/
def Wake.map {ι κ : Type} (g : ι → κ) : Wake ι → Wake κ
  | .item x => .item (g x)
  | .noticed => .noticed
  | .deserted => .deserted

namespace Mailbox

variable {ι κ : Type} (g : ι → κ) (m : Mailbox ι)

/-- The mailbox with each item changed by `g`. -/
def map : Mailbox κ :=
  ⟨m.identity, m.capacity, m.lifecycle, m.status, m.queue.map g, m.handles, m.notice,
    m.cancelSender, m.inbox⟩

@[simp] theorem isOpen_map : (m.map g).isOpen = m.isOpen := rfl

@[simp] theorem pending_map : (m.map g).pending = m.pending := List.length_map ..

@[simp] theorem isFull_map : (m.map g).isFull = m.isFull := by
  simp only [isFull, pending_map]
  rfl

@[simp] theorem outcome_map (reason : Reason) : (m.map g).outcome reason = m.outcome reason := by
  cases reason <;> rfl

@[simp] theorem reasonEvents_map (reason : Reason) :
    (m.map g).reasonEvents reason = m.reasonEvents reason := by
  cases reason <;> simp only [reasonEvents, pending_map] <;> rfl

@[simp] theorem exitEvent_map : (m.map g).exitEvent = m.exitEvent := by
  simp only [exitEvent, pending_map]
  rfl

theorem push_map (x : ι) : (m.map g).push (g x) = (m.push x).map g := by
  simp [push, map]

theorem freeInbox_map : (m.map g).freeInbox = m.freeInbox.map g := by
  cases hc : m.capacity <;> simp [freeInbox, map, hc]

theorem beginStop_map : (m.map g).beginStop = (m.beginStop.1, m.beginStop.2.map g) := by
  cases ho : m.isOpen with
  | false => simp only [beginStop, isOpen_map, ho, Bool.false_eq_true, if_false]
  | true =>
      simp only [beginStop, isOpen_map, ho, if_true]
      rfl

theorem giveNotice_map : (m.map g).giveNotice = (m.giveNotice.1, m.giveNotice.2.map g) := by
  cases hi : m.inbox <;> cases hn : m.notice <;> simp [giveNotice, map, hi, hn]

theorem stop_map (status : Int) :
    (m.map g).stop status = ((m.stop status).1, (m.stop status).2.map g) := by
  have hset : (m.map g).setStatus status = (m.setStatus status).map g := rfl
  simp only [stop, hset, beginStop_map]
  cases hb : (m.setStatus status).beginStop with
  | mk first box => cases first <;> simp [giveNotice_map]

theorem next_map :
    (m.map g).next = m.next.map fun p => (p.1.map g, p.2.map g) := by
  have hproducer : (m.map g).hasProducer = m.hasProducer := rfl
  have hcause : ((m.map g).notice || !(m.map g).cancelSender) = (m.notice || !m.cancelSender) := rfl
  unfold next
  rw [hcause, hproducer]
  cases hc : (m.notice || !m.cancelSender) with
  | true => rfl
  | false =>
      cases hq : m.queue with
      | nil => cases hp : m.hasProducer <;> simp [map, hq, Wake.map]
      | cons x rest => simp [map, hq, Wake.map]

theorem put_map (x : ι) : (m.map g).put (g x) = ((m.put x).1, (m.put x).2.map g) := by
  have hinbox : (m.map g).inbox = m.inbox := rfl
  unfold put
  rw [hinbox, isFull_map, push_map]
  split
  · rfl
  · split <;> rfl

theorem post_map (x : ι) : (m.map g).post (g x) = ((m.post x).1, (m.post x).2.map g) := by
  unfold post
  rw [isOpen_map, put_map]
  split <;> rfl

end Mailbox

end SerialWorkers
