import Mathlib.Data.List.Forall2
import SerialWorkers.Proofs.Desk.Conservation

/-!
# Bounds that are never hit

A mailbox with more room does what one with less room does, as long as nobody finds that one
full.  There is one thing to be seen of the difference: once the inbox is freed, handles go
on to show what is left in the queue of a bounded mailbox, and nothing in that of an unbounded
one.  Nobody is ever told more of it than that.

* `Mailbox.widened` — a mailbox with another bound.
* `Desk.Wider` — two desks, one with more room, of which the same has come.
* `Machine.Wider.step`, `Machine.Wider.happens`, `Machine.Wider.happens_back` — whatever goes
  on at the one goes on at the other.
* `Desk.unhit_bound` — a bound that is never hit changes nothing.
-/

namespace SerialWorkers

/-! ## Mailboxes -/

namespace Mailbox

variable {ι : Type} {m box : Mailbox ι} {n : Nat} {c : Option Nat}

/-- The mailbox as it would be with the bound `c`, where it has one that was never hit. -/
def widened (c : Option Nat) (m : Mailbox ι) : Mailbox ι :=
  { m with capacity := c, queue := if m.inbox || c.isSome then m.queue else [] }

/-- With its inbox it differs in nothing else. -/
theorem widened_of_inbox (hi : m.inbox = true) : m.widened c = { m with capacity := c } := by
  simp [widened, hi]

theorem pending_widened (c : Option Nat) (m : Mailbox ι) :
    (m.widened c).pending = if m.inbox || c.isSome then m.pending else 0 := by
  simp only [pending, widened]
  split <;> rfl

theorem beginStop_widened (c : Option Nat) (m : Mailbox ι) :
    (m.widened c).beginStop = (m.beginStop.1, m.beginStop.2.widened c) := by
  have ho : (m.widened c).isOpen = m.isOpen := rfl
  unfold beginStop
  rw [ho]
  split <;> rfl

theorem giveNotice_widened (c : Option Nat) (m : Mailbox ι) :
    (m.widened c).giveNotice = (m.giveNotice.1, m.giveNotice.2.widened c) := by
  have hi : (m.widened c).inbox = m.inbox := rfl
  have hn : (m.widened c).notice = m.notice := rfl
  unfold giveNotice
  rw [hi, hn]
  split
  · rfl
  · split <;> rfl

/-- The queue is thrown away or kept, as the bound is `c`. -/
theorem freeInbox_widened (hn : m.capacity = some n) (hi : m.inbox = true) :
    (m.widened c).freeInbox = m.freeInbox.widened c := by
  cases c <;> simp [widened, freeInbox, hn, hi]

theorem next_widened (hi : m.inbox = true) :
    (m.widened c).next = m.next.map fun p => (p.1, p.2.widened c) := by
  rw [widened_of_inbox hi]
  have hproducer : ({ m with capacity := c } : Mailbox ι).hasProducer = m.hasProducer := rfl
  unfold next
  simp only [hproducer]
  split
  · simp [widened, hi]
  · split
    · simp [widened, hi]
    · split <;> simp [widened, hi]

/-- What a wait may return, it may where the bound is another one. -/
theorem Wakes.widened (hi : m.inbox = true) {w : Wake ι} (h : m.Wakes w box) :
    (m.widened c).Wakes w (box.widened c) := by
  cases h with
  | notice hn => exact .notice hn
  | ownerGone hn hw => exact .ownerGone hn hw
  | @item x rest hn hq =>
      rw [widened_of_inbox hi, widened_of_inbox (m := { m with queue := rest }) hi]
      exact .item hn hq
  | deserted hn hq hp =>
      rw [widened_of_inbox hi]
      exact .deserted hn hq hp

/-- And it may return nothing else there. -/
theorem Wakes.of_widened (hi : m.inbox = true) {w : Wake ι} {box' : Mailbox ι}
    (h : (m.widened c).Wakes w box') : ∃ box, m.Wakes w box ∧ box' = box.widened c := by
  rw [widened_of_inbox hi] at h
  cases h with
  | notice hn => exact ⟨_, .notice hn, (widened_of_inbox (m := { m with notice := false }) hi).symm⟩
  | ownerGone hn hw => exact ⟨_, .ownerGone hn hw, (widened_of_inbox hi).symm⟩
  | @item x rest hn hq =>
      exact ⟨_, .item hn hq, (widened_of_inbox (m := { m with queue := rest }) hi).symm⟩
  | deserted hn hq hp => exact ⟨_, .deserted hn hq hp, (widened_of_inbox hi).symm⟩

/-- A wait leaves the inbox and the bound alone. -/
theorem Wakes.kept {w : Wake ι} (h : m.Wakes w box) :
    box.inbox = m.inbox ∧ box.capacity = m.capacity := by
  cases h <;> exact ⟨rfl, rfl⟩

/-- **Where there is room, there is room under a wider bound.** -/
theorem post_widened (hn : m.capacity = some n) (hc : ∀ b, c = some b → n ≤ b) {x : ι}
    (hr : (m.post x).1 ≠ .waits) :
    (m.widened c).post x = ((m.post x).1, (m.post x).2.widened c) := by
  have ho : (m.widened c).isOpen = m.isOpen := rfl
  have hinbox : (m.widened c).inbox = m.inbox := rfl
  unfold post at hr ⊢
  rw [ho]
  by_cases hopen : m.isOpen = true
  · rw [if_pos hopen] at hr
    simp only [hopen, if_true]
    unfold put at hr ⊢
    rw [hinbox]
    cases hi : m.inbox with
    | false => simp
    | true =>
        simp only [hi, Bool.not_true, Bool.false_eq_true, if_false] at hr ⊢
        by_cases hf : m.isFull = true
        · rw [if_pos hf] at hr
          exact absurd rfl hr
        · have hroom : (m.widened c).isFull = false := by
            simp only [isFull, hn, decide_eq_true_eq] at hf
            cases c with
            | none => rfl
            | some b =>
                have hle := hc b rfl
                have hp : (m.widened (some b)).pending = m.pending := by
                  simp [pending_widened]
                simp only [isFull, hp]
                simp only [widened, decide_eq_false_iff_not]
                omega
          rw [hroom, if_neg hf]
          simp [push, widened, hi]
  · simp [hopen]

theorem reasonEvents_widened (hi : m.inbox = true) (reason : Reason) :
    (m.widened c).reasonEvents reason = m.reasonEvents reason := by
  rw [widened_of_inbox hi]
  cases reason <;> rfl

theorem exitEvent_widened (hi : m.inbox = true) : (m.widened c).exitEvent = m.exitEvent := by
  rw [widened_of_inbox hi]
  rfl

end Mailbox

namespace Desk

variable {α : Type} {n : Nat} {c : Option Nat}

/-! ## Replies -/

/-- The reply where the bound is `c`, with or without the inbox at hand: handles show nothing
in an unbounded mailbox without one. -/
def Reply.shown (inbox : Bool) (c : Option Nat) : Reply → Reply
  | .handle identity closed pending =>
      .handle identity closed (if inbox || c.isSome then pending else 0)
  | r => r

/-- An entry about such a reply. -/
def Entry.shown (inbox : Bool) (c : Option Nat) : Entry α → Entry α
  | .answered call r => .answered call (r.shown inbox c)
  | e => e

@[simp] theorem Reply.shown_inbox (c : Option Nat) (r : Reply) : r.shown true c = r := by
  cases r <;> rfl

@[simp] theorem Entry.shown_inbox (c : Option Nat) (x : Entry α) : x.shown true c = x := by
  cases x <;> simp [shown]

/-! ## Desks side by side -/

/-- Of desks `d` and `e` the same has come, where `d` has the bound `n` and `e` the bound `c`. -/
structure Wider (n : Nat) (c : Option Nat) (d e : Desk α) : Prop where
  /-- One has the bound `n`. -/
  bound : d.mailbox.capacity = some n
  /-- The other has the same mailbox with the bound `c`. -/
  mailbox : e.mailbox = d.mailbox.widened c
  /-- The same was logged, but for what handles have shown since the inbox was freed. -/
  log : ∃ held since, d.log = held ++ since ∧ e.log = held ++ since.map (Entry.shown false c) ∧
    (d.mailbox.inbox = true → since = [])
  /-- The same was told. -/
  events : e.events = d.events
  /-- As many jobs were sent. -/
  attempts : e.attempts = d.attempts
  /-- The same jobs were accepted. -/
  accepted : e.accepted = d.accepted
  /-- The same jobs were delivered. -/
  delivered : e.delivered = d.delivered

theorem wider_fresh (identity : String) (n : Nat) (c : Option Nat) :
    Wider n c (fresh identity (some n)) (fresh identity c : Desk α) where
  bound := rfl
  mailbox := by simp [fresh, Mailbox.widened]
  log := ⟨[], [], rfl, rfl, fun _ => rfl⟩
  events := rfl
  attempts := rfl
  accepted := rfl
  delivered := rfl

variable {d e : Desk α}

theorem Wider.write (h : Wider n c d e) (x : Entry α) :
    Wider n c (d.write x) (e.write (x.shown d.mailbox.inbox c)) := by
  obtain ⟨held, since, hd, he, hi⟩ := h.log
  refine ⟨h.bound, h.mailbox, ?_, h.events, h.attempts, h.accepted, h.delivered⟩
  cases hinbox : d.mailbox.inbox with
  | true =>
      obtain rfl := hi hinbox
      refine ⟨held ++ [x], [], ?_, ?_, fun _ => rfl⟩
      · simp [Desk.write, hd]
      · simp [Desk.write, he]
  | false =>
      refine ⟨held, since ++ [x], ?_, ?_, fun hi => ?_⟩
      · simp [Desk.write, hd]
      · simp [Desk.write, he]
      · exact absurd (hinbox.symm.trans hi) (by simp)

theorem Wider.report (h : Wider n c d e) (es : List Event) :
    Wider n c (d.report es) (e.report es) :=
  ⟨h.bound, h.mailbox, h.log, congrArg (· ++ es) h.events, h.attempts, h.accepted, h.delivered⟩

/-- The mailbox is changed, and no inbox comes back. -/
theorem Wider.withMailbox (h : Wider n c d e) (box : Mailbox (Mail α))
    (hn : box.capacity = d.mailbox.capacity) (hi : box.inbox = true → d.mailbox.inbox = true) :
    Wider n c { d with mailbox := box } { e with mailbox := box.widened c } := by
  obtain ⟨held, since, hd, he, hsince⟩ := h.log
  exact ⟨hn.trans h.bound, rfl, ⟨held, since, hd, he, fun hbox => hsince (hi hbox)⟩, h.events,
    h.attempts, h.accepted, h.delivered⟩

/-- A wait returns. -/
theorem Wider.woken (h : Wider n c d e) {w : Wake (Mail α)} {box : Mailbox (Mail α)}
    (hw : d.mailbox.Wakes w box) :
    Wider n c { d with mailbox := box } { e with mailbox := box.widened c } :=
  h.withMailbox box hw.kept.2 fun hbox => hw.kept.1.symm.trans hbox

theorem Wider.deliver (h : Wider n c d e) {box : Mailbox (Mail α)} {mail : Mail α}
    (hw : d.mailbox.Wakes (.item mail) box) :
    Wider n c (d.deliver box mail) (e.deliver (box.widened c) mail) := by
  have hbox := h.woken hw
  exact ⟨hbox.bound, rfl, hbox.log, hbox.events, hbox.attempts, hbox.accepted,
    congrArg (· ++ [mail]) h.delivered⟩

theorem Wider.inbox (h : Wider n c d e) : e.mailbox.inbox = d.mailbox.inbox := by
  rw [h.mailbox]
  rfl

/-- What a wait may return at the one, it may at the other. -/
theorem Wider.wakes (h : Wider n c d e) (hi : d.mailbox.inbox = true) {w : Wake (Mail α)}
    {box : Mailbox (Mail α)} (hw : d.mailbox.Wakes w box) :
    e.mailbox.Wakes w (box.widened c) := by
  rw [h.mailbox]
  exact hw.widened hi

/-- And it may return nothing else there. -/
theorem Wider.wakes_back (h : Wider n c d e) (hi : e.mailbox.inbox = true) {w : Wake (Mail α)}
    {box' : Mailbox (Mail α)} (hw : e.mailbox.Wakes w box') :
    ∃ box, d.mailbox.Wakes w box ∧ box' = box.widened c := by
  rw [h.mailbox] at hw
  exact hw.of_widened (h.inbox.symm.trans hi)

/-- A service ends with its inbox at hand, and so both count the same. -/
theorem Wider.conclude (h : Wider n c d e) (hi : d.mailbox.inbox = true) (reason : Reason) :
    Wider n c (d.conclude reason) (e.conclude reason) := by
  have hend := (h.report (d.mailbox.reasonEvents reason ++ [d.mailbox.exitEvent])).withMailbox
    d.mailbox.markEnded rfl id
  obtain ⟨box, log, events, attempts, accepted, delivered⟩ := e
  obtain rfl := h.mailbox
  simp only [Desk.conclude, Mailbox.reasonEvents_widened hi, Mailbox.exitEvent_widened hi,
    List.append_assoc]
  exact hend

/-! ## Requests side by side -/

/-- What a request comes to where the bound is `c`. -/
def Begun.shown (inbox : Bool) (c : Option Nat) : Begun α → Begun α
  | .replied r => .replied (r.shown inbox c)
  | b => b

/-- Two requests have come to the same. -/
structure Begun.Wider (n : Nat) (c : Option Nat) (p q : Begun α × Desk α) : Prop where
  /-- They came to the same at once. -/
  begun : q.1 = p.1.shown p.2.mailbox.inbox c
  /-- They left the same behind. -/
  desk : Desk.Wider n c p.2 q.2

/-- A request that is answered, and changes nothing but the mailbox. -/
theorem Wider.replied (h : Wider n c d e) {box : Mailbox (Mail α)} {r r' : Reply}
    (hn : box.capacity = d.mailbox.capacity) (hi : box.inbox = true → d.mailbox.inbox = true)
    (hr : r' = r.shown box.inbox c) :
    Begun.Wider n c (.replied r, { d with mailbox := box })
      (.replied r', { e with mailbox := box.widened c }) :=
  ⟨congrArg Begun.replied hr, h.withMailbox _ hn hi⟩

/-- **A request, other than to send a job, comes to the same under either bound.** -/
theorem Wider.ask (h : Wider n c d e) (lent : Bool) (call : Call) :
    Begun.Wider n c (d.ask lent call) (e.ask lent call) := by
  obtain ⟨box, log, events, attempts, accepted, delivered⟩ := e
  obtain rfl := h.mailbox
  cases call with
  | cloneHandle k | dropHandle k | dropCancelSender =>
      refine h.replied rfl id ?_
      rw [apply_ite (Reply.shown _ c)]
      rfl
  | setStatus | markEnded => exact h.replied rfl id rfl
  | isOpen | identity => exact ⟨rfl, h⟩
  | inspect k =>
      have hholds : (d.mailbox.widened c).holds k = d.mailbox.holds k := rfl
      refine ⟨?_, h⟩
      simp only [Desk.ask, Begun.shown, Mailbox.pending_widened, hholds]
      split <;> rfl
  | beginStop =>
      simp only [Desk.ask, Mailbox.beginStop_widened]
      refine h.replied ?_ ?_ rfl <;> (unfold Mailbox.beginStop; split)
      · rfl
      · rfl
      · exact id
      · exact id
  | giveNotice =>
      have hw : (d.mailbox.widened c).cancelSender = d.mailbox.cancelSender := rfl
      simp only [Desk.ask, Mailbox.giveNotice_widened, hw]
      split
      · refine h.replied ?_ ?_ rfl <;> (unfold Mailbox.giveNotice; split)
        · rfl
        · split <;> rfl
        · exact id
        · split <;> exact id
      · exact ⟨rfl, h⟩
  | look =>
      refine ⟨?_, h⟩
      cases hi : d.mailbox.inbox with
      | false => simp [Desk.ask, Begun.shown, Reply.shown, view, Mailbox.widened, hi]
      | true =>
          simp [Desk.ask, Begun.shown, Reply.shown, view, Mailbox.pending, Mailbox.widened, hi]
  | dropInbox =>
      have hinbox : (d.mailbox.widened c).inbox = d.mailbox.inbox := rfl
      simp only [Desk.ask, hinbox]
      split
      · rename_i hi
        rw [Mailbox.freeInbox_widened h.bound (Bool.and_eq_true_iff.1 hi).1]
        exact h.replied rfl (by simp [Mailbox.freeInbox]) rfl
      · exact ⟨rfl, h⟩
  | wait =>
      have hinbox : (d.mailbox.widened c).inbox = d.mailbox.inbox := rfl
      simp only [Desk.ask, hinbox]
      split
      · rename_i hi
        rw [Mailbox.next_widened (Bool.and_eq_true_iff.1 hi).1]
        cases hn : d.mailbox.next with
        | none => exact ⟨rfl, h⟩
        | some p =>
            obtain ⟨w, box⟩ := p
            have hw := Mailbox.wakes_of_next hn
            cases w with
            | item mail => exact ⟨rfl, h.deliver hw⟩
            | noticed | deserted =>
                exact h.replied hw.kept.2 (fun hbox => hw.kept.1.symm.trans hbox) rfl
      · exact ⟨rfl, h⟩
  | serve policy =>
      have hinbox : (d.mailbox.widened c).inbox = d.mailbox.inbox := rfl
      simp only [Desk.ask, hinbox]
      split
      · rename_i hi
        rw [Mailbox.next_widened (Bool.and_eq_true_iff.1 hi).1, Option.isNone_map]
        split
        · exact ⟨rfl, h⟩
        · exact ⟨rfl, h.report _⟩
      · exact ⟨rfl, h⟩

/-! ## Jobs sent side by side -/

/-- Whether the answer to whoever sends a job is that the mailbox is full, be it that the
sender would have to wait. -/
def Reply.isHit : Reply → Bool
  | .refused .full => true
  | .wouldWait => true
  | _ => false

/-- A sender that is not told so would not have to wait. -/
theorem post_ne_waits {route : Route} {job : Work α} (hh : d.mailbox.holds route.handle = true)
    (hfree : (d.send route job).1.isHit = false) :
    (d.mailbox.post ⟨d.attempts, route.handle, job⟩).1 ≠ .waits := by
  intro hw
  simp only [send, hh, Bool.not_true, Bool.false_eq_true, if_false, hw] at hfree
  cases hm : route.manner <;> simp [hm, Receipt.inManner, Reply.isHit] at hfree

/-- **A job that does not find the mailbox full is sent in the same way under either bound.** -/
theorem Wider.send (h : Wider n c d e) (hc : ∀ b, c = some b → n ≤ b) {route : Route}
    {job : Work α} (hfree : (d.send route job).1.isHit = false) :
    (e.send route job).1 = (d.send route job).1 ∧
      Wider n c (d.send route job).2 (e.send route job).2 := by
  have hholds : e.mailbox.holds route.handle = d.mailbox.holds route.handle := by
    rw [h.mailbox]
    rfl
  unfold Desk.send
  rw [hholds, h.attempts]
  split
  · exact ⟨rfl, h⟩
  · rename_i hh
    simp only [Bool.not_eq_true', Bool.not_eq_false] at hh
    have hpost := Mailbox.post_widened h.bound hc (post_ne_waits hh hfree)
    rw [← h.mailbox] at hpost
    simp only [hpost]
    split
    · rename_i haccepted
      have hpush := post_eq_push haccepted
      have hbox := h.withMailbox (d.mailbox.post ⟨d.attempts, route.handle, job⟩).2
        (by rw [hpush]; rfl) (by rw [hpush]; exact id)
      exact ⟨rfl, hbox.bound, rfl, hbox.log, hbox.events, rfl, congrArg (· ++ [_]) h.accepted,
        hbox.delivered⟩
    · exact ⟨rfl, h.bound, h.mailbox, h.log, h.events, rfl, h.accepted, h.delivered⟩
    · exact ⟨rfl, h⟩

theorem Wider.sending (h : Wider n c d e) (hc : ∀ b, c = some b → n ≤ b) {route : Route}
    {job : Work α} (hfree : (d.send route job).1.isHit = false) :
    e.sending route job = d.sending route job := by
  rw [Desk.sending, Desk.sending, (h.send hc hfree).1, h.attempts]

/-- Whoever sends a job is told nothing of what is queued. -/
theorem shown_send (d : Desk α) (route : Route) (job : Work α) (inbox : Bool) (c : Option Nat) :
    (d.send route job).1.shown inbox c = (d.send route job).1 := by
  unfold Desk.send
  split
  · rfl
  · simp only
    split <;> rfl

/-! ## Machines side by side -/

namespace Machine

/-- Of the desks of two machines the same has come, and so of what is under way. -/
structure Wider (n : Nat) (c : Option Nat) (m k : Machine α) : Prop where
  /-- Of the desks the same has come. -/
  desk : Desk.Wider n c m.desk k.desk
  /-- The same is under way. -/
  stack : k.stack = m.stack
  /-- The same was answered. -/
  answer : k.answer = m.answer.map (Reply.shown m.desk.mailbox.inbox c)

variable {m m' k k' : Machine α} {below : List (Frame α)}

theorem wider_answerTo (h : Desk.Wider n c d e) (below : List (Frame α)) (call : Call)
    (r : Reply) : Wider n c (answerTo d call r below)
      (answerTo e call (r.shown d.mailbox.inbox c) below) := by
  cases below with
  | nil => exact ⟨h, rfl, rfl⟩
  | cons f below => exact ⟨h.write (.answered call r), rfl, rfl⟩

/-- The wait of a job or of the user returns. -/
theorem wider_awake (h : Desk.Wider n c d e) {w : Wake (Mail α)} {box : Mailbox (Mail α)}
    (hw : d.mailbox.Wakes w box) :
    Wider n c (awake d below w box) (awake e below w (box.widened c)) := by
  have hbox := h.woken hw
  cases w with
  | item mail => exact ⟨h.deliver hw, rfl, rfl⟩
  | noticed => exact wider_answerTo hbox below .wait (.woken .noticed)
  | deserted => exact wider_answerTo hbox below .wait (.woken .deserted)

theorem wider_endService (h : Desk.Wider n c d e) (hi : d.mailbox.inbox = true)
    (policy : PanicPolicy) (reason : Reason) :
    Wider n c (endService d policy reason below) (endService e policy reason below) := by
  have houtcome : e.mailbox.outcome reason = d.mailbox.outcome reason := by
    rw [h.mailbox]
    rfl
  rw [endService, endService, houtcome]
  exact wider_answerTo (h.conclude hi reason) below (.serve policy) (.served _)

/-- The wait of a service returns. -/
theorem wider_woken (h : Desk.Wider n c d e) (hi : d.mailbox.inbox = true)
    (policy : PanicPolicy) {w : Wake (Mail α)} {box : Mailbox (Mail α)}
    (hw : d.mailbox.Wakes w box) :
    Wider n c (woken d policy below w box) (woken e policy below w (box.widened c)) := by
  have hbox := h.woken hw
  have hibox : box.inbox = true := hw.kept.1.trans hi
  cases w with
  | item mail => exact ⟨(h.deliver hw).report [.jobBegan], rfl, rfl⟩
  | noticed => exact wider_endService hbox hibox policy .noticed
  | deserted => exact wider_endService hbox hibox policy .deserted

/-- A job panics. -/
theorem wider_panic (h : Desk.Wider n c d e) (p : Payload) {via : Via} {rest : Work α}
    (ha : lent (.job via rest :: below) = true → d.mailbox.inbox = true) :
    Wider n c (panic d p below via) (panic e p below via) := by
  have hname : e.mailbox.identity = d.mailbox.identity := by
    rw [h.mailbox]
    rfl
  cases via with
  | waiting => exact wider_answerTo h below .wait (.woken (.panicked p.message))
  | serving policy =>
      have htold := h.report [.jobPanicked d.mailbox.identity p.message policy]
      simp only [panic, hname]
      cases policy with
      | retire => exact wider_endService htold (ha rfl) .retire (.panicked p.message)
      | carryOn => exact ⟨htold, rfl, rfl⟩

/-- A job comes to its end. -/
theorem wider_finish (h : Desk.Wider n c d e) (via : Via) :
    Wider n c (finish d below via) (finish e below via) := by
  cases via with
  | waiting => exact wider_answerTo h below .wait (.woken .finished)
  | serving policy => exact ⟨h, rfl, rfl⟩

/-- A job makes a request, other than to send a job. -/
theorem wider_request (h : Desk.Wider n c d e) (call : Call) (via : Via) (rest : Work α) :
    Wider n c (request d call via rest below) (request e call via rest below) := by
  obtain ⟨hbegun, hdesk⟩ := h.ask (lent (.job via rest :: below)) call
  unfold request
  generalize d.ask (lent (.job via rest :: below)) call = p at hbegun hdesk ⊢
  generalize e.ask (lent (.job via rest :: below)) call = q at hbegun hdesk ⊢
  obtain ⟨b, d'⟩ := p
  obtain ⟨b', e'⟩ := q
  obtain rfl := hbegun
  cases b with
  | replied r => exact ⟨hdesk.write (.answered call r), rfl, rfl⟩
  | delivered mail | serving policy => exact ⟨hdesk, rfl, rfl⟩

/-- No sender is told that the mailbox is full. -/
def Free (ss : List (Sending α)) : Prop := ∀ x ∈ ss, x.reply.isHit = false

instance (ss : List (Sending α)) : Decidable (Free ss) :=
  inferInstanceAs (Decidable (∀ x ∈ ss, x.reply.isHit = false))

/-- **One step of both.**  Unless a job that is sent finds the mailbox full, either both take
their next step and send the same, or neither can. -/
theorem Wider.step (h : Wider n c m k) (hc : ∀ b, c = some b → n ≤ b) (ha : m.Attended)
    (hfree : Free m.sendings) : k.sendings = m.sendings ∧
      ((m.step = none ∧ k.step = none) ∨
        ∃ m' k', m.step = some m' ∧ k.step = some k' ∧ Wider n c m' k') := by
  obtain ⟨d, stack, a⟩ := m
  obtain ⟨e, stack', a'⟩ := k
  obtain ⟨hdesk, hstack, hanswer⟩ := h
  simp only at hstack hdesk
  subst hstack
  cases stack' with
  | nil => exact ⟨rfl, .inl ⟨rfl, rfl⟩⟩
  | cons f below =>
      cases f with
      | service policy =>
          have hi : d.mailbox.inbox = true := ha rfl
          refine ⟨rfl, ?_⟩
          rw [step_service, step_service, hdesk.mailbox, Mailbox.next_widened hi]
          cases hn : d.mailbox.next with
          | none => exact .inl ⟨rfl, rfl⟩
          | some p =>
              have hw := Mailbox.wakes_of_next hn
              exact .inr ⟨_, _, rfl, rfl, wider_woken hdesk hi policy hw⟩
      | job via job =>
          cases job with
          | done => exact ⟨rfl, .inr ⟨_, _, rfl, rfl, wider_finish hdesk via⟩⟩
          | send route job rest =>
              have hreply : (d.send route job).1.isHit = false := hfree _ (List.mem_singleton.2 rfl)
              obtain ⟨hsame, hsent⟩ := hdesk.send hc hreply
              refine ⟨congrArg (fun x => [x]) (hdesk.sending hc hreply), .inr ⟨_, _, rfl, rfl, ?_⟩⟩
              rw [hsame]
              exact ⟨hsent.write (.sent route.manner (d.send route job).1), rfl, rfl⟩
          | act a rest =>
              refine ⟨rfl, .inr ?_⟩
              cases a with
              | log v => exact ⟨_, _, rfl, rfl, hdesk.write (.value v), rfl, rfl⟩
              | panic p => exact ⟨_, _, rfl, rfl, wider_panic hdesk p ha⟩
              | call call => exact ⟨_, _, rfl, rfl, wider_request hdesk call via rest⟩

/-- **A request of the user.**  Unless a job that is sent finds the mailbox full, it comes to
the same under either bound. -/
theorem wider_start (h : Desk.Wider n c d e) (hc : ∀ b, c = some b → n ≤ b) {r : Request α}
    (hfree : Free (d.sendings r)) :
    e.sendings r = d.sendings r ∧ Wider n c (start d r) (start e r) := by
  cases r with
  | send route job =>
      have hreply : (d.send route job).1.isHit = false := hfree _ (List.mem_singleton.2 rfl)
      obtain ⟨hsame, hsent⟩ := h.send hc hreply
      refine ⟨congrArg (fun x => [x]) (h.sending hc hreply), hsent, rfl, ?_⟩
      simp only [start, hsame, Option.map_some, shown_send]
  | call call =>
      refine ⟨rfl, ?_⟩
      obtain ⟨hbegun, hdesk⟩ := h.ask false call
      simp only [start]
      generalize d.ask false call = p at hbegun hdesk ⊢
      generalize e.ask false call = q at hbegun hdesk ⊢
      obtain ⟨b, d'⟩ := p
      obtain ⟨b', e'⟩ := q
      obtain rfl := hbegun
      cases b with
      | replied r => exact ⟨hdesk, rfl, rfl⟩
      | delivered mail | serving policy => exact ⟨hdesk, rfl, rfl⟩

/-! ## Histories side by side -/

end Machine

/-- One thing that happens at a desk. -/
structure Incident (α : Type) where
  /-- What the user asks for, if it is the user's doing. -/
  request : Option (Request α)
  /-- What is sent in it. -/
  sent : List (Sending α)
  /-- What it leaves. -/
  after : Machine α

namespace Machine

variable {i j : Incident α} {ss : List (Sending α)}

/-- What may happen next, as an incident. -/
inductive MayMeet : Machine α → Incident α → Prop
  /-- The user makes a request. -/
  | asked (d : Desk α) (a : Option Reply) (r : Request α) :
      MayMeet { desk := d, stack := [], answer := a } ⟨some r, d.sendings r, start d r⟩
  /-- The user waits, and the wait returns. -/
  | wakes {d : Desk α} {a : Option Reply} {w : Wake (Mail α)} {box : Mailbox (Mail α)}
      (hi : d.mailbox.inbox = true) (hw : d.mailbox.Wakes w box) :
      MayMeet { desk := d, stack := [], answer := a } ⟨some (.call .wait), [], awake d [] w box⟩
  /-- What is under way goes on. -/
  | goes {m m' : Machine α} {ss : List (Sending α)} (hm : m.stack ≠ []) (h : Happens m ss m') :
      MayMeet m ⟨none, ss, m'⟩

/-- All that can happen is an incident, and nothing else is. -/
theorem happens_iff_mayMeet : Happens m ss m' ↔ ∃ r, m.MayMeet ⟨r, ss, m'⟩ := by
  constructor
  · intro h
    cases h with
    | asked d a r => exact ⟨some r, .asked d a r⟩
    | wakes hi hw => exact ⟨some (.call .wait), .wakes hi hw⟩
    | wakesJob hi hl hw => exact ⟨none, .goes nofun (.wakesJob hi hl hw)⟩
    | goes hg =>
        refine ⟨none, .goes (fun hm => ?_) (.goes hg)⟩
        cases hg with
        | wakes => cases hm
        | step hstep =>
            rw [step.eq_def, hm] at hstep
            cases hstep
  · rintro ⟨r, h⟩
    cases h with
    | asked d a r => exact .asked d a r
    | wakes hi hw => exact .wakes hi hw
    | goes hm h => exact h

/-- A history: one incident after the other. -/
def Meets : Machine α → List (Incident α) → Prop
  | _, [] => True
  | m, i :: is => m.MayMeet i ∧ i.after.Meets is

end Machine

/-- Two incidents that come to the same, at desks of which the same has come. -/
structure Incident.Like (n : Nat) (c : Option Nat) (i j : Incident α) : Prop where
  /-- The user asks for the same. -/
  request : j.request = i.request
  /-- The same is sent, and answered in the same way. -/
  sent : j.sent = i.sent
  /-- The same comes of it. -/
  after : Machine.Wider n c i.after j.after

namespace Machine

variable {i j : Incident α} {is js : List (Incident α)}

theorem attended_of_mayMeet {m : Machine α} (ha : m.Attended) (h : m.MayMeet i) :
    i.after.Attended :=
  (turns_of_happens ha (happens_iff_mayMeet.2 ⟨i.request, h⟩)).2

variable {m m' k k' : Machine α}

/-- **Whatever happens at the desk with the bound `n` happens at the other as well**, unless a
job that is sent finds the mailbox full. -/
theorem Wider.mayMeet (h : Wider n c m k) (hc : ∀ b, c = some b → n ≤ b) (ha : m.Attended)
    (hi : m.MayMeet i) (hfree : Free i.sent) : ∃ j, k.MayMeet j ∧ Incident.Like n c i j := by
  have hdesk := h.desk
  obtain ⟨e, stack, a'⟩ := k
  obtain rfl := h.stack
  cases hi with
  | asked d a r =>
      obtain ⟨hsent, hstart⟩ := wider_start hdesk hc hfree
      exact ⟨_, .asked e a' r, rfl, hsent, hstart⟩
  | wakes hi hw =>
      exact ⟨_, .wakes (hdesk.inbox.trans hi) (hdesk.wakes hi hw), rfl, rfl, wider_awake hdesk hw⟩
  | goes hm happens =>
      cases happens with
      | asked | wakes => exact absurd rfl hm
      | wakesJob hi hl hw =>
          exact ⟨_, .goes hm (.wakesJob (hdesk.inbox.trans hi) hl (hdesk.wakes hi hw)), rfl, rfl,
            wider_awake hdesk hw⟩
      | goes hg =>
          obtain ⟨hsent, hstep⟩ := h.step hc ha hfree
          cases hg with
          | wakes hw =>
              have hi := ha rfl
              exact ⟨_, .goes hm (.goes (.wakes (hdesk.wakes hi hw))), rfl, hsent,
                wider_woken hdesk hi _ hw⟩
          | step hs =>
              rcases hstep with ⟨hnone, -⟩ | ⟨m', k', hm', hk', hnext⟩
              · rw [hs] at hnone
                cases hnone
              · rw [hs] at hm'
                cases hm'
                exact ⟨_, .goes hm (.goes (.step hk')), rfl, hsent, hnext⟩

/-- A machine that is to send a job can do so. -/
theorem exists_step_of_not_free (h : ¬ Free m.sendings) : ∃ m', m.step = some m' := by
  obtain ⟨d, stack, a⟩ := m
  match stack with
  | .job _ (.send ..) :: _ => exact ⟨_, rfl⟩
  | [] | .service _ :: _ | .job _ .done :: _ | .job _ (.act ..) :: _ => exact absurd nofun h

/-- And the other way round: what happens at the desk with the bound `c` happens at the one
with the bound `n`, or a job that is sent finds the mailbox full there. -/
theorem Wider.mayMeet_back (h : Wider n c m k) (hc : ∀ b, c = some b → n ≤ b) (ha : m.Attended)
    (hj : k.MayMeet j) : ∃ i, m.MayMeet i ∧ i.request = j.request ∧
      (Free i.sent → Incident.Like n c i j) := by
  have hdesk := h.desk
  obtain ⟨d, stack, a⟩ := m
  obtain rfl := h.stack
  cases hj with
  | asked e a' r =>
      refine ⟨_, .asked d a r, rfl, fun hfree => ?_⟩
      obtain ⟨hsent, hstart⟩ := wider_start hdesk hc hfree
      exact ⟨rfl, hsent, hstart⟩
  | wakes hi hw =>
      obtain ⟨box, hback, rfl⟩ := hdesk.wakes_back hi hw
      exact ⟨_, .wakes (hdesk.inbox.symm.trans hi) hback, rfl,
        fun _ => ⟨rfl, rfl, wider_awake hdesk hback⟩⟩
  | goes hk happens =>
      cases happens with
      | asked | wakes => exact absurd rfl hk
      | wakesJob hi hl hw =>
          obtain ⟨box, hback, rfl⟩ := hdesk.wakes_back hi hw
          exact ⟨_, .goes hk (.wakesJob (hdesk.inbox.symm.trans hi) hl hback), rfl,
            fun _ => ⟨rfl, rfl, wider_awake hdesk hback⟩⟩
      | goes hg =>
          cases hg with
          | wakes hw =>
              have hi := ha rfl
              obtain ⟨box, hback, rfl⟩ := hdesk.wakes_back (hdesk.inbox.trans hi) hw
              exact ⟨_, .goes hk (.goes (.wakes hback)), rfl,
                fun _ => ⟨rfl, rfl, wider_woken hdesk hi _ hback⟩⟩
          | step hs =>
              by_cases hfree : Free (sendings { desk := d, stack := k.stack, answer := a })
              · obtain ⟨hsent, hstep⟩ := h.step hc ha hfree
                rcases hstep with ⟨-, hnone⟩ | ⟨m', k', hm', hk', hnext⟩
                · rw [hs] at hnone
                  cases hnone
                · rw [hs] at hk'
                  cases hk'
                  exact ⟨_, .goes hk (.goes (.step hm')), rfl, fun _ => ⟨rfl, hsent, hnext⟩⟩
              · obtain ⟨m', hm'⟩ := exists_step_of_not_free hfree
                exact ⟨_, .goes hk (.goes (.step hm')), rfl, fun hf => absurd hf hfree⟩

variable {is js : List (Incident α)}

/-- **A whole history of the one is one of the other.** -/
theorem Wider.meets (h : Wider n c m k) (hc : ∀ b, c = some b → n ≤ b) (ha : m.Attended)
    (his : m.Meets is) (hfree : ∀ i ∈ is, Free i.sent) :
    ∃ js, k.Meets js ∧ List.Forall₂ (Incident.Like n c) is js := by
  induction is generalizing m k with
  | nil => exact ⟨[], trivial, .nil⟩
  | cons i is ih =>
      obtain ⟨hi, his⟩ := his
      obtain ⟨j, hj, hlike⟩ := h.mayMeet hc ha hi (hfree i (List.mem_cons_self ..))
      obtain ⟨js, hjs, hrest⟩ := ih hlike.after (attended_of_mayMeet ha hi) his
        fun i' hi' => hfree i' (List.mem_cons_of_mem _ hi')
      exact ⟨j :: js, ⟨hj, hjs⟩, .cons hlike hrest⟩

/-- A history that comes to a job that finds the mailbox full, when the user or what is under
way does as in `j`. -/
def Hits (n : Nat) (c : Option Nat) (m : Machine α) (js : List (Incident α))
    (j : Incident α) : Prop :=
  ∃ is i, m.Meets (is ++ [i]) ∧ (∀ i ∈ is, Free i.sent) ∧
    List.Forall₂ (Incident.Like n c) is js ∧ i.request = j.request ∧ ¬ Free i.sent

/-- **And the other way round**, as far as no job that is sent finds the mailbox full. -/
theorem Wider.meets_back (h : Wider n c m k) (hc : ∀ b, c = some b → n ≤ b) (ha : m.Attended)
    (hjs : k.Meets js) :
    (∃ is, m.Meets is ∧ (∀ i ∈ is, Free i.sent) ∧ List.Forall₂ (Incident.Like n c) is js) ∨
      ∃ js₁ j js₂, js = js₁ ++ j :: js₂ ∧ Hits n c m js₁ j := by
  induction js generalizing m k with
  | nil => exact .inl ⟨[], trivial, List.forall_mem_nil _, .nil⟩
  | cons j js ih =>
      obtain ⟨hj, hjs⟩ := hjs
      obtain ⟨i, hi, hrequest, hlike⟩ := h.mayMeet_back hc ha hj
      by_cases hfree : Free i.sent
      · have hlike := hlike hfree
        rcases ih hlike.after (attended_of_mayMeet ha hi) hjs with
          ⟨is, his, hisfree, hrest⟩ | ⟨js₁, j', js₂, rfl, is, i', his, hisfree, hrest, hhit⟩
        · exact .inl ⟨i :: is, ⟨hi, his⟩, List.forall_mem_cons.2 ⟨hfree, hisfree⟩,
            .cons hlike hrest⟩
        · exact .inr ⟨j :: js₁, j', js₂, rfl, i :: is, i', ⟨hi, his⟩,
            List.forall_mem_cons.2 ⟨hfree, hisfree⟩, .cons hlike hrest, hhit⟩
      · exact .inr ⟨[], j, js, rfl, [], i, ⟨hi, trivial⟩, List.forall_mem_nil _, .nil, hrequest,
          hfree⟩

/-- What is answered in the one history settles what is answered in the other. -/
theorem answers_of_like (h : List.Forall₂ (Incident.Like n c) is js) :
    js.map (·.after.answer) = is.map fun i =>
      i.after.answer.map (Reply.shown i.after.desk.mailbox.inbox c) := by
  induction h with
  | nil => rfl
  | cons hlike _ ih => rw [List.map_cons, List.map_cons, ih, hlike.after.answer]

/-! ## One request after the other -/

/-- All that is sent until all is done. -/
def sent (m : Machine α) : List (Sending α) :=
  match _h : m.step with
  | none => []
  | some m' => m.sendings ++ sent m'
termination_by m.weight
decreasing_by exact weight_step _h

theorem sent_of_step_some (h : m.step = some m') : m.sent = m.sendings ++ m'.sent := by
  rw [sent]
  split <;> simp_all

/-- **Both come to the same in the end.** -/
theorem Wider.run (h : Wider n c m k) (hc : ∀ b, c = some b → n ≤ b) (ha : m.Attended)
    (hfree : Free m.sent) : Wider n c m.run k.run := by
  fun_induction Machine.run m generalizing k with
  | case1 m hm =>
      have hsend : Free m.sendings := by
        by_contra hf
        obtain ⟨m', hm'⟩ := exists_step_of_not_free hf
        rw [hm] at hm'
        cases hm'
      rcases (h.step hc ha hsend).2 with ⟨-, hk⟩ | ⟨m', k', hm', -⟩
      · rwa [run_of_step_none hk]
      · rw [hm] at hm'
        cases hm'
  | case2 m m' hm ih =>
      rw [sent_of_step_some hm] at hfree
      obtain ⟨hsend, hfree⟩ := List.forall_mem_append.1 hfree
      rcases (h.step hc ha hsend).2 with ⟨hm', -⟩ | ⟨m'', k', hm', hk, hnext⟩
      · rw [hm] at hm'
        cases hm'
      · rw [hm] at hm'
        cases hm'
        rw [run_of_step_some hk]
        exact ih hnext (turnsTo_step ha hm).2 hfree

end Machine

/-- All that is sent in a request, with everything it sets off. -/
def sentIn (d : Desk α) (r : Request α) : List (Sending α) :=
  d.sendings r ++ (Machine.start d r).sent

/-- The answers to one request after the other, and the desks they leave. -/
def performAll (d : Desk α) : List (Request α) → List (Option Reply × Desk α)
  | [] => []
  | r :: rs => d.perform r :: (d.perform r).2.performAll rs

/-- All that is sent in one request after the other. -/
def sentInAll (d : Desk α) : List (Request α) → List (Sending α)
  | [] => []
  | r :: rs => d.sentIn r ++ (d.perform r).2.sentInAll rs

/-- Two requests have come to the same. -/
structure Wider.Performed (n : Nat) (c : Option Nat) (p q : Option Reply × Desk α) : Prop where
  /-- They were given the same answer. -/
  answer : q.1 = p.1.map (Reply.shown p.2.mailbox.inbox c)
  /-- Of their desks the same has come. -/
  desk : Wider n c p.2 q.2

theorem Wider.perform (h : Wider n c d e) (hc : ∀ b, c = some b → n ≤ b) {r : Request α}
    (hfree : Machine.Free (d.sentIn r)) : Performed n c (d.perform r) (e.perform r) := by
  obtain ⟨hsend, hsent⟩ := List.forall_mem_append.1 hfree
  obtain ⟨-, hstart⟩ := Machine.wider_start h hc hsend
  have hrun := hstart.run hc (Machine.turnsTo_start d r).2 hsent
  exact ⟨hrun.answer, hrun.desk⟩

theorem Wider.performAll (h : Wider n c d e) (hc : ∀ b, c = some b → n ≤ b)
    {rs : List (Request α)} (hfree : Machine.Free (d.sentInAll rs)) :
    List.Forall₂ (Performed n c) (d.performAll rs) (e.performAll rs) := by
  induction rs generalizing d e with
  | nil => exact .nil
  | cons r rs ih =>
      obtain ⟨hr, hrs⟩ := List.forall_mem_append.1 hfree
      have hperform := h.perform hc hr
      exact .cons hperform (ih hperform.desk hrs)

/-- A fresh desk, with nothing under way. -/
def Machine.opened (identity : String) (capacity : Option Nat) : Machine α :=
  { desk := fresh identity capacity, stack := [] }

/-- **A bound that is never hit changes nothing.**  Under any wider bound, or none, one request
after the other comes to the same; and so does whatever may happen at the desk, incident by
incident, as long as no job that is sent finds the mailbox full.  The other way round, too,
nothing else may happen under the wider bound. -/
theorem unhit_bound (identity : String) {n : Nat} {c : Option Nat}
    (hc : ∀ b, c = some b → n ≤ b) :
    (∀ rs : List (Request α), Machine.Free ((fresh identity (some n)).sentInAll rs) →
      List.Forall₂ (Wider.Performed n c) ((fresh identity (some n)).performAll rs)
        ((fresh identity c).performAll rs)) ∧
    (∀ is : List (Incident α), (Machine.opened identity (some n)).Meets is →
      (∀ i ∈ is, Machine.Free i.sent) →
      ∃ js, (Machine.opened identity c).Meets js ∧ List.Forall₂ (Incident.Like n c) is js) ∧
    ∀ js : List (Incident α), (Machine.opened identity c).Meets js →
      (∃ is, (Machine.opened identity (some n)).Meets is ∧ (∀ i ∈ is, Machine.Free i.sent) ∧
        List.Forall₂ (Incident.Like n c) is js) ∨
      ∃ js₁ j js₂, js = js₁ ++ j :: js₂ ∧
        Machine.Hits n c (Machine.opened identity (some n)) js₁ j := by
  have hdesk : Wider n c (fresh identity (some n)) (fresh identity c : Desk α) :=
    wider_fresh identity n c
  have hmachine : Machine.Wider n c (Machine.opened identity (some n) : Machine α)
      (Machine.opened identity c) := ⟨hdesk, rfl, rfl⟩
  have hattended : (Machine.opened identity (some n) : Machine α).Attended :=
    Machine.attended_of_stack_eq_nil rfl
  exact ⟨fun rs hfree => hdesk.performAll hc hfree,
    fun is his hfree => hmachine.meets hc hattended his hfree,
    fun js hjs => hmachine.meets_back hc hattended hjs⟩

/-- At a desk with room for two jobs, a job that a wait delivers looks at its handle; another
one is left in the queue when the inbox is freed, and then the user looks. -/
def spareHistory : List (Incident Nat) :=
  let d₀ : Desk Nat := fresh "pot" (some 2)
  let job : Work Nat := .act (.call (.inspect 0)) .done
  let first : Request Nat := .send ⟨.prompt, 0⟩ job
  let m₁ := Machine.start d₀ first
  let m₂ := Machine.start m₁.desk first
  let m₃ := Machine.start m₂.desk (.call .wait)
  let m₄ := m₃.step.getD m₃
  let m₅ := m₄.step.getD m₄
  let m₆ := Machine.start m₅.desk (.call .dropInbox)
  [⟨some first, d₀.sendings first, m₁⟩, ⟨some first, m₁.desk.sendings first, m₂⟩,
    ⟨some (.call .wait), [], m₃⟩, ⟨none, [], m₄⟩, ⟨none, [], m₅⟩,
    ⟨some (.call .dropInbox), [], m₆⟩,
    ⟨some (.call (.inspect 0)), [], Machine.start m₆.desk (.call (.inspect 0))⟩]

/-- At the same desk without a bound the same comes of it, and only the last look shows
nothing queued where the other one shows one job. -/
theorem unhit_bound_spareHistory : ∃ js, (Machine.opened "pot" none).Meets js ∧
    List.Forall₂ (Incident.Like 2 none) spareHistory js ∧
    spareHistory.map (·.after.answer) = [some .done, some .done, none, none,
      some (.woken .finished), some .done, some (.handle "pot" false 1)] ∧
    js.map (·.after.answer) = [some .done, some .done, none, none, some (.woken .finished),
      some .done, some (.handle "pot" false 0)] := by
  have hmeets : (Machine.opened "pot" (some 2)).Meets spareHistory :=
    ⟨.asked _ _ _, .asked _ _ _, .asked _ _ _, .goes nofun (.goes (.step rfl)),
      .goes nofun (.goes (.step rfl)), .asked _ _ _, .asked _ _ _, trivial⟩
  obtain ⟨js, hjs, hlike⟩ := (unhit_bound "pot" (n := 2) (c := none) nofun).2.1 spareHistory hmeets
    (by decide)
  exact ⟨js, hjs, hlike, rfl, (Machine.answers_of_like hlike).trans rfl⟩

end Desk

end SerialWorkers
