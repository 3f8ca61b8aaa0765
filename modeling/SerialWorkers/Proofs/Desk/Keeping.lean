import SerialWorkers.Proofs.Desk.Conservation

/-!
# What one step at a desk keeps

Whatever happens at a desk begins with one thing done to it as it stands: a request is
begun, a job is sent, or a wait returns.  The answer is then logged or given to the desk's
user, and a service that ends because of it says so.  To know what a step keeps, it is enough
to know these few things.

* `Desk.Kept` — what is kept by each of them, said of the desk and of the answers.
* `Desk.Kept.happens` — that is kept by all that happens.
* `Machine.eq_sending_of_happens` — what is sent in a step is sent at the desk as it stands.
-/

namespace SerialWorkers.Desk

variable {α : Type} {d d' : Desk α} {P : Desk α → Prop} {Q : Reply → Prop}

/-- Whatever is done at desk `d` in one step makes it a desk of which `P` holds, and whoever
is told something in it is told something of which `Q` holds. -/
structure Kept (d : Desk α) (P : Desk α → Prop) (Q : Reply → Prop) : Prop where
  /-- Nothing is done. -/
  idle : P d
  /-- A request is begun. -/
  ask : ∀ lent c, P (d.ask lent c).2 ∧ ∀ r, (d.ask lent c).1 = .replied r → Q r
  /-- A job is sent. -/
  send : ∀ route job, P (d.send route job).2 ∧ Q (d.send route job).1
  /-- A wait delivers a job. -/
  deliver : ∀ {mail box}, d.mailbox.Wakes (.item mail) box → P (d.deliver box mail)
  /-- A wait returns with a notice. -/
  noticed : ∀ {box}, d.mailbox.Wakes .noticed box →
    P { d with mailbox := box } ∧ Q (.woken .noticed)
  /-- A wait finds that nobody is left. -/
  deserted : ∀ {box}, d.mailbox.Wakes .deserted box →
    P { d with mailbox := box } ∧ Q (.woken .deserted)
  /-- A job came to its end. -/
  finished : Q (.woken .finished)
  /-- Or it panicked. -/
  panicked : ∀ message, Q (.woken (.panicked message))
  /-- A service came to its end. -/
  served : ∀ o, Q (.served o)
  /-- Something is logged. -/
  write : ∀ {d' x}, P d' → (∀ c r, x = .answered c r → Q r) → P (d'.write x)
  /-- A job is said to have begun, or to have panicked. -/
  report : ∀ {d' es}, P d' → (∀ name, Event.deserted name ∉ es) → P (d'.report es)
  /-- A service ends. -/
  conclude : ∀ {d'} reason, P d' → (reason = .deserted → Q (.woken .deserted)) →
    P (d'.conclude reason)

namespace Kept

open Machine

variable {below : List (Frame α)}

/-- What is kept so far, of a machine. -/
def Holds (P : Desk α → Prop) (Q : Reply → Prop) (m : Machine α) : Prop :=
  P m.desk ∧ ∀ r, m.answer = some r → Q r

/-- Where the user has no answer yet, it is enough to know the desk. -/
theorem holds_of_unanswered {m : Machine α} (hd : P m.desk) (hn : m.answer = none) :
    Holds P Q m :=
  ⟨hd, by simp [hn]⟩

theorem answerTo (h : Kept d P Q) (hd : P d') (c : Call) {r : Reply} (hr : Q r)
    (below : List (Frame α)) : Holds P Q (answerTo d' c r below) := by
  cases below with
  | nil =>
      refine ⟨hd, fun r' hr' => ?_⟩
      cases hr'
      exact hr
  | cons =>
      refine holds_of_unanswered (h.write hd fun c' r' hr' => ?_) rfl
      cases hr'
      exact hr

theorem awake (h : Kept d P Q) {w : Wake (Mail α)} {box : Mailbox (Mail α)}
    (hw : d.mailbox.Wakes w box) : Holds P Q (awake d below w box) := by
  cases w with
  | item mail => exact holds_of_unanswered (h.deliver hw) rfl
  | noticed => exact h.answerTo (h.noticed hw).1 _ (h.noticed hw).2 _
  | deserted => exact h.answerTo (h.deserted hw).1 _ (h.deserted hw).2 _

theorem woken (h : Kept d P Q) (policy : PanicPolicy) {w : Wake (Mail α)}
    {box : Mailbox (Mail α)} (hw : d.mailbox.Wakes w box) :
    Holds P Q (woken d policy below w box) := by
  cases w with
  | item mail => exact holds_of_unanswered (h.report (h.deliver hw) (by simp)) rfl
  | noticed => exact h.answerTo (h.conclude .noticed (h.noticed hw).1 (by simp)) _ (h.served _) _
  | deserted =>
      obtain ⟨hd, hr⟩ := h.deserted hw
      exact h.answerTo (h.conclude .deserted hd fun _ => hr) _ (h.served _) _

theorem panic (h : Kept d P Q) (p : Payload) (via : Via) : Holds P Q (panic d p below via) := by
  cases via with
  | waiting => exact h.answerTo h.idle _ (h.panicked _) _
  | serving policy =>
      have htold : P (d.report [.jobPanicked d.mailbox.identity p.message policy]) :=
        h.report h.idle (by simp)
      cases policy with
      | retire =>
          have hended : P (Desk.conclude _ (.panicked p.message)) := h.conclude _ htold (by simp)
          exact h.answerTo hended _ (h.served _) _
      | carryOn => exact holds_of_unanswered htold rfl

theorem finish (h : Kept d P Q) (via : Via) : Holds P Q (finish d below via) := by
  cases via with
  | waiting => exact h.answerTo h.idle _ h.finished _
  | serving => exact holds_of_unanswered h.idle rfl

theorem request (h : Kept d P Q) (c : Call) (via : Via) (rest : Work α) :
    Holds P Q (request d c via rest below) := by
  obtain ⟨hd, hr⟩ := h.ask (lent (.job via rest :: below)) c
  unfold Machine.request
  split <;> rename_i heq <;> rw [heq] at hd hr
  · refine holds_of_unanswered (h.write hd fun c' r' hr' => ?_) rfl
    cases hr'
    exact hr _ rfl
  · exact holds_of_unanswered hd rfl
  · exact holds_of_unanswered hd rfl

theorem start (h : Kept d P Q) (r : Request α) : Holds P Q (start d r) := by
  cases r with
  | send route job =>
      obtain ⟨hd, hr⟩ := h.send route job
      refine ⟨hd, fun r' hr' => ?_⟩
      cases hr'
      exact hr
  | call c =>
      obtain ⟨hd, hr⟩ := h.ask false c
      simp only [Machine.start]
      split <;> rename_i heq <;> rw [heq] at hd hr
      · refine ⟨hd, fun r' hr' => ?_⟩
        cases hr'
        exact hr _ rfl
      · exact holds_of_unanswered hd rfl
      · exact holds_of_unanswered hd rfl

theorem step {m m' : Machine α} (h : Kept m.desk P Q) (hs : m.step = some m') :
    Holds P Q m' := by
  obtain ⟨d, stack, a⟩ := m
  cases stack with
  | nil => cases hs
  | cons f below =>
      cases f with
      | service policy =>
          obtain ⟨w, box, hw, rfl⟩ := goes_service (.step hs)
          exact h.woken policy hw
      | job via job =>
          cases job with
          | done =>
              cases hs
              exact h.finish via
          | send route job rest =>
              cases hs
              exact holds_of_unanswered (h.write (h.send route job).1 (by simp)) rfl
          | act a rest =>
              cases a with
              | log v =>
                  cases hs
                  exact holds_of_unanswered (h.write h.idle (by simp)) rfl
              | panic p =>
                  cases hs
                  exact h.panic p via
              | call c =>
                  cases hs
                  exact h.request c via rest

/-- **What is kept by each thing that may be done at a desk is kept by all that happens.** -/
theorem happens {m m' : Machine α} {ss : List (Sending α)} (h : Kept m.desk P Q)
    (hs : Happens m ss m') : Holds P Q m' := by
  cases hs with
  | asked d a r => exact h.start r
  | wakes hi hw => exact h.awake hw
  | wakesJob hi hl hw => exact h.awake hw
  | goes hg =>
      cases hg with
      | wakes hw => exact h.woken _ hw
      | step hs => exact h.step hs

end Kept

/-- What is sent in a step is sent at the desk as it stands. -/
theorem Machine.eq_sending_of_happens {m m' : Machine α} {ss : List (Sending α)}
    (h : Machine.Happens m ss m') {x : Sending α} (hx : x ∈ ss) :
    ∃ route job, x = m.desk.sending route job := by
  cases h with
  | asked d a r =>
      cases r with
      | send route job => exact ⟨route, job, List.mem_singleton.1 hx⟩
      | call => cases hx
  | wakes | wakesJob => cases hx
  | goes hg =>
      unfold Machine.sendings at hx
      split at hx
      · exact ⟨_, _, List.mem_singleton.1 hx⟩
      · cases hx

end SerialWorkers.Desk
