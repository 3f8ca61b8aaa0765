import SerialWorkers.Proofs.Desk.Books

/-!
# How a service ends

A service works off its mailbox, and its jobs may change nearly everything about
the mailbox while they run.  Whatever they do, when the service ends the books
are in balance, and what it is said to have come to follows from what was run.

Where a wait could return for two reasons, because nobody is left who could leave
a notice and a job is queued all the same, nothing is assumed about which of the
two it returns for.

* `Mailbox.Wakes`, `Machine.Goes` — what a wait and a machine may do next.
* `Desk.Account` — what is known of a service that has ended, and `Desk.Ending`
  of how it did.
* `Desk.service_outcome` — every service that ends is accounted for.
-/

namespace SerialWorkers

/-! ## What may happen next -/

/-- What a wait may return, and the mailbox after it.  A notice in the slot comes
before all else; a lost place for notices and the queue have no order. -/
inductive Mailbox.Wakes {ι : Type} (m : Mailbox ι) : Wake ι → Mailbox ι → Prop
  /-- A notice is in the slot. -/
  | notice (hn : m.notice = true) : Wakes m .noticed { m with notice := false }
  /-- Nobody is left who could leave a notice. -/
  | ownerGone (hn : m.notice = false) (hw : m.cancelSender = false) : Wakes m .noticed m
  /-- A job is queued. -/
  | item {x : ι} {rest : List ι} (hn : m.notice = false) (hq : m.queue = x :: rest) :
      Wakes m (.item x) { m with queue := rest }
  /-- Nothing is queued and nobody is left to send a job. -/
  | deserted (hn : m.notice = false) (hq : m.queue = []) (hp : m.hasProducer = false) :
      Wakes m .deserted m

/-- What a wait returns is something it may return. -/
theorem Mailbox.wakes_of_next {ι : Type} {m m' : Mailbox ι} {w : Wake ι}
    (h : m.next = some (w, m')) : m.Wakes w m' := by
  cases w with
  | item x =>
      obtain ⟨hn, -, hq, hm⟩ := next_eq_item h
      rw [hm]
      exact .item hn hq
  | noticed =>
      obtain ⟨hcause, rfl⟩ := next_eq_noticed h
      cases hn : m.notice with
      | true => exact .notice hn
      | false =>
          have hm : { m with notice := false } = m := by rw [← hn]
          rw [hm]
          exact .ownerGone hn (hcause.resolve_left (by simp [hn]))
  | deserted =>
      obtain ⟨hn, -, hq, hp, rfl⟩ := next_eq_deserted h
      exact .deserted hn hq hp

namespace Desk

variable {α : Type}

namespace Machine

/-- A service whose wait returned with `w` and left the mailbox as `box`. -/
def woken (d : Desk α) (policy : PanicPolicy) (below : List (Frame α)) :
    Wake (Mail α) → Mailbox (Mail α) → Machine α
  | .item mail, box =>
      { desk := (d.deliver box mail).report [.jobBegan]
        stack := .job (.serving policy) mail.job :: below }
  | .noticed, box => endService { d with mailbox := box } policy .noticed below
  | .deserted, box => endService { d with mailbox := box } policy .deserted below

/-- What a machine may do next. -/
inductive Goes : Machine α → Machine α → Prop
  /-- The wait of a service returns. -/
  | wakes {d : Desk α} {policy : PanicPolicy} {below : List (Frame α)} {a : Option Reply}
      {w : Wake (Mail α)} {box : Mailbox (Mail α)} (h : d.mailbox.Wakes w box) :
      Goes { desk := d, stack := .service policy :: below, answer := a }
        (woken d policy below w box)
  /-- It takes its next step. -/
  | step {m m' : Machine α} (h : m.step = some m') : Goes m m'

/-- What a machine may come to. -/
inductive Reaches : Machine α → Machine α → Prop
  /-- Nothing happens. -/
  | refl (m : Machine α) : Reaches m m
  /-- One more step is taken. -/
  | tail {m m' m'' : Machine α} (first : Reaches m m') (last : Goes m' m'') : Reaches m m''

theorem Reaches.trans {m m' m'' : Machine α} (h : Reaches m m') (h' : Reaches m' m'') :
    Reaches m m'' := by
  induction h' with
  | refl => exact h
  | tail _ last ih => exact ih.tail last

/-- All the steps of a machine are steps it may take. -/
theorem reaches_run (m : Machine α) : Reaches m m.run := by
  fun_induction run m with
  | case1 m h => exact .refl m
  | case2 m m' h ih => exact ((Reaches.refl m).tail (.step h)).trans ih

/-- A machine with nothing under way stays as it is. -/
theorem Reaches.eq_of_stack_eq_nil {m m' : Machine α} (h : Reaches m m')
    (hm : m.stack = []) : m' = m := by
  induction h with
  | refl => rfl
  | tail _ last ih =>
      subst ih
      cases last with
      | wakes h => cases hm
      | step h =>
          rw [step.eq_def, hm] at h
          cases h

variable {d : Desk α} {policy : PanicPolicy} {below : List (Frame α)} {a : Option Reply}

/-- A service at its wait does what the wait returns. -/
theorem step_service (d : Desk α) (policy : PanicPolicy) (below : List (Frame α))
    (a : Option Reply) : step { desk := d, stack := .service policy :: below, answer := a }
      = d.mailbox.next.map fun p => woken d policy below p.1 p.2 := by
  simp only [step]
  cases d.mailbox.next with
  | none => rfl
  | some p =>
      obtain ⟨w, box⟩ := p
      cases w <;> rfl

/-- And it may do nothing but what the wait may return. -/
theorem goes_service {m : Machine α}
    (h : Goes { desk := d, stack := .service policy :: below, answer := a } m) :
    ∃ w box, d.mailbox.Wakes w box ∧ m = woken d policy below w box := by
  cases h with
  | wakes hw => exact ⟨_, _, hw, rfl⟩
  | step hstep =>
      rw [step_service] at hstep
      obtain ⟨p, hn, rfl⟩ := Option.map_eq_some_iff.1 hstep
      exact ⟨p.1, p.2, Mailbox.wakes_of_next hn, rfl⟩

end Machine

/-! ## Accounts -/

/-- Whether an event tells of a panic. -/
def tellsPanic : Event → Bool
  | .jobPanicked .. => true
  | _ => false

/-- The panics a service tells of, after its jobs panicked with `payloads`. -/
def panicEvents (d : Desk α) (policy : PanicPolicy) (payloads : List Payload) : List Event :=
  payloads.map fun p => .jobPanicked d.mailbox.identity p.message policy

/-- How a service of desk `d` ended that ran `ran`, whose jobs logged `es`, and that
left the desk as `d'`. -/
inductive Ending (d : Desk α) (policy : PanicPolicy) (ran : List (Mail α)) (es : List (Entry α))
    (d' : Desk α) : Outcome → Prop
  /-- The last job panicked, the first to do so, where the policy is to retire; a
  notice in the slot is still there. -/
  | panicked {earlier : List (Mail α)} {last : Mail α} {p : Payload} (hpolicy : policy = .retire)
      (hran : ran = earlier ++ [last]) (hlast : firstPanic last.job = some p)
      (calm : ∀ mail ∈ earlier, firstPanic mail.job = none)
      (kept : d.mailbox.notice.toNat + noticesLeft es = d'.mailbox.notice.toNat) :
      Ending d policy ran es d' (.broken (.panicked p.message))
  /-- The wait returned with a notice: the one notice there was, which is gone now, or
  there was none and nobody left to leave one.  The status says how it ended. -/
  | noticed (calm : policy = .retire → ∀ mail ∈ ran, firstPanic mail.job = none)
      (gone : d'.mailbox.notice = false)
      (cause : d.mailbox.notice.toNat + noticesLeft es = 1 ∨
        d.mailbox.notice.toNat + noticesLeft es = 0 ∧ d'.mailbox.cancelSender = false) :
      Ending d policy ran es d'
        (if d'.mailbox.status = 0 then .orderly else .broken (.abnormal d'.mailbox.status))
  /-- Nothing was queued, no notice was left, and nobody is left to send a job. -/
  | deserted (calm : policy = .retire → ∀ mail ∈ ran, firstPanic mail.job = none)
      (empty : d'.mailbox.queue = []) (alone : d'.mailbox.hasProducer = false)
      (gone : d'.mailbox.notice = false)
      (cause : d.mailbox.notice.toNat + noticesLeft es = 0) :
      Ending d policy ran es d' .orderly

/-- The account of a service of desk `d` that came to `o` and left the desk as `d'`:
it ran `ran`, accepted `sent` meanwhile, and its jobs logged `es`. -/
structure Account (d : Desk α) (policy : PanicPolicy) (o : Outcome) (ran sent : List (Mail α))
    (es : List (Entry α)) (d' : Desk α) : Prop where
  /-- The mailbox is marked as ended. -/
  ended : d'.mailbox.lifecycle = .ended
  /-- What was delivered. -/
  delivered : d'.delivered = d.delivered ++ ran
  /-- What was accepted. -/
  accepted : d'.accepted = d.accepted ++ sent
  /-- What was queued or accepted was run, in order, or is left behind. -/
  queue : d.mailbox.queue ++ sent = ran ++ d'.mailbox.queue
  /-- What was logged. -/
  log : d'.log = d.log ++ es
  /-- The status is the one last recorded. -/
  status : d'.mailbox.status = lastStatus d.mailbox.status es
  /-- Every panic was told. -/
  told : d'.events.filter tellsPanic
    = d.events.filter tellsPanic ++ panicEvents d policy (panics ran)
  /-- How it ended. -/
  ending : Ending d policy ran es d' o

/-- The service of desk `d` is accounted for: it came to `o` and left the desk as `d'`. -/
def Accounted (d : Desk α) (policy : PanicPolicy) (o : Outcome) (d' : Desk α) : Prop :=
  ∃ ran sent es, Account d policy o ran sent es d'

variable {d d₁ : Desk α} {policy : PanicPolicy} {below : List (Frame α)}
  {ran sent : List (Mail α)} {es : List (Entry α)}

/-- What a service says at its end tells of no panic. -/
theorem filter_tellsPanic_conclude (d : Desk α) (reason : Reason) :
    (d.conclude reason).events.filter tellsPanic = d.events.filter tellsPanic := by
  have hreason : (d.mailbox.reasonEvents reason).filter tellsPanic = [] := by
    cases reason with
    | noticed =>
        simp only [Mailbox.reasonEvents]
        split <;> rfl
    | deserted | panicked => rfl
  simp only [conclude, List.filter_append, hreason, List.append_nil]
  rw [show [d.mailbox.exitEvent].filter tellsPanic = [] from rfl, List.append_nil]

/-- The books of a service that ends, closed. -/
theorem Books.conclude (h : Books d ran sent es d₁) (n : Bool) {reason : Reason} {o : Outcome}
    (told : d₁.events.filter tellsPanic
      = d.events.filter tellsPanic ++ panicEvents d policy (panics ran))
    (ending : Ending d policy ran es
      (Desk.conclude { d₁ with mailbox := { d₁.mailbox with notice := n } } reason) o) :
    Account d policy o ran sent es
      (Desk.conclude { d₁ with mailbox := { d₁.mailbox with notice := n } } reason) where
  ended := rfl
  delivered := h.delivered
  accepted := h.accepted
  queue := h.queue
  log := h.log
  status := h.status
  told := by rw [filter_tellsPanic_conclude]; exact told
  ending := ending

/-! ## A service under way -/

/-- A machine in the middle of a service of desk `d`, at its wait or in a job, with
`below` under way outside the service. -/
inductive InService (d : Desk α) (policy : PanicPolicy) (below : List (Frame α)) :
    Machine α → Prop
  /-- The service stands at its wait. -/
  | waiting {d₁ : Desk α} {ran sent : List (Mail α)} {es : List (Entry α)}
      (books : Books d ran sent es d₁)
      (calm : policy = .retire → ∀ mail ∈ ran, firstPanic mail.job = none)
      (told : d₁.events.filter tellsPanic
        = d.events.filter tellsPanic ++ panicEvents d policy (panics ran)) :
      InService d policy below { desk := d₁, stack := .service policy :: below }
  /-- It runs a job; what is left of the job ends as the whole job does. -/
  | working {d₁ : Desk α} {ran sent : List (Mail α)} {es : List (Entry α)} {last : Mail α}
      {rest : Work α} (books : Books d (ran ++ [last]) sent es d₁)
      (calm : policy = .retire → ∀ mail ∈ ran, firstPanic mail.job = none)
      (told : d₁.events.filter tellsPanic
        = d.events.filter tellsPanic ++ panicEvents d policy (panics ran))
      (left : firstPanic last.job = firstPanic rest) :
      InService d policy below { desk := d₁, stack := .job (.serving policy) rest :: below }

/-- A service of desk `d` has ended, and its answer was given. -/
def ServiceEnded (d : Desk α) (policy : PanicPolicy) (below : List (Frame α)) (m : Machine α) :
    Prop :=
  ∃ o d', Accounted d policy o d' ∧ m = Machine.answerTo d' (.serve policy) (.served o) below

/-- The panics told, once one more job has ended. -/
theorem panicEvents_append (d : Desk α) (policy : PanicPolicy) (ran : List (Mail α))
    (last : Mail α) : panicEvents d policy (panics (ran ++ [last]))
      = panicEvents d policy (panics ran) ++ panicEvents d policy (firstPanic last.job).toList := by
  rw [panics_append, panicEvents, panicEvents, panicEvents, List.map_append, panics, panics,
    List.filterMap_cons]
  cases firstPanic last.job <;> rfl

/-- **What a service does when its wait returns.** -/
theorem InService.woken {w : Wake (Mail α)} {box : Mailbox (Mail α)}
    (books : Books d ran sent es d₁)
    (calm : policy = .retire → ∀ mail ∈ ran, firstPanic mail.job = none)
    (told : d₁.events.filter tellsPanic
      = d.events.filter tellsPanic ++ panicEvents d policy (panics ran))
    (h : d₁.mailbox.Wakes w box) :
    InService d policy below (Machine.woken d₁ policy below w box) ∨
      ServiceEnded d policy below (Machine.woken d₁ policy below w box) := by
  have hnotices := books.notices
  cases h with
  | @item mail rest hn hq =>
      have hbooks := (books.trans (books_deliver hq)).report [.jobBegan]
      rw [List.append_nil, List.append_nil] at hbooks
      refine .inl (.working hbooks calm ?_ rfl)
      simpa [Desk.report, Desk.deliver, tellsPanic] using told
  | notice hn =>
      rw [hn, Bool.toNat_true] at hnotices
      exact .inr ⟨_, _, ⟨ran, sent, es, books.conclude false told
        (.noticed calm rfl (.inl hnotices))⟩, rfl⟩
  | ownerGone hn hw =>
      rw [hn, Bool.toNat_false] at hnotices
      refine .inr ⟨_, _, ⟨ran, sent, es, ?_⟩, rfl⟩
      exact books.conclude d₁.mailbox.notice told (.noticed calm hn (.inr ⟨hnotices, hw⟩))
  | deserted hn hq hp =>
      rw [hn, Bool.toNat_false] at hnotices
      refine .inr ⟨_, _, ⟨ran, sent, es, ?_⟩, rfl⟩
      exact books.conclude d₁.mailbox.notice told (.deserted calm hq hp hn hnotices)

/-- A job that ends without a panic. -/
theorem InService.finished {last : Mail α} (books : Books d (ran ++ [last]) sent es d₁)
    (calm : policy = .retire → ∀ mail ∈ ran, firstPanic mail.job = none)
    (told : d₁.events.filter tellsPanic
      = d.events.filter tellsPanic ++ panicEvents d policy (panics ran))
    (hlast : firstPanic last.job = none) :
    InService d policy below { desk := d₁, stack := .service policy :: below } := by
  refine .waiting books ?_ ?_
  · intro hp mail hmail
    rcases List.mem_append.1 hmail with hmail | hmail
    · exact calm hp mail hmail
    · rw [List.mem_singleton] at hmail
      rw [hmail, hlast]
  · rw [panicEvents_append, hlast, told]
    simp [panicEvents]

/-- **What a service does when its job panics.** -/
theorem InService.panicked {last : Mail α} {p : Payload}
    (books : Books d (ran ++ [last]) sent es d₁)
    (calm : policy = .retire → ∀ mail ∈ ran, firstPanic mail.job = none)
    (told : d₁.events.filter tellsPanic
      = d.events.filter tellsPanic ++ panicEvents d policy (panics ran))
    (hlast : firstPanic last.job = some p) :
    InService d policy below (Machine.panic d₁ p below (.serving policy)) ∨
      ServiceEnded d policy below (Machine.panic d₁ p below (.serving policy)) := by
  have hbooks := books.report [.jobPanicked d₁.mailbox.identity p.message policy]
  have htold : (d₁.report [.jobPanicked d₁.mailbox.identity p.message policy]).events.filter
      tellsPanic
      = d.events.filter tellsPanic ++ panicEvents d policy (panics (ran ++ [last])) := by
    rw [panicEvents_append, hlast, ← List.append_assoc, ← told, books.identity]
    simp [Desk.report, tellsPanic, panicEvents]
  cases policy with
  | retire =>
      refine .inr ⟨_, _, ⟨ran ++ [last], sent, es, ?_⟩, rfl⟩
      exact hbooks.conclude d₁.mailbox.notice htold
        (.panicked rfl rfl hlast (calm rfl) books.notices)
  | carryOn =>
      refine .inl (.waiting hbooks ?_ htold)
      intro hpolicy
      cases hpolicy

/-- **One step of a service**: it goes on with its books in balance, or it ends and
is accounted for. -/
theorem InService.goes {m m' : Machine α} (h : InService d policy below m)
    (hg : Machine.Goes m m') : InService d policy below m' ∨ ServiceEnded d policy below m' := by
  cases h with
  | waiting books calm told =>
      obtain ⟨w, box, hw, rfl⟩ := Machine.goes_service hg
      exact InService.woken books calm told hw
  | @working d₁ ran sent es last rest books calm told left =>
      cases hg with
      | step hstep =>
          cases rest with
          | done =>
              cases hstep
              exact .inl (InService.finished books calm told left)
          | send route job rest =>
              cases hstep
              obtain ⟨more, hsend⟩ := books_send d₁ route job
              refine .inl (.working (books.quiet hsend) calm ?_ left)
              have hevents : (d₁.send route job).2.events = d₁.events := by
                unfold Desk.send
                split
                · rfl
                · simp only
                  split <;> rfl
              simpa [Desk.write, hevents] using told
          | act a rest =>
              cases a with
              | log v =>
                  cases hstep
                  exact .inl (.working (books.quiet (books_write_value d₁ v)) calm told left)
              | panic p =>
                  cases hstep
                  exact InService.panicked books calm told left
              | call c =>
                  cases hstep
                  obtain ⟨r, d₂, hask, hanswered⟩ := answered_ask d₁ c
                  have hlent : Machine.lent (.job (.serving policy) rest :: below) = true := rfl
                  rw [Machine.request, hlent, hask]
                  refine .inl (.working (books.quiet hanswered.books) calm ?_ left)
                  simpa [Desk.write, hanswered.records.2.2.2] using told

/-- **A service, step after step**: it is still under way, or it has ended and is
accounted for. -/
theorem InService.reaches {m m' : Machine α} (h : InService d policy below m)
    (hm : Machine.Reaches m m') : InService d policy below m' ∨
      ∃ o d', Accounted d policy o d' ∧
        Machine.Reaches (Machine.answerTo d' (.serve policy) (.served o) below) m' := by
  induction hm with
  | refl => exact .inl h
  | tail _ last ih =>
      rcases ih with ih | ⟨o, d', hacc, hreach⟩
      · rcases ih.goes last with hgo | ⟨o, d', hacc, rfl⟩
        · exact .inl hgo
        · exact .inr ⟨o, d', hacc, .refl _⟩
      · exact .inr ⟨o, d', hacc, hreach.tail last⟩

theorem inService_start (d : Desk α) (policy : PanicPolicy) (below : List (Frame α)) :
    InService d policy below { desk := d, stack := .service policy :: below } :=
  .waiting (books_refl d) (fun _ _ hmail => nomatch hmail) (List.append_nil _).symm

/-! ## Every service that ends -/

/-- What a service says at its beginning is nothing to its account. -/
theorem Accounted.of_report {o : Outcome} {d' : Desk α}
    (h : Accounted (d.report [.serviceBegan d.mailbox.identity]) policy o d') :
    Accounted d policy o d' := by
  obtain ⟨ran, sent, es, h⟩ := h
  refine ⟨ran, sent, es, h.ended, h.delivered, h.accepted, h.queue, h.log, h.status, ?_, ?_⟩
  · rw [h.told]
    simp [report, tellsPanic, panicEvents]
  · cases h.ending with
    | panicked hpolicy hran hlast calm kept => exact .panicked hpolicy hran hlast calm kept
    | noticed calm gone cause => exact .noticed calm gone cause
    | deserted calm empty alone gone cause => exact .deserted calm empty alone gone cause

/-- A desk that answers how a service ended has run one to its end. -/
theorem start_of_served {o : Outcome} {d' : Desk α}
    (h : d.perform (.call (.serve policy)) = (some (.served o), d')) :
    Machine.start d (.call (.serve policy))
      = { desk := d.report [.serviceBegan d.mailbox.identity], stack := [.service policy] } := by
  -- any other answer comes at once, and is another one
  have hat_once : ∀ r : Reply, Machine.start d (.call (.serve policy))
      = { desk := d, stack := [], answer := some r } → r = .served o := by
    intro r hr
    rw [perform, hr, Machine.run_of_step_none rfl] at h
    exact Option.some.inj (congrArg Prod.fst h)
  by_cases hi : d.mailbox.inbox = true
  · by_cases hn : d.mailbox.next.isNone = true
    · cases hat_once .wouldWait (by simp [Machine.start, ask, hi, hn])
    · simp [Machine.start, ask, hi, hn]
  · cases hat_once .noInbox (by simp [Machine.start, ask, hi])

/-- **Every service that ends is accounted for.**  This holds of the service a desk's
user asks for, and of every service in the middle of whatever else is under way, with
any wait that could return for two reasons returning for either. -/
theorem service_outcome (d : Desk α) (policy : PanicPolicy) :
    (∀ (o : Outcome) (d' : Desk α),
      d.perform (.call (.serve policy)) = (some (.served o), d') → Accounted d policy o d') ∧
    ∀ (below : List (Frame α)) (m : Machine α),
      Machine.Reaches { desk := d, stack := .service policy :: below } m →
      (∃ f, m.stack = f :: below ∧ f.holdsInbox = true) ∨
      ∃ o d', Accounted d policy o d' ∧
        Machine.Reaches (Machine.answerTo d' (.serve policy) (.served o) below) m := by
  refine ⟨?_, ?_⟩
  · intro o d' h
    have hrun := Machine.reaches_run (Machine.start d (.call (.serve policy)))
    have hanswer : (Machine.start d (.call (.serve policy))).run.answer = some (.served o) ∧
        (Machine.start d (.call (.serve policy))).run.desk = d' :=
      ⟨congrArg Prod.fst h, congrArg Prod.snd h⟩
    rw [start_of_served h] at hrun hanswer
    apply Accounted.of_report
    rcases (inService_start _ policy []).reaches hrun with hstill | ⟨o', d'', hacc, hreach⟩
    · -- while the service is under way there is no answer
      generalize Machine.run _ = m at hstill hanswer
      cases hstill with
      | waiting => cases hanswer.1
      | working => cases hanswer.1
    · rw [hreach.eq_of_stack_eq_nil rfl] at hanswer
      cases hanswer.1
      cases hanswer.2
      exact hacc
  · intro below m h
    rcases (inService_start d policy below).reaches h with hstill | hended
    · refine .inl ?_
      cases hstill with
      | waiting => exact ⟨_, rfl, rfl⟩
      | working => exact ⟨_, rfl, rfl⟩
    · exact .inr hended

/-- A desk with three jobs queued: one records a status, sends another and leaves a
notice, and the others are never started. -/
def busyDesk : Desk Nat where
  mailbox := {
    identity := "pot"
    queue := [
      ⟨0, 0, .act (.call (.setStatus 7))
        (.send ⟨.prompt, 0⟩ .done (.act (.call .giveNotice) .done))⟩,
      ⟨1, 0, .act (.panic .other) .done⟩] }

/-- The service of that desk is broken off with the status recorded, and leaves behind
the job queued before and the one sent meanwhile. -/
theorem service_outcome_busyDesk :
    ∃ d' : Desk Nat, busyDesk.perform (.call (.serve .retire))
        = (some (.served (.broken (.abnormal 7))), d') ∧
      d'.mailbox.pending = 2 ∧ Accounted busyDesk .retire (.broken (.abnormal 7)) d' := by
  have hrun := (Machine.run_of_step_some (m := Machine.start busyDesk (.call (.serve .retire)))
    rfl).trans <| (Machine.run_of_step_some rfl).trans <| (Machine.run_of_step_some rfl).trans <|
    (Machine.run_of_step_some rfl).trans <| (Machine.run_of_step_some rfl).trans <|
    (Machine.run_of_step_some rfl).trans <| Machine.run_of_step_none rfl
  have hperform := congrArg (fun m : Machine Nat => (m.answer, m.desk)) hrun
  exact ⟨_, hperform, rfl, (service_outcome busyDesk .retire).1 _ _ hperform⟩

end Desk

end SerialWorkers
