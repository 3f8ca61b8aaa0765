import SerialWorkers.Proofs.Desk.Desertion
import SerialWorkers.Proofs.Desk.Precedence

/-!
# When the last producer has gone

A service that begins when nobody is left works off what is queued, in order, and stops
where a job leaves a notice or, if the policy is to retire, panics; if none does, it finds
the mailbox deserted only when nothing is queued any more.

* `Desk.Alone.after` — what a job does then.
* `Desk.Drains` — what becomes of the jobs queued; `drains_of_producersDropped` says it does.
* `Desk.desertion` — that nobody comes back, that the queue is worked off, and that nobody
  is said to have gone before.
-/

namespace SerialWorkers

namespace Desk

variable {α : Type} {d d' d₀ : Desk α}

/-! ## What a job does when nobody is left -/

/-- Whether a job leaves a notice, where the slot is free and it can leave one at first. -/
def notices : Work α → Bool
  | .done => false
  | .act (.panic _) _ => false
  | .act (.call .giveNotice) _ => true
  | .act (.call .dropCancelSender) _ => false
  | .act _ rest => notices rest
  | .send _ _ rest => notices rest

/-- Whether a job gives up the place from which notices are left. -/
def dropsCancelSender : Work α → Bool
  | .done => false
  | .act (.panic _) _ => false
  | .act (.call .dropCancelSender) _ => true
  | .act _ rest => dropsCancelSender rest
  | .send _ _ rest => dropsCancelSender rest

/-- What became of the mailbox `m` when a job was run under service to which nobody is left
to send another one. -/
structure RunsAlone (m : Mailbox (Mail α)) (job : Work α) (m' : Mailbox (Mail α)) : Prop where
  /-- The inbox is still with the service. -/
  inbox : m'.inbox = m.inbox
  /-- Nothing was queued. -/
  queue : m'.queue = m.queue
  /-- The place for notices was given up, if the job gave it up. -/
  cancelSender : m'.cancelSender = (m.cancelSender && !dropsCancelSender job)
  /-- A notice was left, if the job left one. -/
  notice : m.inbox = true → m'.notice = (m.notice || m.cancelSender && notices job)

/-- A notice that a job leaves is in the slot, as long as there is an inbox. -/
theorem notice_giveNotice_of_inbox {m : Mailbox (Mail α)} (hi : m.inbox = true) :
    m.giveNotice.2.notice = true := by
  cases hn : m.notice <;> simp [Mailbox.giveNotice, hi, hn]

/-- What a request of a job does to the mailbox, and then the rest of the job. -/
theorem RunsAlone.respond {c : Call} {rest : Work α} {m' : Mailbox (Mail α)}
    (h : RunsAlone (d.respond c).mailbox rest m') :
    RunsAlone d.mailbox (.act (.call c) rest) m' := by
  obtain ⟨hinbox, hqueue, hsender, hnotice⟩ := h
  cases c with
  | giveNotice =>
      cases hw : d.mailbox.cancelSender with
      | false =>
          have hsame : (d.respond .giveNotice).mailbox = d.mailbox := by
            simp [Desk.respond, ask, hw, write]
          rw [hsame] at hinbox hqueue hsender hnotice
          exact ⟨hinbox, hqueue, hsender, by simpa [hw] using hnotice⟩
      | true =>
          have hleft : (d.respond .giveNotice).mailbox = d.mailbox.giveNotice.2 := by
            simp [Desk.respond, ask, hw, write]
          have hi : d.mailbox.giveNotice.2.inbox = d.mailbox.inbox :=
            congrArg Stock.inbox (stock_giveNotice d)
          have hkept : d.mailbox.giveNotice.2.cancelSender = d.mailbox.cancelSender := by
            unfold Mailbox.giveNotice
            split
            · rfl
            · split <;> rfl
          rw [hleft] at hinbox hqueue hsender hnotice
          refine ⟨hinbox.trans hi, hqueue.trans (Mailbox.queue_giveNotice _), ?_, fun h => ?_⟩
          · rw [hsender, hkept]
            rfl
          · rw [hnotice (hi.trans h), notice_giveNotice_of_inbox h, hw]
            simp [notices]
  | dropCancelSender =>
      refine ⟨hinbox, hqueue, ?_, fun h => ?_⟩
      · exact hsender.trans
          (by simp [Desk.respond, ask, write, Mailbox.dropCancelSender, dropsCancelSender])
      · exact (hnotice h).trans
          (by simp [Desk.respond, ask, write, Mailbox.dropCancelSender, notices])
  | beginStop =>
      have hbox : ∃ l, (d.respond .beginStop).mailbox = { d.mailbox with lifecycle := l } := by
        cases ho : d.mailbox.isOpen with
        | false => exact ⟨_, by simp [Desk.respond, ask, write, Mailbox.beginStop, ho]; rfl⟩
        | true => exact ⟨_, by simp [Desk.respond, ask, write, Mailbox.beginStop, ho]; rfl⟩
      obtain ⟨l, hbox⟩ := hbox
      rw [hbox] at hinbox hqueue hsender hnotice
      exact ⟨hinbox, hqueue, hsender, hnotice⟩
  | dropInbox | wait | serve =>
      have hsame : ∀ c : Call, d.ask true c = (.replied .noInbox, d) →
          (d.respond c).mailbox = d.mailbox := by
        intro c hc
        rw [respond_eq hc]
        rfl
      rw [hsame _ (by simp [ask])] at hinbox hqueue hsender hnotice
      exact ⟨hinbox, hqueue, hsender, hnotice⟩
  | cloneHandle | dropHandle | inspect | setStatus | markEnded | isOpen | identity | look =>
      exact ⟨hinbox, hqueue, hsender, hnotice⟩

theorem Alone.respond (h : Alone d₀ d) (c : Call) : Alone d₀ (d.respond c) := by
  have hask := h.ask true c
  obtain ⟨r, d', heq, -⟩ := answered_ask d c
  rw [heq] at hask
  rw [respond_eq heq]
  exact hask.write _

/-- **What a job under service does where nobody is left** to send another one. -/
theorem Alone.after (h : Alone d₀ d) (job : Work α) :
    Alone d₀ (d.after job) ∧ RunsAlone d.mailbox job (d.after job).mailbox := by
  have hnothing : ∀ {d : Desk α}, RunsAlone d.mailbox .done d.mailbox :=
    ⟨rfl, rfl, by simp [dropsCancelSender], by simp [notices]⟩
  induction job generalizing d with
  | done => exact ⟨h, hnothing⟩
  | send route job rest _ ih =>
      have hsend : d.dispatch route job = d.write (.sent route.manner .noHandle) := by
        rw [dispatch, h.send]
      rw [Desk.after, hsend]
      obtain ⟨ha, hinbox, hqueue, hsender, hnotice⟩ := ih (h.write (.sent route.manner .noHandle))
      exact ⟨ha, hinbox, hqueue, hsender, hnotice⟩
  | act a rest ih =>
      cases a with
      | log v =>
          obtain ⟨ha, hinbox, hqueue, hsender, hnotice⟩ := ih (h.write (.value v))
          exact ⟨ha, hinbox, hqueue, hsender, hnotice⟩
      | panic p =>
          obtain ⟨hinbox, hqueue, hsender, hnotice⟩ := hnothing (d := d)
          exact ⟨h, hinbox, hqueue, hsender, hnotice⟩
      | call c =>
          obtain ⟨ha, hruns⟩ := ih (h.respond c)
          exact ⟨ha, hruns.respond⟩

/-! ## Rounds of a service to which nobody sends -/

/-- Nobody is left who could send a job; the inbox is at hand, a notice could be left, and
none is waiting. -/
structure ProducersDropped (d : Desk α) : Prop where
  /-- The inbox is at hand. -/
  inbox : d.mailbox.inbox = true
  /-- Somebody could leave a notice. -/
  cancelSender : d.mailbox.cancelSender = true
  /-- None is waiting. -/
  notice : d.mailbox.notice = false
  /-- Nobody could send a job. -/
  deserted : d.mailbox.hasProducer = false

/-- Whether a service ends with a job: it leaves a notice, or it panics and the policy is to
retire. -/
def stops (policy : PanicPolicy) (job : Work α) : Bool :=
  notices job || (decide (policy = .retire) && (firstPanic job).isSome)

variable {policy : PanicPolicy} {ran : List (Mail α)} {d₁ : Desk α} {mail last : Mail α}
  {before behind rest : List (Mail α)} {w : Wake (Mail α)} {box : Mailbox (Mail α)}

theorem stops_eq_false_iff {job : Work α} : stops policy job = false ↔
    notices job = false ∧ (policy = .retire → firstPanic job = none) := by
  simp [stops]

theorem ProducersDropped.report (h : ProducersDropped d) (es : List Event) :
    ProducersDropped (d.report es) :=
  ⟨h.inbox, h.cancelSender, h.notice, h.deserted⟩

/-- What a wait may return there: the next job, and if there is none, that nobody is left. -/
theorem ProducersDropped.wakes (h : ProducersDropped d) (hw : d.mailbox.Wakes w box) :
    (∃ mail rest, w = .item mail ∧ d.mailbox.queue = mail :: rest ∧
      box = { d.mailbox with queue := rest }) ∨
      w = .deserted ∧ d.mailbox.queue = [] ∧ box = d.mailbox := by
  cases hw with
  | notice hn => exact absurd (hn.symm.trans h.notice) (by simp)
  | ownerGone _ hu => exact absurd (hu.symm.trans h.cancelSender) (by simp)
  | item hn hq => exact .inl ⟨_, _, rfl, hq, rfl⟩
  | deserted hn hq hp => exact .inr ⟨rfl, hq, rfl⟩

/-- What a round does where nobody is left. -/
theorem Alone.round (h : Alone d₀ d) (policy : PanicPolicy)
    (hw : d.mailbox.Wakes (.item mail) box) : Alone d₀ (d.round policy box mail) ∧
      RunsAlone box mail.job (d.round policy box mail).mailbox := by
  obtain ⟨ha, hruns⟩ := ((h.deliver hw).report [.jobBegan]).after mail.job
  rw [Desk.round, mailbox_tellPanic]
  exact ⟨⟨(congrArg Mailbox.hasProducer (mailbox_tellPanic ..)).trans ha.deserted,
    (accepted_tellPanic ..).trans ha.accepted⟩, hruns⟩

/-- A round takes the first job from the queue and puts none into it. -/
theorem queue_round (h : Alone d₀ d) (policy : PanicPolicy)
    (hw : d.mailbox.Wakes (.item mail) box) :
    d.mailbox.queue = mail :: (d.round policy box mail).mailbox.queue := by
  rw [(h.round policy hw).2.queue]
  cases hw with
  | item hn hq => exact hq

/-- A round leaves such a desk behind, with a job that leaves no notice and keeps the place for
notices. -/
theorem ProducersDropped.round (h : ProducersDropped d) (hw : d.mailbox.Wakes (.item mail) box)
    (hn : notices mail.job = false) (hu : dropsCancelSender mail.job = false) :
    ProducersDropped (d.round policy box mail) := by
  obtain ⟨ha, hruns⟩ := Alone.round ⟨h.deserted, rfl⟩ policy hw
  have hbox : box.inbox = d.mailbox.inbox ∧ box.cancelSender = d.mailbox.cancelSender ∧
      box.notice = d.mailbox.notice := by
    cases hw
    exact ⟨rfl, rfl, rfl⟩
  refine ⟨?_, ?_, ?_, ha.deserted⟩
  · rw [hruns.inbox, hbox.1, h.inbox]
  · rw [hruns.cancelSender, hbox.2.1, h.cancelSender, hu]
    rfl
  · rw [hruns.notice (hbox.1.trans h.inbox), hbox.2.2, h.notice, hn]
    simp

/-- A job that leaves a notice leaves it in the slot. -/
theorem ProducersDropped.notice_round (h : ProducersDropped d)
    (hw : d.mailbox.Wakes (.item mail) box)
    (hn : notices mail.job = true) : (d.round policy box mail).mailbox.notice = true := by
  obtain ⟨-, hruns⟩ := Alone.round ⟨h.deserted, rfl⟩ policy hw
  cases hw with
  | item hno hq =>
      rw [hruns.notice h.inbox, hn]
      simp [h.cancelSender]

/-- All rounds together take their jobs from the queue, and put none into it. -/
theorem Rounds.alone (h : Rounds policy d ran d₁) (ha : Alone d₀ d) :
    Alone d₀ d₁ ∧ d.mailbox.queue = ran ++ d₁.mailbox.queue := by
  induction h with
  | start => exact ⟨ha, rfl⟩
  | more _ hw _ ih =>
      obtain ⟨ha, hq⟩ := ih
      refine ⟨(ha.round policy hw).1, ?_⟩
      rw [hq, queue_round ha policy hw, List.append_assoc]
      rfl

theorem Rounds.producersDropped (h : Rounds policy d ran d₁) (hf : ProducersDropped d)
    (hcalm : ∀ mail ∈ ran, notices mail.job = false ∧ dropsCancelSender mail.job = false) :
    ProducersDropped d₁ := by
  induction h with
  | start => exact hf
  | more _ hw _ ih =>
      obtain ⟨hran, hmail⟩ := List.forall_mem_append.1 hcalm
      obtain ⟨hn, hu⟩ := hmail _ (List.mem_singleton.2 rfl)
      exact (ih hran).round hw hn hu

/-- **How far the rounds get** where a job will end the service: they have not come to it, or
it left a notice, and there is no round after it. -/
theorem Rounds.upTo (h : Rounds policy d ran d₁) (hf : ProducersDropped d)
    (hq : d.mailbox.queue = before ++ last :: behind)
    (hbefore : ∀ mail ∈ before, stops policy mail.job = false ∧ dropsCancelSender mail.job = false)
    (hlast : stops policy last.job = true) :
    (∃ more, before = ran ++ more ∧ ProducersDropped d₁ ∧
        d₁.mailbox.queue = more ++ last :: behind) ∨
      ran = before ++ [last] ∧ d₁.mailbox.notice = true ∧ d₁.mailbox.queue = behind := by
  induction h with
  | start => exact .inl ⟨before, rfl, hf, hq⟩
  | @more ran d₁ box mail _ hw survived ih =>
      rcases ih with ⟨more, rfl, hf₁, hq₁⟩ | ⟨-, hnotice, -⟩
      · have hnext := (queue_round ⟨hf₁.deserted, rfl⟩ policy hw).symm.trans hq₁
        cases more with
        | cons next more =>
            obtain ⟨rfl, hrest⟩ := List.cons.inj hnext
            obtain ⟨hstop, hu⟩ := hbefore mail (by simp)
            refine .inl ⟨more, by simp, hf₁.round hw (stops_eq_false_iff.1 hstop).1 hu, hrest⟩
        | nil =>
            -- it is the job itself, and it did not end the service by a panic
            obtain ⟨rfl, hrest⟩ := List.cons.inj hnext
            have hn : notices mail.job = true := by
              cases hn : notices mail.job with
              | true => rfl
              | false =>
                  rw [stops_eq_false_iff.2 ⟨hn, survived⟩] at hlast
                  cases hlast
            exact .inr ⟨by simp, hf₁.notice_round hw hn, hrest⟩
      · cases (wakes_of_notice hnotice hw).1

/-! ## How such a service ends -/

variable {o : Outcome}

/-- A service of desk `d` has run `ran` and left `left` in the queue, and nothing else was
ever delivered. -/
structure Drained (d : Desk α) (ran left : List (Mail α)) (d' : Desk α) : Prop where
  /-- These jobs were run, in this order. -/
  delivered : d'.delivered = d.delivered ++ ran
  /-- These were not. -/
  queue : d'.mailbox.queue = left

/-- What is run in the rounds and at the close is what is delivered. -/
theorem drained_of_rounds {ran' left : List (Mail α)}
    (hr : Rounds policy (d.report [.serviceBegan d.mailbox.identity]) ran d₁)
    (hc : Closes policy d₁ ran' o d') (hq : d'.mailbox.queue = left) :
    Drained d (ran ++ ran') left d' := by
  obtain ⟨sent, es, hbooks⟩ := hr.books
  obtain ⟨sent', hpasses⟩ := hc.passes
  refine ⟨?_, hq⟩
  rw [hpasses.delivered, hbooks.delivered, List.append_assoc]
  rfl

/-- How a service ends of which `last` is the last job. -/
inductive StopsAt (policy : PanicPolicy) (last : Mail α) (d' : Desk α) : Outcome → Prop
  /-- It panicked. -/
  | panicked {p : Payload} (hpolicy : policy = .retire) (hp : firstPanic last.job = some p) :
      StopsAt policy last d' (.broken (.panicked p.message))
  /-- It left a notice. -/
  | noticed (hp : policy = .retire → firstPanic last.job = none) :
      StopsAt policy last d' (d'.mailbox.outcome .noticed)

/-- How a service closes that stands at its wait where nobody is left and no notice can
come: nothing is queued, or the next job panics. -/
inductive LastWait (policy : PanicPolicy) (d : Desk α) :
    List (Mail α) → Outcome → Desk α → Prop
  /-- Nothing is queued. -/
  | empty (hq : d.mailbox.queue = []) : LastWait policy d [] .orderly (d.conclude .deserted)
  /-- The next job panics, and the policy is to retire. -/
  | panics {next : Mail α} {p : Payload} {d' : Desk α}
      (hq : d.mailbox.queue = next :: d'.mailbox.queue) (hpolicy : policy = .retire)
      (hp : firstPanic next.job = some p) :
      LastWait policy d [next] (.broken (.panicked p.message)) d'

theorem ProducersDropped.lastWait {ran' : List (Mail α)} (hf : ProducersDropped d)
    (hc : Closes policy d ran' o d') : LastWait policy d ran' o d' := by
  cases hc with
  | noticed hw =>
      rcases hf.wakes hw with ⟨_, _, hitem, -⟩ | ⟨hitem, -⟩
      · cases hitem
      · cases hitem
  | deserted hw =>
      rcases hf.wakes hw with ⟨_, _, hitem, -⟩ | ⟨-, hempty, rfl⟩
      · cases hitem
      · exact .empty hempty
  | panicked hw hpolicy hp =>
      refine .panics ?_ hpolicy hp
      exact queue_round ⟨hf.deserted, rfl⟩ policy hw

/-- **The first job that ends the service ends it**, and all before it are run. -/
theorem ProducersDropped.serves_upTo (hf : ProducersDropped d)
    (hq : d.mailbox.queue = before ++ last :: behind)
    (hbefore : ∀ mail ∈ before, stops policy mail.job = false ∧ dropsCancelSender mail.job = false)
    (hlast : stops policy last.job = true) (h : d.Serves policy o d') :
    Drained d (before ++ [last]) behind d' ∧ StopsAt policy last d' o := by
  obtain ⟨ran, d₁, ran', hr, hc⟩ := h.exists_rounds
  rcases hr.upTo (hf.report _) hq hbefore hlast with
    ⟨more, rfl, hf₁, hq₁⟩ | ⟨rfl, hnotice, hq₁⟩
  · -- the wait returns with the next job, and that panics
    cases hf₁.lastWait hc with
    | empty hempty =>
        rw [hempty] at hq₁
        simp at hq₁
    | @panics mail p _ hnext hpolicy hp =>
        rw [hnext] at hq₁
        cases more with
        | cons next more =>
            obtain ⟨rfl, -⟩ := List.cons.inj hq₁
            have hno := (stops_eq_false_iff.1 (hbefore mail (by simp)).1).2 hpolicy
            rw [hno] at hp
            cases hp
        | nil =>
            obtain ⟨rfl, hleft⟩ := List.cons.inj hq₁
            rw [List.append_nil]
            exact ⟨drained_of_rounds hr hc hleft, .panicked hpolicy hp⟩
  · -- it left a notice, and the wait returns with that
    obtain ⟨rfl, rfl, rfl⟩ := hc.eq_of_notice hnotice
    have hdrained := drained_of_rounds hr hc hq₁
    rw [List.append_nil] at hdrained
    exact ⟨hdrained, .noticed fun hpolicy => hr.calm hpolicy last (by simp)⟩

/-- A service that has jobs left runs on, if none of them ends it and the place for notices is
kept until the last one. -/
theorem Rounds.queue_eq_nil_of_closes {ran' : List (Mail α)} (h : Rounds policy d ran d₁)
    (hf : ProducersDropped d) (hstop : ∀ mail ∈ d.mailbox.queue, stops policy mail.job = false)
    (hkeep : ∀ mail ∈ d.mailbox.queue.dropLast, dropsCancelSender mail.job = false)
    (hc : Closes policy d₁ ran' o d') : d₁.mailbox.queue = [] := by
  obtain ⟨-, hq⟩ := h.alone ⟨hf.deserted, rfl⟩
  cases hq₁ : d₁.mailbox.queue with
  | nil => rfl
  | cons next more =>
      rw [hq₁] at hq
      have hcalm : ∀ mail ∈ ran, notices mail.job = false ∧ dropsCancelSender mail.job = false := by
        intro mail hmail
        refine ⟨(stops_eq_false_iff.1 (hstop mail ?_)).1, hkeep mail ?_⟩
        · rw [hq]
          exact List.mem_append_left _ hmail
        · rw [hq, List.dropLast_append_of_ne_nil (by simp)]
          exact List.mem_append_left _ hmail
      cases (h.producersDropped hf hcalm).lastWait hc with
      | empty hempty =>
          rw [hq₁] at hempty
          cases hempty
      | @panics mail p _ hnext hpolicy hp =>
          have hmem : mail ∈ d.mailbox.queue := by
            rw [hq, ← hq₁, hnext]
            simp
          rw [(stops_eq_false_iff.1 (hstop mail hmem)).2 hpolicy] at hp
          cases hp

/-- A service that stands at its wait with nothing queued takes up nothing more. -/
theorem Closes.of_queue_eq_nil {ran' : List (Mail α)} (h : Closes policy d ran' o d')
    (hq : d.mailbox.queue = []) : ran' = [] ∧ d'.mailbox.queue = [] := by
  cases h with
  | noticed hw => cases hw <;> exact ⟨rfl, hq⟩
  | deserted hw =>
      cases hw
      exact ⟨rfl, hq⟩
  | panicked hw =>
      cases hw with
      | item hn hitem => cases hq.symm.trans hitem

/-- **If no job ends the service, all are run.** -/
theorem ProducersDropped.serves_all (hf : ProducersDropped d)
    (hstop : ∀ mail ∈ d.mailbox.queue, stops policy mail.job = false)
    (hkeep : ∀ mail ∈ d.mailbox.queue.dropLast, dropsCancelSender mail.job = false)
    (h : d.Serves policy o d') : Drained d d.mailbox.queue [] d' := by
  obtain ⟨ran, d₁, ran', hr, hc⟩ := h.exists_rounds
  have hempty := hr.queue_eq_nil_of_closes (hf.report _) hstop hkeep hc
  obtain ⟨-, hq⟩ := hr.alone ⟨hf.deserted, rfl⟩
  have hran : d.mailbox.queue = ran := by
    rw [hempty, List.append_nil] at hq
    exact hq
  obtain ⟨rfl, hleft⟩ := hc.of_queue_eq_nil hempty
  have hdrained := drained_of_rounds hr hc hleft
  rwa [List.append_nil, ← hran] at hdrained

/-- **And if the place for notices is kept as well, the service ends because nobody is left**,
in good order, whatever the status. -/
theorem ProducersDropped.serves_deserted (hf : ProducersDropped d)
    (hcalm : ∀ mail ∈ d.mailbox.queue,
      stops policy mail.job = false ∧ dropsCancelSender mail.job = false)
    (h : d.Serves policy o d') : o = .orderly ∧ ∃ told, d'.events = told ++
      [.deserted d.mailbox.identity, .serviceEnded d.mailbox.identity 0] := by
  obtain ⟨ran, d₁, ran', hr, hc⟩ := h.exists_rounds
  have hempty := hr.queue_eq_nil_of_closes (hf.report _)
    (fun mail hmail => (hcalm mail hmail).1)
    (fun mail hmail => (hcalm mail (List.dropLast_subset _ hmail)).2) hc
  obtain ⟨-, hq⟩ := hr.alone ⟨hf.deserted, rfl⟩
  have hf₁ := hr.producersDropped (hf.report _) fun mail hmail => by
    obtain ⟨hstop, hu⟩ := hcalm mail (hq ▸ List.mem_append_left _ hmail)
    exact ⟨(stops_eq_false_iff.1 hstop).1, hu⟩
  obtain ⟨sent, es, hbooks⟩ := hr.books
  have hname : d₁.mailbox.identity = d.mailbox.identity := hbooks.identity
  cases hf₁.lastWait hc with
  | empty =>
      refine ⟨rfl, d₁.events, ?_⟩
      simp [Desk.conclude, Mailbox.reasonEvents, Mailbox.exitEvent, Mailbox.pending, hempty, hname]
  | panics hnext => cases hempty.symm.trans hnext

/-! ## That it ends -/

namespace Machine

/-- A job under way can always go on. -/
theorem exists_step_of_job (d : Desk α) (via : Via) (job : Work α) (below : List (Frame α))
    (a : Option Reply) :
    ∃ m, step { desk := d, stack := .job via job :: below, answer := a } = some m := by
  cases job with
  | done | send => exact ⟨_, rfl⟩
  | act a rest => cases a <;> exact ⟨_, rfl⟩

end Machine

/-- Where nobody is left a wait returns. -/
theorem next_ne_none_of_alone (h : d.mailbox.hasProducer = false) : d.mailbox.next ≠ none := by
  intro hn
  rw [(Mailbox.next_eq_none_iff.1 hn).2.2.2] at h
  cases h

/-- **A service to which nobody is left to send a job ends**, whatever is under way outside
it. -/
theorem ProducersDropped.closes (hf : ProducersDropped d) (policy : PanicPolicy)
    (below : List (Frame α)) :
    ∃ o d', d.Serves policy o d' ∧ Machine.Reaches
      (Machine.answerTo d' (.serve policy) (.served o) below)
      (Machine.serving d policy below).run := by
  have hstep := Machine.step_run (Machine.serving d policy below)
  have hrun := Machine.reaches_run (Machine.serving d policy below)
  rcases Machine.reaches_service hrun with hin | ⟨m, hclosed, hreach⟩
  · -- neither its wait nor its job is where it could stand for ever
    generalize (Machine.serving d policy below).run = m at hin hstep
    cases hin with
    | waiting hr =>
        obtain ⟨ha, -⟩ := hr.alone ⟨hf.deserted, rfl⟩
        rw [Machine.step_service, Option.map_eq_none_iff] at hstep
        exact absurd hstep (next_ne_none_of_alone ha.deserted)
    | working =>
        obtain ⟨m', hm'⟩ := Machine.exists_step_of_job _ _ _ _ _
        rw [hm'] at hstep
        cases hstep
  · obtain ⟨ran, d₁, last, o, d', hrounds, hcloses, rfl⟩ := hclosed
    exact ⟨o, d', (hrounds.reaches []).trans (hcloses.reaches []), hreach⟩

/-! ## What becomes of the queue -/

/-- What becomes of the jobs queued at desk `d` when it is served by `policy` and nobody is
left to send another one. -/
structure Drains (d : Desk α) (policy : PanicPolicy) : Prop where
  /-- The desk's user is answered. -/
  answered : ∃ o d', d.perform (.call (.serve policy)) = (some (.served o), d') ∧
    d.Serves policy o d'
  /-- So is a job that asks for the service, with `below` under way outside it. -/
  answeredWithin : ∀ below, ∃ o d', d.Serves policy o d' ∧ Machine.Reaches
    (Machine.answerTo d' (.serve policy) (.served o) below)
    (Machine.serving d policy below).run
  /-- The first job that leaves a notice, or panics where the policy is to retire, is the last
  one run, if none before it gave up the place for notices. -/
  stopped : ∀ {before behind : List (Mail α)} {last : Mail α} {o : Outcome} {d' : Desk α},
    d.mailbox.queue = before ++ last :: behind →
    (∀ mail ∈ before, stops policy mail.job = false ∧ dropsCancelSender mail.job = false) →
    stops policy last.job = true → d.Serves policy o d' →
    Drained d (before ++ [last]) behind d' ∧ StopsAt policy last d' o
  /-- If there is none, all are run. -/
  drained : ∀ {o : Outcome} {d' : Desk α},
    (∀ mail ∈ d.mailbox.queue, stops policy mail.job = false) →
    (∀ mail ∈ d.mailbox.queue.dropLast, dropsCancelSender mail.job = false) →
    d.Serves policy o d' → Drained d d.mailbox.queue [] d'
  /-- And the service ends because nobody is left, unless the last one gave up the place for
  notices. -/
  deserted : ∀ {o : Outcome} {d' : Desk α},
    (∀ mail ∈ d.mailbox.queue, stops policy mail.job = false ∧ dropsCancelSender mail.job = false) →
    d.Serves policy o d' → o = .orderly ∧ ∃ told, d'.events = told ++
      [.deserted d.mailbox.identity, .serviceEnded d.mailbox.identity 0]

/-- **The queue is worked off.** -/
theorem drains_of_producersDropped (hf : ProducersDropped d) (policy : PanicPolicy) :
    Drains d policy where
  answered := by
    obtain ⟨o, d', hserves, hreach⟩ := hf.closes policy []
    have hperform : d.perform (.call (.serve policy)) = (some (.served o), d') := by
      rw [perform, start_serve hf.inbox (next_ne_none_of_alone hf.deserted),
        hreach.eq_of_stack_eq_nil rfl]
      rfl
    exact ⟨o, d', hperform, hserves⟩
  answeredWithin := hf.closes policy
  stopped := hf.serves_upTo
  drained := hf.serves_all
  deserted := hf.serves_deserted

/-- **Nobody comes back, and nothing queued is lost.**  Once nobody is left, whatever
happens, no handle is held again and nothing is accepted; a service that begins then works
off what is queued; and as long as somebody is left, or a job is queued, no wait is said to
have found nobody left. -/
theorem desertion :
    (∀ {m m' : Machine α} {told : List (Sending α)}, m.desk.mailbox.hasProducer = false →
      Machine.Unfolds m told m' → Alone m.desk m'.desk ∧
        (∀ k, m'.desk.mailbox.holds k = false) ∧ ∀ x ∈ told, x.reply = .noHandle) ∧
    (∀ {d : Desk α} (policy : PanicPolicy), ProducersDropped d → Drains d policy) ∧
    ∀ {m m' : Machine α} {ss : List (Sending α)}, m.desk.Busy → Machine.Happens m ss m' →
      Machine.NoDisconnect m.desk m' := by
  refine ⟨?_, ?_, ?_⟩
  · intro m m' told hgone h
    obtain ⟨halone, htold⟩ := h.alone ⟨hgone, rfl⟩
    exact ⟨halone, Mailbox.holds_of_alone halone.deserted, htold⟩
  · intro d policy hf
    exact drains_of_producersDropped hf policy
  · intro m m' ss hbusy h
    exact Machine.noDisconnect_of_happens hbusy h

/-- A desk whose handle was let go of, with three jobs queued: one copies the dead handle,
sends by the copy and records a status, one panics, and one writes to the log. -/
def lonelyDesk : Desk Nat where
  mailbox := {
    identity := "pot"
    handles := [false]
    queue := [
      ⟨0, 0, .act (.call (.cloneHandle 0))
        (.send ⟨.patient, 1⟩ .done (.act (.call (.setStatus 7)) .done))⟩,
      ⟨1, 0, .act (.panic (.literal "oh")) .done⟩,
      ⟨2, 0, .act (.log 5) .done⟩] }

/-- Its service runs all three if it is to carry on, and ends in good order; if it is to
retire, the panic ends it, and the third job is left.  The copy is as dead as the handle, and
a wait that takes up the first job is not said to have found nobody left. -/
theorem desertion_lonelyDesk :
    (∃ d', lonelyDesk.perform (.call (.serve .carryOn)) = (some (.served .orderly), d') ∧
      d'.delivered = lonelyDesk.mailbox.queue ∧ d'.mailbox.holds 1 = false) ∧
    (∃ d', lonelyDesk.perform (.call (.serve .retire))
        = (some (.served (.broken (.panicked "oh"))), d') ∧
      d'.mailbox.queue = [⟨2, 0, .act (.log 5) .done⟩]) ∧
    Machine.NoDisconnect lonelyDesk (.start lonelyDesk (.call .wait)) := by
  have hf : ProducersDropped lonelyDesk := ⟨rfl, rfl, rfl, rfl⟩
  refine ⟨?_, ?_, ?_⟩
  · have h := desertion.2.1 .carryOn hf
    obtain ⟨o, d', hperform, hserves⟩ := h.answered
    have hcalm : ∀ mail ∈ lonelyDesk.mailbox.queue,
        stops .carryOn mail.job = false ∧ dropsCancelSender mail.job = false := by decide
    obtain ⟨rfl, -⟩ := h.deserted hcalm hserves
    have hdrained := h.drained (fun mail hmail => (hcalm mail hmail).1) (by decide) hserves
    obtain ⟨told, hunfolds⟩ := Machine.exists_unfolds_of_perform lonelyDesk none
      (.call (.serve .carryOn))
    have hdead := (desertion.1 rfl hunfolds).2.1 1
    have hdesk : (Machine.start lonelyDesk (.call (.serve .carryOn))).run.desk = d' :=
      congrArg Prod.snd hperform
    rw [hdesk] at hdead
    exact ⟨d', hperform, hdrained.delivered, hdead⟩
  · have h := desertion.2.1 .retire hf
    obtain ⟨o, d', hperform, hserves⟩ := h.answered
    have hq : lonelyDesk.mailbox.queue = lonelyDesk.mailbox.queue.take 1 ++
        ⟨1, 0, .act (.panic (.literal "oh")) .done⟩ :: lonelyDesk.mailbox.queue.drop 2 := rfl
    obtain ⟨hdrained, hstops⟩ := h.stopped hq (by decide) (by decide) hserves
    cases hstops with
    | panicked _ hp =>
        cases hp
        exact ⟨d', hperform, hdrained.queue⟩
    | noticed hcalm => cases hcalm rfl
  · exact desertion.2.2 (.inr (by decide)) (.asked lonelyDesk none (.call .wait))

end Desk

end SerialWorkers
