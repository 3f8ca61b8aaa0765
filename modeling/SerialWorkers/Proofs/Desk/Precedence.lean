import SerialWorkers.Proofs.Desk.Rounds

/-!
# A notice comes before all queued jobs

A wait looks at the slot first.  Once a notice is in it, the job under way is the last
one of its service, however many are queued; none is taken up, and the queue is left as
that job leaves it.

Nothing but a wait empties the slot.  So a notice that is waiting is the only one until
the service closes, and is gone when it does, unless it was a panic that closed it.

* `Desk.notice_after` — a notice in the slot stays there while a job runs.
* `Desk.ExitsAfter` — how a service closes that has a notice waiting in a job.
* `Desk.notice_comes_first` — it closes so, and what else a notice comes before.
-/

namespace SerialWorkers.Desk

variable {α : Type} {d d' d₁ : Desk α} {policy : PanicPolicy} {below : List (Frame α)}
  {ran : List (Mail α)} {job : Work α} {o : Outcome}

/-! ## At a wait -/

/-- The desk once its notice was seen. -/
def noticeSeen (d : Desk α) : Desk α := { d with mailbox := { d.mailbox with notice := false } }

/-- A wait returns with the notice. -/
theorem wakes_of_notice (hn : d.mailbox.notice = true) {w : Wake (Mail α)}
    {box : Mailbox (Mail α)} (h : d.mailbox.Wakes w box) :
    w = .noticed ∧ box = d.noticeSeen.mailbox := by
  cases h with
  | notice => exact ⟨rfl, rfl⟩
  | ownerGone hno => simp [hn] at hno
  | item hno => simp [hn] at hno
  | deserted hno => simp [hn] at hno

theorem next_of_notice (hn : d.mailbox.notice = true) :
    d.mailbox.next = some (.noticed, d.noticeSeen.mailbox) := by
  simp only [Mailbox.next, hn, Bool.true_or, if_true]
  rfl

/-- A service that stands at its wait takes up no job. -/
theorem Rounds.eq_of_notice (h : Rounds policy d ran d₁) (hn : d.mailbox.notice = true) :
    ran = [] ∧ d₁ = d := by
  induction h with
  | start => exact ⟨rfl, rfl⟩
  | more _ hw _ ih =>
      obtain ⟨-, rfl⟩ := ih
      cases (wakes_of_notice hn hw).1

/-- It closes. -/
theorem Closes.eq_of_notice {last : List (Mail α)} (h : Closes policy d last o d')
    (hn : d.mailbox.notice = true) :
    last = [] ∧ o = d.mailbox.outcome .noticed ∧ d' = d.noticeSeen.conclude .noticed := by
  cases h with
  | noticed hw =>
      obtain ⟨-, rfl⟩ := wakes_of_notice hn hw
      exact ⟨rfl, rfl, rfl⟩
  | deserted hw => cases (wakes_of_notice hn hw).1
  | panicked hw => cases (wakes_of_notice hn hw).1

/-! ## In a job -/

/-- **A notice in the slot stays there while a job runs**, and the job can leave no
other. -/
theorem notice_after (hn : d.mailbox.notice = true) (job : Work α) :
    (d.after job).mailbox.notice = true ∧
      ∃ es, (d.after job).log = d.log ++ es ∧ noticesLeft es = 0 := by
  obtain ⟨sent, es, hbooks⟩ := books_after d job
  have hnotices := hbooks.notices
  rw [hn, Bool.toNat_true] at hnotices
  have hle := Bool.toNat_le (d.after job).mailbox.notice
  exact ⟨Bool.toNat_eq_one.1 (by omega), es, hbooks.log, by omega⟩

/-- It still does when the panic of the job is told, if there was one. -/
theorem notice_tellPanic (hn : d.mailbox.notice = true) (policy : PanicPolicy) (job : Work α) :
    ((d.after job).tellPanic policy (firstPanic job)).mailbox.notice = true := by
  rw [mailbox_tellPanic]
  exact (notice_after hn job).1

/-- A job takes up no other. -/
theorem delivered_after (d : Desk α) (job : Work α) : (d.after job).delivered = d.delivered := by
  obtain ⟨sent, es, hbooks⟩ := books_after d job
  exact hbooks.delivered.trans (List.append_nil _)

/-- How a service closed that came to `o` and left the desk as `d'`, after a notice was
waiting at desk `d` while `job` was left of the job under way. -/
structure ExitsAfter (d : Desk α) (policy : PanicPolicy) (job : Work α) (o : Outcome)
    (d' : Desk α) : Prop where
  /-- No other job was taken up. -/
  delivered : d'.delivered = d.delivered
  /-- The queue is as the job left it. -/
  queue : d'.mailbox.queue = (d.after job).mailbox.queue
  /-- So is the record of what was accepted. -/
  accepted : d'.accepted = (d.after job).accepted
  /-- And so is the log. -/
  log : d'.log = (d.after job).log
  /-- No other notice was left. -/
  only : ∃ es, d'.log = d.log ++ es ∧ noticesLeft es = 0
  /-- If the service closed because it saw a notice, this is the one, and it is gone. -/
  seen : (policy = .retire → firstPanic job = none) →
    d'.mailbox.notice = false ∧ o = (d.after job).mailbox.outcome .noticed
  /-- If it was a panic that closed it, the notice is still waiting. -/
  unseen : policy = .retire → ∀ p, firstPanic job = some p →
    d'.mailbox.notice = true ∧ o = .broken (.panicked p.message)

/-- A service that sees the notice closes so. -/
theorem exitsAfter_of_survived (hn : d.mailbox.notice = true)
    (h : policy = .retire → firstPanic job = none) :
    ExitsAfter d policy job ((d.after job).mailbox.outcome .noticed)
      (((d.after job).tellPanic policy (firstPanic job)).noticeSeen.conclude .noticed) where
  delivered := (delivered_tellPanic _ _ _).trans (delivered_after d job)
  queue := by
    rw [← mailbox_tellPanic (d.after job) policy (firstPanic job)]
    rfl
  accepted := accepted_tellPanic _ _ _
  log := log_tellPanic _ _ _
  only := by
    obtain ⟨-, es, hlog, hes⟩ := notice_after hn job
    exact ⟨es, (log_tellPanic _ _ _).trans hlog, hes⟩
  seen := fun _ => ⟨rfl, rfl⟩
  unseen := by
    intro hpolicy p hp
    rw [h hpolicy] at hp
    cases hp

/-- And so does one that a panic closes. -/
theorem exitsAfter_of_panicked (hn : d.mailbox.notice = true) {p : Payload}
    (hp : firstPanic job = some p) :
    ExitsAfter d .retire job (.broken (.panicked p.message))
      (((d.after job).tellPanic .retire (some p)).conclude (.panicked p.message)) where
  delivered := delivered_after d job
  queue := rfl
  accepted := rfl
  log := rfl
  only := (notice_after hn job).2
  seen := by
    intro h
    rw [h rfl] at hp
    cases hp
  unseen := by
    intro _ p' hp'
    rw [hp] at hp'
    cases hp'
    exact ⟨(notice_after hn job).1, rfl⟩

namespace Machine

variable {m : Machine α}

/-- **A service that stands at its wait with a notice waiting** still does, or it has closed
with the notice. -/
theorem reaches_noticed (hn : d.mailbox.notice = true)
    (h : Reaches { desk := d, stack := .service policy :: below } m) :
    m = { desk := d, stack := .service policy :: below } ∨
      Reaches (answerTo (d.noticeSeen.conclude .noticed) (.serve policy)
        (.served (d.mailbox.outcome .noticed)) below) m := by
  rcases reaches_service h with hin | ⟨m₁, hclosed, hreach⟩
  · cases hin with
    | waiting hrounds =>
        obtain ⟨-, rfl⟩ := hrounds.eq_of_notice hn
        exact .inl rfl
    | working hrounds hw =>
        obtain ⟨-, rfl⟩ := hrounds.eq_of_notice hn
        cases (wakes_of_notice hn hw).1
  · obtain ⟨ran, d₁, last, o, d', hrounds, hcloses, rfl⟩ := hclosed
    obtain ⟨-, rfl⟩ := hrounds.eq_of_notice hn
    obtain ⟨-, rfl, rfl⟩ := hcloses.eq_of_notice hn
    exact .inr hreach

/-- **A service with a notice waiting in its job** runs that job to its end, stands at its
wait once more, and closes. -/
theorem reaches_exitsAfter (hn : d.mailbox.notice = true)
    (h : Reaches { desk := d, stack := .job (.serving policy) job :: below } m) :
    (∃ f, m.stack = f :: below ∧ f.holdsInbox = true ∧ m.desk.delivered = d.delivered) ∨
      ∃ o d', ExitsAfter d policy job o d' ∧
        Reaches (answerTo d' (.serve policy) (.served o) below) m := by
  rcases reaches_job h with ⟨d₁, rest, rfl, hafter, -⟩ | hover
  · refine .inl ⟨_, rfl, rfl, ?_⟩
    rw [← delivered_after d₁ rest, hafter, delivered_after]
  · rcases survived_or_panicked policy (firstPanic job) with hsurvived | ⟨rfl, p, hp⟩
    · have horders := exitsAfter_of_survived hn hsurvived
      rw [jobOver_of_survived hsurvived] at hover
      rcases reaches_noticed (notice_tellPanic hn policy job) hover with rfl | hreach
      · exact .inl ⟨_, rfl, rfl, horders.delivered⟩
      · rw [mailbox_tellPanic] at hreach
        exact .inr ⟨_, _, horders, hreach⟩
    · rw [hp, jobOver_of_panicked] at hover
      exact .inr ⟨_, _, exitsAfter_of_panicked hn hp, hover⟩

/-- **And it does come to that.** -/
theorem exists_reaches_exitsAfter (hn : d.mailbox.notice = true) (policy : PanicPolicy)
    (below : List (Frame α)) (job : Work α) : ∃ o d', ExitsAfter d policy job o d' ∧
      Reaches { desk := d, stack := .job (.serving policy) job :: below }
        (answerTo d' (.serve policy) (.served o) below) := by
  have hover := reaches_jobOver d policy below job
  rcases survived_or_panicked policy (firstPanic job) with hsurvived | ⟨rfl, p, hp⟩
  · rw [jobOver_of_survived hsurvived] at hover
    refine ⟨_, _, exitsAfter_of_survived hn hsurvived, ?_⟩
    have hcloses : Closes policy _ [] _ _ := .noticed (.notice (notice_tellPanic hn policy job))
    rw [← mailbox_tellPanic (d.after job) policy (firstPanic job)]
    exact hover.trans (hcloses.reaches below)
  · rw [hp, jobOver_of_panicked] at hover
    exact ⟨_, _, exitsAfter_of_panicked hn hp, hover⟩

end Machine

/-! ## What a notice comes before -/

/-- What is known where a notice is waiting at desk `d`. -/
structure ComesFirst (d : Desk α) (policy : PanicPolicy) : Prop where
  /-- Whatever a wait could return with, it returns with the notice. -/
  wakes : ∀ w box, d.mailbox.Wakes w box → w = .noticed ∧ box = d.noticeSeen.mailbox
  /-- So does every wait of whoever has the inbox at hand. -/
  asked : d.mailbox.inbox = true → d.ask false .wait = (.replied (.woken .noticed), d.noticeSeen)
  /-- A wait is answered with it, and nothing else happens. -/
  waits : d.mailbox.inbox = true →
    d.perform (.call .wait) = (some (.woken .noticed), d.noticeSeen)
  /-- A service is answered too, at once. -/
  answered : d.mailbox.inbox = true → d.perform (.call (.serve policy))
    = (some (.served (d.mailbox.outcome .noticed)),
      (d.report [.serviceBegan d.mailbox.identity]).noticeSeen.conclude .noticed)
  /-- And no service that is asked for takes up a job. -/
  served : ∀ below m, Machine.Reaches (.serving d policy below) m →
    (∃ f, m.stack = f :: below ∧ f.holdsInbox = true ∧ m.desk.delivered = d.delivered) ∨
      ∃ o d', ExitsAfter d policy .done o d' ∧
        Machine.Reaches (Machine.answerTo d' (.serve policy) (.served o) below) m
  /-- Where a service is in the middle of a job, that is its last. -/
  working : ∀ below job m,
    Machine.Reaches { desk := d, stack := .job (.serving policy) job :: below } m →
    (∃ f, m.stack = f :: below ∧ f.holdsInbox = true ∧ m.desk.delivered = d.delivered) ∨
      ∃ o d', ExitsAfter d policy job o d' ∧
        Machine.Reaches (Machine.answerTo d' (.serve policy) (.served o) below) m
  /-- And it does close. -/
  closes : ∀ below job, ∃ o d', ExitsAfter d policy job o d' ∧
    Machine.Reaches { desk := d, stack := .job (.serving policy) job :: below }
      (Machine.answerTo d' (.serve policy) (.served o) below)
  /-- In a service that was asked for at desk `d₀`, the notice is the only one: it was
  waiting already or was left since.  A service in the middle of others may have closed
  meanwhile. -/
  only : ∀ d₀ below job, Machine.Reaches (.serving d₀ policy below)
      { desk := d, stack := .job (.serving policy) job :: below } →
    (∃ es, d.log = d₀.log ++ es ∧ d₀.mailbox.notice.toNat + noticesLeft es = 1) ∨
      (below ≠ [] ∧ ∃ o d', Accounted d₀ policy o d' ∧
        Machine.Reaches (Machine.answerTo d' (.serve policy) (.served o) below)
          { desk := d, stack := .job (.serving policy) job :: below })
  /-- Whoever tries to leave another leaves none. -/
  another : ∀ lent, ∃ r, d.ask lent .giveNotice = (.replied r, d) ∧ r ≠ .notice .left

/-- Whoever tries to leave a notice where one is waiting leaves none. -/
theorem ask_giveNotice_of_notice (hn : d.mailbox.notice = true) (lent : Bool) :
    ∃ r, d.ask lent .giveNotice = (.replied r, d) ∧ r ≠ .notice .left := by
  simp only [ask, Mailbox.giveNotice, hn, if_true]
  split
  · split
    · exact ⟨_, rfl, by simp⟩
    · exact ⟨_, rfl, by simp⟩
  · exact ⟨_, rfl, by simp⟩

theorem ask_wait_of_notice (hn : d.mailbox.notice = true) (hi : d.mailbox.inbox = true) :
    d.ask false .wait = (.replied (.woken .noticed), d.noticeSeen) := by
  simp only [ask, hi, next_of_notice hn, Bool.not_false, Bool.and_self, if_true]
  rfl

/-- A service that is asked for sees the notice at once. -/
theorem perform_serve_of_notice (hn : d.mailbox.notice = true) (hi : d.mailbox.inbox = true)
    (policy : PanicPolicy) : d.perform (.call (.serve policy))
      = (some (.served (d.mailbox.outcome .noticed)),
        (d.report [.serviceBegan d.mailbox.identity]).noticeSeen.conclude .noticed) := by
  have hstart := start_serve hi (by simp [next_of_notice hn]) policy
  have hstep : (Machine.serving d policy []).step = some (Machine.endService
      (d.report [.serviceBegan d.mailbox.identity]).noticeSeen policy .noticed []) := by
    simp only [Machine.step, Machine.serving, report, next_of_notice hn]
    rfl
  rw [perform, hstart, Machine.run_of_step_some hstep, Machine.run_of_step_none rfl]
  rfl

/-- The service of a desk where a notice is waiting is as good as in a job with nothing
left to do. -/
theorem Machine.reaches_serving_of_notice (hn : d.mailbox.notice = true) {m : Machine α}
    (h : Reaches (.serving d policy below) m) :
    (∃ f, m.stack = f :: below ∧ f.holdsInbox = true ∧ m.desk.delivered = d.delivered) ∨
      ∃ o d', ExitsAfter d policy .done o d' ∧
        Reaches (answerTo d' (.serve policy) (.served o) below) m := by
  have hjob : Reaches
      { desk := d.report [.serviceBegan d.mailbox.identity]
        stack := .job (.serving policy) .done :: below } m :=
    ((Reaches.refl _).tail (.step rfl)).trans h
  have hreport : (d.report [.serviceBegan d.mailbox.identity]).mailbox.notice = true := hn
  rcases reaches_exitsAfter hreport hjob with hstill | ⟨o, d', horders, hreach⟩
  · exact .inl hstill
  · exact .inr ⟨o, d', ⟨horders.delivered, horders.queue, horders.accepted, horders.log,
      horders.only, horders.seen, horders.unseen⟩, hreach⟩

/-- The notices of a service under way are in the slot. -/
theorem Machine.notices_of_reaches {d₀ : Desk α} (h : Reaches (.serving d₀ policy below)
      { desk := d, stack := .job (.serving policy) job :: below }) :
    (∃ es, d.log = d₀.log ++ es ∧
      d₀.mailbox.notice.toNat + noticesLeft es = d.mailbox.notice.toNat) ∨
      (below ≠ [] ∧ ∃ o d', Accounted d₀ policy o d' ∧
        Reaches (answerTo d' (.serve policy) (.served o) below)
          { desk := d, stack := .job (.serving policy) job :: below }) := by
  rcases (inService_start _ policy below).reaches h with hin | ⟨o, d', haccount, hreach⟩
  · cases hin with
    | working books => exact .inl ⟨_, books.log, books.notices⟩
  · refine .inr ⟨?_, o, d', haccount.of_report, hreach⟩
    rintro rfl
    cases hreach.eq_of_stack_eq_nil rfl

/-- **A notice comes before all queued jobs**, at every wait. -/
theorem notice_comes_first (d : Desk α) (policy : PanicPolicy) (hn : d.mailbox.notice = true) :
    ComesFirst d policy where
  wakes := fun _ _ => wakes_of_notice hn
  asked := ask_wait_of_notice hn
  waits := by
    intro hi
    rw [perform, Machine.start, ask_wait_of_notice hn hi, Machine.run_of_step_none rfl]
  answered := fun hi => perform_serve_of_notice hn hi policy
  served := fun _ _ => Machine.reaches_serving_of_notice hn
  working := fun _ _ _ => Machine.reaches_exitsAfter hn
  closes := Machine.exists_reaches_exitsAfter hn policy
  only := by
    intro d₀ below job h
    rcases Machine.notices_of_reaches h with ⟨es, hlog, hnotices⟩ | hclosed
    · rw [hn, Bool.toNat_true] at hnotices
      exact .inl ⟨es, hlog, hnotices⟩
    · exact .inr hclosed
  another := ask_giveNotice_of_notice hn

/-- A desk where a notice is waiting, with a status of three and a job queued. -/
def lateDesk : Desk Nat where
  mailbox := {
    identity := "pot"
    status := 3
    notice := true
    queue := [⟨0, 0, .act (.log 1) .done⟩] }

/-- Its service is broken off with that status, and leaves the job behind. -/
theorem notice_comes_first_lateDesk : ∃ d' : Desk Nat,
    lateDesk.perform (.call (.serve .retire)) = (some (.served (.broken (.abnormal 3))), d') ∧
      d'.mailbox.queue = lateDesk.mailbox.queue ∧ lateDesk.mailbox.notice = true ∧
      ComesFirst lateDesk .retire :=
  have hfirst := notice_comes_first lateDesk .retire rfl
  ⟨_, hfirst.answered rfl, rfl, rfl, hfirst⟩

end SerialWorkers.Desk
