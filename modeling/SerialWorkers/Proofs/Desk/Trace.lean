import Mathlib.Data.List.Basic
import SerialWorkers.Proofs.Desk.Rounds

/-!
# What a service tells of itself

A service reports when it begins, when it takes up a job, when a job panics and when it
ends.  Whoever reads these reports, and nothing else, knows how many jobs were run, how
many are left, and what the service came to.

* `Desk.jobTold` — what is told of one job.
* `Desk.outcomeTold` — the outcome, read off what was told.
* `Desk.TrueTrace` — what is told is so; `Desk.true_trace` — it is, of every service.
-/

namespace SerialWorkers

namespace Desk

variable {α : Type} {d d' d₁ : Desk α} {policy : PanicPolicy} {ran sent : List (Mail α)}
  {o : Outcome} {identity : String}

/-! ## What is told of the jobs -/

/-- What a service of `identity` tells of a job: that it began, and that it panicked if it
did. -/
def jobTold (identity : String) (policy : PanicPolicy) (mail : Mail α) : List Event :=
  .jobBegan :: (firstPanic mail.job).toList.map fun p => .jobPanicked identity p.message policy

/-- What it tells of all its jobs. -/
def jobsTold (identity : String) (policy : PanicPolicy) (ran : List (Mail α)) : List Event :=
  ran.flatMap (jobTold identity policy)

@[simp] theorem jobsTold_nil :
    jobsTold identity policy ([] : List (Mail α)) = [] := rfl

@[simp] theorem jobsTold_cons (mail : Mail α) (ran : List (Mail α)) :
    jobsTold identity policy (mail :: ran)
      = jobTold identity policy mail ++ jobsTold identity policy ran := rfl

theorem jobsTold_append (ran ran' : List (Mail α)) : jobsTold identity policy (ran ++ ran')
    = jobsTold identity policy ran ++ jobsTold identity policy ran' :=
  List.flatMap_append

/-- A round reports what is told of its job. -/
theorem events_round {box : Mailbox (Mail α)} {mail : Mail α}
    (h : d.mailbox.Wakes (.item mail) box) (policy : PanicPolicy) :
    (d.round policy box mail).events = d.events ++ jobTold d.mailbox.identity policy mail := by
  have hbox : box.identity = d.mailbox.identity := by
    cases h
    rfl
  obtain ⟨_, _, hbooks⟩ := books_after (d.takeUp box mail) mail.job
  have hidentity : ((d.takeUp box mail).after mail.job).mailbox.identity = d.mailbox.identity :=
    hbooks.identity.trans hbox
  have hevents : ((d.takeUp box mail).after mail.job).events = d.events ++ [.jobBegan] :=
    events_after _ _
  unfold round jobTold
  cases firstPanic mail.job with
  | none => exact hevents
  | some p =>
      simp only [tellPanic, report, hidentity, hevents, List.append_assoc]
      rfl

/-- All rounds together report what is told of their jobs. -/
theorem Rounds.events (h : Rounds policy d ran d₁) :
    d₁.events = d.events ++ jobsTold d.mailbox.identity policy ran := by
  induction h with
  | start => exact (List.append_nil _).symm
  | more first hw _ ih =>
      obtain ⟨_, _, hbooks⟩ := first.books
      rw [events_round hw, ih, hbooks.identity, jobsTold_append, jobsTold_cons, jobsTold_nil,
        List.append_nil, List.append_assoc]

/-- What is told of jobs. -/
theorem mem_jobsTold {e : Event} (h : e ∈ jobsTold identity policy ran) :
    e = .jobBegan ∨ ∃ p, e = .jobPanicked identity p.message policy ∧
      ∃ mail ∈ ran, firstPanic mail.job = some p := by
  obtain ⟨mail, hmail, he⟩ := List.mem_flatMap.1 h
  rcases List.mem_cons.1 he with rfl | he
  · exact .inl rfl
  · obtain ⟨p, hp, rfl⟩ := List.mem_map.1 he
    exact .inr ⟨p, rfl, mail, hmail, Option.mem_toList.1 hp⟩

/-- A job is told to have begun once. -/
theorem count_jobTold (mail : Mail α) :
    (jobTold identity policy mail).count .jobBegan = 1 := by
  unfold jobTold
  cases firstPanic mail.job with
  | none => rfl
  | some p => rfl

/-- As many jobs are told to have begun as there are. -/
theorem count_jobsTold (ran : List (Mail α)) :
    (jobsTold identity policy ran).count .jobBegan = ran.length := by
  induction ran with
  | nil => rfl
  | cons mail ran ih =>
      rw [jobsTold_cons, List.count_append, count_jobTold, ih, List.length_cons, Nat.add_comm]

/-! ## What the reader learns -/

/-- The outcome of a service, read off what it told. -/
def outcomeTold : List Event → Outcome
  | [] => .orderly
  | .stoppedAbnormally _ status _ :: _ => .broken (.abnormal status)
  | .jobPanicked _ message .retire :: _ => .broken (.panicked message)
  | _ :: es => outcomeTold es

/-- Jobs that do not end the service say nothing of its outcome. -/
theorem outcomeTold_jobsTold (calm : policy = .retire → ∀ mail ∈ ran, firstPanic mail.job = none)
    (es : List Event) : outcomeTold (jobsTold identity policy ran ++ es) = outcomeTold es := by
  induction ran with
  | nil => rfl
  | cons mail ran ih =>
      have hrest := ih fun hp mail' hmail => calm hp mail' (List.mem_cons_of_mem _ hmail)
      rw [jobsTold_cons, List.append_assoc]
      cases hpanic : firstPanic mail.job with
      | none => simpa [jobTold, hpanic, outcomeTold] using hrest
      | some p =>
          cases policy with
          | carryOn => simpa [jobTold, hpanic, outcomeTold] using hrest
          | retire =>
              rw [calm rfl mail List.mem_cons_self] at hpanic
              cases hpanic

/-! ## What is told at the end -/

/-- What a service that ran `ran` and came to `o` tells between its last job and its last
word, when it leaves the desk as `d'`. -/
inductive Parting (policy : PanicPolicy) (ran : List (Mail α)) (d' : Desk α) :
    Outcome → List Event → Prop
  /-- It saw a notice, and the status was zero. -/
  | quiet (calm : policy = .retire → ∀ mail ∈ ran, firstPanic mail.job = none) :
      Parting policy ran d' .orderly []
  /-- It saw a notice, and the status was another one. -/
  | abnormal (status : Int)
      (calm : policy = .retire → ∀ mail ∈ ran, firstPanic mail.job = none) :
      Parting policy ran d' (.broken (.abnormal status))
        [.stoppedAbnormally d'.mailbox.identity status d'.mailbox.pending]
  /-- It saw that nobody is left. -/
  | deserted (calm : policy = .retire → ∀ mail ∈ ran, firstPanic mail.job = none)
      (empty : d'.mailbox.queue = []) :
      Parting policy ran d' .orderly [.deserted d'.mailbox.identity]
  /-- Its last job panicked, and the policy is to retire. -/
  | panicked {earlier : List (Mail α)} {last : Mail α} {p : Payload} (hpolicy : policy = .retire)
      (hran : ran = earlier ++ [last]) (hlast : firstPanic last.job = some p)
      (calm : ∀ mail ∈ earlier, firstPanic mail.job = none) :
      Parting policy ran d' (.broken (.panicked p.message)) []

/-- All that a service tells of `identity` that ran `ran` and left the desk as `d'`, saying
`parting` after the last job. -/
def allTold (policy : PanicPolicy) (ran : List (Mail α)) (d' : Desk α) (parting : List Event) :
    List Event :=
  .serviceBegan d'.mailbox.identity ::
    (jobsTold d'.mailbox.identity policy ran ++ parting ++ [d'.mailbox.exitEvent])

/-- What a service tells once it has a reason to end. -/
theorem events_conclude (d : Desk α) (reason : Reason) : (d.conclude reason).events
    = d.events ++ (d.mailbox.reasonEvents reason ++ [(d.conclude reason).mailbox.exitEvent]) :=
  List.append_assoc _ _ _

/-- What is told when a service closes. -/
theorem Closes.told {last : List (Mail α)} (h : Closes policy d last o d')
    (calm : policy = .retire → ∀ mail ∈ ran, firstPanic mail.job = none) :
    ∃ parting, d'.events = d.events ++ (jobsTold d.mailbox.identity policy last ++ parting ++
      [d'.mailbox.exitEvent]) ∧ Parting policy (ran ++ last) d' o parting := by
  cases h with
  | @noticed box hw =>
      refine ⟨box.reasonEvents .noticed, events_conclude _ _, ?_⟩
      rw [List.append_nil]
      by_cases hs : box.status = 0
      · simp only [Mailbox.reasonEvents, Mailbox.outcome, hs, if_true]
        exact .quiet calm
      · simp only [Mailbox.reasonEvents, Mailbox.outcome, hs, if_false]
        exact .abnormal _ calm
  | @deserted box hw =>
      refine ⟨[.deserted box.identity], events_conclude _ _, ?_⟩
      rw [List.append_nil]
      cases hw with
      | deserted hn hq hp => exact .deserted calm hq
  | @panicked box mail p hw hpolicy hp =>
      refine ⟨[], ?_, .panicked hpolicy rfl hp (calm hpolicy)⟩
      rw [events_conclude, events_round hw, jobsTold_cons, jobsTold_nil, List.append_nil,
        List.append_nil, List.append_assoc]
      rfl

/-- **What a service tells, and what it is that it tells of.** -/
theorem Serves.told (h : d.Serves policy o d') : ∃ ran sent parting, Passes d ran sent d' ∧
    d'.events = d.events ++ allTold policy ran d' parting ∧ Parting policy ran d' o parting := by
  obtain ⟨ran, d₁, last, hrounds, hcloses⟩ := h.exists_rounds
  obtain ⟨sent, es, hbooks⟩ := hrounds.books
  obtain ⟨sent', hlast⟩ := hcloses.passes
  obtain ⟨parting, hevents, hparting⟩ := hcloses.told hrounds.calm
  have hpasses := hbooks.passes.trans hlast
  have hidentity : d'.mailbox.identity = d.mailbox.identity := hpasses.identity
  refine ⟨ran ++ last, sent ++ sent', parting, ⟨hpasses.delivered, hpasses.accepted,
    hpasses.queue, hidentity⟩, ?_, hparting⟩
  rw [hevents, hrounds.events, allTold, jobsTold_append, hbooks.identity, hidentity]
  simp [report]

/-! ## The truth of it -/

variable {parting : List Event}

theorem mem_allTold {e : Event} (h : e ∈ allTold policy ran d' parting) :
    e = .serviceBegan d'.mailbox.identity ∨ e ∈ jobsTold d'.mailbox.identity policy ran ∨
      e ∈ parting ∨ e = d'.mailbox.exitEvent := by
  simpa [allTold, or_assoc] using h

/-- What is told between the last job and the last word. -/
theorem Parting.eq_of_mem (h : Parting policy ran d' o parting) {e : Event} (he : e ∈ parting) :
    (e = .deserted d'.mailbox.identity ∧ d'.mailbox.queue = []) ∨
      ∃ status, e = .stoppedAbnormally d'.mailbox.identity status d'.mailbox.pending ∧
        o = .broken (.abnormal status) := by
  cases h with
  | quiet | panicked => cases he
  | abnormal status => exact .inr ⟨status, List.mem_singleton.1 he, rfl⟩
  | deserted calm empty => exact .inl ⟨List.mem_singleton.1 he, empty⟩

/-- As many jobs are told to begin as are run. -/
theorem Parting.count_allTold (h : Parting policy ran d' o parting) :
    (allTold policy ran d' parting).count .jobBegan = ran.length := by
  have hparting : parting.count .jobBegan = 0 := by
    cases h <;> simp
  simp [allTold, count_jobsTold, hparting, Mailbox.exitEvent]

/-- An abnormal stop is told of if there was one. -/
theorem Parting.abnormal_mem_iff (h : Parting policy ran d' o parting) (status : Int) :
    (∃ identity n, .stoppedAbnormally identity status n ∈ allTold policy ran d' parting) ↔
      o = .broken (.abnormal status) := by
  constructor
  · rintro ⟨identity, n, he⟩
    rcases mem_allTold he with he | he | he | he
    · cases he
    · rcases mem_jobsTold he with he | ⟨p, he, -⟩ <;> cases he
    · rcases h.eq_of_mem he with ⟨he, -⟩ | ⟨status', he, ho⟩
      · cases he
      · cases he
        exact ho
    · cases he
  · rintro rfl
    cases h with
    | abnormal => exact ⟨d'.mailbox.identity, d'.mailbox.pending, by simp [allTold]⟩

/-- That nobody is left is told only if no job is. -/
theorem Parting.queue_of_deserted (h : Parting policy ran d' o parting)
    (he : .deserted identity ∈ allTold policy ran d' parting) : d'.mailbox.queue = [] := by
  rcases mem_allTold he with he | he | he | he
  · cases he
  · rcases mem_jobsTold he with he | ⟨p, he, -⟩ <;> cases he
  · rcases h.eq_of_mem he with ⟨-, hq⟩ | ⟨status, he, -⟩
    · exact hq
    · cases he
  · cases he

/-- The number of jobs left behind is the true one wherever it is told. -/
theorem Parting.discarded_eq (h : Parting policy ran d' o parting) {e : Event} {n : Nat}
    (he : e ∈ allTold policy ran d' parting) (hn : e.discarded? = some n) :
    n = d'.mailbox.pending := by
  rcases mem_allTold he with rfl | he | he | rfl
  · cases hn
  · rcases mem_jobsTold he with rfl | ⟨p, rfl, -⟩ <;> cases hn
  · rcases h.eq_of_mem he with ⟨rfl, -⟩ | ⟨status, rfl, -⟩ <;> cases hn
    rfl
  · cases hn
    rfl

/-- What is told tells the outcome. -/
theorem Parting.outcomeTold_allTold (h : Parting policy ran d' o parting) :
    outcomeTold (allTold policy ran d' parting) = o := by
  have hrest : outcomeTold (allTold policy ran d' parting) = outcomeTold
      (jobsTold d'.mailbox.identity policy ran ++ (parting ++ [d'.mailbox.exitEvent])) := by
    rw [allTold, List.append_assoc]
    rfl
  rw [hrest]
  cases h with
  | quiet calm => exact outcomeTold_jobsTold calm _
  | abnormal status calm => exact outcomeTold_jobsTold calm _
  | deserted calm empty => exact outcomeTold_jobsTold calm _
  | panicked hpolicy hran hlast calm =>
      subst hpolicy
      rw [hran, jobsTold_append, List.append_assoc, outcomeTold_jobsTold fun _ => calm]
      simp [jobsTold, jobTold, hlast, outcomeTold]

/-- Jobs that do not panic are told of without a panic. -/
theorem panicked_notMem_jobsTold (calm : ∀ mail ∈ ran, firstPanic mail.job = none)
    (message : String) (policy' : PanicPolicy) :
    .jobPanicked identity message policy' ∉ jobsTold d'.mailbox.identity policy ran := by
  intro he
  rcases mem_jobsTold he with he | ⟨p, -, mail, hmail, hp⟩
  · cases he
  · rw [calm mail hmail] at hp
    cases hp

/-- Where the policy is to retire, nothing but the last word comes after a panic. -/
theorem Parting.eq_of_panicked (h : Parting .retire ran d' o parting)
    {before after : List Event} {message : String} {policy' : PanicPolicy}
    (ht : allTold .retire ran d' parting
      = before ++ .jobPanicked identity message policy' :: after) :
    after = [d'.mailbox.exitEvent] := by
  -- unless the last job panicked, no panic is told of
  have hcalm : (∀ mail ∈ ran, firstPanic mail.job = none) → after = [d'.mailbox.exitEvent] := by
    intro calm
    have he : .jobPanicked identity message policy' ∈ allTold .retire ran d' parting := by
      rw [ht]
      simp
    rcases mem_allTold he with he | he | he | he
    · cases he
    · exact absurd he (panicked_notMem_jobsTold calm _ _)
    · rcases h.eq_of_mem he with ⟨he, -⟩ | ⟨status, he, -⟩ <;> cases he
    · cases he
  cases h with
  | quiet calm => exact hcalm (calm rfl)
  | abnormal status calm => exact hcalm (calm rfl)
  | deserted calm empty => exact hcalm (calm rfl)
  | @panicked earlier last p hpolicy hran hlast calm =>
      -- and otherwise there is one panic only, in the last place but one
      have hsplit : allTold .retire ran d' [] = (.serviceBegan d'.mailbox.identity ::
          (jobsTold d'.mailbox.identity .retire earlier ++ [.jobBegan])) ++
          .jobPanicked d'.mailbox.identity p.message .retire :: [d'.mailbox.exitEvent] := by
        simp [allTold, hran, jobsTold_append, jobTold, hlast]
      rw [hsplit, List.append_cons_inj_of_notMem] at ht
      · exact ht.2.2.symm
      · simp [panicked_notMem_jobsTold calm]
      · simp [Mailbox.exitEvent]

/-- What a service of desk `d` told is so: it ran `ran` and accepted `sent` meanwhile, came to
`o` and left the desk as `d'`. -/
structure TrueTrace (d : Desk α) (policy : PanicPolicy) (o : Outcome) (d' : Desk α)
    (ran sent : List (Mail α)) (told : List Event) : Prop where
  /-- This is what it told, and nothing else was. -/
  events : d'.events = d.events ++ told
  /-- These are the jobs that passed through the desk. -/
  passes : Passes d ran sent d'
  /-- It told that it began, then what is told of each job, then at most one thing more, and
  then that it ended. -/
  order : ∃ parting, told = .serviceBegan d.mailbox.identity ::
      (jobsTold d.mailbox.identity policy ran ++ parting ++
        [.serviceEnded d.mailbox.identity d'.mailbox.pending]) ∧
    (parting = [] ∨ parting = [.deserted d.mailbox.identity] ∨
      ∃ status n, parting = [.stoppedAbnormally d.mailbox.identity status n])
  /-- As many jobs were told to begin as were delivered. -/
  jobs : told.count .jobBegan = ran.length
  /-- Where the policy is to retire, a panic is followed by the end. -/
  retired : policy = .retire → ∀ before after identity message policy',
    told = before ++ .jobPanicked identity message policy' :: after →
    after = [.serviceEnded d.mailbox.identity d'.mailbox.pending]
  /-- An abnormal stop is told of if there was one, with its status. -/
  abnormal : ∀ status, (∃ identity n, .stoppedAbnormally identity status n ∈ told) ↔
    o = .broken (.abnormal status)
  /-- That nobody is left is told only if no job is. -/
  deserted : ∀ identity, .deserted identity ∈ told → d'.mailbox.queue = []
  /-- The number of jobs left behind is the true one wherever it is told. -/
  discarded : ∀ e ∈ told, ∀ n, e.discarded? = some n → n = d'.mailbox.pending
  /-- It is that of the jobs queued or accepted and not delivered. -/
  pending : d'.mailbox.pending + ran.length = d.mailbox.pending + sent.length
  /-- And what was told tells the outcome. -/
  outcome : outcomeTold told = o

/-- What a service tells is so. -/
theorem Serves.exists_trueTrace (h : d.Serves policy o d') : ∃ ran sent told,
    TrueTrace d policy o d' ran sent told := by
  obtain ⟨ran, sent, parting, hpasses, hevents, hparting⟩ := h.told
  have hidentity := hpasses.identity
  have hword : d'.mailbox.exitEvent = .serviceEnded d.mailbox.identity d'.mailbox.pending := by
    rw [← hidentity]
    rfl
  refine ⟨ran, sent, _, hevents, hpasses, ⟨parting, ?_, ?_⟩, hparting.count_allTold, ?_,
    hparting.abnormal_mem_iff, fun _ => hparting.queue_of_deserted,
    fun _ he _ => hparting.discarded_eq he, ?_, hparting.outcomeTold_allTold⟩
  · rw [allTold, hword, hidentity]
  · rw [← hidentity]
    cases hparting with
    | quiet | panicked => exact .inl rfl
    | deserted => exact .inr (.inl rfl)
    | abnormal => exact .inr (.inr ⟨_, _, rfl⟩)
  · rintro rfl before after identity message policy' ht
    rw [hparting.eq_of_panicked ht, hword]
  · have hlength := congrArg List.length hpasses.queue
    simp only [List.length_append] at hlength
    simp only [Mailbox.pending]
    omega

/-- **The trace of a service is true**, and tells what the service came to.  This holds of
the service a desk's user asks for, and of every service in the middle of whatever else is
under way. -/
theorem true_trace (d : Desk α) (policy : PanicPolicy) :
    (∀ (o : Outcome) (d' : Desk α),
      d.perform (.call (.serve policy)) = (some (.served o), d') →
      ∃ ran sent told, TrueTrace d policy o d' ran sent told) ∧
    ∀ (below : List (Frame α)) (m : Machine α), Machine.Reaches (.serving d policy below) m →
      (∃ f, m.stack = f :: below ∧ f.holdsInbox = true) ∨
      ∃ o d' ran sent told, TrueTrace d policy o d' ran sent told ∧
        Machine.Reaches (Machine.answerTo d' (.serve policy) (.served o) below) m := by
  refine ⟨fun o d' h => (serves_of_perform h).exists_trueTrace, ?_⟩
  intro below m h
  rcases Machine.exists_serves_of_reaches h with hstill | ⟨o, d', hserves, hreach⟩
  · exact .inl hstill
  · obtain ⟨ran, sent, told, htrace⟩ := hserves.exists_trueTrace
    exact .inr ⟨o, d', ran, sent, told, htrace, hreach⟩

/-- A desk with three jobs queued: one panics, one records a status, sends another and
leaves a notice, and one is never started. -/
def rowdyDesk : Desk Nat where
  mailbox := {
    identity := "pot"
    queue := [
      ⟨0, 0, .act (.panic (.built "boom")) .done⟩,
      ⟨1, 0, .act (.call (.setStatus 7))
        (.send ⟨.prompt, 0⟩ .done (.act (.call .giveNotice) .done))⟩,
      ⟨2, 0, .done⟩] }

/-- The service of that desk tells of the panic, of the status and of two jobs left. -/
theorem true_trace_rowdyDesk : ∃ d' : Desk Nat,
    rowdyDesk.perform (.call (.serve .carryOn)) = (some (.served (.broken (.abnormal 7))), d') ∧
    d'.events = [.serviceBegan "pot", .jobBegan, .jobPanicked "pot" "boom" .carryOn, .jobBegan,
      .stoppedAbnormally "pot" 7 2, .serviceEnded "pot" 2] ∧
    ∃ ran sent told, TrueTrace rowdyDesk .carryOn (.broken (.abnormal 7)) d' ran sent told := by
  have hrun := (Machine.run_of_step_some (m := Machine.start rowdyDesk (.call (.serve .carryOn)))
    rfl).trans <| (Machine.run_of_step_some rfl).trans <| (Machine.run_of_step_some rfl).trans <|
    (Machine.run_of_step_some rfl).trans <| (Machine.run_of_step_some rfl).trans <|
    (Machine.run_of_step_some rfl).trans <| (Machine.run_of_step_some rfl).trans <|
    (Machine.run_of_step_some rfl).trans <| Machine.run_of_step_none rfl
  have hperform := congrArg (fun m : Machine Nat => (m.answer, m.desk)) hrun
  exact ⟨_, hperform, rfl, (true_trace rowdyDesk .carryOn).1 _ _ hperform⟩

end Desk

end SerialWorkers
