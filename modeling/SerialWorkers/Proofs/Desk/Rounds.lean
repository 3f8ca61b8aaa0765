import SerialWorkers.Proofs.Desk.Service

/-!
# A service, round by round

A job under service has every request answered at once, so there is only one way for it
to come out.  What a service does is best told in rounds, then: its wait returns with a
job, and the job is done to its end.  The last wait returns with something else, or with
a job that panics where the policy is to retire.

* `Desk.after` — the desk after a job under service.
* `Desk.Rounds`, `Desk.Closes` — the rounds of a service, and how it closes.
* `Desk.Serves` — what a service may come to; every service that ends does so in rounds
  (`Desk.Serves.exists_rounds`), whoever asked for it (`Desk.serves_of_perform`,
  `Machine.exists_serves_of_reaches`).
-/

namespace SerialWorkers.Desk

variable {α : Type}

/-! ## A job under service -/

/-- The desk after a request `c` of a job under service, with the answer logged. -/
def respond (d : Desk α) (c : Call) : Desk α :=
  match d.ask true c with
  | (.replied r, d') => d'.write (.answered c r)
  | (_, d') => d'

/-- The desk after a job has sent another, with the answer logged. -/
def dispatch (d : Desk α) (route : Route) (job : Work α) : Desk α :=
  (d.send route job).2.write (.sent route.manner (d.send route job).1)

/-- The desk after a job under service: it was done to its end, or until it panicked. -/
def after (d : Desk α) : Work α → Desk α
  | .done => d
  | .act (.log v) rest => (d.write (.value v)).after rest
  | .act (.panic _) _ => d
  | .act (.call c) rest => (d.respond c).after rest
  | .send route job rest => (d.dispatch route job).after rest

variable {d d' d₁ d₂ : Desk α} {policy : PanicPolicy} {below : List (Frame α)}

theorem respond_eq {c : Call} {r : Reply} (h : d.ask true c = (.replied r, d')) :
    d.respond c = d'.write (.answered c r) := by
  rw [respond, h]

theorem books_respond (d : Desk α) (c : Call) :
    ∃ r, Books d [] [] [.answered c r] (d.respond c) := by
  obtain ⟨r, d', hask, hanswered⟩ := answered_ask d c
  rw [respond_eq hask]
  exact ⟨r, hanswered.books⟩

/-- Requests of a job under service report nothing. -/
theorem events_respond (d : Desk α) (c : Call) : (d.respond c).events = d.events := by
  obtain ⟨r, d', hask, hanswered⟩ := answered_ask d c
  rw [respond_eq hask]
  exact hanswered.records.2.2.2

/-- Nor does the sending of jobs. -/
theorem events_dispatch (d : Desk α) (route : Route) (job : Work α) :
    (d.dispatch route job).events = d.events := by
  unfold dispatch send
  split
  · rfl
  · simp only
    split <;> rfl

/-- **The books of a job under service.** -/
theorem books_after (d : Desk α) (job : Work α) : ∃ sent es, Books d [] sent es (d.after job) := by
  induction job generalizing d with
  | done => exact ⟨[], [], books_refl d⟩
  | act a rest ih =>
      cases a with
      | log v =>
          obtain ⟨sent, es, h⟩ := ih (d.write (.value v))
          exact ⟨_, _, (books_write_value d v).quiet h⟩
      | panic p => exact ⟨[], [], books_refl d⟩
      | call c =>
          obtain ⟨r, hfirst⟩ := books_respond d c
          obtain ⟨sent, es, h⟩ := ih (d.respond c)
          exact ⟨_, _, hfirst.quiet h⟩
  | send route job rest _ ih =>
      obtain ⟨first, hfirst⟩ := books_send d route job
      obtain ⟨sent, es, h⟩ := ih (d.dispatch route job)
      exact ⟨_, _, hfirst.quiet h⟩

/-- A job under service reports nothing by itself. -/
theorem events_after (d : Desk α) (job : Work α) : (d.after job).events = d.events := by
  induction job generalizing d with
  | done => rfl
  | act a rest ih =>
      cases a with
      | log v => exact ih _
      | panic p => rfl
      | call c => exact (ih _).trans (events_respond d c)
  | send route job rest _ ih => exact (ih _).trans (events_dispatch d route job)

/-! ## One round -/

/-- The desk once the wait of a service has returned with `mail` and left the mailbox as
`box`. -/
def takeUp (d : Desk α) (box : Mailbox (Mail α)) (mail : Mail α) : Desk α :=
  (d.deliver box mail).report [.jobBegan]

/-- The desk once a panic is told, if there was one. -/
def tellPanic (d : Desk α) (policy : PanicPolicy) : Option Payload → Desk α
  | none => d
  | some p => d.report [.jobPanicked d.mailbox.identity p.message policy]

@[simp] theorem mailbox_tellPanic (d : Desk α) (policy : PanicPolicy) (p? : Option Payload) :
    (d.tellPanic policy p?).mailbox = d.mailbox := by
  cases p? <;> rfl

@[simp] theorem log_tellPanic (d : Desk α) (policy : PanicPolicy) (p? : Option Payload) :
    (d.tellPanic policy p?).log = d.log := by
  cases p? <;> rfl

@[simp] theorem accepted_tellPanic (d : Desk α) (policy : PanicPolicy) (p? : Option Payload) :
    (d.tellPanic policy p?).accepted = d.accepted := by
  cases p? <;> rfl

@[simp] theorem delivered_tellPanic (d : Desk α) (policy : PanicPolicy) (p? : Option Payload) :
    (d.tellPanic policy p?).delivered = d.delivered := by
  cases p? <;> rfl

/-- The desk after a round: the job was taken up and done, and its panic was told. -/
def round (d : Desk α) (policy : PanicPolicy) (box : Mailbox (Mail α)) (mail : Mail α) : Desk α :=
  ((d.takeUp box mail).after mail.job).tellPanic policy (firstPanic mail.job)

/-- The rounds of a service: it ran these jobs, and stands at its wait again. -/
inductive Rounds (policy : PanicPolicy) (d : Desk α) : List (Mail α) → Desk α → Prop
  /-- There was none yet. -/
  | start : Rounds policy d [] d
  /-- There was one more, with a job that did not end the service. -/
  | more {ran : List (Mail α)} {d₁ : Desk α} {box : Mailbox (Mail α)} {mail : Mail α}
      (first : Rounds policy d ran d₁) (h : d₁.mailbox.Wakes (.item mail) box)
      (survived : policy = .retire → firstPanic mail.job = none) :
      Rounds policy d (ran ++ [mail]) (d₁.round policy box mail)

/-- How a service closes that stands at its wait: with one more job or none, with this
outcome, and leaving the desk like this. -/
inductive Closes (policy : PanicPolicy) (d : Desk α) :
    List (Mail α) → Outcome → Desk α → Prop
  /-- The wait returns with a notice. -/
  | noticed {box : Mailbox (Mail α)} (h : d.mailbox.Wakes .noticed box) :
      Closes policy d [] (box.outcome .noticed) (conclude { d with mailbox := box } .noticed)
  /-- The wait returns because nobody is left. -/
  | deserted {box : Mailbox (Mail α)} (h : d.mailbox.Wakes .deserted box) :
      Closes policy d [] .orderly (conclude { d with mailbox := box } .deserted)
  /-- The wait returns with a job that panics, and the policy is to retire. -/
  | panicked {box : Mailbox (Mail α)} {mail : Mail α} {p : Payload}
      (h : d.mailbox.Wakes (.item mail) box) (hpolicy : policy = .retire)
      (hp : firstPanic mail.job = some p) :
      Closes policy d [mail] (.broken (.panicked p.message))
        (conclude (d.round policy box mail) (.panicked p.message))

/-- A panic that is told is nothing to the books. -/
theorem Books.tellPanic {ran sent : List (Mail α)} {es : List (Entry α)}
    (h : Books d ran sent es d') (policy : PanicPolicy) (p? : Option Payload) :
    Books d ran sent es (d'.tellPanic policy p?) := by
  cases p? with
  | none => exact h
  | some p => exact h.report _

/-- **The books of a round.** -/
theorem books_round {box : Mailbox (Mail α)} {mail : Mail α}
    (h : d.mailbox.Wakes (.item mail) box) (policy : PanicPolicy) :
    ∃ sent es, Books d [mail] sent es (d.round policy box mail) := by
  cases h with
  | item hn hq =>
      obtain ⟨sent, es, hjob⟩ := books_after (d.takeUp _ mail) mail.job
      exact ⟨_, _, (((books_deliver hq).report [.jobBegan]).quiet hjob).tellPanic policy _⟩

/-- The books of all rounds together. -/
theorem Rounds.books {ran : List (Mail α)} (h : Rounds policy d ran d₁) :
    ∃ sent es, Books d ran sent es d₁ := by
  induction h with
  | start => exact ⟨[], [], books_refl d⟩
  | more _ hw _ ih =>
      obtain ⟨sent, es, hbooks⟩ := ih
      obtain ⟨sent', es', hround⟩ := books_round hw policy
      exact ⟨_, _, hbooks.trans hround⟩

/-- Where the policy is to retire, no job panicked in a round. -/
theorem Rounds.calm {ran : List (Mail α)} (h : Rounds policy d ran d₁) (hp : policy = .retire) :
    ∀ mail ∈ ran, firstPanic mail.job = none := by
  induction h with
  | start => exact nofun
  | more _ _ survived ih =>
      intro mail hmail
      rcases List.mem_append.1 hmail with hmail | hmail
      · exact ih mail hmail
      · rw [List.mem_singleton.1 hmail]
        exact survived hp

/-! ## What passes through a desk -/

/-- Desk `d` has come to be `d'`, and delivered `ran` and accepted `sent` in between. -/
structure Passes (d : Desk α) (ran sent : List (Mail α)) (d' : Desk α) : Prop where
  /-- What was delivered. -/
  delivered : d'.delivered = d.delivered ++ ran
  /-- What was accepted. -/
  accepted : d'.accepted = d.accepted ++ sent
  /-- What was queued or accepted was delivered, in order, or is queued. -/
  queue : d.mailbox.queue ++ sent = ran ++ d'.mailbox.queue
  /-- It is the same mailbox. -/
  identity : d'.mailbox.identity = d.mailbox.identity

variable {ran sent ran' sent' : List (Mail α)} {es : List (Entry α)} {o : Outcome}

theorem Books.passes (h : Books d ran sent es d') : Passes d ran sent d' :=
  ⟨h.delivered, h.accepted, h.queue, h.identity⟩

theorem Passes.trans (h : Passes d ran sent d') (h' : Passes d' ran' sent' d₂) :
    Passes d (ran ++ ran') (sent ++ sent') d₂ where
  delivered := by rw [h'.delivered, h.delivered, List.append_assoc]
  accepted := by rw [h'.accepted, h.accepted, List.append_assoc]
  queue := by
    calc d.mailbox.queue ++ (sent ++ sent') = (ran ++ d'.mailbox.queue) ++ sent' := by
          rw [← h.queue, List.append_assoc]
      _ = ran ++ (ran' ++ d₂.mailbox.queue) := by rw [List.append_assoc, h'.queue]
      _ = (ran ++ ran') ++ d₂.mailbox.queue := (List.append_assoc _ _ _).symm
  identity := h'.identity.trans h.identity

/-- Nothing passes when a service stops at its wait. -/
theorem passes_conclude {w : Wake (Mail α)} {box : Mailbox (Mail α)} (h : d.mailbox.Wakes w box)
    (hw : ∀ mail, w ≠ .item mail) (reason : Reason) :
    Passes d [] [] (conclude { d with mailbox := box } reason) := by
  cases h with
  | item => exact absurd rfl (hw _)
  | notice | ownerGone | deserted =>
      exact ⟨(List.append_nil _).symm, (List.append_nil _).symm, List.append_nil _, rfl⟩

/-- What passes when a service closes. -/
theorem Closes.passes (h : Closes policy d ran o d') : ∃ sent, Passes d ran sent d' := by
  cases h with
  | noticed hw => exact ⟨[], passes_conclude hw (by simp) _⟩
  | deserted hw => exact ⟨[], passes_conclude hw (by simp) _⟩
  | panicked hw hpolicy hp =>
      obtain ⟨sent, es, hbooks⟩ := books_round hw policy
      exact ⟨sent, hbooks.delivered, hbooks.accepted, hbooks.queue, hbooks.identity⟩

namespace Machine

/-! ## What the machine does in a round -/

/-- A machine whose job under service has come to its end, with a panic or without. -/
def jobOver (d : Desk α) (policy : PanicPolicy) (below : List (Frame α)) :
    Option Payload → Machine α
  | none => finish d below (.serving policy)
  | some p => panic d p below (.serving policy)

variable {m m' : Machine α} {job : Work α}

/-- A request of a job under service is one step. -/
theorem step_call (d : Desk α) (policy : PanicPolicy) (c : Call) (rest : Work α)
    (below : List (Frame α)) :
    step { desk := d, stack := .job (.serving policy) (.act (.call c) rest) :: below } =
      some { desk := d.respond c, stack := .job (.serving policy) rest :: below } := by
  obtain ⟨r, d', hask, -⟩ := answered_ask d c
  have hlent : lent (.job (.serving policy) rest :: below) = true := rfl
  simp only [step, request, hlent, hask, respond_eq hask]

/-- **A job under service takes its next step**: what it comes to in the end is settled, or
it has come to that. -/
theorem goes_job (h : Goes { desk := d, stack := .job (.serving policy) job :: below } m) :
    (∃ d' rest, m = { desk := d', stack := .job (.serving policy) rest :: below } ∧
        d'.after rest = d.after job ∧ firstPanic rest = firstPanic job) ∨
      m = jobOver (d.after job) policy below (firstPanic job) := by
  cases h with
  | step h =>
      cases job with
      | done =>
          cases h
          exact .inr rfl
      | send route job rest =>
          cases h
          exact .inl ⟨d.dispatch route job, rest, rfl, rfl, rfl⟩
      | act a rest =>
          cases a with
          | log v =>
              cases h
              exact .inl ⟨d.write (.value v), rest, rfl, rfl, rfl⟩
          | panic p =>
              cases h
              exact .inr rfl
          | call c =>
              rw [step_call] at h
              cases h
              exact .inl ⟨d.respond c, rest, rfl, rfl, rfl⟩

/-- **There is only one way for a job under service to come out.** -/
theorem reaches_job
    (h : Reaches { desk := d, stack := .job (.serving policy) job :: below } m) :
    (∃ d' rest, m = { desk := d', stack := .job (.serving policy) rest :: below } ∧
        d'.after rest = d.after job ∧ firstPanic rest = firstPanic job) ∨
      Reaches (jobOver (d.after job) policy below (firstPanic job)) m := by
  induction h with
  | refl => exact .inl ⟨d, job, rfl, rfl, rfl⟩
  | tail _ last ih =>
      rcases ih with ⟨d', rest, rfl, hafter, hpanic⟩ | hover
      · rcases goes_job last with ⟨d'', rest', rfl, hafter', hpanic'⟩ | rfl
        · exact .inl ⟨d'', rest', rfl, hafter'.trans hafter, hpanic'.trans hpanic⟩
        · rw [hafter, hpanic]
          exact .inr (.refl _)
      · exact .inr (hover.tail last)

/-- And it does come out so. -/
theorem reaches_jobOver (d : Desk α) (policy : PanicPolicy) (below : List (Frame α))
    (job : Work α) : Reaches { desk := d, stack := .job (.serving policy) job :: below }
      (jobOver (d.after job) policy below (firstPanic job)) := by
  induction job generalizing d with
  | done => exact (Reaches.refl _).tail (.step rfl)
  | send route job rest _ ih =>
      exact ((Reaches.refl _).tail (.step rfl)).trans (ih (d.dispatch route job))
  | act a rest ih =>
      cases a with
      | log v => exact ((Reaches.refl _).tail (.step rfl)).trans (ih (d.write (.value v)))
      | panic p => exact (Reaches.refl _).tail (.step rfl)
      | call c =>
          exact ((Reaches.refl _).tail (.step (step_call d policy c rest below))).trans
            (ih (d.respond c))

/-- A job ends the service by its panic, or does not end it. -/
theorem survived_or_panicked (policy : PanicPolicy) (p? : Option Payload) :
    (policy = .retire → p? = none) ∨ policy = .retire ∧ ∃ p, p? = some p := by
  by_cases h : policy = .retire → p? = none
  · exact .inl h
  · obtain ⟨hpolicy, hp⟩ := Classical.not_imp.1 h
    exact .inr ⟨hpolicy, Option.ne_none_iff_exists'.1 hp⟩

/-- After a job that does not end the service, that stands at its wait again. -/
theorem jobOver_of_survived {p? : Option Payload} (h : policy = .retire → p? = none) :
    jobOver d policy below p?
      = { desk := d.tellPanic policy p?, stack := .service policy :: below } := by
  cases p? with
  | none => rfl
  | some p =>
      cases policy with
      | carryOn => rfl
      | retire => cases h rfl

/-- A job that does end it has it close. -/
theorem jobOver_of_panicked (p : Payload) : jobOver d .retire below (some p)
    = answerTo (conclude (d.tellPanic .retire (some p)) (.panicked p.message)) (.serve .retire)
        (.served (.broken (.panicked p.message))) below := rfl

/-! ## What it does in a service -/

/-- A machine in the middle of a service of desk `d`, with `below` under way outside it. -/
inductive InRounds (d : Desk α) (policy : PanicPolicy) (below : List (Frame α)) :
    Machine α → Prop
  /-- The service stands at its wait. -/
  | waiting {ran : List (Mail α)} {d₁ : Desk α} (h : Rounds policy d ran d₁) :
      InRounds d policy below { desk := d₁, stack := .service policy :: below }
  /-- It runs a job, of which `rest` is left. -/
  | working {ran : List (Mail α)} {d₁ d₂ : Desk α} {box : Mailbox (Mail α)} {mail : Mail α}
      {rest : Work α} (h : Rounds policy d ran d₁) (hw : d₁.mailbox.Wakes (.item mail) box)
      (hafter : d₂.after rest = (d₁.takeUp box mail).after mail.job)
      (hpanic : firstPanic rest = firstPanic mail.job) :
      InRounds d policy below { desk := d₂, stack := .job (.serving policy) rest :: below }

/-- A service of desk `d` has closed, and its answer was given. -/
def Closed (d : Desk α) (policy : PanicPolicy) (below : List (Frame α)) (m : Machine α) : Prop :=
  ∃ ran d₁ last o d', Rounds policy d ran d₁ ∧ Closes policy d₁ last o d' ∧
    m = answerTo d' (.serve policy) (.served o) below

variable {box : Mailbox (Mail α)}

/-- What becomes of a service when its wait returns. -/
theorem InRounds.woken {ran : List (Mail α)} {w : Wake (Mail α)} (h : Rounds policy d ran d₁)
    (hw : d₁.mailbox.Wakes w box) :
    InRounds d policy below (Machine.woken d₁ policy below w box) ∨
      Closed d policy below (Machine.woken d₁ policy below w box) := by
  cases w with
  | item mail => exact .inl (.working h hw rfl rfl)
  | noticed => exact .inr ⟨ran, d₁, [], _, _, h, .noticed hw, rfl⟩
  | deserted => exact .inr ⟨ran, d₁, [], _, _, h, .deserted hw, rfl⟩

/-- **One step of a service**: it goes on in rounds, or it closes. -/
theorem InRounds.goes (h : InRounds d policy below m) (hg : Goes m m') :
    InRounds d policy below m' ∨ Closed d policy below m' := by
  cases h with
  | waiting h =>
      obtain ⟨w, box, hw, rfl⟩ := goes_service hg
      exact InRounds.woken h hw
  | @working ran d₁ d₂ box mail rest h hw hafter hpanic =>
      rcases goes_job hg with ⟨d₃, rest', rfl, hafter', hpanic'⟩ | rfl
      · exact .inl (.working h hw (hafter'.trans hafter) (hpanic'.trans hpanic))
      · rw [hafter, hpanic]
        rcases survived_or_panicked policy (firstPanic mail.job) with hsurvived | ⟨rfl, p, hp⟩
        · rw [jobOver_of_survived hsurvived]
          exact .inl (.waiting (h.more hw hsurvived))
        · refine .inr ⟨ran, d₁, [mail], _, _, h, .panicked hw rfl hp, ?_⟩
          rw [round, hp]
          rfl

/-- **A service goes on in rounds until it closes.** -/
theorem reaches_service
    (h : Reaches { desk := d, stack := .service policy :: below } m) :
    InRounds d policy below m ∨ ∃ m₁, Closed d policy below m₁ ∧ Reaches m₁ m := by
  induction h with
  | refl => exact .inl (.waiting .start)
  | tail _ last ih =>
      rcases ih with ih | ⟨m₁, hclosed, hreach⟩
      · rcases ih.goes last with hgo | hclosed
        · exact .inl hgo
        · exact .inr ⟨_, hclosed, .refl _⟩
      · exact .inr ⟨m₁, hclosed, hreach.tail last⟩

end Machine

open Machine in
/-- Rounds are rounds of the machine. -/
theorem Rounds.reaches {ran : List (Mail α)} (h : Rounds policy d ran d₁)
    (below : List (Frame α)) : Reaches { desk := d, stack := .service policy :: below }
      { desk := d₁, stack := .service policy :: below } := by
  induction h with
  | start => exact .refl _
  | @more ran d₁ box mail _ hw survived ih =>
      have hround := reaches_jobOver (d₁.takeUp box mail) policy below mail.job
      rw [jobOver_of_survived survived] at hround
      exact (ih.tail (.wakes hw)).trans hround

open Machine in
/-- And a close is one of the machine. -/
theorem Closes.reaches {last : List (Mail α)} {o : Outcome} (h : Closes policy d last o d')
    (below : List (Frame α)) : Reaches { desk := d, stack := .service policy :: below }
      (answerTo d' (.serve policy) (.served o) below) := by
  cases h with
  | noticed hw => exact (Reaches.refl _).tail (.wakes hw)
  | deserted hw => exact (Reaches.refl _).tail (.wakes hw)
  | @panicked box mail p hw hpolicy hp =>
      subst hpolicy
      have hround := reaches_jobOver (d.takeUp box mail) .retire below mail.job
      rw [hp, jobOver_of_panicked] at hround
      rw [round, hp]
      exact ((Reaches.refl _).tail (.wakes hw)).trans hround

/-! ## What a service may come to -/

/-- A machine whose desk was just asked to be served, with `below` under way outside. -/
def Machine.serving (d : Desk α) (policy : PanicPolicy) (below : List (Frame α)) : Machine α where
  desk := d.report [.serviceBegan d.mailbox.identity]
  stack := .service policy :: below

/-- A user with the inbox at hand has a service begun wherever a wait returns. -/
theorem start_serve (hi : d.mailbox.inbox = true) (hn : d.mailbox.next ≠ none)
    (policy : PanicPolicy) :
    Machine.start d (.call (.serve policy)) = .serving d policy [] := by
  obtain ⟨p, hp⟩ := Option.ne_none_iff_exists'.1 hn
  simp [Machine.start, ask, hi, hp, Machine.serving]

/-- Desk `d`, asked to be served, may come to `o` and be left as `d'`.  A wait that could
return for two reasons may return for either. -/
def Serves (d : Desk α) (policy : PanicPolicy) (o : Outcome) (d' : Desk α) : Prop :=
  Machine.Reaches (.serving d policy [])
    { desk := d', stack := [], answer := some (.served o) }

/-- The user of a desk has it served so. -/
theorem serves_of_perform (h : d.perform (.call (.serve policy)) = (some (.served o), d')) :
    d.Serves policy o d' := by
  have hrun := Machine.reaches_run (Machine.start d (.call (.serve policy)))
  have hanswer : (Machine.start d (.call (.serve policy))).run.answer = some (.served o) ∧
      (Machine.start d (.call (.serve policy))).run.desk = d' :=
    ⟨congrArg Prod.fst h, congrArg Prod.snd h⟩
  rw [start_of_served h] at hrun hanswer
  rcases Machine.reaches_service hrun with hin | ⟨m, hclosed, hreach⟩
  · -- while the service is under way there is no answer
    generalize Machine.run _ = m at hin hanswer
    cases hin with
    | waiting => cases hanswer.1
    | working => cases hanswer.1
  · obtain ⟨ran, d₁, last, o', d'', hrounds, hcloses, rfl⟩ := hclosed
    rw [hreach.eq_of_stack_eq_nil rfl] at hanswer
    cases hanswer.1
    cases hanswer.2
    exact (hrounds.reaches []).trans (hcloses.reaches [])

/-- **Every service that ends does so in rounds.** -/
theorem Serves.exists_rounds (h : d.Serves policy o d') : ∃ ran d₁ last,
    Rounds policy (d.report [.serviceBegan d.mailbox.identity]) ran d₁ ∧
      Closes policy d₁ last o d' := by
  rcases Machine.reaches_service h with hin | ⟨m, hclosed, hreach⟩
  · cases hin
  · obtain ⟨ran, d₁, last, o', d'', hrounds, hcloses, rfl⟩ := hclosed
    cases hreach.eq_of_stack_eq_nil rfl
    exact ⟨ran, d₁, last, hrounds, hcloses⟩

/-- **A service does not look at what is under way outside it.**  Whoever has the desk
served, a job in the middle of others too, it comes to nothing else. -/
theorem Machine.exists_serves_of_reaches {m : Machine α}
    (h : Reaches (.serving d policy below) m) :
    (∃ f, m.stack = f :: below ∧ f.holdsInbox = true) ∨
      ∃ o d', d.Serves policy o d' ∧
        Reaches (answerTo d' (.serve policy) (.served o) below) m := by
  rcases reaches_service h with hin | ⟨m₁, hclosed, hreach⟩
  · refine .inl ?_
    cases hin with
    | waiting => exact ⟨_, rfl, rfl⟩
    | working => exact ⟨_, rfl, rfl⟩
  · obtain ⟨ran, d₁, last, o, d', hrounds, hcloses, rfl⟩ := hclosed
    exact .inr ⟨o, d', (hrounds.reaches []).trans (hcloses.reaches []), hreach⟩

end SerialWorkers.Desk
