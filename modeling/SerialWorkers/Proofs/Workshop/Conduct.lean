import SerialWorkers.Proofs.Workshop.Prospects

/-!
# How a worker's jobs went

A job is fixed when it is sent, so whether it panics, and with what, can be read off
it.  A worker that retires over panics starts no job after one that panics, and
then its verdict tells of that panic; as long as it has not, none of its jobs has
panicked.

* `firstPanic` — how a job will end.
* `Worker.Conduct` — what is known of the jobs a worker has started;
  `Workshop.conduct_of_run` says that it is always true.
* `Workshop.deserted_notMem_of_run` — no thread ever reports that nobody is left to
  send a job.
-/

namespace SerialWorkers

namespace Workshop

variable {α : Type}

/-! ## How a job will end -/

/-- The payload an act panics with, if it does. -/
def Act.payload? : Act α → Option Payload
  | .panic p => some p
  | _ => none

/-- The payload a job panics with, if it does: acts are done in order, and none of
them but a panic can end the job. -/
def firstPanic (job : Work α) : Option Payload := job.findSome? Act.payload?

/-- What is left of the job that a thread standing here is in. -/
def Phase.left? : Phase α → Option (Work α)
  | .running rest => some rest
  | .sending _ _ _ rest => some rest
  | _ => none

theorem Phase.isSome_left? (p : Phase α) : p.left?.isSome = p.inJob := by
  cases p <;> rfl

end Workshop

open Workshop

variable {α : Type}

namespace Worker

variable {v v' : Worker α} {ds es : List (LoopEvent α)}

/-- **A job that gets on ends as it would have.** -/
theorem firstPanic_of_getsOn {p p' : Phase α} (h : p.GetsOn p') (hp : v.phase = p)
    (hd : v.loopEvent = none) : p'.left?.map firstPanic = p.left?.map firstPanic := by
  cases h with
  | calls | told => rfl
  | @acts job rest hr =>
      simp only [Phase.left?, Option.map_some]
      cases job with
      | done => cases hr
      | send route job rest =>
          cases hr
          rfl
      | act a rest =>
          cases hr
          cases a with
          | panic payload => simp [loopEvent, hp] at hd
          | _ => rfl

/-! ## The conduct of a worker -/

/-- Where the policy is to retire: none of `jobs` panics, and no panic was told. -/
def Calm (policy : PanicPolicy) (jobs : List (Mail α)) (ds : List (LoopEvent α)) : Prop :=
  policy = .retire → (∀ mail ∈ jobs, firstPanic mail.job = none) ∧ ∀ p, .panicked p ∉ ds

/-- The last job started panicked, the first to do so, where the policy is to retire. -/
structure BrokeOff (ds : List (LoopEvent α)) (v : Worker α) (p : Payload) : Prop where
  /-- The policy. -/
  policy : v.policy = .retire
  /-- The last job panics, and none before it does. -/
  jobs : ∃ earlier last, v.started = earlier ++ [last] ∧ firstPanic last.job = some p ∧
    ∀ mail ∈ earlier, firstPanic mail.job = none
  /-- The panic was told, none was before it, and no job has ended since. -/
  told : ∃ before after, ds = before ++ .panicked p :: after ∧ (∀ q, .panicked q ∉ before) ∧
    ∀ d ∈ after, d.endsJob = false

/-- What is known of the jobs a worker has started, after `ds` was told of its thread. -/
structure Conduct (ds : List (LoopEvent α)) (v : Worker α) : Prop where
  /-- The job under way ends as what is left of it does, and those before were calm. -/
  underWay : ∀ rest, v.phase.left? = some rest → ∃ earlier last, v.started = earlier ++ [last] ∧
    firstPanic last.job = firstPanic rest ∧ Calm v.policy earlier ds
  /-- All were calm, unless a panic was the thread's reason to end. -/
  calm : v.phase.left? = none →
    (∀ verdict message, v.phase.verdict? = some verdict → verdict.reason ≠ .panicked message) →
    Calm v.policy v.started ds
  /-- If it was, the verdict tells of it. -/
  broke : ∀ verdict message, v.phase.verdict? = some verdict →
    verdict.reason = .panicked message → ∃ p, BrokeOff ds v p ∧ message = p.message ∧
      verdict.outcome = .broken (.panicked p.message)

theorem conduct_hired (settings : Settings) (identity : String) :
    Conduct [] (hired settings identity : Worker α) where
  underWay _ h := by cases h
  calm _ _ _ := ⟨nofun, fun _ => List.not_mem_nil⟩
  broke _ _ h := by cases h

/-- What leaves the thread and its jobs alone. -/
theorem Conduct.congr (h : Conduct ds v) (hp : v'.phase = v.phase) (hs : v'.started = v.started)
    (hpol : v'.policy = v.policy) : Conduct ds v' where
  underWay rest hr := by
    rw [hs, hpol]
    exact h.underWay rest (hp ▸ hr)
  calm hl hn := by
    rw [hs, hpol]
    rw [hp] at hl hn
    exact h.calm hl hn
  broke verdict message hv hr := by
    obtain ⟨p, hb, hm⟩ := h.broke verdict message (hp ▸ hv) hr
    refine ⟨p, ⟨hpol.trans hb.policy, ?_, hb.told⟩, hm⟩
    rw [hs]
    exact hb.jobs

/-- A thread that waits has had calm jobs only. -/
theorem Conduct.calm_of_waiting (h : Conduct ds v) (hp : v.phase = .waiting) :
    Calm v.policy v.started ds := by
  apply h.calm
  · rw [hp]
    rfl
  · rw [hp]
    exact nofun

/-- A waiting thread takes up a job. -/
theorem Conduct.begin (h : Conduct ds v) (hp : v.phase = .waiting) {mail : Mail α}
    (hp' : v'.phase = .running mail.job) (hs : v'.started = v.started ++ [mail])
    (hpol : v'.policy = v.policy) : Conduct ds v' where
  underWay rest hr := by
    rw [hp'] at hr
    cases hr
    refine ⟨v.started, mail, hs, rfl, ?_⟩
    rw [hpol]
    exact h.calm_of_waiting hp
  calm hl := by
    rw [hp'] at hl
    cases hl
  broke verdict message hv := by
    rw [hp'] at hv
    cases hv

/-- A job gets on. -/
theorem Conduct.goOn (h : Conduct ds v) {p : Phase α} (hg : v.phase.GetsOn p)
    (hd : v.loopEvent = none) (hj : p.inJob = true) (hp : v'.phase = p)
    (hs : v'.started = v.started) (hpol : v'.policy = v.policy) : Conduct ds v' := by
  have hsame := firstPanic_of_getsOn hg rfl hd
  refine ⟨fun rest hr => ?_, fun hl => ?_, fun verdict message hv => ?_⟩
  · rw [hp] at hr
    rw [hr] at hsame
    obtain ⟨rest', hr', hrest⟩ := Option.map_eq_some_iff.1 hsame.symm
    obtain ⟨earlier, last, hstarted, hlast, hcalm⟩ := h.underWay rest' hr'
    exact ⟨earlier, last, hs.trans hstarted, hlast.trans hrest, hpol ▸ hcalm⟩
  · rw [hp] at hl
    rw [← Phase.isSome_left?, hl] at hj
    cases hj
  · rw [hp, verdict?_eq_none_of_inJob hj] at hv
    cases hv

theorem Conduct.put (h : Conduct ds v) (mail : Mail α) : Conduct ds (v.put mail).2 := by
  have hh := handed_put v mail
  generalize v.put mail = put at hh ⊢
  cases hh with
  | passed hi hc hw hn => exact h.begin hw rfl rfl rfl
  | queued => exact h.congr rfl rfl rfl
  | refused | waits => exact h

/-- More that is told and is no panic. -/
theorem Calm.append {policy : PanicPolicy} {jobs : List (Mail α)} (h : Calm policy jobs ds)
    (he : ∀ p, .panicked p ∉ es) : Calm policy jobs (ds ++ es) := by
  intro hpol
  refine ⟨(h hpol).1, fun p hp => ?_⟩
  rcases List.mem_append.1 hp with hp | hp
  · exact (h hpol).2 p hp
  · exact he p hp

/-- A job that is done. -/
theorem Conduct.finish (h : Conduct ds v) (hp : v.phase = .running .done) :
    Conduct (ds ++ [.finished]) { v with phase := .waiting } where
  underWay _ hr := by cases hr
  calm _ _ hpol := by
    obtain ⟨earlier, last, hs, hlast, hcalm⟩ := h.underWay .done (by rw [hp]; rfl)
    refine ⟨fun mail hmail => ?_, (hcalm.append (by simp) hpol).2⟩
    simp only [hs] at hmail
    rcases List.mem_append.1 hmail with hmail | hmail
    · exact (hcalm hpol).1 mail hmail
    · rw [List.mem_singleton] at hmail
      rw [hmail, hlast]
      rfl
  broke _ _ hv := by cases hv

/-- A job that panics. -/
theorem Conduct.panic (h : Conduct ds v) {payload : Payload} {rest : Work α}
    (hp : v.phase = .running (.act (.panic payload) rest)) :
    Conduct (ds ++ [.panicked payload]) (v.panic payload) := by
  obtain ⟨earlier, last, hs, hlast, hcalm⟩ := h.underWay _ (by rw [hp]; rfl)
  unfold Worker.panic
  simp only
  split
  · rename_i hpol
    obtain ⟨hjobs, htold⟩ := hcalm hpol
    refine ⟨nofun, fun _ hn => ?_, fun verdict message hv hr => ?_⟩
    · exact absurd rfl (hn _ _ rfl)
    · cases hv
      cases hr
      refine ⟨payload, ⟨hpol, ⟨earlier, last, hs, hlast, hjobs⟩, ds, [], rfl, htold, nofun⟩,
        rfl, rfl⟩
  · rename_i hpol
    refine ⟨nofun, fun _ _ hretire => ?_, nofun⟩
    rw [show v.policy = .retire from hretire] at hpol
    cases hpol

/-- A thread that decides to end at its wait. -/
theorem Conduct.retire (h : Conduct ds v) (hp : v.phase = .waiting) (box : Mailbox (Mail α))
    {reason : Reason} (hreason : ∀ message, reason ≠ .panicked message) :
    Conduct ds ({ v with mailbox := box }.retire reason) where
  underWay _ hr := by cases hr
  calm _ _ := h.calm_of_waiting hp
  broke verdict message hv hr := by
    cases hv
    exact absurd hr (hreason message)

/-- A thread that has decided to end goes on to do so. -/
theorem Conduct.goOut (h : Conduct ds v) (hv : v'.phase.verdict? = v.phase.verdict?)
    (hsome : v.phase.verdict? ≠ none) (hs : v'.started = v.started)
    (hpol : v'.policy = v.policy) (he : ∀ d ∈ es, d.endsJob = false) : Conduct (ds ++ es) v' := by
  have hnone : ∀ p : Phase α, p.verdict? ≠ none → p.left? = none := by
    intro p hp
    cases p <;> first | rfl | exact absurd rfl hp
  have hpanic : ∀ p, .panicked p ∉ es := fun p hp => by cases he _ hp
  refine ⟨fun rest hr => ?_, fun _ hn => ?_, fun verdict message hverdict hr => ?_⟩
  · rw [hnone v'.phase (hv ▸ hsome)] at hr
    cases hr
  · rw [hv] at hn
    rw [hs, hpol]
    exact (h.calm (hnone _ hsome) hn).append hpanic
  · rw [hv] at hverdict
    obtain ⟨p, ⟨hpolicy, hjobs, before, after, rfl, hbefore, hafter⟩, hm⟩ :=
      h.broke verdict message hverdict hr
    refine ⟨p, ⟨hpol.trans hpolicy, by rw [hs]; exact hjobs, before, after ++ es, ?_, hbefore,
      ?_⟩, hm⟩
    · simp
    · intro d hd
      rcases List.mem_append.1 hd with hd | hd
      · exact hafter d hd
      · exact he d hd

theorem Conduct.advance (h : Conduct ds v) (ha : v.advance = some v') :
    Conduct (ds ++ v.loopEvent.toList) v' := by
  cases advanced_of_advance ha with
  | @begins mail box hp hn =>
      rw [loopEvent, hp, Option.toList_none, List.append_nil]
      exact h.begin hp (by rfl) (by rfl) (by rfl)
  | @heeds box hp hn => simpa [loopEvent, hp] using h.retire hp box (fun _ he => by cases he)
  | @despairs box hp hn => simpa [loopEvent, hp] using h.retire hp box (fun _ he => by cases he)
  | finishes hp => simpa [loopEvent, hp] using h.finish hp
  | writes e hp hd hr =>
      rw [hd]
      simp only [Option.toList_none, List.append_nil]
      exact h.goOn (p := .running _) (by rw [hp]; exact .acts hr) hd rfl rfl rfl rfl
  | panics hp => simpa [loopEvent, hp] using h.panic hp
  | marks hp =>
      refine h.goOut (by rw [hp]; rfl) (by simp [hp, Phase.verdict?]) rfl rfl ?_
      rw [loopEvent, hp]
      simp
  | goes hp =>
      refine h.goOut (by rw [hp]; rfl) (by simp [hp, Phase.verdict?]) rfl rfl ?_
      rw [loopEvent, hp]
      simp [LoopEvent.endsJob]

/-- **Every step keeps what is known of a worker's jobs.** -/
theorem Conduct.step (h : Conduct ds v) (hs : Step v es v') : Conduct (ds ++ es) v' := by
  cases hs with
  | advance ha => exact h.advance ha
  | put mail => simpa using h.put mail
  | goOn log hv hd hp hg =>
      rw [List.append_nil]
      exact h.goOn hg hd hp (by rfl) (by rfl) (by rfl)
  | count | stop | report | handles | leave | abandon =>
      rw [List.append_nil]
      exact h.congr rfl rfl rfl

/-! ## What is never reported -/

/-- A thread reports nothing of that kind in its own steps, if the mailbox is not
found deserted. -/
theorem deserted_notMem_advance (hs : Sound false v) (ha : v.advance = some v') {name : String}
    (h : .deserted name ∉ v.events) : .deserted name ∉ v'.events := by
  cases advanced_of_advance ha with
  | despairs hp hn => exact absurd hn hs.next_ne_deserted
  | heeds hp hn =>
      simp only [Worker.retire, Mailbox.reasonEvents, List.mem_append, h, false_or]
      split <;> simp
  | panics hp =>
      unfold Worker.panic
      split <;> simp [Worker.retire, Worker.report, Mailbox.reasonEvents, h]
  | begins | finishes | writes | marks | goes =>
      simp [begin, resume, write, Mailbox.exitEvent, h]

theorem deserted_notMem_step (hs : Sound false v) (hstep : Step v es v') {name : String}
    (h : .deserted name ∉ v.events) : .deserted name ∉ v'.events := by
  cases hstep with
  | advance ha => exact deserted_notMem_advance hs ha h
  | put mail =>
      have hh := handed_put v mail
      generalize v.put mail = put at hh ⊢
      cases hh with
      | passed => simpa [begin] using h
      | refused | queued | waits => exact h
  | report identity status => simpa [Worker.report] using h
  | count | stop | goOn | handles | leave | abandon => exact h

end Worker

namespace Workshop

variable {moves : List (Move α)} {w : Workshop α}

/-- **What is known of a worker's jobs is true at all times.** -/
theorem conduct_of_run (h : run {} moves = some w) {k : Nat} {v : Worker α}
    (hv : w.workers[k]? = some v) : Worker.Conduct (trace (loopEvents k) {} moves) v :=
  worker_invariant (P := fun ds v => Worker.Conduct ds v) Worker.conduct_hired
    (fun h hs => h.step hs) h hv

/-- No worker's thread reports that nobody is left to send a job. -/
theorem deserted_notMem_events_of_run (h : run {} moves = some w) {k : Nat} {v : Worker α}
    (hv : w.workers[k]? = some v) (name : String) : .deserted name ∉ v.events := by
  refine (worker_invariant (P := fun _ v => Worker.Sound false v ∧ .deserted name ∉ v.events)
    ?_ ?_ h hv).2
  · exact fun settings identity => ⟨Worker.sound_hired settings identity, by simp [Worker.hired]⟩
  · exact fun hv hs => ⟨hv.1.step hs, Worker.deserted_notMem_step hv.1 hs hv.2⟩

/-- What a request adds to the reports of threads that are no worker's. -/
theorem mem_outside_stopBy {thread : Thread} {k : Nat} {status : Int} {e : Event}
    (h : e ∈ (w.stopBy thread k status).outside) :
    e ∈ w.outside ∨ ∃ identity, e = .stopRequested identity status := by
  unfold stopBy at h
  split at h
  · exact .inl h
  · simp only at h
    split at h
    · cases thread with
      | outside =>
          rcases List.mem_append.1 h with h | h
          · exact .inl h
          · exact .inr ⟨_, List.mem_singleton.1 h⟩
      | worker j => exact .inl h
    · exact .inl h

theorem mem_outside_stopUnlessStopped {k : Nat} {e : Event}
    (h : e ∈ (w.stopUnlessStopped k).outside) :
    e ∈ w.outside ∨ ∃ identity status, e = .stopRequested identity status := by
  unfold stopUnlessStopped at h
  split at h
  · exact .inl h
  · split at h
    · exact (mem_outside_stopBy h).imp_right fun ⟨identity, he⟩ => ⟨identity, 0, he⟩
    · exact .inl h

/-- Threads that are no worker's report of hires and requests to stop only. -/
theorem mem_outside_of_moved {w' : Workshop α} {m : Move α} {rs : List (SubmitResult α)}
    (hm : Moved w m rs w') {e : Event} (h : e ∈ w'.outside) :
    e ∈ w.outside ∨ (∃ identity capacity, e = .hired identity capacity) ∨
      ∃ identity status, e = .stopRequested identity status := by
  cases hm with
  | hire =>
      rcases List.mem_append.1 h with h | h
      · exact .inl h
      · exact .inr (.inl ⟨_, _, List.mem_singleton.1 h⟩)
  | stopsFrom | stops =>
      exact (mem_outside_stopBy h).imp_right fun ⟨identity, he⟩ => .inr ⟨identity, _, he⟩
  | leaves | abandons => exact (mem_outside_stopUnlessStopped h).imp_right .inr
  | _ => exact .inl h

/-- **Nobody ever reports that nobody is left to send a job.** -/
theorem deserted_notMem_of_run (h : run {} moves = some w) (name : String) :
    .deserted name ∉ w.outside ∧
      ∀ {k : Nat} {v : Worker α}, w.workers[k]? = some v → .deserted name ∉ v.events := by
  refine ⟨?_, fun hv => deserted_notMem_events_of_run h hv name⟩
  refine run_invariant (P := fun w => .deserted name ∉ w.outside) ?_ (by simp) h
  intro w w' m hw hm he
  rcases mem_outside_of_moved (moved_of_move hm) he with he | ⟨_, _, he⟩ | ⟨_, _, he⟩
  · exact hw he
  · cases he
  · cases he

end Workshop

end SerialWorkers
