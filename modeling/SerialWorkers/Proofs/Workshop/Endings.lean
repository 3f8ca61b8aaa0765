import SerialWorkers.Proofs.Workshop.Conduct
import SerialWorkers.Proofs.Workshop.Unasked
import SerialWorkers.Session.Basic

/-!
# How workers end

A worker ends in one of two ways.  Where the policy is to retire, a job may panic,
and then it was the last one and the first to do so.  Otherwise the thread found at
its wait the one notice that the first request to stop it had left.  What the end
came to is settled then, and nothing that happens afterwards changes what those who
wait for it are told.

* `Workshop.Turns` — how what bears on a worker's end can change;
  `turns_of_move` finds the case.
* `Workshop.EndedOnPanic`, `Workshop.EndedOnNotice` — the two ways to end.
* `Workshop.ends_on_panic_or_notice` — there is no other, and the answer lasts.
-/

namespace SerialWorkers

open Workshop Worker

variable {α : Type}

namespace Workshop

variable {w w' : Workshop α} {m : Move α} {k : Nat}

/-! ## How the prospects of a worker change -/

/-- How what bears on the end of worker `k` can change in move `m` of workshop `w`. -/
inductive Turns (w : Workshop α) (m : Move α) (k : Nat) :
    Option Prospect → Option Prospect → Prop
  /-- Nothing changes. -/
  | stays (p : Option Prospect) : Turns w m k p p
  /-- The worker is hired. -/
  | hired : Turns w m k none (some ⟨.running, 0, false, none⟩)
  /-- The first request to stop it closes its mailbox and leaves the notice. -/
  | closes {status s : Int} {d : Option Verdict} (hm : m.Requests w k status) :
      Turns w m k (some ⟨.running, s, false, d⟩) (some ⟨.stopping, status, true, d⟩)
  /-- A later request records its status and leaves nothing. -/
  | records {l : Lifecycle} {status s : Int} {n : Bool} {d : Option Verdict}
      (hl : l ≠ .running) : Turns w m k (some ⟨l, s, n, d⟩) (some ⟨l, status, n, d⟩)
  /-- Its thread finds the notice. -/
  | heeds {s : Int} (hm : m = .work k) :
      Turns w m k (some ⟨.stopping, s, true, none⟩)
        (some ⟨.stopping, s, false,
          some ⟨.noticed, if s = 0 then .orderly else .broken (.abnormal s)⟩⟩)
  /-- Its job panics. -/
  | panics {l : Lifecycle} {s : Int} {n : Bool} {message : String} :
      Turns w m k (some ⟨l, s, n, none⟩)
        (some ⟨l, s, n, some ⟨.panicked message, .broken (.panicked message)⟩⟩)
  /-- Its thread marks the mailbox as ended. -/
  | marks {l : Lifecycle} {s : Int} {n : Bool} {verdict : Verdict} :
      Turns w m k (some ⟨l, s, n, some verdict⟩) (some ⟨.ended, s, n, some verdict⟩)

end Workshop

namespace Worker

/-- A thread that is gone does nothing more. -/
theorem ended_of_step {v v' : Worker α} {es : List (LoopEvent α)} {d : Verdict}
    (hs : Step v es v') (hp : v.phase = .ended d) : v'.phase = .ended d := by
  cases hs with
  | advance ha =>
      rw [advance, hp] at ha
      cases ha
  | put mail =>
      have hh := handed_put v mail
      generalize v.put mail = put at hh ⊢
      cases hh with
      | passed hi hc hw hn =>
          rw [hp] at hw
          cases hw
      | refused | queued | waits => exact hp
  | goOn log hv hd hj hg =>
      rw [hp] at hv
      cases hv
  | count | stop | report | handles | leave | abandon => exact hp

end Worker

namespace Workshop

variable {w w' : Workshop α} {m : Move α} {k : Nat}

/-- A request to stop. -/
theorem turns_stop {v : Worker α} (hs : Sound false v) {status : Int}
    (hm : m.Requests w k status) :
    Turns w m k (some v.prospect) (some (v.stop status).2.prospect) := by
  cases ho : v.mailbox.isOpen with
  | true =>
      have hl : v.mailbox.lifecycle = .running := by simpa [Mailbox.isOpen] using ho
      have hn := (hs.opened ho).2.1
      simp only [Worker.prospect, Worker.stop, Mailbox.stop_of_isOpen ho, hl, hn,
        hs.inbox_of_isOpen ho, Bool.or_true]
      exact .closes hm
  | false =>
      have hl : v.mailbox.lifecycle ≠ .running := by
        intro hl
        simp [Mailbox.isOpen, hl] at ho
      simp only [Worker.prospect, Worker.stop, Mailbox.stop_of_not_isOpen ho]
      exact .records hl

/-- A step of the worker's own thread. -/
theorem turns_advance {v v' : Worker α} (hs : Sound false v) (ha : v.advance = some v') :
    Turns w (.work k) k (some v.prospect) (some v'.prospect) := by
  cases advanced_of_advance ha with
  | @begins mail box hp hn =>
      obtain ⟨-, -, -, hbox⟩ := Mailbox.next_eq_item hn
      have : ({ v with mailbox := box }.begin mail).prospect = v.prospect := by
        rw [hbox]
        simp [Worker.prospect, begin, hp, Phase.verdict?]
      rw [this]
      exact .stays _
  | @heeds box hp hn =>
      have hc := (hs.of_next_noticed hn).1
      have hnotice := hs.notice_of_waiting hp hc
      have hl : v.mailbox.lifecycle = .stopping :=
        (Mailbox.stopping_or_ended_of_not_isOpen hc).resolve_right
          (hs.lifecycle_ne_ended (by rw [hp]; rfl))
      obtain ⟨-, rfl⟩ := Mailbox.next_eq_noticed hn
      simp only [Worker.prospect, Worker.retire, hp, hl, hnotice, Phase.verdict?,
        Mailbox.outcome]
      exact .heeds rfl
  | despairs hp hn => exact absurd hn hs.next_ne_deserted
  | finishes hp =>
      simp only [Worker.prospect, hp, Phase.verdict?]
      exact .stays _
  | @writes job rest e hp hd hr =>
      have : ((v.write e).resume rest).prospect = v.prospect :=
        prospect_of_inJob rfl (inJob_of_running hp) rfl
      rw [this]
      exact .stays _
  | panics hp =>
      unfold Worker.panic
      simp only
      split
      · simp only [Worker.prospect, Worker.retire, Worker.report, hp, Phase.verdict?,
          Mailbox.outcome]
        exact .panics
      · simp only [Worker.prospect, Worker.report, hp, Phase.verdict?]
        exact .stays _
  | marks hp =>
      simp only [Worker.prospect, hp, Phase.verdict?, Mailbox.markEnded]
      exact .marks
  | goes hp =>
      simp only [Worker.prospect, hp, Phase.verdict?, Mailbox.freeInbox]
      exact .stays _

/-- **How a move changes what bears on a worker's end.** -/
theorem turns_of_move (hs : ∀ v, w.workers[k]? = some v → Sound false v)
    (h : w.move m = some w') : Turns w m k (w.prospect k) (w'.prospect k) := by
  cases steers_of_move h k with
  | not heq =>
      rw [heq]
      exact .stays _
  | hired hn heq =>
      rw [heq, prospect, hn]
      exact .hired
  | requested hv hm heq =>
      rw [heq, prospect_of_getElem? hv]
      exact turns_stop (hs _ hv) hm
  | own hv hm ha heq =>
      subst hm
      rw [heq, prospect_of_getElem? hv]
      exact turns_advance (hs _ hv) ha

/-- The same, in a run. -/
theorem turns_of_run {moves : List (Move α)} (hrun : run {} moves = some w)
    (h : w.move m = some w') : Turns w m k (w.prospect k) (w'.prospect k) :=
  turns_of_move (fun _ hv => sound_of_run hrun hv) h

/-- What every turn keeps, every run keeps, from a workshop that a run led to. -/
theorem turns_invariant {P : Option Prospect → Prop}
    (step : ∀ {w : Workshop α} {m : Move α} {p p' : Option Prospect}, Turns w m k p p' → P p → P p')
    {first moves : List (Move α)} (hrun : run {} first = some w) (h : w.run moves = some w')
    (hp : P (w.prospect k)) : P (w'.prospect k) := by
  refine (run_invariant (P := fun w => (∃ moves, run {} moves = some w) ∧ P (w.prospect k))
    ?_ ⟨⟨first, hrun⟩, hp⟩ h).2
  rintro w w' m ⟨⟨moves, hrun⟩, hp⟩ hm
  refine ⟨⟨moves ++ [m], ?_⟩, step (turns_of_run hrun hm) hp⟩
  rw [run_append_of_run hrun, run_cons, hm]
  rfl

/-! ## What lasts -/

/-- **What a thread has decided stays decided.** -/
theorem verdict_of_run {first moves : List (Move α)} (hrun : run {} first = some w)
    (h : w.run moves = some w') {d : Verdict} (hd : (w.prospect k).bind Prospect.verdict = some d) :
    (w'.prospect k).bind Prospect.verdict = some d := by
  refine turns_invariant (P := fun p => p.bind Prospect.verdict = some d) ?_ hrun h hd
  intro w m p p' ht hp
  cases ht with
  | hired | heeds | panics => cases hp
  | stays | closes | records | marks => exact hp

/-- A worker that has ended has ended for good. -/
theorem ended_of_run {moves : List (Move α)} (h : w.run moves = some w') {v : Worker α}
    (hv : w.workers[k]? = some v) {d : Verdict} (hp : v.phase = .ended d) :
    ∃ v', w'.workers[k]? = some v' ∧ v'.phase = .ended d := by
  obtain ⟨v', hv', hc⟩ := course_of_run h hv
  refine ⟨v', hv', ?_⟩
  exact hc.invariant [] (P := fun _ v => v.phase = .ended d)
    (fun hp hs => ended_of_step hs hp) hp

/-! ## Those who wait for the end -/

/-- Those who wait for the end of a worker that has ended are told how. -/
theorem endOf_of_ended {v : Worker α} (hv : w.workers[k]? = some v) {d : Verdict}
    (hp : v.phase = .ended d) : Session.endOf w k = .ended d.outcome := by
  simp [Session.endOf, hv, Worker.verdict, hp]

end Workshop

namespace Session

variable {s : Session α} {k : Nat} {v : Worker α} {d : Verdict}

/-- To leave a worker and rest is a run. -/
theorem exists_run_settle_leave (w : Workshop α) (k : Nat) :
    ∃ moves : List (Move α), w.run moves = some ((w.leave k).getD w).settle := by
  obtain ⟨moves, -, hrun⟩ := run_settle ((w.leave k).getD w)
  cases hl : w.leave k with
  | none =>
      rw [hl] at hrun
      exact ⟨moves, hrun⟩
  | some u =>
      rw [hl] at hrun
      refine ⟨.leave k :: moves, ?_⟩
      rw [run_cons, move, hl]
      exact hrun

/-- **Whoever waits for the end of a worker that has ended is told how at once.** -/
theorem await_of_ended (hv : s.shop.workers[k]? = some v) (hp : v.phase = .ended d) :
    (s.await k).1 = .ended d.outcome := by
  have hheld : held s.shop k = false := by simp [held, hv, Worker.held, hp]
  obtain ⟨moves, hrun⟩ := exists_run_settle_leave s.shop k
  obtain ⟨v', hv', hp'⟩ := ended_of_run hrun hv hp
  unfold await
  rw [hheld]
  exact endOf_of_ended hv' hp'

/-- A worker that has its owner can be meant by its number. -/
theorem resolveOwned_worker (ho : s.shop.owns k = true) : s.resolveOwned (.worker k) = .ok k := by
  obtain ⟨v, hv, -⟩ := exists_of_owns ho
  have hk : k < s.shop.workers.length := (List.getElem?_eq_some_iff.1 hv).1
  simp [resolveOwned, resolve, reach, hk, ho]

/-- The owner may do so by a command. -/
theorem perform_await_of_ended (hv : s.shop.workers[k]? = some v) (hp : v.phase = .ended d)
    (ho : s.shop.owns k = true) : (s.perform (.await (.worker k))).1 = .ended d.outcome := by
  rw [perform, withOwned, resolveOwned_worker ho]
  exact await_of_ended hv hp

/-- And so is whoever began to wait before. -/
theorem perform_awaited_of_ended (hv : s.shop.workers[k]? = some v) (hp : v.phase = .ended d)
    {n : Nat} (hn : s.waits[n]? = some { worker := k }) :
    (s.perform (.awaited n)).1 = .ended d.outcome := by
  rw [perform, awaited, hn]
  simp only [endOf_of_ended hv hp]

end Session

namespace Workshop

variable {w w' : Workshop α} {m : Move α} {k : Nat}

/-! ## The one notice -/

/-- Whether worker `k` has a notice in its slot. -/
def noticeAt (w : Workshop α) (k : Nat) : Bool := (w.prospect k).any (·.notice)

/-- Move `m`, if it leaves a notice in the slot of worker `k`, which was free. -/
def noticesLeft (k : Nat) (w : Workshop α) (m : Move α) : List (Move α) :=
  if (w.move m).any (·.noticeAt k) && !w.noticeAt k then [m] else []

/-- Nothing is left by a move after which the slot is free, or before which it was
not. -/
theorem noticesLeft_eq_nil (h : w.move m = some w')
    (hn : w'.noticeAt k = true → w.noticeAt k = true) : noticesLeft k w m = [] := by
  unfold noticesLeft
  rw [h, Option.any_some]
  cases ha : w'.noticeAt k with
  | false => rfl
  | true => simp [hn ha]

/-- No notice is left before the first request to stop. -/
theorem trace_noticesLeft_of_running {moves : List (Move α)} (h : run {} moves = some w)
    (hl : ∀ p, w.prospect k = some p → p.lifecycle = .running) :
    trace (noticesLeft k) {} moves = [] := by
  refine (trace_invariant (noticesLeft k) [] (P := fun told w =>
    (∃ moves, run {} moves = some w) ∧
      ((∀ p, w.prospect k = some p → p.lifecycle = .running) → told = []))
    ?_ ⟨⟨[], rfl⟩, fun _ => rfl⟩ h).2 hl
  rintro told w w' m ⟨⟨moves, hrun⟩, htold⟩ hm
  refine ⟨⟨moves ++ [m], by rw [run_append_of_run hrun, run_cons, hm]; rfl⟩, fun hl => ?_⟩
  have ht := turns_of_run hrun hm (k := k)
  have hleft : (w'.noticeAt k = true → w.noticeAt k = true) ∧
      (∀ p, w.prospect k = some p → p.lifecycle = .running) := by
    unfold noticeAt
    generalize w.prospect k = p at ht ⊢
    generalize w'.prospect k = p' at ht hl ⊢
    cases ht with
    | stays => exact ⟨id, hl⟩
    | hired => exact ⟨nofun, nofun⟩
    | closes | heeds | marks => cases hl _ rfl
    | records hne => exact absurd (hl _ rfl) hne
    | panics =>
        have hopen := hl _ rfl
        refine ⟨id, fun p hp => ?_⟩
        cases hp
        exact hopen
  rw [htold hleft.2, noticesLeft_eq_nil hm hleft.1]
  rfl

/-- And none is left after it. -/
theorem trace_noticesLeft_of_closed {first moves : List (Move α)} (hrun : run {} first = some w)
    (h : w.run moves = some w') {p : Prospect} (hp : w.prospect k = some p)
    (hl : p.lifecycle ≠ .running) : w.trace (noticesLeft k) moves = [] := by
  refine (trace_invariant (noticesLeft k) [] (P := fun told w =>
    (∃ moves, run {} moves = some w) ∧
      (∃ p, w.prospect k = some p ∧ p.lifecycle ≠ .running) ∧ told = [])
    ?_ ⟨⟨first, hrun⟩, ⟨p, hp, hl⟩, rfl⟩ h).2.2
  rintro told w w' m ⟨⟨moves, hrun⟩, ⟨p, hp, hl⟩, rfl⟩ hm
  refine ⟨⟨moves ++ [m], by rw [run_append_of_run hrun, run_cons, hm]; rfl⟩, ?_⟩
  have ht := turns_of_run hrun hm (k := k)
  rw [hp] at ht
  have hleft : (w'.noticeAt k = true → w.noticeAt k = true) ∧
      (∃ p, w'.prospect k = some p ∧ p.lifecycle ≠ .running) := by
    unfold noticeAt
    rw [hp]
    generalize w'.prospect k = p' at ht ⊢
    cases ht with
    | stays => exact ⟨id, _, rfl, hl⟩
    | closes => exact absurd rfl hl
    | records hne => exact ⟨id, _, rfl, hne⟩
    | heeds => exact ⟨nofun, _, rfl, nofun⟩
    | panics => exact ⟨id, _, rfl, hl⟩
    | marks => exact ⟨id, _, rfl, nofun⟩
  refine ⟨hleft.2, ?_⟩
  rw [noticesLeft_eq_nil hm hleft.1]
  rfl

/-! ## The two ways to end -/

/-- In move `m` the first request to stop worker `k` is made: it was open and is
stopping, with the status on record and the notice in the slot. -/
structure Closes (w : Workshop α) (m : Move α) (w' : Workshop α) (k : Nat) (status : Int) :
    Prop where
  /-- The move. -/
  made : w.move m = some w'
  /-- It is a request. -/
  requested : m.Requests w k status
  /-- Before, the worker is open and has decided nothing. -/
  before : ∃ s, w.prospect k = some ⟨.running, s, false, none⟩
  /-- Afterwards it is stopping. -/
  after : w'.prospect k = some ⟨.stopping, status, true, none⟩

/-- The thread of worker `k` finds the notice, with status `found` on record, and
decides to end so. -/
structure Heeds (w w' : Workshop α) (k : Nat) (found : Int) (d : Verdict) : Prop where
  /-- The move. -/
  made : w.move (.work k) = some w'
  /-- Before, there is a notice and nothing is decided. -/
  before : w.prospect k = some ⟨.stopping, found, true, none⟩
  /-- Afterwards the slot is free. -/
  after : w'.prospect k = some ⟨.stopping, found, false, some d⟩
  /-- What is decided. -/
  verdict : d = ⟨.noticed, if found = 0 then .orderly else .broken (.abnormal found)⟩

/-- In a run, worker `k` ended because its thread found the one notice that it was
ever left, by the first request to stop it. -/
def EndedOnNotice (moves : List (Move α)) (k : Nat) (d : Verdict) : Prop :=
  ∃ before request between after, moves = before ++ request :: (between ++ .work k :: after) ∧
    (∃ w₁ w₂ w₃ w₄ status found, run {} before = some w₁ ∧ Closes w₁ request w₂ k status ∧
      w₂.run between = some w₃ ∧ Heeds w₃ w₄ k found d) ∧
    trace (noticesLeft k) {} moves = [request]

/-- In a run, worker `k` ended because its last job panicked, the first to do so,
where the policy is to retire. -/
def EndedOnPanic (moves : List (Move α)) (k : Nat) (v : Worker α) (d : Verdict) : Prop :=
  ∃ p, BrokeOff (trace (loopEvents k) {} moves) v p ∧
    d = ⟨.panicked p.message, .broken (.panicked p.message)⟩

/-- A prospect with nothing decided, if something is decided of it later, was so. -/
theorem verdict_eq_none_of_run {first moves : List (Move α)} (hrun : run {} first = some w)
    (h : w.run moves = some w') {p p' : Prospect} (hp : w.prospect k = some p)
    (hp' : w'.prospect k = some p') (hn : p'.verdict = none) : p.verdict = none := by
  cases hd : p.verdict with
  | none => rfl
  | some d =>
      have := verdict_of_run hrun h (k := k) (d := d) (by rw [hp]; exact hd)
      rw [hp', Option.bind_some, hn] at this
      cases this

/-- **A worker that was stopped was stopped by one request**, which left the notice. -/
theorem closes_of_run {moves : List (Move α)} (h : run {} moves = some w) {s : Int}
    (hp : w.prospect k = some ⟨.stopping, s, true, none⟩) :
    ∃ before request between w₁ w₂ status, moves = before ++ request :: between ∧
      run {} before = some w₁ ∧ Closes w₁ request w₂ k status ∧ w₂.run between = some w := by
  obtain ⟨before, m, between, w₁, w₂, rfl, hbefore, hno, hm, hyes, hbetween⟩ :=
    exists_turn (Q := fun w => w.noticeAt k = true) (by simp [noticeAt, prospect])
      (by rw [noticeAt, hp]; rfl) h
  have hrun : run {} (before ++ [m]) = some w₂ := by
    rw [run_append_of_run hbefore, run_cons, hm]
    rfl
  have ht := turns_of_run hbefore hm (k := k)
  unfold noticeAt at hno hyes
  generalize hp₁ : w₁.prospect k = p₁ at ht hno
  generalize hp₂ : w₂.prospect k = p₂ at ht hyes
  cases ht with
  | stays => exact absurd hyes hno
  | hired | heeds => cases hyes
  | records | panics | marks => exact absurd hyes hno
  | closes hreq =>
      -- whatever was decided before would still be decided now
      have hd := verdict_eq_none_of_run hrun hbetween hp₂ hp rfl
      simp only at hd
      subst hd
      exact ⟨before, m, between, w₁, w₂, _, rfl, hbefore, ⟨hm, hreq, ⟨_, hp₁⟩, hp₂⟩, hbetween⟩

/-- **A thread that decided to end on a notice found the only one.** -/
theorem endedOnNotice_of_run {moves : List (Move α)} (h : run {} moves = some w) {v : Worker α}
    (hv : w.workers[k]? = some v) {d : Verdict} (hd : v.phase.verdict? = some d)
    (hr : d.reason = .noticed) : EndedOnNotice moves k d := by
  have hp : (w.prospect k).bind Prospect.verdict = some d := by
    rw [prospect_of_getElem? hv]
    exact hd
  -- the move in which it was decided
  obtain ⟨first, m, after, w₃, w₄, rfl, hfirst, hno, hm, hyes, hafter⟩ :=
    exists_turn (Q := fun w => ∃ d, (w.prospect k).bind Prospect.verdict = some d) (by
      simp [prospect]) ⟨d, hp⟩ h
  have hrun : run {} (first ++ [m]) = some w₄ := by
    rw [run_append_of_run hfirst, run_cons, hm]
    rfl
  have hd₄ : (w₄.prospect k).bind Prospect.verdict = some d := by
    obtain ⟨d', hd'⟩ := hyes
    have := verdict_of_run hrun hafter hd'
    rw [hp] at this
    cases this
    exact hd'
  have ht := turns_of_run hfirst hm (k := k)
  generalize hp₃ : w₃.prospect k = p₃ at ht hno
  generalize hp₄ : w₄.prospect k = p₄ at ht hd₄
  cases ht with
  | stays => exact absurd ⟨d, hd₄⟩ hno
  | hired => cases hd₄
  | closes | records | marks => exact absurd ⟨d, hd₄⟩ hno
  | panics =>
      cases hd₄
      cases hr
  | heeds hwork =>
      cases hd₄
      subst hwork
      -- the move in which the notice was left
      obtain ⟨before, request, between, w₁, w₂, status, rfl, hbefore, hcloses, hbetween⟩ :=
        closes_of_run hfirst hp₃
      have hrest : w₂.run (between ++ .work k :: after) = some w := by
        rw [run_append_of_run hbetween, run_cons, hm]
        exact hafter
      refine ⟨before, request, between, after, by simp, ⟨w₁, w₂, w₃, w₄, status, _, hbefore,
        hcloses, hbetween, ⟨hm, hp₃, hp₄, rfl⟩⟩, ?_⟩
      have hclosed : run {} (before ++ [request]) = some w₂ := by
        rw [run_append_of_run hbefore, run_cons, hcloses.made]
        rfl
      obtain ⟨s, hs⟩ := hcloses.before
      rw [List.append_assoc, List.cons_append, trace_append hbefore, trace_cons hcloses.made,
        trace_noticesLeft_of_running hbefore (fun p hp => by rw [hs] at hp; cases hp; rfl),
        trace_noticesLeft_of_closed hclosed hrest hcloses.after (by simp)]
      simp [noticesLeft, hcloses.made, noticeAt, hs, hcloses.after]

/-- A notice and a panic are not the end of the same worker. -/
theorem not_endedOnPanic_of_calm {moves : List (Move α)} {v : Worker α} {d : Verdict}
    (h : Calm v.policy v.started (trace (loopEvents k) {} moves)) : ¬ EndedOnPanic moves k v d := by
  rintro ⟨p, hb, -⟩
  obtain ⟨before, after, htold, -⟩ := hb.told
  refine (h hb.policy).2 p ?_
  rw [htold]
  exact List.mem_append_right _ List.mem_cons_self

/-- **How workers end.**  In every run, nobody ever reports that nobody is left to
send a job.  Whoever has ended did so in one of two ways and not in the other: a job
panicked where that is the policy, or the thread found the one notice left by the
first request.  In every continuation those who wait for the end are told what was
decided then. -/
theorem ends_on_panic_or_notice {moves : List (Move α)} (h : run {} moves = some w) :
    (∀ name, .deserted name ∉ w.outside ∧
      ∀ {k : Nat} {v : Worker α}, w.workers[k]? = some v → .deserted name ∉ v.events) ∧
    ∀ {k : Nat} {v : Worker α} {d : Verdict}, w.workers[k]? = some v → v.phase = .ended d →
      (EndedOnPanic moves k v d ∧ ¬ EndedOnNotice moves k d ∨
        EndedOnNotice moves k d ∧ ¬ EndedOnPanic moves k v d) ∧
      ∀ after w', w.run after = some w' → ∀ s : Session α, s.shop = w' →
        (s.shop.owns k = true → (s.perform (.await (.worker k))).1 = .ended d.outcome) ∧
        ∀ n, s.waits[n]? = some { worker := k } →
          (s.perform (.awaited n)).1 = .ended d.outcome := by
  refine ⟨fun name => deserted_notMem_of_run h name, fun {k v d} hv hp => ⟨?_, ?_⟩⟩
  · have hd : v.phase.verdict? = some d := by
      rw [hp]
      rfl
    have hconduct := conduct_of_run h hv
    rcases (sound_of_run h hv).decided d hd with ⟨hr, -⟩ | ⟨⟨message, hr⟩, -⟩
    · refine .inr ⟨endedOnNotice_of_run h hv hd hr, not_endedOnPanic_of_calm ?_⟩
      apply hconduct.calm
      · rw [hp]
        rfl
      · intro d' message hd' hr'
        rw [hd] at hd'
        cases hd'
        rw [hr] at hr'
        cases hr'
    · obtain ⟨p, hb, rfl, ho⟩ := hconduct.broke d message hd hr
      have hverdict : d = ⟨.panicked p.message, .broken (.panicked p.message)⟩ := by
        rw [← hr, ← ho]
      refine .inl ⟨⟨p, hb, hverdict⟩, ?_⟩
      rintro ⟨_, _, _, _, -, ⟨_, _, _, _, _, _, -, -, -, hheeds⟩, -⟩
      rw [hheeds.verdict] at hr
      cases hr
  · rintro after w' hafter s rfl
    obtain ⟨v', hv', hp'⟩ := ended_of_run hafter hv hp
    exact ⟨Session.perform_await_of_ended hv' hp',
      fun n => Session.perform_awaited_of_ended hv' hp'⟩

/-- A run in which one worker panics while a notice waits for it, and of another one
owner and handles are let go of while its job runs. -/
def partingRun : List (Move Nat) :=
  [ .hire {} "pot" none, .hire {} "kettle" none, .welcome,
    .call .prompt 0 0 (.act .gate (.act (.panic (.built "cracked")) .done)),
    .call .prompt 0 1 (.act .gate .done), .work 0, .work 1, .stop 0 7,
    .cloneHandle 1 0, .abandon 1, .dropHandle 1 1, .release 0, .release 1,
    .work 0, .work 0, .work 0, .work 1, .work 1, .work 1, .work 1 ]

/-- After the run both are gone, each in its own way, and those who wait are told so
whatever happens then. -/
theorem ends_on_panic_or_notice_parting :
    ∃ w v u, run {} partingRun = some w ∧ w.workers[0]? = some v ∧ w.workers[1]? = some u ∧
      EndedOnPanic partingRun 0 v ⟨.panicked "cracked", .broken (.panicked "cracked")⟩ ∧
      EndedOnNotice partingRun 1 ⟨.noticed, .orderly⟩ ∧
      ∀ after w', w.run after = some w' → ∀ s : Session Nat, s.shop = w' →
        s.waits[0]? = some { worker := 0 } →
        (s.perform (.awaited 0)).1 = .ended (.broken (.panicked "cracked")) := by
  obtain ⟨hpot, hanswer⟩ := (@ends_on_panic_or_notice Nat _ partingRun rfl).2 (k := 0) rfl rfl
  obtain ⟨hkettle, -⟩ := (@ends_on_panic_or_notice Nat _ partingRun rfl).2 (k := 1) rfl rfl
  refine ⟨_, _, _, rfl, rfl, rfl, ?_, ?_, fun after w' h s hs => (hanswer after w' h s hs).2 0⟩
  · refine (hpot.resolve_right ?_).1
    rintro ⟨⟨_, _, _, _, -, ⟨_, _, _, _, _, _, -, -, -, hheeds⟩, -⟩, -⟩
    cases hheeds.verdict
  · refine (hkettle.resolve_left ?_).1
    rintro ⟨⟨_, -, hd⟩, -⟩
    cases hd

end Workshop

end SerialWorkers
