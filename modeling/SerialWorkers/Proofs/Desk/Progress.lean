import SerialWorkers.Proofs.Desk.Counting
import SerialWorkers.Proofs.Desk.Draining

/-!
# A service comes to something

Whatever is queued at a desk, a service of it is not under way for ever.  It closes, or it comes
to stand in one of two places: at a wait that nothing can end, where no notice is waiting and
somebody could still leave one, nothing is queued and somebody could still send a job; or in a
job that sends patiently to the mailbox it came from where that has no room, which only the
thread it runs on could make.  It does so on every way it may take, in no more steps than the
weight of what is to be run; and it runs no more jobs than occurred in the queue at first.

What bounds the steps is not what bounds the jobs.  The weight falls with every step of the
machine, in the middle of a job too; the jobs that occur in the queue become fewer with every
round.

`Machine.step` has a job that would wait for ever told so, and goes on with it, as a test does
that must not hang.  A thread does not: `Machine.Proceeds` has it stand in the call.

* `Machine.Blocked`, `Machine.Proceeds` — a thread that stands in a call, and what it does else.
* `Machine.MustReach` — what a machine comes to on every way, and in how many steps.
* `Machine.mustReach_of_invariant` — how to show that it does.
* `Desk.Idle`, `Desk.WindsUp` — where a service stands for ever, and where it will not.
* `Desk.Settles` — what a service comes to.
* `Desk.service_progresses` — it comes to that; `Desk.blocks_crammedDesk` shows that it may be
  kept from closing.
-/

namespace SerialWorkers

/-- A wait that may return does not go on. -/
theorem Mailbox.Wakes.next_ne_none {ι : Type} {m box : Mailbox ι} {w : Wake ι}
    (h : m.Wakes w box) : m.next ≠ none := by
  intro hnext
  obtain ⟨hnotice, hsender, hqueue, hproducer⟩ := next_eq_none_iff.1 hnext
  cases h with
  | notice hn => cases hnotice.symm.trans hn
  | ownerGone _ hw => cases hsender.symm.trans hw
  | item _ hq => cases hqueue.symm.trans hq
  | deserted _ _ hp => cases hproducer.symm.trans hp

/-- A wait leaves the bound alone. -/
theorem Mailbox.Wakes.capacity {ι : Type} {m box : Mailbox ι} {w : Wake ι} (h : m.Wakes w box) :
    box.capacity = m.capacity := by
  cases h <;> rfl

/-- There is no room for now only in a mailbox that is open, whose inbox is still there, and that
is full. -/
theorem Mailbox.post_waits_iff {ι : Type} {m : Mailbox ι} {x : ι} : (m.post x).1 = .waits ↔
    m.isOpen = true ∧ m.inbox = true ∧ m.isFull = true := by
  unfold post put
  cases m.isOpen with
  | false => simp
  | true =>
      cases m.inbox with
      | false => simp
      | true => cases m.isFull <;> simp

/-- A mailbox without a bound is never full. -/
theorem Mailbox.exists_bound_of_isFull {ι : Type} {m : Mailbox ι} (h : m.isFull = true) :
    ∃ n, m.capacity = some n ∧ n ≤ m.pending := by
  unfold isFull at h
  split at h
  · cases h
  · rename_i n hn
    exact ⟨n, hn, of_decide_eq_true h⟩

namespace Desk

variable {α : Type} {d : Desk α} {policy : PanicPolicy} {below : List (Frame α)}

/-- **Who is told that it would wait**: a patient sender with a handle, at a mailbox that is open
and full while its inbox is there. -/
theorem send_wouldWait_iff {route : Route} {job : Work α} :
    (d.send route job).1 = .wouldWait ↔
      d.mailbox.holds route.handle = true ∧ route.manner = .patient ∧
        d.mailbox.isOpen = true ∧ d.mailbox.inbox = true ∧ d.mailbox.isFull = true := by
  have hwaits : ∀ mail : Mail α, (d.mailbox.post mail).1.inManner route.manner = .waits ↔
      route.manner = .patient ∧
        d.mailbox.isOpen = true ∧ d.mailbox.inbox = true ∧ d.mailbox.isFull = true := by
    intro mail
    rw [Receipt.inManner_eq_waits_iff, Mailbox.post_waits_iff, and_comm]
  cases hheld : d.mailbox.holds route.handle with
  | false => simp [send, hheld]
  | true =>
      rw [← hwaits ⟨d.attempts, route.handle, job⟩]
      simp only [send, hheld, Bool.not_true, Bool.false_eq_true, if_false, true_and]
      split <;> simp [*]

/-- A request leaves the bound of the mailbox alone. -/
theorem capacity_ask (d : Desk α) (lent : Bool) (c : Call) :
    (d.ask lent c).2.mailbox.capacity = d.mailbox.capacity := by
  cases c with
  | dropInbox =>
      simp only [ask]
      split <;> rfl
  | giveNotice =>
      simp only [ask, Mailbox.giveNotice]
      split
      · split
        · rfl
        · split <;> rfl
      · rfl
  | wait =>
      simp only [ask]
      split
      · split
        · rfl
        · rename_i hn
          exact (Mailbox.wakes_of_next hn).capacity
        · rename_i hn
          exact (Mailbox.wakes_of_next hn).capacity
        · rename_i hn
          exact (Mailbox.wakes_of_next hn).capacity
      · rfl
  | serve policy =>
      simp only [ask]
      split
      · split <;> rfl
      · rfl
  | beginStop =>
      simp only [ask, Mailbox.beginStop]
      split <;> rfl
  | cloneHandle | dropHandle | dropCancelSender | setStatus | markEnded | inspect | isOpen
  | identity | look => rfl

theorem capacity_send (d : Desk α) (route : Route) (job : Work α) :
    (d.send route job).2.mailbox.capacity = d.mailbox.capacity := by
  unfold send
  split
  · rfl
  · simp only
    split
    · unfold Mailbox.post Mailbox.put
      split
      · split
        · rfl
        · split <;> rfl
      · rfl
    · rfl
    · rfl

/-- No step that is taken at a desk changes the bound of its mailbox. -/
theorem kept_capacity (d : Desk α) :
    Kept d (fun d' => d'.mailbox.capacity = d.mailbox.capacity) fun _ => True where
  idle := rfl
  ask lent c := ⟨capacity_ask d lent c, fun _ _ => trivial⟩
  send route job := ⟨capacity_send d route job, trivial⟩
  deliver hw := hw.capacity
  noticed hw := ⟨hw.capacity, trivial⟩
  deserted hw := ⟨hw.capacity, trivial⟩
  finished := trivial
  panicked _ := trivial
  served _ := trivial
  write hd _ := hd
  report hd _ := hd
  conclude _ hd _ := hd

namespace Machine

variable {m m' : Machine α} {P Q I : Machine α → Prop} {n n' : Nat}

/-! ## What a thread does that a call may keep -/

/-- The thread stands in a call for ever: the job that it runs sends another one patiently, and
there is no room in the mailbox that it alone could make room in. -/
def Blocked (m : Machine α) : Prop :=
  ∃ via route job rest below, m.stack = .job via (.send route job rest) :: below ∧
    (m.desk.send route job).1 = .wouldWait

/-- What a thread may do next: nothing if it stands in a call, and what the machine may do
otherwise. -/
structure Proceeds (m m' : Machine α) : Prop where
  /-- The machine may do it. -/
  goes : Goes m m'
  /-- The thread stands in no call. -/
  free : ¬ m.Blocked

/-- Where nobody has a handle nobody stands in a call. -/
theorem not_blocked_of_deserted (h : m.desk.mailbox.hasProducer = false) : ¬ m.Blocked := by
  rintro ⟨via, route, job, rest, below, -, hwait⟩
  have halone : Alone m.desk m.desk := ⟨h, rfl⟩
  rw [halone.send] at hwait
  cases hwait

/-- Nor does a service at its wait. -/
theorem not_blocked_service (d : Desk α) (policy : PanicPolicy) (below : List (Frame α))
    (a : Option Reply) :
    ¬ ({ desk := d, stack := .service policy :: below, answer := a } : Machine α).Blocked := by
  rintro ⟨via, route, job, rest, below, hstack, -⟩
  cases hstack

/-- The bound of the mailbox stays the same. -/
theorem Reaches.capacity (h : Reaches m m') :
    m'.desk.mailbox.capacity = m.desk.mailbox.capacity := by
  induction h with
  | refl => rfl
  | tail _ last ih => exact ((kept_capacity _).happens (.goes last)).1.trans ih

/-- **Where a thread stands in a call the mailbox has a bound**, is open, and is full. -/
theorem Blocked.full (h : m.Blocked) : m.desk.mailbox.isOpen = true ∧
    ∃ n, m.desk.mailbox.capacity = some n ∧ n ≤ m.desk.mailbox.pending := by
  obtain ⟨via, route, job, rest, below, -, hwait⟩ := h
  obtain ⟨-, -, hopen, -, hfull⟩ := send_wouldWait_iff.1 hwait
  exact ⟨hopen, Mailbox.exists_bound_of_isFull hfull⟩

/-! ## What a machine comes to on every way -/

/-- **Whatever a machine does next leaves less to be run.** -/
theorem weight_goes (h : Goes m m') : m'.weight < m.weight := by
  cases h with
  | step h => exact weight_step h
  | @wakes d policy below a w box h =>
      cases h with
      | notice | ownerGone | deserted =>
          rw [woken, weight_endService]
          simp only [weight, stackWeight_cons, frameWeight]
          omega
      | item hn hq =>
          simp only [woken, weight, stackWeight_cons, frameWeight, report, deliver, hq,
            queueWeight_cons]
          omega

/-- A machine that may do something has a step to take. -/
theorem exists_step_of_goes (h : Goes m m') : ∃ m'', m.step = some m'' := by
  cases h with
  | step h => exact ⟨_, h⟩
  | wakes h =>
      rw [step_service]
      exact Option.ne_none_iff_exists'.1 (mt Option.map_eq_none_iff.1 h.next_ne_none)

/-- On every way that its thread may take, the machine comes to one of which `P` holds, in at
most `n` steps, and until then there is something it may do. -/
inductive MustReach (P : Machine α → Prop) : Nat → Machine α → Prop
  /-- It is there. -/
  | here {n : Nat} {m : Machine α} (h : P m) : MustReach P n m
  /-- It may go on, and wherever it goes it comes to that. -/
  | goesOn {n : Nat} {m : Machine α} (can : ∃ m', Proceeds m m')
      (all : ∀ m', Proceeds m m' → MustReach P n m') : MustReach P (n + 1) m

theorem MustReach.mono (h : MustReach P n m) (hn : n ≤ n') : MustReach P n' m := by
  induction h generalizing n' with
  | here h => exact .here h
  | goesOn can _ ih =>
      cases n' with
      | zero => omega
      | succ n' => exact .goesOn can fun m' hg => ih m' hg (by omega)

/-- It still has to come to that after a step, if it has not before. -/
theorem MustReach.next (h : MustReach P n m) (hP : ¬ P m) (hg : Proceeds m m') :
    ∃ n', MustReach P n' m' := by
  cases h with
  | here h => exact absurd h hP
  | goesOn _ all => exact ⟨_, all m' hg⟩

/-- A machine whose thread stands in a call has come to all that it will come to. -/
theorem MustReach.of_blocked (h : MustReach P n m) (hb : m.Blocked) : P m := by
  cases h with
  | here h => exact h
  | goesOn can _ =>
      obtain ⟨m', hg⟩ := can
      exact absurd hb hg.free

/-- It is enough to know of what the machine comes to that it comes to it. -/
theorem MustReach.imp (h : MustReach P n m) (hP : ∀ m', Reaches m m' → P m' → Q m') :
    MustReach Q n m := by
  induction h with
  | @here n m h => exact .here (hP m (.refl m) h)
  | @goesOn n m can _ ih =>
      refine .goesOn can fun m' hg => ih m' hg fun m'' hreach => ?_
      exact hP m'' (((Reaches.refl m).tail hg.goes).trans hreach)

/-- **What makes a machine come to something**: as long as it has not, it may go on, and nothing
it may do leads off the way. -/
theorem mustReach_of_invariant
    (hstep : ∀ m, I m → P m ∨ (∃ m', Proceeds m m') ∧ ∀ m', Proceeds m m' → I m' ∨ P m')
    (h : I m) : MustReach P m.weight m := by
  -- by the weight of what is still to be run
  induction hw : m.weight using Nat.strongRecOn generalizing m with
  | ind w ih =>
      subst hw
      rcases hstep m h with hP | ⟨can, all⟩
      · exact .here hP
      · obtain ⟨m', hm'⟩ := can
        have hfirst := weight_goes hm'.goes
        obtain ⟨n, hn⟩ : ∃ n, m.weight = n + 1 := ⟨m.weight - 1, by omega⟩
        rw [hn]
        refine .goesOn ⟨m', hm'⟩ fun m'' hm'' => ?_
        have hless := weight_goes hm''.goes
        rcases all m'' hm'' with hI | hP
        · exact (ih _ hless hI rfl).mono (by omega)
        · exact .here hP

/-- The way the machine takes by itself is one of them, as far as that. -/
theorem MustReach.exists_run (h : MustReach P n m) :
    ∃ m', Reaches m m' ∧ P m' ∧ m.run = m'.run := by
  induction h with
  | @here n m h => exact ⟨m, .refl m, h, rfl⟩
  | @goesOn n m can all ih =>
      obtain ⟨m', hm'⟩ := can
      obtain ⟨m'', hstep⟩ := exists_step_of_goes hm'.goes
      obtain ⟨m₁, hreach, hP, hrun⟩ := ih m'' ⟨.step hstep, hm'.free⟩
      exact ⟨m₁, ((Reaches.refl m).tail (.step hstep)).trans hreach, hP,
        (run_of_step_some hstep).trans hrun⟩

end Machine

/-! ## Where a service stands -/

/-- A wait at desk `d` goes on until somebody leaves a notice or sends a job, or nobody is left
who could. -/
structure Idle (d : Desk α) : Prop where
  /-- No notice is waiting. -/
  notice : d.mailbox.notice = false
  /-- Somebody could leave one. -/
  cancelSender : d.mailbox.cancelSender = true
  /-- Nothing is queued. -/
  queue : d.mailbox.queue = []
  /-- Somebody could send a job. -/
  producer : d.mailbox.hasProducer = true

theorem idle_iff : d.Idle ↔ d.mailbox.next = none := by
  rw [Mailbox.next_eq_none_iff]
  exact ⟨fun h => ⟨h.notice, h.cancelSender, h.queue, h.producer⟩,
    fun ⟨hn, hw, hq, hp⟩ => ⟨hn, hw, hq, hp⟩⟩

/-- A service of desk `d` will close: a notice is waiting, or nobody is left to send a job. -/
def WindsUp (d : Desk α) : Prop := d.mailbox.notice = true ∨ d.mailbox.hasProducer = false

theorem WindsUp.not_idle (h : d.WindsUp) : ¬ d.Idle := by
  intro hidle
  rcases h with hn | hp
  · cases hidle.notice.symm.trans hn
  · cases hidle.producer.symm.trans hp

/-- No job of the service can change that. -/
theorem WindsUp.after (h : d.WindsUp) (job : Work α) : (d.after job).WindsUp := by
  rcases h with hn | hp
  · exact .inl (notice_after hn job).1
  · have halone : Alone d d := ⟨hp, rfl⟩
    exact .inr (halone.after job).1.deserted

/-- A job is taken up only if nobody is left. -/
theorem WindsUp.takeUp (h : d.WindsUp) {mail : Mail α} {box : Mailbox (Mail α)}
    (hw : d.mailbox.Wakes (.item mail) box) : (d.takeUp box mail).WindsUp := by
  rcases h with hn | hp
  · cases (wakes_of_notice hn hw).1
  · exact .inr (hw.hasProducer.trans hp)

namespace Machine

variable {m m' : Machine α}

theorem InRounds.stack (h : InRounds d policy below m) : ∃ f, m.stack = f :: below := by
  cases h with
  | waiting => exact ⟨_, rfl⟩
  | working => exact ⟨_, rfl⟩

/-- A service that was answered is not under way. -/
theorem not_inRounds_answerTo (d' : Desk α) (c : Call) (r : Reply) :
    ¬ InRounds d policy below (answerTo d' c r below) := by
  intro h
  obtain ⟨f, hf⟩ := h.stack
  rw [stack_answerTo] at hf
  exact List.cons_ne_self f below hf.symm

/-- **A service stands for ever only at its wait**, where that goes on, or in a call. -/
theorem InRounds.stands_iff (h : InRounds d policy below m) :
    (∀ m', ¬ Proceeds m m') ↔ (m.stack = .service policy :: below ∧ m.desk.Idle) ∨ m.Blocked := by
  cases h with
  | @waiting ran d₁ h =>
      have hfree := not_blocked_service d₁ policy below none
      rw [idle_iff]
      constructor
      · intro hstands
        refine .inl ⟨rfl, ?_⟩
        cases hn : d₁.mailbox.next with
        | none => rfl
        | some p => exact absurd ⟨.wakes (Mailbox.wakes_of_next hn), hfree⟩ (hstands _)
      · rintro (⟨-, hn⟩ | hblocked) m' hg
        · obtain ⟨w, box, hw, -⟩ := goes_service hg.goes
          exact hw.next_ne_none hn
        · exact hfree hblocked
  | working =>
      constructor
      · intro hstands
        obtain ⟨m', hm'⟩ := exists_step_of_job _ _ _ _ _
        exact .inr (Classical.not_not.1 fun hfree => hstands m' ⟨.step hm', hfree⟩)
      · rintro (⟨hstack, -⟩ | hblocked) m' hg
        · cases hstack
        · exact hg.free hblocked

/-- The desk, once the job under way is over. -/
def onceOver (m : Machine α) : Desk α :=
  match m.stack with
  | .job _ rest :: _ => m.desk.after rest
  | _ => m.desk

theorem windsUp_onceOver (h : m.desk.WindsUp) : m.onceOver.WindsUp := by
  unfold onceOver
  split
  · exact h.after _
  · exact h

/-- **A service that is to wind up still is**, as long as it is under way. -/
theorem InRounds.windsUp (h : InRounds d policy below m) (hup : m.onceOver.WindsUp)
    (hg : Goes m m') (h' : InRounds d policy below m') : m'.onceOver.WindsUp := by
  cases h with
  | waiting h =>
      obtain ⟨w, box, hw, rfl⟩ := goes_service hg
      cases w with
      | item mail =>
          have htaken : WindsUp (Desk.takeUp _ box mail) := WindsUp.takeUp hup hw
          exact windsUp_onceOver htaken
      | noticed | deserted => exact absurd h' (not_inRounds_answerTo _ _ _)
  | @working ran d₁ d₂ box mail rest h hw hafter hpanic =>
      rcases goes_job hg with ⟨d₃, rest', rfl, hafter', -⟩ | rfl
      · show (d₃.after rest').WindsUp
        rw [hafter']
        exact hup
      · rcases survived_or_panicked policy (firstPanic rest) with hsurvived | ⟨rfl, p, hp⟩
        · rw [jobOver_of_survived hsurvived]
          show (Desk.tellPanic _ _ _).WindsUp
          unfold WindsUp
          rw [mailbox_tellPanic]
          exact hup
        · rw [hp] at h'
          exact absurd h' (not_inRounds_answerTo _ _ _)

end Machine

/-! ## What a service comes to -/

open Machine

/-- The machine is in the middle of the service that desk `d` was asked for. -/
def InCall (d : Desk α) (policy : PanicPolicy) (below : List (Frame α)) (m : Machine α) : Prop :=
  InRounds (d.report [.serviceBegan d.mailbox.identity]) policy below m

/-- The service of desk `d` has closed and was answered, and ran no more than there was. -/
def Returns (d : Desk α) (policy : PanicPolicy) (below : List (Frame α)) (m : Machine α) : Prop :=
  ∃ ran o d', d.Serves policy o d' ∧ WorksOff d ran d' ∧
    m = answerTo d' (.serve policy) (.served o) below

/-- What a service of desk `d` comes to. -/
inductive Settles (d : Desk α) (policy : PanicPolicy) (below : List (Frame α)) :
    Machine α → Prop
  /-- It closes. -/
  | returns {m : Machine α} (h : Returns d policy below m) : Settles d policy below m
  /-- It stands at a wait that goes on.  No notice was waiting at first and none was left since,
  and somebody could send a job all along. -/
  | stands {ran : List (Mail α)} {d' : Desk α} {es : List (Entry α)} (h : WorksOff d ran d')
      (hidle : d'.Idle) (hnotice : d.mailbox.notice = false)
      (hlog : d'.log = d.log ++ es) (hnone : noticesLeft es = 0)
      (hproducer : d.mailbox.hasProducer = true) :
      Settles d policy below { desk := d', stack := .service policy :: below }
  /-- Its thread stands in a call, in the middle of a job. -/
  | blocked {m : Machine α} (h : InCall d policy below m) (hb : m.Blocked) :
      Settles d policy below m

/-- A service that has closed has returned. -/
theorem returns_of_closed {m : Machine α}
    (h : Closed (d.report [.serviceBegan d.mailbox.identity]) policy below m) :
    Returns d policy below m := by
  obtain ⟨ran, d₁, last, o, d', hrounds, hcloses, rfl⟩ := h
  exact ⟨ran ++ last, o, d', (hrounds.reaches []).trans (hcloses.reaches []),
    (hrounds.worksOff.trans hcloses.worksOff).of_report, rfl⟩

/-- A service that stands at a wait that goes on has settled. -/
theorem InCall.stands {m : Machine α} (h : InCall d policy below m)
    (hstack : m.stack = .service policy :: below) (hidle : m.desk.Idle) :
    Settles d policy below m := by
  cases h with
  | working => cases hstack
  | @waiting ran d₁ h =>
      obtain ⟨sent, es, hbooks⟩ := h.books
      have hnotices : d.mailbox.notice.toNat + noticesLeft es = d₁.mailbox.notice.toNat :=
        hbooks.notices
      rw [hidle.notice, Bool.toNat_false] at hnotices
      refine .stands h.worksOff.of_report hidle (Bool.toNat_eq_zero.1 (by omega)) hbooks.log
        (by omega) ?_
      cases hproducer : d.mailbox.hasProducer with
      | true => rfl
      | false =>
          -- nobody who is gone comes back
          have halone := (h.alone ⟨hproducer, rfl⟩).1
          cases hidle.producer.symm.trans halone.deserted

/-- A service that stands where it does for ever has settled. -/
theorem InCall.settles {m : Machine α} (h : InCall d policy below m)
    (hs : ∀ m', ¬ Proceeds m m') : Settles d policy below m := by
  rcases InRounds.stands_iff h |>.1 hs with ⟨hstack, hidle⟩ | hblocked
  · exact h.stands hstack hidle
  · exact .blocked h hblocked

/-- A service under way settles, or goes on with nothing but itself to come to. -/
theorem InCall.goesOn {m : Machine α} (h : InCall d policy below m) :
    Settles d policy below m ∨ (∃ m', Proceeds m m') ∧
      ∀ m', Proceeds m m' → InCall d policy below m' ∨ Returns d policy below m' := by
  by_cases hs : ∀ m', ¬ Proceeds m m'
  · exact .inl (h.settles hs)
  · refine .inr ⟨by simpa using hs, fun m' hg => ?_⟩
    exact (InRounds.goes h hg.goes).imp id returns_of_closed

/-- **A service settles**, wherever it is. -/
theorem InCall.mustSettle {m : Machine α} (h : InCall d policy below m) :
    MustReach (Settles d policy below) m.weight m := by
  refine mustReach_of_invariant (I := InCall d policy below) (fun m hm => ?_) h
  exact hm.goesOn.imp id (And.imp id fun all m' hg => (all m' hg).imp id .returns)

/-- **A service that is to wind up closes**, unless its thread comes to stand in a call. -/
theorem InCall.mustReturn {m : Machine α} (h : InCall d policy below m)
    (hup : m.desk.WindsUp) : MustReach
      (fun m => Returns d policy below m ∨ InCall d policy below m ∧ m.Blocked) m.weight m := by
  refine mustReach_of_invariant
    (I := fun m => InCall d policy below m ∧ m.onceOver.WindsUp) ?_ ⟨h, windsUp_onceOver hup⟩
  rintro m ⟨hm, hup⟩
  rcases hm.goesOn with hsettles | ⟨can, all⟩
  · cases hsettles with
    | returns hr => exact .inl (.inl hr)
    | stands _ hidle => exact absurd hidle (WindsUp.not_idle hup)
    | blocked _ hb => exact .inl (.inr ⟨hm, hb⟩)
  · refine .inr ⟨can, fun m' hg => ?_⟩
    exact (all m' hg).imp (fun hm' => ⟨hm', InRounds.windsUp hm hup hg.goes hm'⟩) .inl

/-- **Where nobody is left to send a job it closes**, for no call can keep its thread. -/
theorem InCall.mustReturn_of_deserted {m : Machine α} (h : InCall d policy below m)
    (hp : m.desk.mailbox.hasProducer = false) :
    MustReach (Returns d policy below) m.weight m := by
  refine (h.mustReturn (.inr hp)).imp fun m' hreach hcomes => ?_
  obtain ⟨told, hunfolds⟩ := exists_unfolds_of_reaches hreach
  have halone := (hunfolds.alone ⟨hp, rfl⟩).1
  exact hcomes.resolve_right fun hb => not_blocked_of_deserted halone.deserted hb.2

/-- **What a service under way has run** is no more than occurred in the queue at first. -/
theorem InCall.few {m : Machine α} (h : InCall d policy below m) :
    ∃ ran, m.desk.delivered = d.delivered ++ ran ∧ ran.length ≤ jobsIn d.mailbox.queue := by
  cases h with
  | @waiting ran d₁ h =>
      have hoff := h.worksOff.of_report
      obtain ⟨sent, hpasses⟩ := hoff.passes
      have hfew := hoff.few
      exact ⟨ran, hpasses.delivered, by omega⟩
  | @working ran d₁ d₂ box mail rest h hw hafter _ =>
      obtain ⟨hdelivered, hfew⟩ := h.worksOff.of_report.takeUp hw
      refine ⟨ran ++ [mail], ?_, hfew⟩
      -- the job itself takes up no other
      calc d₂.delivered = (d₂.after rest).delivered := (delivered_after d₂ rest).symm
        _ = ((d₁.takeUp box mail).after mail.job).delivered := congrArg Desk.delivered hafter
        _ = (d₁.takeUp box mail).delivered := delivered_after _ _
        _ = d.delivered ++ (ran ++ [mail]) := hdelivered

/-! ## What the desk's user is told -/

/-- A service is not begun where it could only stand. -/
theorem perform_serve_of_idle (hi : d.mailbox.inbox = true) (h : d.Idle) (policy : PanicPolicy) :
    d.perform (.call (.serve policy)) = (some .wouldWait, d) := by
  have hstart : Machine.start d (.call (.serve policy))
      = { desk := d, stack := [], answer := some .wouldWait } := by
    simp [Machine.start, ask, hi, idle_iff.1 h]
  rw [perform, hstart, run_of_step_none rfl]

/-- Where a service of the desk's user has settled nothing is left to be done, unless its thread
stands in a call. -/
theorem Settles.run {m : Machine α} (h : Settles d policy [] m) (hb : ¬ m.Blocked) :
    m.run = m := by
  cases h with
  | blocked _ hblocked => exact absurd hblocked hb
  | returns h =>
      obtain ⟨ran, o, d', -, -, rfl⟩ := h
      exact run_of_step_none rfl
  | stands _ hidle =>
      refine run_of_step_none ?_
      rw [step_service, idle_iff.1 hidle, Option.map_none]

/-- **The user is answered as the service settles**, or not at all where it stands.  Where the
thread comes to stand in a call the user waits with it. -/
theorem perform_serve_of_not_idle (hi : d.mailbox.inbox = true) (h : ¬ d.Idle)
    (policy : PanicPolicy) : ∃ m, Reaches (.serving d policy []) m ∧ Settles d policy [] m ∧
      (¬ m.Blocked → d.perform (.call (.serve policy)) = (m.answer, m.desk)) := by
  have hcall : InCall d policy [] (Machine.serving d policy []) := .waiting .start
  obtain ⟨m, hreach, hm, hrun⟩ := hcall.mustSettle.exists_run
  refine ⟨m, hreach, hm, fun hb => ?_⟩
  have hserving : (Machine.serving d policy []).run = m := hrun.trans (hm.run hb)
  rw [perform, start_serve hi (mt idle_iff.2 h), hserving]

/-! ## Progress -/

/-- How a service of desk `d` fares, with `below` under way outside it. -/
structure Progresses (d : Desk α) (policy : PanicPolicy) (below : List (Frame α)) : Prop where
  /-- It settles, whichever way it takes. -/
  settles : MustReach (Settles d policy below) (Machine.serving d policy below).weight
    (.serving d policy below)
  /-- Until it closes, it has run no more jobs than occurred in the queue at first. -/
  few : ∀ m, Reaches (.serving d policy below) m →
    (InCall d policy below m ∧
      ∃ ran, m.desk.delivered = d.delivered ++ ran ∧ ran.length ≤ jobsIn d.mailbox.queue) ∨
    ∃ m₁, Returns d policy below m₁ ∧ Reaches m₁ m
  /-- Wherever a notice is waiting or nobody is left to send a job, it will close, unless its
  thread comes to stand in a call. -/
  returns : ∀ m, InCall d policy below m → m.desk.WindsUp → MustReach
    (fun m => Returns d policy below m ∨ InCall d policy below m ∧ m.Blocked) m.weight m
  /-- Wherever nobody is left to send a job, it will close. -/
  deserted : ∀ m, InCall d policy below m → m.desk.mailbox.hasProducer = false →
    MustReach (Returns d policy below) m.weight m
  /-- It stands nowhere but at a wait that goes on, and in a call. -/
  stands : ∀ m, InCall d policy below m →
    ((∀ m', ¬ Proceeds m m') ↔
      (m.stack = .service policy :: below ∧ m.desk.Idle) ∨ m.Blocked)
  /-- Its thread stands in a call only where the mailbox is open and bounded, and full. -/
  blocked : ∀ m, Reaches (.serving d policy below) m → m.Blocked →
    m.desk.mailbox.isOpen = true ∧
      ∃ n, d.mailbox.capacity = some n ∧ n ≤ m.desk.mailbox.pending
  /-- If it never comes to stand in a call, it closes or stands at a wait that goes on; and it
  closes from wherever a notice is waiting. -/
  unblocked : (∀ m, Reaches (.serving d policy below) m → ¬ m.Blocked) →
    MustReach (fun m => Settles d policy below m ∧ ¬ m.Blocked)
        (Machine.serving d policy below).weight (.serving d policy below) ∧
      ∀ m, Reaches (.serving d policy below) m → InCall d policy below m → m.desk.WindsUp →
        MustReach (Returns d policy below) m.weight m

theorem progresses (d : Desk α) (policy : PanicPolicy) (below : List (Frame α)) :
    Progresses d policy below where
  settles := InCall.mustSettle (.waiting .start)
  few := by
    intro m h
    rcases reaches_service h with hin | ⟨m₁, hclosed, hreach⟩
    · exact .inl ⟨hin, InCall.few hin⟩
    · exact .inr ⟨m₁, returns_of_closed hclosed, hreach⟩
  returns := fun _ => InCall.mustReturn
  deserted := fun _ => InCall.mustReturn_of_deserted
  stands := fun _ => InRounds.stands_iff
  blocked := by
    intro m h hb
    obtain ⟨hopen, n, hn, hfull⟩ := hb.full
    exact ⟨hopen, n, h.capacity.symm.trans hn, hfull⟩
  unblocked := by
    intro hfree
    have hserving : InCall d policy below (.serving d policy below) := .waiting .start
    refine ⟨hserving.mustSettle.imp fun m h hm => ⟨hm, hfree m h⟩, fun m h hm hup => ?_⟩
    exact (hm.mustReturn hup).imp fun m' h' hcomes =>
      hcomes.resolve_right fun hb => hfree m' (h.trans h') hb.2

/-- **Every service comes to something.**  Whatever the state of the desk and the policy, and
whatever is queued, a service closes, or comes to stand at a wait that goes on, or its thread
comes to stand in a call to the mailbox that it works off, in no more steps than its weight and
with no more jobs run than occurred in the queue.  It stands at no wait once a notice is waiting
or nobody is left to send a job, and in no call once nobody is left.  It may stand in a call only
if it sends patiently to a mailbox that is open, bounded and full; where it never does, it closes
or stands at a wait that goes on, and the desk's user is answered as it does. -/
theorem service_progresses (d : Desk α) (policy : PanicPolicy) :
    (∀ below, Progresses d policy below) ∧
    (d.mailbox.inbox = true →
      (d.Idle → d.perform (.call (.serve policy)) = (some .wouldWait, d)) ∧
      (¬ d.Idle → ∃ m, Reaches (.serving d policy []) m ∧ Settles d policy [] m ∧
        (¬ m.Blocked → d.perform (.call (.serve policy)) = (m.answer, m.desk)))) ∧
    ∀ (route : Route) (job : Work α), (d.send route job).1 = .wouldWait ↔
      d.mailbox.holds route.handle = true ∧ route.manner = .patient ∧
        d.mailbox.isOpen = true ∧ d.mailbox.inbox = true ∧ d.mailbox.isFull = true :=
  ⟨progresses d policy,
    fun hi => ⟨fun h => perform_serve_of_idle hi h policy,
      fun h => perform_serve_of_not_idle hi h policy⟩,
    fun _ _ => send_wouldWait_iff⟩

/-- A desk with one job queued, in which four jobs occur: it sends a job that sends another and
panics, and panics before it can send the last. -/
def eagerDesk : Desk Nat where
  mailbox := {
    identity := "pot"
    queue := [
      ⟨0, 0, .send ⟨.patient, 0⟩
        (.send ⟨.prompt, 0⟩ .done (.act (.panic (.literal "oh")) .done))
        (.act (.panic .other) (.send ⟨.patient, 0⟩ .done .done))⟩] }

/-- A service that carries on runs three of the four and stands at its wait then.  Where the
handle was let go of before, every service of the same queue closes. -/
theorem service_progresses_eagerDesk :
    (∃ d' ran, eagerDesk.perform (.call (.serve .carryOn)) = (none, d') ∧ d'.Idle ∧
      WorksOff eagerDesk ran d' ∧ ran.length = 3 ∧ jobsIn eagerDesk.mailbox.queue = 4) ∧
    ∀ policy, let gone := { eagerDesk with mailbox := eagerDesk.mailbox.dropHandle 0 }
      MustReach (Returns gone policy []) (Machine.serving gone policy []).weight
        (.serving gone policy []) := by
  refine ⟨?_, fun policy => ?_⟩
  · have hrun := (run_of_step_some (m := Machine.start eagerDesk (.call (.serve .carryOn)))
      rfl).trans <| (run_of_step_some rfl).trans <| (run_of_step_some rfl).trans <|
      (run_of_step_some rfl).trans <| (run_of_step_some rfl).trans <|
      (run_of_step_some rfl).trans <| (run_of_step_some rfl).trans <|
      (run_of_step_some rfl).trans <| run_of_step_none rfl
    have hperform := congrArg (fun m : Machine Nat => (m.answer, m.desk)) hrun
    have hbusy : ¬ eagerDesk.Idle := fun h => by cases h.queue
    obtain ⟨m, hreach, hm, hanswer⟩ := ((service_progresses eagerDesk .carryOn).2.1 rfl).2 hbusy
    -- without a bound no call keeps the thread
    have hfree : ¬ m.Blocked := by
      intro hb
      obtain ⟨-, n, hn, -⟩ := ((service_progresses eagerDesk .carryOn).1 []).blocked m hreach hb
      cases hn
    have hanswer := hanswer hfree
    have hsame := hperform.symm.trans hanswer
    cases hm with
    | blocked _ hb => exact absurd hb hfree
    | returns h =>
        obtain ⟨_, _, _, -, -, rfl⟩ := h
        cases congrArg Prod.fst hsame
    | @stands ran d' _ h hidle =>
        have hdesk : _ = d' := congrArg Prod.snd hsame
        obtain ⟨sent, hpasses⟩ := h.passes
        have hran : d'.delivered.length = ran.length := congrArg List.length hpasses.delivered
        refine ⟨d', ran, hanswer, hidle, h, ?_, rfl⟩
        rw [← hran, ← hdesk]
        rfl
  · exact ((service_progresses _ policy).1 []).deserted _ (.waiting .start) rfl

/-- A desk with room for one job, which has one queued that leaves a notice and then sends two. -/
def crammedDesk : Desk Nat where
  mailbox := {
    identity := "pot"
    capacity := some 1
    queue := [⟨0, 0, .act (.call .giveNotice)
      (.send ⟨.patient, 0⟩ .done (.send ⟨.patient, 0⟩ .done .done))⟩] }

/-- **A service may come to stand elsewhere than at a wait**, and with a notice waiting: its job
has sent one job and sends the next one patiently.  So it is not true of every service that it
closes or stands at its wait. -/
theorem blocks_crammedDesk :
    (∃ m, Reaches (.serving crammedDesk .carryOn []) m ∧ m.Blocked ∧ (∀ m', ¬ Proceeds m m') ∧
      m.desk.mailbox.notice = true ∧ m.answer = none) ∧
    ¬ ∀ (d : Desk Nat) (policy : PanicPolicy), ∃ n,
      MustReach (fun m => Returns d policy [] m ∨ m.stack = [.service policy] ∧ m.desk.Idle) n
        (.serving d policy []) := by
  refine ⟨⟨_, (((Reaches.refl _).tail (.step rfl)).tail (.step rfl)).tail (.step rfl),
    ⟨_, _, _, _, _, rfl, rfl⟩, fun m' hg => hg.free ⟨_, _, _, _, _, rfl, rfl⟩, rfl, rfl⟩,
    fun h => ?_⟩
  -- a service that is under way and has something to run has come to neither
  have hnot : ∀ m : Machine Nat, m.stack ≠ [] → m.stack ≠ [.service .carryOn] ∨
      m.desk.mailbox.queue ≠ [] → ¬ (Returns crammedDesk .carryOn [] m ∨
        m.stack = [.service .carryOn] ∧ m.desk.Idle) := by
    rintro m hm hbusy (⟨_, _, _, -, -, rfl⟩ | ⟨hstack, hidle⟩)
    · exact hm rfl
    · exact hbusy.elim (· hstack) (· hidle.queue)
  obtain ⟨n, h₀⟩ := h crammedDesk .carryOn
  obtain ⟨n₁, h₁⟩ := h₀.next (hnot _ (by decide) (.inr (by decide)))
    ⟨.step rfl, not_blocked_service _ _ _ _⟩
  obtain ⟨n₂, h₂⟩ := h₁.next (hnot _ (by decide) (.inl (by decide))) ⟨.step rfl, by
    rintro ⟨_, _, _, _, _, hstack, -⟩
    cases hstack⟩
  obtain ⟨n₃, h₃⟩ := h₂.next (hnot _ (by decide) (.inl (by decide))) ⟨.step rfl, by
    rintro ⟨_, _, _, _, _, hstack, hwait⟩
    cases hstack
    exact absurd hwait (by decide)⟩
  exact hnot _ (by decide) (.inl (by decide)) (h₃.of_blocked ⟨_, _, _, _, _, rfl, rfl⟩)

end Desk

end SerialWorkers
