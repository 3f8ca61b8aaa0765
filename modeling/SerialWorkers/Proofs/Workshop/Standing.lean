import SerialWorkers.Proofs.Workshop.Custody

/-!
# A thread and its mailbox

Where a worker's thread stands and what its mailbox looks like go together: a
mailbox that is open has no notice in its slot and its owner can still leave one,
one that was stopped has a notice or a thread that has decided to end, and the
thread is on its way out exactly when the mailbox is marked as ended.

A request to stop closes the mailbox first and leaves its notice afterwards.  So
that the two can be looked at one by one, all is said with a flag for whether a
notice is still due; where requests are made in one piece it never is.

* `Worker.Sound` — what goes together, for one worker.
* `Workshop.sound_of_run` — it does so for every worker at all times.
-/

namespace SerialWorkers

namespace Workshop

variable {α : Type}

/-- Whether a thread that stands here is done with the service. -/
def Phase.isOut : Phase α → Bool
  | .leaving _ => true
  | .ended _ => true
  | _ => false

/-- Whether a thread that stands here has decided to end and not yet marked the
mailbox. -/
def Phase.isRetiring : Phase α → Bool
  | .retiring _ => true
  | _ => false

/-- Whether a thread that stands here is gone. -/
def Phase.isGone : Phase α → Bool
  | .ended _ => true
  | _ => false

/-- Why and how a thread that stands here ends, once that is decided. -/
def Phase.verdict? : Phase α → Option Verdict
  | .retiring verdict => some verdict
  | .leaving verdict => some verdict
  | .ended verdict => some verdict
  | _ => none

end Workshop

open Workshop

variable {α : Type}

namespace Mailbox

variable {ι : Type}

/-- A mailbox that is not open was stopped or is marked as ended. -/
theorem stopping_or_ended_of_not_isOpen {m : Mailbox ι} (h : m.isOpen = false) :
    m.lifecycle = .stopping ∨ m.lifecycle = .ended := by
  cases hl : m.lifecycle with
  | running => simp [isOpen, hl] at h
  | stopping => exact .inl rfl
  | ended => exact .inr rfl

/-- A mailbox whose first handle is held has a producer. -/
theorem hasProducer_of_holds {m : Mailbox ι} (h : m.holds 0 = true) : m.hasProducer = true := by
  rw [holds, List.getD_eq_getElem?_getD] at h
  cases h0 : m.handles[0]? with
  | none => simp [h0] at h
  | some b =>
      rw [h0, Option.getD_some] at h
      subst h
      exact List.any_eq_true.2 ⟨true, List.mem_of_getElem? h0, rfl⟩

end Mailbox

namespace Worker

/-- What a worker's thread and its mailbox have to do with each other, while a
notice is `due` or not. -/
structure Sound (due : Bool) (v : Worker α) : Prop where
  /-- The mailbox is marked as ended when the thread is done with the service. -/
  out : v.mailbox.lifecycle = .ended ↔ v.phase.isOut = true
  /-- The inbox is there until the thread is gone. -/
  gone : v.mailbox.inbox = false ↔ v.phase.isGone = true
  /-- Whoever can leave a notice can send a job. -/
  owner : v.mailbox.cancelSender = true → v.mailbox.holds 0 = true
  /-- An open mailbox has no notice and none is due, and its owner can leave one. -/
  opened : v.mailbox.isOpen = true →
    due = false ∧ v.mailbox.notice = false ∧ v.mailbox.cancelSender = true
  /-- A stop is not forgotten: its notice is due or waits, or the thread has decided
  to end. -/
  stopping : v.mailbox.lifecycle = .stopping →
    due = true ∨ v.mailbox.notice = true ∨ v.phase.isRetiring = true
  /-- A notice that is due finds the slot free. -/
  unsent : due = true → v.mailbox.notice = false ∧ v.mailbox.cancelSender = true
  /-- A thread ends because it saw the notice, or because of a panic where that is
  the policy. -/
  decided : ∀ verdict, v.phase.verdict? = some verdict →
    (verdict.reason = .noticed ∧ v.mailbox.isOpen = false ∧ due = false) ∨
      ((∃ message, verdict.reason = .panicked message) ∧ v.policy = .retire)
  /-- No more jobs are queued than the bound allows. -/
  within : ∀ n, v.mailbox.capacity = some n → v.mailbox.pending ≤ n

theorem sound_hired (settings : Settings) (identity : String) :
    Sound false (hired settings identity : Worker α) where
  out := by simp [hired, Phase.isOut]
  gone := by simp [hired, Phase.isGone]
  owner _ := rfl
  opened _ := ⟨rfl, rfl, rfl⟩
  stopping := nofun
  unsent := nofun
  decided := nofun
  within _ _ := Nat.zero_le _

variable {due : Bool} {v v' : Worker α}

/-- While a job is under way nothing is decided. -/
theorem verdict?_eq_none_of_inJob {p : Phase α} (h : p.inJob = true) : p.verdict? = none := by
  cases p <;> simp_all [Phase.inJob, Phase.verdict?]

/-! ## What it comes to at the wait -/

/-- A thread that is done with the service stands nowhere else. -/
theorem Sound.lifecycle_ne_ended (h : Sound due v) (hp : v.phase.isOut = false) :
    v.mailbox.lifecycle ≠ .ended := by
  intro hl
  rw [h.out.1 hl] at hp
  cases hp

/-- The inbox is freed after the mailbox was marked as ended. -/
theorem Sound.ended_of_no_inbox (h : Sound due v) (hi : v.mailbox.inbox = false) :
    v.mailbox.lifecycle = .ended := by
  have hgone := h.gone.1 hi
  refine h.out.2 ?_
  cases hp : v.phase <;> simp_all [Phase.isOut, Phase.isGone]

/-- An open mailbox still has its inbox. -/
theorem Sound.inbox_of_isOpen (h : Sound due v) (ho : v.mailbox.isOpen = true) :
    v.mailbox.inbox = true := by
  cases hi : v.mailbox.inbox with
  | true => rfl
  | false =>
      rw [Mailbox.isOpen, h.ended_of_no_inbox hi] at ho
      cases ho

/-- **A stopped worker is woken.**  If a thread stands at its wait and the mailbox
is not open, there is a notice, once none is due. -/
theorem Sound.notice_of_waiting (h : Sound false v) (hp : v.phase = .waiting)
    (hc : v.mailbox.isOpen = false) : v.mailbox.notice = true := by
  rcases Mailbox.stopping_or_ended_of_not_isOpen hc with hl | hl
  · rcases h.stopping hl with hdue | hn | hr
    · cases hdue
    · exact hn
    · rw [hp] at hr
      cases hr
  · exact absurd hl (h.lifecycle_ne_ended (by rw [hp]; rfl))

/-- The wait of a stopped worker returns with the notice. -/
theorem Sound.next_of_waiting (h : Sound false v) (hp : v.phase = .waiting)
    (hc : v.mailbox.isOpen = false) :
    v.mailbox.next = some (.noticed, { v.mailbox with notice := false }) := by
  simp [Mailbox.next, h.notice_of_waiting hp hc]

/-- A wait that returns with a notice is that of a closed mailbox, and none is due. -/
theorem Sound.of_next_noticed (h : Sound due v) {box : Mailbox (Mail α)}
    (hn : v.mailbox.next = some (.noticed, box)) :
    v.mailbox.isOpen = false ∧ due = false := by
  -- neither an open mailbox nor one whose notice is due makes the wait return so
  have hwake : v.mailbox.notice = false → v.mailbox.cancelSender = true → False := by
    intro hnotice hsender
    rcases (Mailbox.next_eq_noticed hn).1 with h' | h'
    · rw [hnotice] at h'
      cases h'
    · rw [hsender] at h'
      cases h'
  refine ⟨?_, ?_⟩
  · cases ho : v.mailbox.isOpen with
    | false => rfl
    | true =>
        obtain ⟨-, hnotice, hsender⟩ := h.opened ho
        exact (hwake hnotice hsender).elim
  · cases due with
    | false => rfl
    | true =>
        obtain ⟨hnotice, hsender⟩ := h.unsent rfl
        exact (hwake hnotice hsender).elim

/-- No wait finds the mailbox of a worker deserted: its owner is left while
somebody can leave a notice. -/
theorem Sound.next_ne_deserted (h : Sound due v) {box : Mailbox (Mail α)} :
    v.mailbox.next ≠ some (.deserted, box) := by
  intro hn
  obtain ⟨-, hsender, -, hprod, -⟩ := Mailbox.next_eq_deserted hn
  rw [Mailbox.hasProducer_of_holds (h.owner hsender)] at hprod
  cases hprod

/-! ## Every step keeps it -/

/-- What a step that leaves the stage of life, the slot and the inbox alone keeps. -/
theorem Sound.congr (h : Sound due v) (hl : v'.mailbox.lifecycle = v.mailbox.lifecycle)
    (hi : v'.mailbox.inbox = v.mailbox.inbox) (hn : v'.mailbox.notice = v.mailbox.notice)
    (hw : v'.mailbox.cancelSender = v.mailbox.cancelSender)
    (hh : v.mailbox.holds 0 = true → v'.mailbox.holds 0 = true)
    (hout : v'.phase.isOut = v.phase.isOut) (hgone : v'.phase.isGone = v.phase.isGone)
    (hret : v.phase.isRetiring = true → v'.phase.isRetiring = true)
    (hv : ∀ verdict, v'.phase.verdict? = some verdict →
      v.phase.verdict? = some verdict ∧ v'.policy = v.policy)
    (hq : ∀ n, v'.mailbox.capacity = some n → v'.mailbox.pending ≤ n) : Sound due v' := by
  have ho : v'.mailbox.isOpen = v.mailbox.isOpen := by rw [Mailbox.isOpen, hl, Mailbox.isOpen]
  refine ⟨?_, ?_, ?_, ?_, ?_, ?_, ?_, hq⟩
  · rw [hl, hout, h.out]
  · rw [hi, hgone, h.gone]
  · intro hsender
    exact hh (h.owner (hw ▸ hsender))
  · intro hopen
    rw [hn, hw]
    exact h.opened (ho ▸ hopen)
  · intro hs
    rw [hn]
    exact (h.stopping (hl ▸ hs)).imp_right (Or.imp_right hret)
  · rw [hn, hw]
    exact h.unsent
  · intro verdict hd
    obtain ⟨hd, hpolicy⟩ := hv verdict hd
    rw [ho, hpolicy]
    exact h.decided verdict hd

/-- The same, where only what a job or its owner has does change. -/
theorem Sound.of_phase_eq (h : Sound due v) (hm : v'.mailbox = v.mailbox)
    (hp : v'.phase = v.phase) (hpolicy : v'.policy = v.policy) : Sound due v' := by
  refine h.congr ?_ ?_ ?_ ?_ ?_ ?_ ?_ ?_ (fun verdict hd => ⟨hp ▸ hd, hpolicy⟩) ?_
  · rw [hm]
  · rw [hm]
  · rw [hm]
  · rw [hm]
  · rw [hm]
    exact id
  · rw [hp]
  · rw [hp]
  · rw [hp]
    exact id
  · rw [hm]
    exact h.within

/-- A thread that goes from the wait or a job to the wait or a job. -/
theorem Sound.of_verdict?_eq_none (h : Sound due v) (hm : v'.mailbox = v.mailbox)
    (hp : v.phase.verdict? = none) (hp' : v'.phase.verdict? = none) : Sound due v' := by
  have hout : v'.phase.isOut = false ∧ v'.phase.isGone = false := by
    cases hv : v'.phase <;> simp_all [Phase.verdict?, Phase.isOut, Phase.isGone]
  have hout' : v.phase.isOut = false ∧ v.phase.isGone = false ∧ v.phase.isRetiring = false := by
    cases hv : v.phase <;> simp_all [Phase.verdict?, Phase.isOut, Phase.isGone, Phase.isRetiring]
  apply h.congr
  · rw [hm]
  · rw [hm]
  · rw [hm]
  · rw [hm]
  · rw [hm]
    exact id
  · rw [hout.1, hout'.1]
  · rw [hout.2, hout'.2.1]
  · rw [hout'.2.2]
    exact nofun
  · intro verdict hd
    rw [hp'] at hd
    cases hd
  · rw [hm]
    exact h.within

theorem Sound.put (h : Sound due v) (mail : Mail α) : Sound due (v.put mail).2 := by
  have hh := handed_put v mail
  generalize v.put mail = put at hh ⊢
  cases hh with
  | refused hi => exact h
  | queued hi hf =>
      refine h.congr rfl rfl rfl rfl id rfl rfl id (fun _ hd => ⟨hd, rfl⟩) ?_
      intro n hn
      simp only [Mailbox.push] at hn
      simp only [Mailbox.isFull, hn, decide_eq_false_iff_not] at hf
      simp only [Mailbox.pending, Mailbox.push, List.length_append, List.length_singleton] at hf ⊢
      omega
  | passed hi hc hw hn => exact h.of_verdict?_eq_none rfl (by rw [hw]; rfl) rfl
  | waits hi hf => exact h

/-- A status is recorded. -/
theorem Sound.setStatus (h : Sound due v) (status : Int) :
    Sound due { v with mailbox := v.mailbox.setStatus status } :=
  h.congr rfl rfl rfl rfl id rfl rfl id (fun _ hd => ⟨hd, rfl⟩) h.within

/-- **The first request closes the mailbox, and its notice is due from then on.** -/
theorem Sound.beginStop (h : Sound due v) :
    Sound (due || v.mailbox.beginStop.1) { v with mailbox := v.mailbox.beginStop.2 } := by
  unfold Mailbox.beginStop
  cases ho : v.mailbox.isOpen with
  | false => simpa using h
  | true =>
      obtain ⟨rfl, hnotice, hsender⟩ := h.opened ho
      have hout : v.phase.isOut ≠ true := fun hp => by
        rw [Mailbox.isOpen, h.out.2 hp] at ho
        cases ho
      refine ⟨?_, h.gone, h.owner, nofun, fun _ => .inl rfl, fun _ => ⟨hnotice, hsender⟩,
        ?_, h.within⟩
      · simp [hout]
      · intro verdict hd
        -- the thread decided before anybody requested a stop, so it was by a panic
        rcases h.decided verdict hd with ⟨-, hc, -⟩ | hpanic
        · rw [ho] at hc
          cases hc
        · exact .inr hpanic

/-- **A notice that is due is left, unless nobody is there to read it.**  The slot is
never found taken. -/
theorem Sound.giveNotice (h : Sound true v) :
    Sound false { v with mailbox := v.mailbox.giveNotice.2 } ∧
      v.mailbox.giveNotice.1 ≠ .slotTaken := by
  obtain ⟨hnotice, hsender⟩ := h.unsent rfl
  have hc : v.mailbox.isOpen = false := by
    cases ho : v.mailbox.isOpen with
    | false => rfl
    | true => exact absurd (h.opened ho).1 (by simp)
  have hdecided : ∀ verdict, v.phase.verdict? = some verdict →
      (∃ message, verdict.reason = .panicked message) ∧ v.policy = .retire := by
    intro verdict hd
    rcases h.decided verdict hd with ⟨-, -, hdue⟩ | hpanic
    · cases hdue
    · exact hpanic
  unfold Mailbox.giveNotice
  cases hi : v.mailbox.inbox with
  | false =>
      have hout := h.ended_of_no_inbox hi
      refine ⟨⟨h.out, h.gone, h.owner, ?_, ?_, nofun,
        fun verdict hd => .inr (hdecided verdict hd), h.within⟩, nofun⟩
      · intro ho
        rw [show v.mailbox.isOpen = true from ho] at hc
        cases hc
      · intro hs
        have hs : v.mailbox.lifecycle = .stopping := hs
        rw [hout] at hs
        cases hs
  | true =>
      simp only [hnotice, Bool.not_true, Bool.false_eq_true, if_false]
      refine ⟨⟨h.out, ?_, h.owner, ?_, fun _ => .inr (.inl rfl), nofun,
        fun verdict hd => .inr (hdecided verdict hd), h.within⟩, nofun⟩
      · have hg := h.gone
        rw [hi] at hg
        exact hg
      · intro ho
        rw [show v.mailbox.isOpen = true from ho] at hc
        cases hc

/-- A request to stop in one piece. -/
theorem Sound.stop (h : Sound false v) (status : Int) : Sound false (v.stop status).2 := by
  have hbegin := (h.setStatus status).beginStop
  unfold Worker.stop Mailbox.stop
  cases hb : (v.mailbox.setStatus status).beginStop with
  | mk first box =>
      simp only [hb, Bool.false_or] at hbegin
      cases first with
      | false => exact hbegin
      | true => exact hbegin.giveNotice.1

/-- A thread that decides to end on a notice. -/
theorem Sound.heed (h : Sound due v) (hp : v.phase = .waiting) {box : Mailbox (Mail α)}
    (hn : v.mailbox.next = some (.noticed, box)) :
    Sound due ({ v with mailbox := box }.retire .noticed) := by
  obtain ⟨hc, rfl⟩ := h.of_next_noticed hn
  obtain ⟨-, rfl⟩ := Mailbox.next_eq_noticed hn
  have hgone : v.mailbox.inbox ≠ false := fun hi => by
    have := h.gone.1 hi
    rw [hp] at this
    cases this
  refine ⟨?_, ?_, h.owner, ?_, fun _ => .inr (.inr rfl), nofun, ?_,
    h.within⟩
  · have := h.lifecycle_ne_ended (by rw [hp]; rfl)
    simp [Worker.retire, Phase.isOut, this]
  · simp [Worker.retire, Phase.isGone, hgone]
  · intro ho
    rw [show v.mailbox.isOpen = true from ho] at hc
    cases hc
  · intro verdict hd
    cases hd
    exact .inl ⟨rfl, hc, rfl⟩

/-- A job that panics. -/
theorem Sound.panic (h : Sound due v) (hj : v.phase.inJob = true) (payload : Payload) :
    Sound due (v.panic payload) := by
  have hnone := verdict?_eq_none_of_inJob hj
  have hout : v.phase.isOut = false ∧ v.phase.isGone = false ∧ v.phase.isRetiring = false := by
    cases hp : v.phase <;> simp_all [Phase.inJob, Phase.isOut, Phase.isGone, Phase.isRetiring]
  unfold Worker.panic
  simp only
  split
  · rename_i hpolicy
    refine ⟨?_, ?_, h.owner, h.opened, fun _ => .inr (.inr rfl), h.unsent, ?_,
      h.within⟩
    · have := h.lifecycle_ne_ended hout.1
      simp [Worker.retire, Worker.report, Phase.isOut, this]
    · have := h.gone
      rw [hout.2.1] at this
      simpa [Worker.retire, Worker.report, Phase.isGone] using this
    · intro verdict hd
      cases hd
      exact .inr ⟨⟨_, rfl⟩, hpolicy⟩
  · exact h.of_verdict?_eq_none rfl hnone rfl

theorem Sound.advance (h : Sound due v) (ha : v.advance = some v') : Sound due v' := by
  cases advanced_of_advance ha with
  | @begins mail box hp hn =>
      obtain ⟨rest, hq, rfl⟩ : ∃ rest, v.mailbox.queue = mail :: rest ∧
          box = { v.mailbox with queue := rest } :=
        ⟨_, (Mailbox.next_eq_item hn).2.2.1, (Mailbox.next_eq_item hn).2.2.2⟩
      refine h.congr rfl rfl rfl rfl id ?_ ?_ ?_ ?_ ?_
      · rw [hp]
        rfl
      · rw [hp]
        rfl
      · rw [hp]
        intro hs
        cases hs
      · intro _ hd
        cases hd
      · intro n hn'
        have := h.within n hn'
        simp only [Mailbox.pending, hq, List.length_cons] at this
        simp only [begin, Mailbox.pending]
        omega
  | heeds hp hn => exact h.heed hp hn
  | despairs hp hn => exact absurd hn h.next_ne_deserted
  | finishes hp => exact h.of_verdict?_eq_none rfl (by rw [hp]; rfl) rfl
  | writes _ hp _ => exact h.of_verdict?_eq_none rfl (by rw [hp]; rfl) rfl
  | panics hp => exact h.panic (by rw [hp]; rfl) _
  | @marks verdict hp =>
      have hgone := h.gone
      have hdecided := h.decided
      rw [hp] at hgone hdecided
      refine ⟨⟨fun _ => rfl, fun _ => rfl⟩, hgone, h.owner, ?_, ?_, h.unsent,
        ?_, h.within⟩
      · intro ho
        cases ho
      · intro hs
        cases hs
      · intro verdict hd
        rcases hdecided verdict hd with ⟨hr, -, hdue⟩ | hpanic
        · exact .inl ⟨hr, rfl, hdue⟩
        · exact .inr hpanic
  | @goes verdict hp =>
      have hdecided := h.decided
      have hout : v.mailbox.lifecycle = .ended := h.out.2 (by rw [hp]; rfl)
      rw [hp] at hdecided
      refine ⟨⟨fun _ => rfl, fun _ => hout⟩, ⟨fun _ => rfl, fun _ => rfl⟩, h.owner, ?_,
        ?_, h.unsent, hdecided, ?_⟩
      · intro ho
        have ho : v.mailbox.isOpen = true := ho
        rw [Mailbox.isOpen, hout] at ho
        cases ho
      · intro hs
        have hs : v.mailbox.lifecycle = .stopping := hs
        rw [hout] at hs
        cases hs
      · intro n hn
        have hn : v.mailbox.capacity = some n := hn
        have := h.within n hn
        simpa [Mailbox.freeInbox, Mailbox.pending, hn] using this

/-- A job that gets on. -/
theorem Sound.goOn (h : Sound due v) {p : Phase α} (log : List (Entry α))
    (hv : v.phase.inJob = true) (hp : p.inJob = true) :
    Sound due { v with phase := p, log := log } :=
  h.of_verdict?_eq_none rfl (verdict?_eq_none_of_inJob hv) (verdict?_eq_none_of_inJob hp)

/-- Handles are copied or let go of, the owner's excepted. -/
theorem Sound.handles (h : Sound due v) {hs : List Bool}
    (hh : v.mailbox.holds 0 = true → hs.getD 0 false = true) :
    Sound due { v with mailbox := { v.mailbox with handles := hs } } :=
  h.congr rfl rfl rfl rfl hh rfl rfl id (fun _ hd => ⟨hd, rfl⟩) h.within

/-- The owner lets a closed worker go. -/
theorem Sound.abandon (h : Sound false v) (hc : v.mailbox.isOpen = false) :
    Sound false { v with
      owned := false, mailbox := (v.mailbox.dropHandle 0).dropCancelSender } := by
  refine ⟨h.out, h.gone, nofun, ?_, h.stopping, nofun, h.decided, h.within⟩
  intro ho
  rw [show v.mailbox.isOpen = true from ho] at hc
  cases hc

/-- **Every step keeps a worker sound.** -/
theorem Sound.step {ds : List (LoopEvent α)} (h : Sound false v) (hs : Step v ds v') :
    Sound false v' := by
  cases hs with
  | advance ha => exact h.advance ha
  | put mail => exact h.put mail
  | stop status => exact h.stop status
  | goOn log hv hd hp => exact h.goOn log hv hp
  | handles hh => exact h.handles hh
  | abandon hc => exact h.abandon hc
  | count | report | leave => exact h.of_phase_eq rfl rfl rfl

end Worker

/-- **Every worker is sound at all times.** -/
theorem Workshop.sound_of_run {moves : List (Move α)} {w : Workshop α}
    (h : run {} moves = some w) {k : Nat} {v : Worker α} (hv : w.workers[k]? = some v) :
    Worker.Sound false v :=
  worker_invariant (P := fun _ v => Worker.Sound false v) Worker.sound_hired
    (fun h hs => h.step hs) h hv

end SerialWorkers
