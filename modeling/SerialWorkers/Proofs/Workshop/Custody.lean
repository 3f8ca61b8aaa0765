import SerialWorkers.Proofs.Workshop.Steps

/-!
# What a worker has in its custody

Every job a worker accepted is accounted for at all times: it was started, or it
is queued, or it was left behind when the thread went.  And the jobs it started
are those that ended, and the one it is in.

* `Worker.handed_put`, `Worker.advanced_of_advance` — what handing in a job and a
  thread's own step can come to.
* `Worker.Custody` — the account; `custody_of_run` says that it is always true.
-/

namespace SerialWorkers

open Workshop

variable {α : Type}

namespace Mailbox

variable {ι : Type}

/-! ## A stop, in one piece -/

theorem stop_of_isOpen {m : Mailbox ι} (h : m.isOpen = true) (status : Int) :
    m.stop status = (true, { m with
      status := status, lifecycle := .stopping, notice := m.notice || m.inbox }) := by
  have h' : (m.setStatus status).isOpen = true := h
  unfold stop beginStop
  rw [if_pos h']
  cases hi : m.inbox <;> cases hn : m.notice <;> simp [giveNotice, setStatus, hi, hn]

theorem stop_of_not_isOpen {m : Mailbox ι} (h : m.isOpen = false) (status : Int) :
    m.stop status = (false, { m with status := status }) := by
  have h' : ¬ (m.setStatus status).isOpen = true := by
    rw [show (m.setStatus status).isOpen = m.isOpen from rfl, h]
    simp
  unfold stop beginStop
  rw [if_neg h']
  rfl

@[simp] theorem inbox_stop (m : Mailbox ι) (status : Int) :
    (m.stop status).2.inbox = m.inbox := by
  cases h : m.isOpen with
  | true => rw [stop_of_isOpen h]
  | false => rw [stop_of_not_isOpen h]

theorem capacity_stop (m : Mailbox ι) (status : Int) :
    (m.stop status).2.capacity = m.capacity := by
  cases h : m.isOpen with
  | true => rw [stop_of_isOpen h]
  | false => rw [stop_of_not_isOpen h]

theorem status_stop (m : Mailbox ι) (status : Int) : (m.stop status).2.status = status := by
  cases h : m.isOpen with
  | true => rw [stop_of_isOpen h]
  | false => rw [stop_of_not_isOpen h]

theorem lifecycle_stop (m : Mailbox ι) (status : Int) : (m.stop status).2.lifecycle
    = if m.isOpen = true then .stopping else m.lifecycle := by
  cases h : m.isOpen with
  | true => rw [stop_of_isOpen h]; rfl
  | false => rw [stop_of_not_isOpen h]; rfl

/-- Whether a stop is the first one. -/
theorem fst_stop (m : Mailbox ι) (status : Int) : (m.stop status).1 = m.isOpen := by
  cases h : m.isOpen with
  | true => rw [stop_of_isOpen h]
  | false => rw [stop_of_not_isOpen h]

end Mailbox

namespace Worker

/-! ## Handing in a job -/

/-- What handing in a job can come to. -/
inductive Handed (v : Worker α) (mail : Mail α) : Receipt × Worker α → Prop
  /-- There is no inbox. -/
  | refused (hi : v.mailbox.inbox = false) : Handed v mail (.refused .closed, v)
  /-- There is room. -/
  | queued (hi : v.mailbox.inbox = true) (hf : v.mailbox.isFull = false) :
      Handed v mail
        (.accepted, { v with accepted := v.accepted ++ [mail], mailbox := v.mailbox.push mail })
  /-- There is never any room, and the thread waits for a job to be passed to it. -/
  | passed (hi : v.mailbox.inbox = true) (hc : v.mailbox.capacity = some 0)
      (hw : v.phase = .waiting) (hn : v.mailbox.next = none) :
      Handed v mail (.accepted, { v with accepted := v.accepted ++ [mail] }.begin mail)
  /-- There is no room. -/
  | waits (hi : v.mailbox.inbox = true) (hf : v.mailbox.isFull = true) :
      Handed v mail (.waits, v)

theorem handed_put (v : Worker α) (mail : Mail α) : Handed v mail (v.put mail) := by
  unfold put
  split
  · rename_i hi
    exact .refused (by simpa using hi)
  · rename_i hi
    have hi : v.mailbox.inbox = true := by simpa using hi
    simp only
    split
    · rename_i hf
      exact .queued hi (by simpa using hf)
    · rename_i hf
      split
      · rename_i hc
        obtain ⟨hc, hidle⟩ := hc
        unfold idle at hidle
        simp only [Bool.and_eq_true, Option.isNone_iff_eq_none] at hidle
        have hw : v.phase = .waiting := by
          cases hv : v.phase <;> simp_all
        exact .passed hi hc hw hidle.2
      · exact .waits hi (by simpa using hf)

/-! ## A thread's own step -/

/-- What a thread's own step can come to. -/
inductive Advanced (v : Worker α) : Worker α → Prop
  /-- It takes up the next job. -/
  | begins {mail : Mail α} {box : Mailbox (Mail α)} (hp : v.phase = .waiting)
      (hn : v.mailbox.next = some (.item mail, box)) :
      Advanced v ({ v with mailbox := box }.begin mail)
  /-- It sees a notice to stop. -/
  | heeds {box : Mailbox (Mail α)} (hp : v.phase = .waiting)
      (hn : v.mailbox.next = some (.noticed, box)) :
      Advanced v ({ v with mailbox := box }.retire .noticed)
  /-- It sees that nobody is left to send a job. -/
  | despairs {box : Mailbox (Mail α)} (hp : v.phase = .waiting)
      (hn : v.mailbox.next = some (.deserted, box)) :
      Advanced v ({ v with mailbox := box }.retire .deserted)
  /-- Its job is done. -/
  | finishes (hp : v.phase = .running .done) : Advanced v { v with phase := .waiting }
  /-- Its job writes an entry and goes on. -/
  | writes {job rest : Work α} (e : Entry α) (hp : v.phase = .running job)
      (hd : v.loopEvent = none) (hr : job.rest? = some rest) : Advanced v ((v.write e).resume rest)
  /-- Its job panics. -/
  | panics {payload : Payload} {rest : Work α}
      (hp : v.phase = .running (.act (.panic payload) rest)) : Advanced v (v.panic payload)
  /-- It marks its mailbox as ended. -/
  | marks {verdict : Verdict} (hp : v.phase = .retiring verdict) :
      Advanced v { v with
        mailbox := v.mailbox.markEnded
        events := v.events ++ [v.mailbox.exitEvent]
        phase := .leaving verdict }
  /-- It frees its inbox and goes. -/
  | goes {verdict : Verdict} (hp : v.phase = .leaving verdict) :
      Advanced v { v with mailbox := v.mailbox.freeInbox, phase := .ended verdict }

theorem advanced_of_advance {v v' : Worker α} (h : v.advance = some v') : Advanced v v' := by
  unfold advance at h
  split at h <;> rename_i hp
  · split at h <;> cases h <;> rename_i hn
    · exact .begins hp hn
    · exact .heeds hp hn
    · exact .despairs hp hn
  · cases h
    exact .finishes hp
  · cases h
    exact .writes _ hp (by rw [loopEvent, hp]) rfl
  · cases h
    exact .writes _ hp (by rw [loopEvent, hp]) rfl
  · cases h
    exact .panics hp
  · cases h
  · cases h
  · cases h
  · cases h
  · cases h
  · cases h
    exact .marks hp
  · cases h
    exact .goes hp
  · cases h

/-! ## The account -/

/-- The account of a worker's jobs, after `ds` was told of its thread. -/
structure Custody (ds : List (LoopEvent α)) (v : Worker α) : Prop where
  /-- While there is an inbox, what was accepted was started or is queued. -/
  kept : v.mailbox.inbox = true →
    v.accepted = v.started ++ v.mailbox.queue ∧ ds.flatMap LoopEvent.leftBehind = []
  /-- Afterwards, what was accepted was started or left behind. -/
  left : v.mailbox.inbox = false → v.accepted = v.started ++ ds.flatMap LoopEvent.leftBehind
  /-- The thread is gone when there is no inbox. -/
  gone : v.mailbox.inbox = false → ∃ verdict, v.phase = .ended verdict
  /-- What was started has ended, but for the job the thread is in. -/
  serial : v.started.length
    = ds.countP LoopEvent.endsJob + if v.phase.inJob = true then 1 else 0

theorem custody_hired (settings : Settings) (identity : String) :
    Custody [] (hired settings identity : Worker α) where
  kept _ := ⟨rfl, rfl⟩
  left h := by cases h
  gone h := by cases h
  serial := rfl

variable {ds : List (LoopEvent α)} {v v' : Worker α}

/-- A thread that still has a step to take has its inbox. -/
theorem Custody.inbox_of_advance (h : Custody ds v) (ha : v.advance = some v') :
    v.mailbox.inbox = true := by
  cases hi : v.mailbox.inbox with
  | true => rfl
  | false =>
      obtain ⟨verdict, hp⟩ := h.gone hi
      rw [advance, hp] at ha
      cases ha

/-- What the account comes to while there is an inbox. -/
theorem custody_of_inbox (hi : v.mailbox.inbox = true)
    (hq : v.accepted = v.started ++ v.mailbox.queue) (hl : ds.flatMap LoopEvent.leftBehind = [])
    (hs : v.started.length = ds.countP LoopEvent.endsJob + if v.phase.inJob = true then 1 else 0) :
    Custody ds v where
  kept _ := ⟨hq, hl⟩
  left hn := by
    rw [hi] at hn
    cases hn
  gone hn := by
    rw [hi] at hn
    cases hn
  serial := hs

/-- The account is not touched by what leaves the jobs and the inbox alone, and a
thread in the same job or in none. -/
theorem Custody.congr (h : Custody ds v) (hi : v'.mailbox.inbox = v.mailbox.inbox)
    (hq : v'.mailbox.queue = v.mailbox.queue) (ha : v'.accepted = v.accepted)
    (hs : v'.started = v.started) (hj : v'.phase.inJob = v.phase.inJob)
    (hp : v.mailbox.inbox = false → v'.phase = v.phase) : Custody ds v' where
  kept h' := by
    rw [ha, hs, hq]
    exact h.kept (hi ▸ h')
  left h' := by
    rw [ha, hs]
    exact h.left (hi ▸ h')
  gone h' := by
    rw [hi] at h'
    rw [hp h']
    exact h.gone h'
  serial := by
    rw [hs, hj]
    exact h.serial

theorem Custody.put (h : Custody ds v) (mail : Mail α) : Custody ds (v.put mail).2 := by
  have hh := handed_put v mail
  generalize v.put mail = put at hh ⊢
  cases hh with
  | refused hi => exact h
  | queued hi hf =>
      obtain ⟨hq, hl⟩ := h.kept hi
      refine custody_of_inbox hi ?_ hl h.serial
      simp only [Mailbox.push, hq, List.append_assoc]
  | passed hi hc hw hn =>
      -- the waiting thread has an empty queue, so the job passed to it is the next one
      have hempty : v.mailbox.queue = [] := (Mailbox.next_eq_none_iff.1 hn).2.2.1
      obtain ⟨hq, hl⟩ := h.kept hi
      have hs := h.serial
      refine custody_of_inbox hi ?_ hl ?_
      · simp only [begin, hq, hempty, List.append_nil]
      · simp only [hw, Phase.inJob] at hs
        simp only [begin, Phase.inJob, List.length_append, List.length_singleton, hs]
        simp
  | waits hi hf => exact h

/-- A thread that decides to end at its wait leaves the jobs where they are. -/
theorem Custody.retire (h : Custody ds v) (hi : v.mailbox.inbox = true)
    (hp : v.phase = .waiting) {box : Mailbox (Mail α)} (hib : box.inbox = v.mailbox.inbox)
    (hqb : box.queue = v.mailbox.queue) (reason : Reason) :
    Custody ds ({ v with mailbox := box }.retire reason) := by
  refine h.congr hib hqb rfl rfl ?_ ?_
  · rw [hp]
    rfl
  · intro hn
    rw [hi] at hn
    cases hn

/-- A thread's own step, told as it is. -/
theorem Custody.advance (h : Custody ds v) (ha : v.advance = some v') :
    Custody (ds ++ v.loopEvent.toList) v' := by
  have hi := h.inbox_of_advance ha
  obtain ⟨hq, hl⟩ := h.kept hi
  have hs := h.serial
  cases advanced_of_advance ha with
  | @begins mail box hp hn =>
      obtain ⟨-, -, hqueue, hbox⟩ := Mailbox.next_eq_item hn
      have hib : box.inbox = true := by rw [hbox]; exact hi
      rw [loopEvent, hp]
      refine custody_of_inbox hib ?_ (by simpa using hl) ?_
      · simp only [begin, hq, hqueue, List.append_assoc, List.singleton_append]
      · simp only [hp, Phase.inJob] at hs
        simp only [begin, Phase.inJob, List.length_append, List.length_singleton, hs]
        simp
  | @heeds box hp hn =>
      have hbox := (Mailbox.next_eq_noticed hn).2
      have hib : box.inbox = v.mailbox.inbox := by rw [hbox]
      have hqb : box.queue = v.mailbox.queue := by rw [hbox]
      simpa [loopEvent, hp] using h.retire hi hp hib hqb .noticed
  | @despairs box hp hn =>
      have hbox := (Mailbox.next_eq_deserted hn).2.2.2.2
      have hib : box.inbox = v.mailbox.inbox := by rw [hbox]
      have hqb : box.queue = v.mailbox.queue := by rw [hbox]
      simpa [loopEvent, hp] using h.retire hi hp hib hqb .deserted
  | finishes hp =>
      rw [loopEvent, hp]
      refine custody_of_inbox hi hq ?_ ?_
      · simpa [LoopEvent.leftBehind] using hl
      · simpa [hp, Phase.inJob, LoopEvent.endsJob] using hs
  | writes e hp hd =>
      rw [hd]
      refine custody_of_inbox hi hq (by simpa using hl) ?_
      simpa [hp, Phase.inJob, resume, write] using hs
  | panics hp =>
      rw [loopEvent, hp]
      refine custody_of_inbox ?_ ?_ (by simpa [LoopEvent.leftBehind] using hl) ?_
      · unfold Worker.panic
        split <;> exact hi
      · unfold Worker.panic
        split <;> exact hq
      · unfold Worker.panic
        split <;> simpa [hp, Phase.inJob, LoopEvent.endsJob, Worker.retire, report] using hs
  | marks hp =>
      rw [loopEvent, hp]
      refine custody_of_inbox hi hq (by simpa using hl) ?_
      simpa [hp, Phase.inJob] using hs
  | goes hp =>
      rw [loopEvent, hp]
      refine ⟨?_, ?_, fun _ => ⟨_, rfl⟩, ?_⟩
      · intro hn
        cases hn
      · intro _
        simp only [Option.toList_some, List.flatMap_append, hl, List.nil_append, List.flatMap_cons,
          LoopEvent.leftBehind, List.flatMap_nil, List.append_nil]
        exact hq
      · simpa [hp, Phase.inJob, LoopEvent.endsJob] using hs

/-- **Every step keeps the account.** -/
theorem Custody.step {es : List (LoopEvent α)} (h : Custody ds v) (hs : Step v es v') :
    Custody (ds ++ es) v' := by
  cases hs with
  | advance ha => exact h.advance ha
  | put mail => simpa using h.put mail
  | stop status =>
      rw [List.append_nil]
      exact h.congr (Mailbox.inbox_stop _ _) (Mailbox.queue_stop _ _) rfl rfl rfl fun _ => rfl
  | goOn log hv hd hp =>
      rw [List.append_nil]
      refine h.congr rfl rfl rfl rfl (by rw [hv, hp]) ?_
      intro hn
      obtain ⟨verdict, hg⟩ := h.gone hn
      rw [hg] at hv
      cases hv
  | count | report | handles | leave | abandon =>
      rw [List.append_nil]
      exact h.congr rfl rfl rfl rfl rfl fun _ => rfl

end Worker

/-- **The account is true of every worker at all times.** -/
theorem Workshop.custody_of_run {moves : List (Move α)} {w : Workshop α}
    (h : run {} moves = some w) {k : Nat} {v : Worker α} (hv : w.workers[k]? = some v) :
    Worker.Custody (trace (loopEvents k) {} moves) v :=
  worker_invariant (P := fun ds v => Worker.Custody ds v) Worker.custody_hired
    (fun h hs => h.step hs) h hv

end SerialWorkers
