import SerialWorkers.Proofs.Workshop.Standing

/-!
# Requests to stop, step by step

A request to stop is three things done one after the other: the status is
recorded, the mailbox is closed, and, if this request closed it, a notice is left
in the slot.  In a workshop they are one move.  Here they are taken apart, and any
number of requests, the senders and the worker's own thread do their steps in any
order.

* `Workshop.Scene` — one worker and the requests to stop it; `Scene.Goes` is what
  can happen next.
* `Scene.reaches_stop` — a request whose steps follow each other directly does
  what the worker's `stop` does.
* `Scene.Orderly` — the invariant: one request is the first, and its notice is
  due, or in the slot, or heeded.
* `Scene.stop_neither_lost_nor_doubled` — what follows, for all orders.
-/

namespace SerialWorkers

/-- How far along its life a mailbox is. -/
def Lifecycle.rank : Lifecycle → Nat
  | .running => 0
  | .stopping => 1
  | .ended => 2

namespace Mailbox

variable {ι : Type}

theorem lifecycle_giveNotice (m : Mailbox ι) : m.giveNotice.2.lifecycle = m.lifecycle := by
  unfold giveNotice
  split
  · rfl
  · split <;> rfl

/-- There is one notice more in the slot if one was left, and only then. -/
theorem notice_giveNotice (m : Mailbox ι) :
    m.giveNotice.2.notice.toNat = m.notice.toNat + (m.giveNotice.1 == .left).toNat := by
  unfold giveNotice
  split
  · rfl
  · split
    · rfl
    · rename_i hn
      rw [Bool.eq_false_iff.2 hn]
      rfl

end Mailbox

namespace Workshop

/-! ## Requests and scenes -/

/-- How far a request to stop has got. -/
inductive Stage where
  /-- Nothing is done yet. -/
  | called
  /-- The status is recorded. -/
  | recorded
  /-- The mailbox was closed by this request, and its notice is due. -/
  | first
  /-- All is done; if this was the first request, that is what became of its notice. -/
  | finished (notice : Option NoticeReceipt)
  deriving Repr, DecidableEq

/-- A request to stop. -/
structure StopRequest where
  /-- The status to be recorded. -/
  status : Int
  /-- How far it has got. -/
  stage : Stage
  deriving Repr, DecidableEq

namespace StopRequest

/-- Whether this request closed the mailbox. -/
def isFirst (r : StopRequest) : Bool :=
  match r.stage with
  | .first => true
  | .finished (some _) => true
  | _ => false

/-- Whether the notice of this request is due. -/
def isDue (r : StopRequest) : Bool := r.stage == .first

/-- Whether this request has left its notice in the slot. -/
def hasLeft (r : StopRequest) : Bool :=
  match r.stage with
  | .finished (some .left) => true
  | _ => false

/-- Whether this request is over. -/
def isFinished (r : StopRequest) : Bool :=
  match r.stage with
  | .finished _ => true
  | _ => false

theorem isFirst_of_isDue {r : StopRequest} (h : r.isDue = true) : r.isFirst = true := by
  simp only [isDue, beq_iff_eq] at h
  rw [isFirst, h]

theorem isFirst_of_hasLeft {r : StopRequest} (h : r.hasLeft = true) : r.isFirst = true := by
  unfold hasLeft at h
  split at h
  · rename_i hs
    rw [isFirst, hs]
  · cases h

theorem isDue_eq_false_of_isFinished {r : StopRequest} (h : r.isFinished = true) :
    r.isDue = false := by
  cases hs : r.stage <;> simp_all [isFinished, isDue]

end StopRequest

/-- One worker and all requests so far to stop it. -/
structure Scene (α : Type) where
  /-- The worker. -/
  worker : Worker α
  /-- The requests, in the order they were begun. -/
  requests : List StopRequest := []
  deriving Repr, DecidableEq

namespace Scene

variable {α : Type}

/-- A worker newly hired as `identity`, and nobody who wants it to stop. -/
def opening (settings : Settings) (identity : String) : Scene α :=
  { worker := Worker.hired settings identity }

/-- Request `i` gets to `stage`, and leaves the mailbox as `box`. -/
def reach (s : Scene α) (i : Nat) (r : StopRequest) (stage : Stage) (box : Mailbox (Mail α)) :
    Scene α where
  worker := { s.worker with mailbox := box }
  requests := s.requests.set i { r with stage := stage }

/-- The next step of request `i`. -/
def proceed (s : Scene α) (i : Nat) : Option (Scene α) :=
  match s.requests[i]? with
  | none => none
  | some r =>
      match r.stage with
      | .called => some (s.reach i r .recorded (s.worker.mailbox.setStatus r.status))
      | .recorded =>
          let begun := s.worker.mailbox.beginStop
          some (s.reach i r (if begun.1 then .first else .finished none) begun.2)
      | .first =>
          let given := s.worker.mailbox.giveNotice
          some (s.reach i r (.finished (some given.1)) given.2)
      | .finished _ => none

/-- Whether a notice is due. -/
def due (s : Scene α) : Bool := s.requests.any StopRequest.isDue

/-- Whether all requests so far are over. -/
def quiet (s : Scene α) : Bool := s.requests.all StopRequest.isFinished

/-- What can happen next.  A job under way that concerns others, that makes a
request or waits for one to be over, just gets on. -/
inductive Goes : Scene α → Scene α → Prop
  /-- Somebody begins a request to stop. -/
  | request {s : Scene α} (status : Int) (h : s.worker.owned = true) :
      Goes s { s with requests := s.requests ++ [⟨status, .called⟩] }
  /-- A request takes its next step. -/
  | proceed {s s' : Scene α} (i : Nat) (h : s.proceed i = some s') : Goes s s'
  /-- Somebody sends the worker a job. -/
  | send (s : Scene α) (sender : Sender) (job : Work α) :
      Goes s { s with worker := (s.worker.post sender job).2 }
  /-- A sender that found the mailbox open puts its job in. -/
  | handIn (s : Scene α) (mail : Mail α) : Goes s { s with worker := (s.worker.put mail).2 }
  /-- The worker's thread takes a step of its own. -/
  | work {s : Scene α} {v : Worker α} (h : s.worker.advance = some v) :
      Goes s { s with worker := v }
  /-- Its job gets on and is not over. -/
  | goOn {s : Scene α} {p : Phase α} (log : List (Entry α)) (hv : s.worker.phase.inJob = true)
      (hd : s.worker.loopEvent = none) (hp : p.inJob = true) :
      Goes s { s with worker := { s.worker with phase := p, log := log } }
  /-- Handles are copied or let go of, the owner's excepted. -/
  | handles {s : Scene α} {hs : List Bool}
      (h : s.worker.mailbox.holds 0 = true → hs.getD 0 false = true) :
      Goes s { s with
        worker := { s.worker with mailbox := { s.worker.mailbox with handles := hs } } }
  /-- The owner gives the worker up, after it was stopped; nobody else is in a request. -/
  | leave {s : Scene α} (hc : s.worker.mailbox.isOpen = false) (hq : s.quiet = true) :
      Goes s { s with worker := { s.worker with owned := false } }
  /-- The owner lets the worker go, after it was stopped; nobody else is in a request. -/
  | abandon {s : Scene α} (hc : s.worker.mailbox.isOpen = false) (hq : s.quiet = true) :
      Goes s { s with
        worker := { s.worker with
          owned := false, mailbox := (s.worker.mailbox.dropHandle 0).dropCancelSender } }

/-- What can come of a scene, in any number of steps. -/
inductive Reaches : Scene α → Scene α → Prop
  /-- Nothing happens. -/
  | refl (s : Scene α) : Reaches s s
  /-- One more step is taken. -/
  | tail {s s' s'' : Scene α} (first : Reaches s s') (last : Goes s' s'') : Reaches s s''

theorem Reaches.trans {s s' s'' : Scene α} (h : Reaches s s') (h' : Reaches s' s'') :
    Reaches s s'' := by
  induction h' with
  | refl => exact h
  | tail _ last ih => exact ih.tail last

/-- What every step keeps, holds of all that can come of a scene. -/
theorem Reaches.invariant {P : Scene α → Prop}
    (step : ∀ {s s' : Scene α}, P s → Goes s s' → P s') {s s' : Scene α} (hs : P s)
    (h : Reaches s s') : P s' := by
  induction h with
  | refl => exact hs
  | tail _ last ih => exact step ih last

/-! ## A request in one piece -/

/-- The stage in which a request ends, if nobody does anything in between. -/
def lastStage (m : Mailbox (Mail α)) : Stage :=
  .finished (if m.isOpen then some (m.beginStop.2.giveNotice.1) else none)

/-- **A request whose steps follow each other directly does what `stop` does.** -/
theorem reaches_stop {s : Scene α} {i : Nat} {r : StopRequest} (hr : s.requests[i]? = some r)
    (hc : r.stage = .called) :
    Reaches s ⟨(s.worker.stop r.status).2,
      s.requests.set i ⟨r.status, lastStage (s.worker.mailbox.setStatus r.status)⟩⟩ := by
  have hi : i < s.requests.length := (List.getElem?_eq_some_iff.1 hr).1
  have hrecord : s.proceed i =
      some (s.reach i r .recorded (s.worker.mailbox.setStatus r.status)) := by
    rw [proceed, hr]
    simp only [hc]
  apply (Reaches.refl s).tail (.proceed i hrecord) |>.trans
  generalize hs₁ : s.reach i r .recorded (s.worker.mailbox.setStatus r.status) = s₁
  have hr₁ : s₁.requests[i]? = some ⟨r.status, .recorded⟩ := by
    rw [← hs₁]
    simp [reach, hi]
  have hclose : s₁.proceed i = some (s₁.reach i ⟨r.status, .recorded⟩
      (if s₁.worker.mailbox.beginStop.1 then .first else .finished none)
      s₁.worker.mailbox.beginStop.2) := by
    rw [proceed, hr₁]
  apply (Reaches.refl s₁).tail (.proceed i hclose) |>.trans
  cases ho : (s.worker.mailbox.setStatus r.status).isOpen with
  | false =>
      have hbegin : (s.worker.mailbox.setStatus r.status).beginStop
          = (false, s.worker.mailbox.setStatus r.status) := by
        rw [Mailbox.beginStop, ho]
        rfl
      subst hs₁
      simp only [reach, hbegin, lastStage, ho, Worker.stop, Mailbox.stop, List.set_set]
      exact .refl _
  | true =>
      have hbegin : (s.worker.mailbox.setStatus r.status).beginStop
          = (true, { s.worker.mailbox.setStatus r.status with lifecycle := .stopping }) := by
        rw [Mailbox.beginStop, ho]
        rfl
      subst hs₁
      simp only [reach, hbegin, lastStage, ho, Worker.stop, Mailbox.stop, List.set_set, if_true]
      refine (Reaches.refl _).tail (.proceed i ?_)
      simp [proceed, reach, hi]

/-! ## The invariant -/

/-- How many requests closed the mailbox. -/
def firsts (s : Scene α) : Nat := s.requests.countP StopRequest.isFirst

/-- How many requests have left a notice. -/
def notices (s : Scene α) : Nat := s.requests.countP StopRequest.hasLeft

end Scene

end Workshop

open Workshop

variable {α : Type}

/-- Whether the worker's thread has seen the notice, and so decided to end. -/
def Worker.heeded (v : Worker α) : Bool :=
  match v.phase.verdict? with
  | some verdict => verdict.reason == .noticed
  | none => false

/-- The notices that are in a worker's hands: in the slot, or seen. -/
def Worker.noticesHeld (v : Worker α) : Nat := v.mailbox.notice.toNat + v.heeded.toNat

namespace Workshop.Scene

/-- What requests, mailbox and thread have to do with each other at all times. -/
structure Orderly (s : Scene α) : Prop where
  /-- The thread and the mailbox go together. -/
  sound : Worker.Sound s.due s.worker
  /-- At most one request is the first. -/
  once : s.firsts ≤ 1
  /-- No request has closed an open mailbox. -/
  opened : s.worker.mailbox.isOpen = true → s.firsts = 0
  /-- No request found the slot taken. -/
  free : ∀ r ∈ s.requests, r.stage ≠ .finished (some .slotTaken)
  /-- Every notice that was left is in the slot, or was seen. -/
  kept : s.notices = s.worker.noticesHeld

theorem orderly_opening (settings : Settings) (identity : String) :
    Orderly (opening settings identity : Scene α) where
  sound := Worker.sound_hired settings identity
  once := Nat.zero_le _
  opened _ := rfl
  free := nofun
  kept := rfl

variable {s s' : Scene α}

/-! ### Counting requests -/

/-- What replacing one request does to a count. -/
theorem countP_set_add {l : List StopRequest} {i : Nat} {r : StopRequest} (h : l[i]? = some r)
    (p : StopRequest → Bool) (r' : StopRequest) :
    (l.set i r').countP p + (p r).toNat = l.countP p + (p r').toNat := by
  obtain ⟨hi, hr⟩ := List.getElem?_eq_some_iff.1 h
  have hle : (p r).toNat ≤ l.countP p := by
    cases hp : p r with
    | false => exact Nat.zero_le _
    | true => exact List.countP_pos_iff.2 ⟨r, List.mem_of_getElem? h, hp⟩
  rw [List.countP_set hi, hr]
  cases hp : p r <;> cases hp' : p r' <;>
    simp only [hp, Bool.toNat_true, Bool.toNat_false, if_true, Bool.false_eq_true, if_false]
      at hle ⊢ <;> omega

theorem due_eq_true_iff (s : Scene α) :
    s.due = true ↔ 0 < s.requests.countP StopRequest.isDue := by
  simp [due]

/-- A due notice is that of a first request. -/
theorem countP_isDue_le (s : Scene α) : s.requests.countP StopRequest.isDue ≤ s.firsts :=
  List.countP_mono_left fun _ _ => StopRequest.isFirst_of_isDue

theorem due_eq_false_of_quiet (h : s.quiet = true) : s.due = false := by
  rw [due, List.any_eq_false]
  intro r hr
  rw [StopRequest.isDue_eq_false_of_isFinished (List.all_eq_true.1 h r hr)]
  exact Bool.false_ne_true

/-! ### Every step keeps it -/

/-- What concerns the worker alone and neither opens the mailbox nor touches the
notice. -/
theorem Orderly.of_requests_eq (h : Orderly s) {v : Worker α} (hsound : Worker.Sound s.due v)
    (hopen : v.mailbox.isOpen = true → s.worker.mailbox.isOpen = true)
    (hheld : v.noticesHeld = s.worker.noticesHeld) : Orderly { s with worker := v } where
  sound := hsound
  once := h.once
  opened ho := h.opened (hopen ho)
  free := h.free
  kept := h.kept.trans hheld.symm

/-- A new request has done nothing yet. -/
theorem Orderly.request (h : Orderly s) (status : Int) :
    Orderly { s with requests := s.requests ++ [⟨status, .called⟩] } where
  sound := by
    have hdue : due { s with requests := s.requests ++ [⟨status, .called⟩] } = s.due := by
      simp [due, StopRequest.isDue]
    rw [hdue]
    exact h.sound
  once := by simpa [firsts, StopRequest.isFirst] using h.once
  opened ho := by simpa [firsts, StopRequest.isFirst] using h.opened ho
  free r hr := by
    rcases List.mem_append.1 hr with hr | hr
    · exact h.free r hr
    · rw [List.mem_singleton] at hr
      subst hr
      exact nofun
  kept := by simpa [notices, StopRequest.hasLeft] using h.kept

/-- A request that gets to a stage: its new share in the counts, and what it did to
the mailbox, must be as the invariant has it. -/
theorem Orderly.reach (h : Orderly s) {i : Nat} {r : StopRequest} {stage : Stage}
    {box : Mailbox (Mail α)} (hr : s.requests[i]? = some r)
    (hsound : Worker.Sound (s.reach i r stage box).due { s.worker with mailbox := box })
    (honce : (s.reach i r stage box).firsts ≤ 1)
    (hopen : box.isOpen = true → (s.reach i r stage box).firsts = 0)
    (hfree : stage ≠ .finished (some .slotTaken))
    (hkept : box.notice.toNat + r.hasLeft.toNat
      = s.worker.mailbox.notice.toNat + (StopRequest.hasLeft { r with stage := stage }).toNat) :
    Orderly (s.reach i r stage box) where
  sound := hsound
  once := honce
  opened := hopen
  free r' hr' := by
    rcases List.mem_or_eq_of_mem_set hr' with hr' | rfl
    · exact h.free r' hr'
    · exact hfree
  kept := by
    have hcount := countP_set_add hr StopRequest.hasLeft { r with stage := stage }
    have hold := h.kept
    simp only [notices, Scene.reach, Worker.noticesHeld, Worker.heeded] at hold ⊢
    omega

theorem firsts_reach {i : Nat} {r : StopRequest} (hr : s.requests[i]? = some r) (stage : Stage)
    (box : Mailbox (Mail α)) : (s.reach i r stage box).firsts + r.isFirst.toNat
      = s.firsts + (StopRequest.isFirst { r with stage := stage }).toNat :=
  countP_set_add hr _ _

theorem dues_reach {i : Nat} {r : StopRequest} (hr : s.requests[i]? = some r) (stage : Stage)
    (box : Mailbox (Mail α)) :
    (s.reach i r stage box).requests.countP StopRequest.isDue + r.isDue.toNat
      = s.requests.countP StopRequest.isDue + (StopRequest.isDue { r with stage := stage }).toNat :=
  countP_set_add hr _ _

/-- A step of a request that is not the first, before or after it. -/
theorem Orderly.reach_of_isFirst_eq_false (h : Orderly s) {i : Nat} {r : StopRequest}
    {stage : Stage} {box : Mailbox (Mail α)} (hr : s.requests[i]? = some r)
    (hf : r.isFirst = false) (hf' : StopRequest.isFirst { r with stage := stage } = false)
    (hsound : Worker.Sound s.due { s.worker with mailbox := box })
    (hopen : box.isOpen = true → s.worker.mailbox.isOpen = true)
    (hnotice : box.notice = s.worker.mailbox.notice) : Orderly (s.reach i r stage box) := by
  have no_first : ∀ {p : StopRequest → Bool}, (∀ {r}, p r = true → r.isFirst = true) →
      p r = false ∧ p { r with stage := stage } = false := by
    intro p hp
    exact ⟨Bool.eq_false_iff.2 fun h => by simp [hp h] at hf,
      Bool.eq_false_iff.2 fun h => by simp [hp h] at hf'⟩
  obtain ⟨hd, hd'⟩ := no_first StopRequest.isFirst_of_isDue
  obtain ⟨hl, hl'⟩ := no_first StopRequest.isFirst_of_hasLeft
  have hfirsts := firsts_reach hr stage box
  rw [hf, hf', Bool.toNat_false, Nat.add_zero, Nat.add_zero] at hfirsts
  have hdue : (s.reach i r stage box).due = s.due := by
    have hdues := dues_reach hr stage box
    rw [hd, hd', Bool.toNat_false, Nat.add_zero, Nat.add_zero] at hdues
    rw [Bool.eq_iff_iff, due_eq_true_iff, due_eq_true_iff, hdues]
  refine h.reach hr ?_ ?_ ?_ ?_ ?_
  · rw [hdue]
    exact hsound
  · rw [hfirsts]
    exact h.once
  · intro ho
    rw [hfirsts]
    exact h.opened (hopen ho)
  · rintro rfl
    cases hf'
  · rw [hl, hl', hnotice]

/-- The request that closes the mailbox: it is the first, and from now on its notice
is due. -/
theorem Orderly.reach_first (h : Orderly s) {i : Nat} {status : Int}
    (hr : s.requests[i]? = some ⟨status, .recorded⟩) (ho : s.worker.mailbox.isOpen = true) :
    Orderly (s.reach i ⟨status, .recorded⟩ .first
      { s.worker.mailbox with lifecycle := .stopping }) := by
  have hsound := h.sound.beginStop
  rw [Mailbox.beginStop, ho] at hsound
  simp only [if_true, Bool.or_true] at hsound
  have hfirsts := firsts_reach hr .first { s.worker.mailbox with lifecycle := .stopping }
  simp only [StopRequest.isFirst, Bool.toNat_false, Bool.toNat_true, Nat.add_zero,
    h.opened ho, Nat.zero_add] at hfirsts
  have hdues := dues_reach hr .first { s.worker.mailbox with lifecycle := .stopping }
  change _ + 0 = _ + 1 at hdues
  refine h.reach hr ?_ (Nat.le_of_eq hfirsts) nofun nofun rfl
  rw [(due_eq_true_iff _).2]
  · exact hsound
  · simp only [Scene.reach] at hdues ⊢
    omega

/-- The first request leaves its notice: nobody else's is due, and the slot is free. -/
theorem Orderly.reach_finished (h : Orderly s) {i : Nat} {status : Int}
    (hr : s.requests[i]? = some ⟨status, .first⟩) :
    Orderly (s.reach i ⟨status, .first⟩ (.finished (some s.worker.mailbox.giveNotice.1))
      s.worker.mailbox.giveNotice.2) := by
  have hdue : s.due = true := List.any_eq_true.2 ⟨_, List.mem_of_getElem? hr, rfl⟩
  have hsound := h.sound
  rw [hdue] at hsound
  obtain ⟨hgiven, hfree⟩ := hsound.giveNotice
  have hfirsts := firsts_reach hr (.finished (some s.worker.mailbox.giveNotice.1))
    s.worker.mailbox.giveNotice.2
  simp only [StopRequest.isFirst, Nat.add_right_cancel_iff] at hfirsts
  have hnotdue : (s.reach i ⟨status, .first⟩ (.finished (some s.worker.mailbox.giveNotice.1))
      s.worker.mailbox.giveNotice.2).due = false := by
    have hdues := dues_reach hr (.finished (some s.worker.mailbox.giveNotice.1))
      s.worker.mailbox.giveNotice.2
    change _ + 1 = _ + 0 at hdues
    have hle := countP_isDue_le s
    have honce := h.once
    rw [Bool.eq_false_iff, ne_eq, due_eq_true_iff]
    omega
  refine h.reach hr ?_ ?_ ?_ ?_ ?_
  · rw [hnotdue]
    exact hgiven
  · rw [hfirsts]
    exact h.once
  · intro ho
    rw [hfirsts]
    apply h.opened
    rwa [Mailbox.isOpen, Mailbox.lifecycle_giveNotice] at ho
  · intro hs
    apply hfree
    simpa only [Stage.finished.injEq, Option.some.injEq] using hs
  · rw [Mailbox.notice_giveNotice]
    cases s.worker.mailbox.giveNotice.1 <;> rfl

/-- **No step of a request breaks the order.** -/
theorem Orderly.proceed (h : Orderly s) {i : Nat} (hp : s.proceed i = some s') : Orderly s' := by
  unfold Scene.proceed at hp
  cases hr : s.requests[i]? with
  | none =>
      rw [hr] at hp
      cases hp
  | some r =>
      obtain ⟨status, stage⟩ := r
      rw [hr] at hp
      cases stage with
      | called =>
          cases hp
          exact h.reach_of_isFirst_eq_false hr rfl rfl (h.sound.setStatus status) id rfl
      | recorded =>
          cases hp
          cases ho : s.worker.mailbox.isOpen with
          | false =>
              -- somebody else was first
              have hbegin : s.worker.mailbox.beginStop = (false, s.worker.mailbox) := by
                rw [Mailbox.beginStop, ho]
                rfl
              rw [hbegin]
              exact h.reach_of_isFirst_eq_false hr rfl rfl h.sound id rfl
          | true =>
              have hbegin : s.worker.mailbox.beginStop
                  = (true, { s.worker.mailbox with lifecycle := .stopping }) := by
                rw [Mailbox.beginStop, ho]
                rfl
              rw [hbegin]
              exact h.reach_first hr ho
      | first =>
          cases hp
          exact h.reach_finished hr
      | finished notice => cases hp

/-- A mailbox and a thread that keep the notice as it is. -/
theorem noticesHeld_eq {v v' : Worker α} (hn : v'.mailbox.notice = v.mailbox.notice)
    (hp : v'.phase.verdict? = v.phase.verdict?) : v'.noticesHeld = v.noticesHeld := by
  rw [Worker.noticesHeld, Worker.noticesHeld, Worker.heeded, Worker.heeded, hn, hp]

theorem noticesHeld_put (v : Worker α) (mail : Mail α) :
    (v.put mail).2.noticesHeld = v.noticesHeld := by
  have hh := Worker.handed_put v mail
  generalize v.put mail = put at hh ⊢
  cases hh with
  | passed hi hc hw hn => exact noticesHeld_eq rfl (by rw [hw]; rfl)
  | refused | queued | waits => rfl

/-- The thread takes a notice out of the slot when it heeds it, and at no other time. -/
theorem noticesHeld_advance {due : Bool} {v v' : Worker α} (h : Worker.Sound due v)
    (ha : v.advance = some v') : v'.noticesHeld = v.noticesHeld := by
  cases Worker.advanced_of_advance ha with
  | begins hp hn =>
      have hbox := (Mailbox.next_eq_item hn).2.2.2
      exact noticesHeld_eq (congrArg Mailbox.notice hbox :) (by rw [hp]; rfl)
  | heeds hp hn =>
      obtain ⟨hc, rfl⟩ := h.of_next_noticed hn
      obtain ⟨-, rfl⟩ := Mailbox.next_eq_noticed hn
      have hnotice := h.notice_of_waiting hp hc
      simp [Worker.noticesHeld, Worker.heeded, Worker.retire, hp, hnotice, Phase.verdict?]
  | despairs hp hn => exact absurd hn h.next_ne_deserted
  | finishes hp | writes _ hp _ => exact noticesHeld_eq rfl (by rw [hp]; rfl)
  | panics hp =>
      unfold Worker.panic
      split
      · simp [Worker.noticesHeld, Worker.heeded, Worker.retire, Worker.report, hp, Phase.verdict?]
      · exact noticesHeld_eq rfl (by rw [hp]; rfl)
  | marks hp | goes hp => exact noticesHeld_eq rfl (by rw [hp]; rfl)

theorem lifecycle_put (v : Worker α) (mail : Mail α) :
    (v.put mail).2.mailbox.lifecycle = v.mailbox.lifecycle := by
  have hh := Worker.handed_put v mail
  generalize v.put mail = put at hh ⊢
  cases hh <;> rfl

/-- A thread's own step leaves the stage of life alone, or is the mark that ends it. -/
theorem lifecycle_advance {v v' : Worker α} (ha : v.advance = some v') :
    v'.mailbox.lifecycle = v.mailbox.lifecycle ∨ v'.mailbox.lifecycle = .ended := by
  cases Worker.advanced_of_advance ha with
  | begins hp hn => exact .inl (congrArg Mailbox.lifecycle (Mailbox.next_eq_item hn).2.2.2 :)
  | heeds hp hn => exact .inl (congrArg Mailbox.lifecycle (Mailbox.next_eq_noticed hn).2 :)
  | despairs hp hn =>
      exact .inl (congrArg Mailbox.lifecycle (Mailbox.next_eq_deserted hn).2.2.2.2 :)
  | panics hp =>
      unfold Worker.panic
      split <;> exact .inl rfl
  | finishes | writes | goes => exact .inl rfl
  | marks => exact .inr rfl

theorem isOpen_of_lifecycle {m m' : Mailbox (Mail α)} (h : m'.lifecycle = m.lifecycle)
    (ho : m'.isOpen = true) : m.isOpen = true := by
  rwa [Mailbox.isOpen, h] at ho

/-- **Every step keeps the order.** -/
theorem Orderly.goes (h : Orderly s) (hg : Goes s s') : Orderly s' := by
  cases hg with
  | request status => exact h.request status
  | proceed i hp => exact h.proceed hp
  | handIn mail =>
      exact h.of_requests_eq (h.sound.put mail) (isOpen_of_lifecycle (lifecycle_put _ mail))
        (noticesHeld_put _ mail)
  | send sender job =>
      have hcount : Orderly { s with worker := s.worker.counted } :=
        h.of_requests_eq (h.sound.of_phase_eq rfl rfl rfl) id rfl
      unfold Worker.post
      split
      · exact hcount.of_requests_eq (hcount.sound.put _)
          (isOpen_of_lifecycle (lifecycle_put _ _)) (noticesHeld_put _ _)
      · exact hcount
  | work ha =>
      refine h.of_requests_eq (h.sound.advance ha) ?_ (noticesHeld_advance h.sound ha)
      intro ho
      rcases lifecycle_advance ha with hl | hl
      · exact isOpen_of_lifecycle hl ho
      · rw [Mailbox.isOpen, hl] at ho
        cases ho
  | @goOn p log hv hd hp =>
      refine h.of_requests_eq (h.sound.goOn log hv hp) id (noticesHeld_eq rfl ?_)
      rw [Worker.verdict?_eq_none_of_inJob hv]
      exact Worker.verdict?_eq_none_of_inJob hp
  | handles hh => exact h.of_requests_eq (h.sound.handles hh) id rfl
  | leave hc hq => exact h.of_requests_eq (h.sound.of_phase_eq rfl rfl rfl) id rfl
  | abandon hc hq =>
      have hsound := h.sound
      rw [due_eq_false_of_quiet hq] at hsound
      refine h.of_requests_eq ?_ id rfl
      rw [due_eq_false_of_quiet hq]
      exact hsound.abandon hc

/-- **The order is there at all times.** -/
theorem orderly_of_reaches {settings : Settings} {identity : String}
    (h : (opening settings identity).Reaches s) : Orderly s :=
  h.invariant (fun h hg => h.goes hg) (orderly_opening settings identity)

/-! ## Neither lost nor doubled -/

/-- A mailbox only goes forward in its life. -/
theorem Goes.rank_le (hg : Goes s s') :
    s.worker.mailbox.lifecycle.rank ≤ s'.worker.mailbox.lifecycle.rank := by
  cases hg with
  | request | goOn | handles | leave | abandon => exact Nat.le_refl _
  | proceed i hp =>
      unfold Scene.proceed at hp
      split at hp
      · cases hp
      · split at hp <;> cases hp
        · exact Nat.le_refl _
        · simp only [reach, Mailbox.beginStop]
          split
          · rename_i ho
            simp only [Mailbox.isOpen, beq_iff_eq] at ho
            rw [ho]
            exact Nat.zero_le _
          · exact Nat.le_refl _
        · simp only [reach, Mailbox.lifecycle_giveNotice]
          exact Nat.le_refl _
  | handIn mail => exact Nat.le_of_eq (by rw [lifecycle_put])
  | send sender job =>
      unfold Worker.post
      split
      · exact Nat.le_of_eq (congrArg Lifecycle.rank (lifecycle_put s.worker.counted _).symm)
      · exact Nat.le_refl _
  | work ha =>
      rcases lifecycle_advance ha with hl | hl
      · exact Nat.le_of_eq (by rw [hl])
      · rw [hl]
        cases s.worker.mailbox.lifecycle <;> decide

theorem Reaches.rank_le (h : Reaches s s') :
    s.worker.mailbox.lifecycle.rank ≤ s'.worker.mailbox.lifecycle.rank := by
  induction h with
  | refl => exact Nat.le_refl _
  | tail _ last ih => exact Nat.le_trans ih last.rank_le

/-- Handing in a job does not make a thread start it that has decided to end. -/
theorem decided_put {v : Worker α} {verdict : Verdict} (hd : v.phase.verdict? = some verdict)
    (mail : Mail α) :
    (v.put mail).2.phase.verdict? = some verdict ∧ (v.put mail).2.started = v.started := by
  have hh := Worker.handed_put v mail
  generalize v.put mail = put at hh ⊢
  cases hh with
  | passed hi hc hw hn =>
      rw [hw] at hd
      cases hd
  | refused | queued | waits => exact ⟨hd, rfl⟩

/-- A thread that has decided to end starts no job any more. -/
theorem decided_advance {v v' : Worker α} {verdict : Verdict}
    (hd : v.phase.verdict? = some verdict) (ha : v.advance = some v') :
    v'.phase.verdict? = some verdict ∧ v'.started = v.started := by
  cases Worker.advanced_of_advance ha with
  | begins hp | heeds hp | despairs hp | finishes hp | writes _ hp | panics hp =>
      rw [hp] at hd
      cases hd
  | marks hp | goes hp =>
      rw [hp] at hd
      exact ⟨hd, rfl⟩

theorem Goes.decided (hg : Goes s s') {verdict : Verdict}
    (hd : s.worker.phase.verdict? = some verdict) :
    s'.worker.phase.verdict? = some verdict ∧ s'.worker.started = s.worker.started := by
  cases hg with
  | request | handles | leave | abandon => exact ⟨hd, rfl⟩
  | proceed i hp =>
      unfold Scene.proceed at hp
      split at hp
      · cases hp
      · split at hp <;> cases hp <;> exact ⟨hd, rfl⟩
  | handIn mail => exact decided_put hd mail
  | send sender job =>
      unfold Worker.post
      split
      · exact decided_put (v := s.worker.counted) hd _
      · exact ⟨hd, rfl⟩
  | work ha => exact decided_advance hd ha
  | goOn log hv =>
      rw [Worker.verdict?_eq_none_of_inJob hv] at hd
      cases hd

/-- **A decision to end is final**: no job is started after it. -/
theorem Reaches.decided (h : Reaches s s') {verdict : Verdict}
    (hd : s.worker.phase.verdict? = some verdict) :
    s'.worker.phase.verdict? = some verdict ∧ s'.worker.started = s.worker.started :=
  h.invariant (P := fun x => x.worker.phase.verdict? = some verdict ∧
    x.worker.started = s.worker.started)
    (fun hx hg => ⟨(hg.decided hx.1).1, (hg.decided hx.1).2.trans hx.2⟩) ⟨hd, rfl⟩

/-- A thread that is about to end marks its mailbox next. -/
theorem advance_of_retiring {v : Worker α} {verdict : Verdict} (h : v.phase = .retiring verdict) :
    v.advance = some { v with
      mailbox := v.mailbox.markEnded
      events := v.events ++ [v.mailbox.exitEvent]
      phase := .leaving verdict } := by
  rw [Worker.advance.eq_def, h]

/-- No stop is lost, and none counts twice. -/
structure NeitherLostNorDoubled (s : Scene α) : Prop where
  /-- At most one request closed the mailbox. -/
  once : s.firsts ≤ 1
  /-- At most one notice was ever left. -/
  single : s.notices ≤ 1
  /-- No notice found the slot taken. -/
  free : ∀ r ∈ s.requests, r.stage ≠ .finished (some .slotTaken)
  /-- Every notice that was left is in the slot, or the thread has seen it. -/
  kept : s.notices = s.worker.noticesHeld
  /-- If the mailbox is closed, not yet marked as ended, and nobody is in a request,
  then the one notice is in the slot, or the thread has seen it and is about to mark
  the mailbox, or a panic makes it do so. -/
  stopping : s.worker.mailbox.lifecycle = .stopping → s.quiet = true →
    (s.worker.mailbox.notice = true ∧ s.notices = 1) ∨
    (∃ verdict, s.worker.phase = .retiring verdict ∧ verdict.reason = .noticed ∧
      s.worker.mailbox.notice = false ∧ s.notices = 1) ∨
    ∃ verdict message, s.worker.phase = .retiring verdict ∧
      verdict.reason = .panicked message ∧ s.worker.policy = .retire
  /-- A closed worker that stands at its wait is woken, once nobody is in a request. -/
  woken : s.worker.phase = .waiting → s.worker.mailbox.isOpen = false → s.quiet = true →
    s.worker.mailbox.notice = true ∧
      s.worker.mailbox.next = some (.noticed, { s.worker.mailbox with notice := false })

theorem Orderly.notices_le (h : Orderly s) : s.notices ≤ 1 :=
  Nat.le_trans (List.countP_mono_left fun _ _ => StopRequest.isFirst_of_hasLeft) h.once

/-- The three ways a stop is on its way, when nobody is in a request. -/
theorem Orderly.stopping (h : Orderly s) (hl : s.worker.mailbox.lifecycle = .stopping)
    (hq : s.quiet = true) :
    (s.worker.mailbox.notice = true ∧ s.notices = 1) ∨
    (∃ verdict, s.worker.phase = .retiring verdict ∧ verdict.reason = .noticed ∧
      s.worker.mailbox.notice = false ∧ s.notices = 1) ∨
    ∃ verdict message, s.worker.phase = .retiring verdict ∧
      verdict.reason = .panicked message ∧ s.worker.policy = .retire := by
  have hle := h.notices_le
  have hkept := h.kept
  rw [Worker.noticesHeld] at hkept
  cases hn : s.worker.mailbox.notice with
  | true =>
      rw [hn, Bool.toNat_true] at hkept
      exact .inl ⟨rfl, by omega⟩
  | false =>
      have hret : s.worker.phase.isRetiring = true := by
        rcases h.sound.stopping hl with hdue | hnotice | hret
        · rw [due_eq_false_of_quiet hq] at hdue
          cases hdue
        · rw [hn] at hnotice
          cases hnotice
        · exact hret
      cases hp : s.worker.phase with
      | retiring verdict =>
          rcases h.sound.decided verdict (by rw [hp]; rfl) with ⟨hr, -, -⟩ | ⟨⟨message, hr⟩, hpol⟩
          · refine .inr (.inl ⟨verdict, rfl, hr, rfl, ?_⟩)
            rw [hkept, hn, Worker.heeded, hp]
            simp [Phase.verdict?, hr]
          · exact .inr (.inr ⟨verdict, message, rfl, hr, hpol⟩)
      | _ =>
          rw [hp] at hret
          cases hret

/-- **A stop is neither lost nor doubled**, in whatever order the steps of requests,
senders and the worker's thread are done.  The mailbox only goes forward in its life,
and a thread that has decided to end marks it next and starts no job any more. -/
theorem stop_neither_lost_nor_doubled {settings : Settings} {identity : String}
    (h : (opening settings identity).Reaches s) (h' : s.Reaches s') :
    NeitherLostNorDoubled s ∧
    s.worker.mailbox.lifecycle.rank ≤ s'.worker.mailbox.lifecycle.rank ∧
    ∀ verdict, s.worker.phase = .retiring verdict →
      (∃ v, s.worker.advance = some v ∧ v.mailbox.lifecycle = .ended ∧
        v.started = s.worker.started) ∧
      s'.worker.phase.verdict? = some verdict ∧ s'.worker.started = s.worker.started := by
  have horder := orderly_of_reaches h
  refine ⟨⟨horder.once, horder.notices_le, horder.free, horder.kept, horder.stopping,
    ?_⟩, h'.rank_le, fun verdict hp => ⟨?_, ?_⟩⟩
  · intro hp hc hq
    have hsound := horder.sound
    rw [due_eq_false_of_quiet hq] at hsound
    exact ⟨hsound.notice_of_waiting hp hc, hsound.next_of_waiting hp hc⟩
  · exact ⟨_, advance_of_retiring hp, rfl, rfl⟩
  · exact h'.decided (by rw [hp]; rfl)

/-- Two requests, of which the second overtook the first and closed the mailbox: its
notice is due, and the other one finds nothing left to do. -/
def overtaken : Scene Nat where
  worker := { (Worker.hired {} "pot" : Worker Nat) with
    mailbox := { identity := "pot", status := 5, lifecycle := .stopping } }
  requests := [⟨3, .finished none⟩, ⟨5, .first⟩]

theorem stop_neither_lost_nor_doubled_overtaken :
    ∃ s' : Scene Nat, (opening {} "pot").Reaches overtaken ∧ overtaken.Reaches s' ∧
      s'.worker.phase.isRetiring = true ∧ NeitherLostNorDoubled overtaken ∧
      overtaken.worker.mailbox.lifecycle.rank ≤ s'.worker.mailbox.lifecycle.rank := by
  have hbegin : (opening {} "pot").Reaches overtaken :=
    (((((((Reaches.refl _).tail (.request 3 rfl)).tail (.request 5 rfl)).tail
      (.proceed 0 rfl)).tail (.proceed 1 rfl)).tail (.proceed 1 rfl)).tail (.proceed 0 rfl))
  have hend := ((Reaches.refl overtaken).tail (.proceed 1 rfl)).tail (.work rfl)
  have hboth := stop_neither_lost_nor_doubled hbegin hend
  exact ⟨_, hbegin, hend, rfl, hboth.1, hboth.2.1⟩

end Workshop.Scene

end SerialWorkers
