import SerialWorkers.Proofs.Workshop.Resting

/-!
# How a worker and its owner part

Whoever gives a worker up or lets it go has it stopped first, with status zero, unless
somebody has stopped it before.  In a workshop at rest that makes no difference: to request
the stop first, to let everything come to rest, and only then to part leads to the same
workshop.  While a stopped worker comes to rest nobody but its thread can go on, so there is
one rest only, whatever is said about order.

* `Workshop.ComesTo` — where a workshop left to itself can come to rest.
* `Workshop.OnlyBy` — nobody but one thread can go on; `OnlyBy.comesTo_iff` follows it.
* `Worker.Told`, `Worker.settled` — a worker told to stop where it rested, and what comes of it.
* `Workshop.comesTo_told` — there is no other rest.
-/

namespace SerialWorkers

open Workshop

variable {α : Type}

namespace Worker

variable {v x x₁ : Worker α} {mail : Mail α}

/-! ## A worker that is told to stop -/

/-- The thread stands at the same place, and there is the same room in the mailbox. -/
structure SamePlace (v x : Worker α) : Prop where
  /-- Where the thread stands. -/
  phase : x.phase = v.phase
  /-- Whether there is an inbox. -/
  inbox : x.mailbox.inbox = v.mailbox.inbox
  /-- The bound. -/
  capacity : x.mailbox.capacity = v.mailbox.capacity
  /-- What is queued. -/
  queue : x.mailbox.queue = v.mailbox.queue

theorem SamePlace.trans (h : SamePlace v x) (h' : SamePlace x x₁) : SamePlace v x₁ :=
  ⟨h'.phase.trans h.phase, h'.inbox.trans h.inbox, h'.capacity.trans h.capacity,
    h'.queue.trans h.queue⟩

/-- Whoever waits for room goes on waiting, unless the thread is at its wait. -/
theorem SamePlace.put_waits (h : SamePlace v x) (hp : v.phase ≠ .waiting)
    (hw : (v.put mail).1 = .waits) : (x.put mail).1 = .waits := by
  obtain ⟨hi, hf, -⟩ := put_waits_iff.1 hw
  refine put_waits_iff.2 ⟨h.inbox.trans hi, ?_, fun hpass => ?_⟩
  · rw [Mailbox.isFull, Mailbox.pending, h.capacity, h.queue]
    exact hf
  · have hidle := hpass.2
    unfold idle at hidle
    rw [h.phase] at hidle
    cases hv : v.phase <;> simp_all

/-- A job is passed to a thread that waits in vain, if there is no room for it. -/
theorem put_of_waiting (hp : v.phase = .waiting) (hn : v.mailbox.next = none) :
    (v.put mail).1 ≠ .waits := by
  intro hw
  obtain ⟨-, hf, hpass⟩ := put_waits_iff.1 hw
  refine hpass ⟨?_, by simp [idle, hp, hn]⟩
  simp only [Mailbox.isFull, Mailbox.pending, (Mailbox.next_eq_none_iff.1 hn).2.2.1] at hf
  split at hf
  · cases hf
  · rename_i n hc
    simp only [List.length_nil, Nat.le_zero, decide_eq_true_eq] at hf
    rw [hc, hf]

/-- A worker that was told to stop where it rested: its notice waits in the slot. -/
structure Told (v x : Worker α) : Prop extends SamePlace v x where
  /-- The notice. -/
  notice : x.mailbox.notice = true

/-- A worker whose thread was at its wait when a notice came, once it is gone. -/
def departed (v : Worker α) : Worker α :=
  { v with
    mailbox := ({ v.mailbox with notice := false }.markEnded).freeInbox
    phase := .ended ⟨.noticed, v.mailbox.outcome .noticed⟩
    events := v.events ++ v.mailbox.reasonEvents .noticed ++ [v.mailbox.exitEvent] }

/-- What comes of a worker that was told to stop: its thread heeds the notice if it is at its
wait, and otherwise stays where it is. -/
def settled (v : Worker α) : Worker α :=
  match v.phase with
  | .waiting => v.departed
  | _ => v

theorem settled_of_waiting (hp : v.phase = .waiting) : v.settled = v.departed := by
  rw [settled, hp]

theorem settled_of_ne_waiting (hp : v.phase ≠ .waiting) : v.settled = v := by
  unfold settled
  split
  · exact absurd ‹_› hp
  · rfl

theorem owned_settled (v : Worker α) : v.settled.owned = v.owned := by
  unfold settled
  split <;> rfl

theorem isOpen_settled (hc : v.mailbox.isOpen = false) : v.settled.mailbox.isOpen = false := by
  unfold settled
  split
  · rfl
  · exact hc

/-- Whoever stands at a gate stays there. -/
theorem held_settled (v : Worker α) : v.settled.held = v.held := by
  by_cases hp : v.phase = .waiting
  · rw [settled_of_waiting hp, held, held, hp]
    rfl
  · rw [settled_of_ne_waiting hp]

/-- The steps in which a thread goes that found a notice at its wait. -/
theorem advance_of_notice (hp : v.phase = .waiting) (hn : v.mailbox.notice = true) :
    ∃ heeding leaving, v.advance = some heeding ∧ heeding.advance = some leaving ∧
      leaving.advance = some v.departed ∧
      (∃ d, heeding.phase = .retiring d) ∧ ∃ d, leaving.phase = .leaving d := by
  have hnext : v.mailbox.next = some (.noticed, { v.mailbox with notice := false }) := by
    rw [Mailbox.next, hn]
    rfl
  refine ⟨{ v with mailbox := { v.mailbox with notice := false } }.retire .noticed, _, ?_, rfl, rfl,
    ⟨_, rfl⟩, _, rfl⟩
  simp only [advance, hp, hnext]

end Worker

namespace Workshop

variable {w w' w₁ y : Workshop α} {m : Move α} {k : Nat} {v x x₁ : Worker α}

/-! ## Coming to rest -/

/-- Left to itself the workshop can come to rest as `w'`. -/
def ComesTo (w w' : Workshop α) : Prop :=
  ∃ moves : List (Move α), (∀ m ∈ moves, m.Unasked) ∧ w.run moves = some w' ∧ w'.Still

theorem comesTo_settle (w : Workshop α) : w.ComesTo w.settle := by
  obtain ⟨moves, hmoves, hrun⟩ := run_settle w
  exact ⟨moves, hmoves, hrun, still_of_next? (next?_settle w)⟩

/-- At rest everything stays as it is. -/
theorem Still.comesTo_iff (h : w.Still) : w.ComesTo y ↔ y = w := by
  constructor
  · rintro ⟨moves, hm, hrun, -⟩
    cases moves with
    | nil =>
        cases hrun
        rfl
    | cons m moves =>
        rw [run_cons, h m (hm m List.mem_cons_self)] at hrun
        cases hrun
  · rintro rfl
    exact ⟨[], nofun, rfl, h⟩

/-- A thread at its wait waits in vain then. -/
theorem Still.next_eq_none (h : w.Still) (hv : w.workers[k]? = some v) (hp : v.phase = .waiting) :
    v.mailbox.next = none := by
  cases (work_eq_none_iff hv).1 (h _ (.work k)) with
  | idle _ hn => exact hn
  | held h =>
      rw [Worker.held, hp] at h
      cases h
  | sending hs | gone hs =>
      rw [hp] at hs
      cases hs

/-- Nobody but the thread of worker `k` can go on. -/
def OnlyBy (k : Nat) (w : Workshop α) : Prop :=
  ∀ m : Move α, m.Unasked → m = .work k ∨ w.move m = none

theorem OnlyBy.still (h : w.OnlyBy k) (hwork : w.work k = none) : w.Still := by
  intro m hm
  rcases h m hm with rfl | hnone
  · exact hwork
  · exact hnone

/-- **Where one thread alone can go on, everything comes to what its step comes to.** -/
theorem OnlyBy.comesTo_iff (h : w.OnlyBy k) (hwork : w.work k = some w₁) :
    w.ComesTo y ↔ w₁.ComesTo y := by
  constructor
  · rintro ⟨moves, hm, hrun, hstill⟩
    cases moves with
    | nil =>
        cases hrun
        have hnone := hstill _ (.work k)
        rw [move, hwork] at hnone
        cases hnone
    | cons m moves =>
        rw [run_cons] at hrun
        obtain ⟨u, hu, hrun⟩ := Option.bind_eq_some_iff.1 hrun
        rcases h m (hm m List.mem_cons_self) with rfl | hnone
        · rw [move, hwork] at hu
          cases hu
          exact ⟨moves, fun m' hm' => hm m' (List.mem_cons_of_mem _ hm'), hrun, hstill⟩
        · rw [hnone] at hu
          cases hu
  · rintro ⟨moves, hm, hrun, hstill⟩
    refine ⟨.work k :: moves, List.forall_mem_cons.2 ⟨.work k, hm⟩, ?_, hstill⟩
    rw [run_cons, move, hwork]
    exact hrun

/-! ## One worker changed in a workshop at rest -/

@[simp] theorem change_change (w : Workshop α) (k : Nat) (f g : Worker α → Worker α) :
    (w.change k f).change k g = w.change k (g ∘ f) := by
  simp only [change, List.modify_modify_eq]

/-- What is done to a worker that is known. -/
theorem change_eq_const (hv : w.workers[k]? = some v) (f : Worker α → Worker α) :
    w.change k f = w.change k fun _ => f v := by
  have hworkers : (w.change k f).workers = (w.change k fun _ => f v).workers := by
    refine List.ext_getElem? fun j => ?_
    rw [workers_change, workers_change]
    split
    · rename_i hj
      subst hj
      rw [hv]
      rfl
    · rfl
  simp only [change] at hworkers ⊢
  rw [hworkers]

/-- A step of a thread that concerns no other worker. -/
theorem work_of_advance (hv : w.workers[k]? = some v) (ha : v.advance = some x) :
    w.work k = some (w.change k fun _ => x) := by
  unfold work
  rw [hv]
  simp only
  split <;> rename_i hp
  · simp [Worker.advance, hp] at ha
  · simp [Worker.advance, hp] at ha
  · simp [Worker.advance, hp] at ha
  · simp [Worker.advance, hp] at ha
  · rw [ha]
    rfl

/-- A job that stands where it stood and could not insist on anything still cannot. -/
theorem insist_eq_none_of_phase (h : w.insist k = none)
    (hp : (w'.workers[k]?).map Worker.phase = (w.workers[k]?).map Worker.phase) :
    w'.insist k = none := by
  unfold insist at h ⊢
  rw [hp]
  split
  · rename_i hphase
    rw [hphase] at h
    cases h
  · rfl

/-- Reports from outside set nobody going. -/
theorem Still.report (hstill : w.Still) (e : Event) : (w.report .outside e).Still :=
  still_of_steps (fun k => work_eq_none_of_room (hstill _ (.work k)) rfl fun _ h => h)
    fun c => resume_eq_none_of_room (hstill _ (.resume c)) rfl fun _ h => h

/-- **In a workshop at rest, a change of one worker sets nobody else going**, if whoever waits
for room there goes on waiting. -/
theorem onlyBy_of_still (hstill : w.Still) (hroom : ∀ manner mail, w.NoRoom manner k mail →
      (w.change k fun _ => x).NoRoom manner k mail)
    (hinsist : (w.change k fun _ => x).insist k = none) : (w.change k fun _ => x).OnlyBy k := by
  have hother : ∀ {j}, k ≠ j → (w.change k fun _ => x).workers[j]? = w.workers[j]? := by
    intro j hj
    rw [workers_change, if_neg hj]
  have hnoroom : ∀ manner t mail, w.NoRoom manner t mail →
      (w.change k fun _ => x).NoRoom manner t mail := by
    intro manner t mail h
    by_cases ht : k = t
    · exact ht ▸ hroom manner mail (ht ▸ h)
    · intro u hu
      exact h u (hother ht ▸ hu)
  intro m hm
  cases hm with
  | work j =>
      by_cases hj : k = j
      · exact .inl (by rw [hj])
      · exact .inr (work_eq_none_of_room (hstill _ (.work j)) (hother hj) fun _ => hnoroom _ _ _)
  | insist j =>
      refine .inr ?_
      by_cases hj : k = j
      · exact hj ▸ hinsist
      · exact insist_eq_none_of_phase (hstill _ (.insist j)) (by rw [hother hj])
  | enter j =>
      refine .inr (enterFrom_eq_none_of_insist ?_)
      by_cases hj : k = j
      · exact hj ▸ hinsist
      · exact insist_eq_none_of_phase (hstill _ (.insist j)) (by rw [hother hj])
  | resume c =>
      exact .inr (resume_eq_none_of_room (hstill _ (.resume c)) rfl fun _ => hnoroom _ _ _)

/-- A change that leaves the thread where it was, elsewhere than at its wait, changes nothing
about the rest. -/
theorem still_of_samePlace (hstill : w.Still) (hv : w.workers[k]? = some v)
    (hx : Worker.SamePlace v x) (hp : v.phase ≠ .waiting) :
    (w.change k fun _ => x).Still := by
  have hxk : (w.change k fun _ => x).workers[k]? = some x := by
    rw [workers_change, if_pos rfl, hv]
    rfl
  have hroom : ∀ manner t mail, w.NoRoom manner t mail →
      (w.change k fun _ => x).NoRoom manner t mail := by
    intro manner t mail h u hu
    by_cases ht : k = t
    · subst ht
      rw [hxk] at hu
      cases hu
      obtain ⟨hwait, hpatient⟩ := Receipt.inManner_eq_waits_iff.1 (h v hv)
      exact Receipt.inManner_eq_waits_iff.2 ⟨hx.put_waits hp hwait, hpatient⟩
    · rw [workers_change, if_neg ht] at hu
      exact h u hu
  refine (onlyBy_of_still hstill (fun manner => hroom manner k) ?_).still ?_
  · refine insist_eq_none_of_phase (hstill _ (.insist k)) ?_
    rw [hxk, hv, Option.map_some, Option.map_some, hx.phase]
  · rw [work_eq_none_iff hxk]
    cases (work_eq_none_iff hv).1 (hstill _ (.work k)) with
    | held h => exact .held (by rwa [Worker.held, hx.phase])
    | idle hw => exact absurd hw hp
    | sending hs h => exact .sending (hx.phase.trans hs) (hroom _ _ _ h)
    | gone hg => exact .gone (hx.phase.trans hg)

/-- **What comes of a worker that was told to stop where it rested**, in whatever order
everybody goes on: its thread goes if it was at its wait, and nothing else happens. -/
theorem comesTo_told (hstill : w.Still) (hv : w.workers[k]? = some v) (hx : Worker.Told v x) :
    (w.change k fun _ => x).ComesTo y ↔ y = w.change k fun _ => x.settled := by
  have hk : ∀ x : Worker α, (w.change k fun _ => x).workers[k]? = some x := by
    intro x
    rw [workers_change, if_pos rfl, hv]
    rfl
  by_cases hp : v.phase = .waiting
  · have hxp := hx.phase.trans hp
    rw [Worker.settled_of_waiting hxp]
    -- nobody waits for room at a thread that waits, so nobody is set going
    have honly : ∀ x : Worker α, (∀ job, x.phase ≠ .running job) →
        (w.change k fun _ => x).OnlyBy k := by
      intro x hjob
      refine onlyBy_of_still hstill (fun manner mail h => ?_) ?_
      · exact absurd (Receipt.inManner_eq_waits_iff.1 (h v hv)).1
          (Worker.put_of_waiting hp (hstill.next_eq_none hv hp))
      unfold insist
      rw [hk]
      split
      · rename_i hphase
        exact absurd (Option.some.inj hphase) (hjob _)
      · rfl
    have hstep : ∀ {x x₁ : Worker α}, (∀ job, x.phase ≠ .running job) → x.advance = some x₁ →
        ((w.change k fun _ => x).ComesTo y ↔ (w.change k fun _ => x₁).ComesTo y) := by
      intro x x₁ hjob ha
      have hwork := work_of_advance (hk x) ha
      rw [change_change] at hwork
      exact (honly x hjob).comesTo_iff hwork
    obtain ⟨heeding, leaving, ha, ha₁, ha₂, ⟨d, hd⟩, d', hd'⟩ :=
      Worker.advance_of_notice hxp hx.notice
    rw [hstep (by rw [hxp]; nofun) ha, hstep (by rw [hd]; nofun) ha₁,
      hstep (by rw [hd']; nofun) ha₂]
    refine ((honly x.departed nofun).still ?_).comesTo_iff
    rw [work_eq_none_iff (hk _)]
    exact .gone rfl
  · rw [Worker.settled_of_ne_waiting fun h => hp (hx.phase.symm.trans h)]
    exact (still_of_samePlace hstill hv hx.toSamePlace hp).comesTo_iff

/-! ## An owner that goes -/

/-- The moves in which the owner of worker `k` goes, and what they do to the worker besides
having it stopped. -/
inductive Move.Parts (k : Nat) : Move α → (Worker α → Worker α) → Prop
  /-- It gives the worker up to wait for its end. -/
  | leave : Parts k (.leave k) fun v => { v with owned := false }
  /-- It lets the worker go. -/
  | abandon : Parts k (.abandon k) fun v =>
      { v with owned := false, mailbox := (v.mailbox.dropHandle 0).dropCancelSender }

namespace Move.Parts

variable {g : Worker α → Worker α}

theorem move_eq (hg : Move.Parts k m g) (ho : w.owns k = true) :
    w.move m = some ((w.stopUnlessStopped k).change k g) := by
  cases hg with
  | leave => simp only [move, Workshop.leave, ho, if_true]
  | abandon => simp only [move, Workshop.abandon, ho, if_true]

theorem exists_move (hg : Move.Parts k m g) (ho : w.owns k = true) : ∃ w', w.move m = some w' :=
  ⟨_, hg.move_eq ho⟩

/-- The owner of a worker that was stopped before just goes. -/
theorem move_of_not_isOpen (hg : Move.Parts k m g) (hv : w.workers[k]? = some v)
    (ho : v.owned = true) (hc : v.mailbox.isOpen = false) :
    w.move m = some (w.change k fun _ => g v) := by
  have hstop : w.stopUnlessStopped k = w := by simp [stopUnlessStopped, hv, hc]
  rw [hg.move_eq (by simp [owns, hv, ho]), hstop, change_eq_const hv]

theorem owns_of_move (hg : Move.Parts k m g) (h : w.move m = some w') : w.owns k = true := by
  cases ho : w.owns k with
  | true => rfl
  | false => cases hg <;> simp [move, Workshop.leave, Workshop.abandon, ho] at h

theorem isOpen (hg : Move.Parts k m g) (v : Worker α) :
    (g v).mailbox.isOpen = v.mailbox.isOpen := by
  cases hg <;> rfl

theorem samePlace (hg : Move.Parts k m g) (v : Worker α) : Worker.SamePlace v (g v) := by
  cases hg <;> exact ⟨rfl, rfl, rfl, rfl⟩

theorem notice (hg : Move.Parts k m g) (v : Worker α) :
    (g v).mailbox.notice = v.mailbox.notice := by
  cases hg <;> rfl

theorem view (hg : Move.Parts k m g) (v : Worker α) : (g v).view = v.view := by
  cases hg <;> rfl

theorem log (hg : Move.Parts k m g) (v : Worker α) : (g v).log = v.log := by
  cases hg <;> rfl

theorem events (hg : Move.Parts k m g) (v : Worker α) : (g v).events = v.events := by
  cases hg <;> rfl

/-- It is no matter whether the owner goes before the thread does. -/
theorem settled (hg : Move.Parts k m g) (v : Worker α) : (g v).settled = g v.settled := by
  by_cases hp : v.phase = .waiting
  · rw [Worker.settled_of_waiting hp, Worker.settled_of_waiting ((hg.samePlace v).phase.trans hp)]
    cases hg <;> rfl
  · rw [Worker.settled_of_ne_waiting hp,
      Worker.settled_of_ne_waiting fun h => hp ((hg.samePlace v).phase.symm.trans h)]

end Move.Parts

/-- What a request to stop does, by the owner of a worker that is open. -/
theorem stopBy_of_isOpen (hv : w.workers[k]? = some v) (hopen : v.mailbox.isOpen = true)
    (status : Int) : w.stopBy .outside k status
      = (w.report .outside (.stopRequested v.mailbox.identity status)).change k
        fun _ => (v.stop status).2 := by
  have hfirst : (v.stop status).1 = true := (Mailbox.fst_stop v.mailbox status).trans hopen
  simp only [stopBy, hv, hfirst, if_true]
  rw [change_eq_const hv]
  rfl

/-- Whoever is told to stop in service has its notice. -/
theorem told_stop (hs : Worker.Sound false v) (hopen : v.mailbox.isOpen = true) (status : Int) :
    Worker.Told v (v.stop status).2 := by
  simp only [Worker.stop, Mailbox.stop_of_isOpen hopen]
  exact ⟨⟨rfl, rfl, rfl, rfl⟩, by simp [hs.inbox_of_isOpen hopen]⟩

/-- The owner of worker `k` goes from workshop `w` in move `m`, which leaves it as `left` and
comes to rest as `rested`.  It could also have requested the worker to stop with status zero,
which leaves the workshop as `stopped` and comes to rest as `halted`, and gone then. -/
structure PartsAlike (w : Workshop α) (k : Nat) (m : Move α)
    (left stopped halted rested : Workshop α) : Prop where
  /-- The owner goes at once. -/
  leaves : w.move m = some left
  /-- There is one rest that this comes to. -/
  rests : ∀ y, left.ComesTo y ↔ y = rested
  /-- The worker is requested to stop. -/
  stops : w.move (.stop k 0) = some stopped
  /-- There is one rest that this comes to. -/
  halts : ∀ y, stopped.ComesTo y ↔ y = halted
  /-- Then the owner goes. -/
  parts : halted.move m = some rested
  /-- Meanwhile the worker is closed, and it stands at a gate if it did before. -/
  stays : ∃ v x, w.workers[k]? = some v ∧ halted.workers[k]? = some x ∧
    x.mailbox.isOpen = false ∧ x.held = v.held

/-- **To part is to stop, to come to rest, and to part then.**  That holds of a worker that is
open in a workshop at rest, whatever order everybody goes on in. -/
theorem partsAlike_of_isOpen (hstill : w.Still) (hv : w.workers[k]? = some v)
    (hs : Worker.Sound false v) (ho : v.owned = true) (hopen : v.mailbox.isOpen = true)
    {g : Worker α → Worker α} (hg : Move.Parts k m g) :
    ∃ left stopped halted rested, PartsAlike w k m left stopped halted rested := by
  have howns : w.owns k = true := by simp [owns, hv, ho]
  have hstop := stopBy_of_isOpen hv hopen 0
  have htold := told_stop hs hopen 0
  have hclosed : (v.stop 0).2.mailbox.isOpen = false := isOpen_stop v.mailbox 0
  have hxo : (v.stop 0).2.owned = true := ho
  generalize (v.stop 0).2 = x at hstop htold hclosed hxo
  have hstill₁ := hstill.report (.stopRequested v.mailbox.identity 0)
  have hv₁ : (w.report .outside (.stopRequested v.mailbox.identity 0)).workers[k]? = some v := hv
  generalize w.report .outside (.stopRequested v.mailbox.identity 0) = w₁ at hstop hstill₁ hv₁
  have htold' : Worker.Told v (g x) :=
    ⟨htold.toSamePlace.trans (hg.samePlace x), (hg.notice x).trans htold.notice⟩
  have hunless : w.stopUnlessStopped k = w₁.change k fun _ => x := by
    simp only [stopUnlessStopped, hv, hopen, if_true, hstop]
  have hhalted : (w₁.change k fun _ => x.settled).workers[k]? = some x.settled := by
    rw [workers_change, if_pos rfl, hv₁]
    rfl
  refine ⟨w₁.change k fun _ => g x, w₁.change k fun _ => x, w₁.change k fun _ => x.settled,
    w₁.change k fun _ => g x.settled, ?_, fun y => ?_, ?_, fun y => comesTo_told hstill₁ hv₁ htold,
    ?_, v, x.settled, hv, hhalted, Worker.isOpen_settled hclosed, ?_⟩
  · rw [hg.move_eq howns, hunless, change_change]
    rfl
  · rw [comesTo_told hstill₁ hv₁ htold', hg.settled]
  · simp only [move, stop, howns, if_true, hstop]
  · rw [hg.move_of_not_isOpen hhalted ((Worker.owned_settled x).trans hxo)
      (Worker.isOpen_settled hclosed), change_change]
    rfl
  · rw [Worker.held_settled, Worker.held, Worker.held, htold.phase]

/-- What can be seen of two workshops is the same: all workers as they stand, what their jobs
logged, and what each thread reported. -/
structure SeenAlike (w w' : Workshop α) : Prop where
  /-- The workers as they stand. -/
  views : w'.workers.map Worker.view = w.workers.map Worker.view
  /-- The logs. -/
  logs : w'.workers.map Worker.log = w.workers.map Worker.log
  /-- What the workers' threads reported. -/
  events : w'.workers.map Worker.events = w.workers.map Worker.events
  /-- What threads outside reported. -/
  outside : w'.outside = w.outside

/-- What is not changed of a worker is not changed in a workshop. -/
theorem map_workers_change {β : Type} {f : Worker α → β} (hv : w.workers[k]? = some v)
    (h : f x = f v) : (w.change k fun _ => x).workers.map f = w.workers.map f := by
  refine List.ext_getElem? fun j => ?_
  rw [List.getElem?_map, List.getElem?_map, workers_change]
  split
  · rename_i hj
    rw [← hj, hv]
    exact congrArg some h
  · rfl

/-- **To part from a worker that was stopped before is just that.**  There is nothing to be seen
of it. -/
theorem seenAlike_of_parts (hv : w.workers[k]? = some v) (hc : v.mailbox.isOpen = false)
    {g : Worker α → Worker α} (hg : Move.Parts k m g) (h : w.move m = some w') :
    SeenAlike w w' := by
  have ho : v.owned = true := by simpa [owns, hv] using hg.owns_of_move h
  rw [hg.move_of_not_isOpen hv ho hc] at h
  cases h
  exact ⟨map_workers_change hv (hg.view v), map_workers_change hv (hg.log v),
    map_workers_change hv (hg.events v), rfl⟩

/-- And in a workshop at rest nothing comes of it. -/
theorem still_of_parts (hstill : w.Still) (hv : w.workers[k]? = some v)
    (hs : Worker.Sound false v) (hc : v.mailbox.isOpen = false)
    {g : Worker α → Worker α} (hg : Move.Parts k m g) (h : w.move m = some w') : w'.Still := by
  have ho : v.owned = true := by simpa [owns, hv] using hg.owns_of_move h
  rw [hg.move_of_not_isOpen hv ho hc] at h
  cases h
  -- a thread at its wait would have found its notice
  have hp : v.phase ≠ .waiting := by
    intro hp
    have hn := hstill.next_eq_none hv hp
    rw [Mailbox.next, hs.notice_of_waiting hp hc] at hn
    cases hn
  exact still_of_samePlace hstill hv (hg.samePlace v) hp

end Workshop

end SerialWorkers
