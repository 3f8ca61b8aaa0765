import SerialWorkers.Proofs.Isolation.Swaps

/-!
# Isolated workers

A worker is isolated in a run if no job sent to another worker names it, and no job sent to
it names another.  All else goes on without it, and it goes on without all else: commands
to others can be left out, and two commands to two isolated workers can come in either
order.

* `Session.Isolated` — a worker is isolated in a run.
* `Session.Sight`, `Session.sight` — what there is to be seen of a worker.
* `Session.isolated_apart` — commands left out, and commands in another order.
-/

namespace SerialWorkers

open Workshop

namespace Session

variable {α : Type} {s s' p q : Session α} {σ : Numbers} {π π' : Portion} {j k : Nat}
  {cs first last : List (Command α)} {a b c : Command α}

/-! ## What is seen of a worker -/

/-- What there is to be seen of a worker. -/
structure Sight (α : Type) where
  /-- Its stage of life, the status last recorded and how many jobs are queued. -/
  view : View
  /-- Whether it stands at a gate. -/
  held : Bool
  /-- How it ended, if it has. -/
  verdict : Option Verdict
  /-- What its jobs wrote. -/
  log : List (Entry α)
  /-- What its thread reported. -/
  events : List Event
  deriving Repr, DecidableEq

/-- What there is to be seen of worker `k`, if there is one. -/
def sight (s : Session α) (k : Nat) : Option (Sight α) :=
  (s.shop.workers[k]?).map fun v => ⟨v.view, v.held, v.verdict, v.log, v.events⟩

/-- A worker of a portion is the same sight there. -/
theorem Portion.Part.sight (h : π.Part s p) (hk : π.worker k = true) :
    p.sight (π.numbers.worker k) = s.sight k := by
  have hworker : p.shop.workers[π.numbers.worker k]?
      = (s.shop.workers[k]?).map (Worker.rename π.renaming) := h.shop.worker (.inl hk)
  unfold Session.sight
  rw [hworker, Option.map_map]
  refine congrArg (fun f => Option.map f _) (funext fun v => ?_)
  simp only [Function.comp_apply, Worker.view_rename, Worker.held_rename, Worker.verdict_rename]
  rfl

/-- **Every worker is the same sight** in two sessions of the same parts. -/
theorem Portion.Twin.sight (hT : Portion.Twin σ π π' s s' p q)
    (hR : Portion.Renumbers σ π π') (k : Nat) : s'.sight (σ.worker k) = s.sight k := by
  have hkept : ∀ {π π' : Portion} {p : Session α}, Portion.Renumbers σ π π' → π.Part s p →
      π'.Part s' p → π.worker k = true → s'.sight (σ.worker k) = s.sight k := by
    intro π π' p hR h h' hk
    rw [← h.sight hk, ← h'.sight ((hR.side k).trans hk)]
    exact congrArg p.sight (hR.rank hk)
  cases hk : π.worker k with
  | true => exact hkept hR hT.halves.own hT.halves'.own hk
  | false =>
      exact hkept hR.others hT.halves.others hT.halves'.others
        (by simp [Portion.others, Share.rest, hk])

/-! ## Isolation -/

/-- Worker `k` is isolated in a run: no job sent to another worker names it, and no job sent
to it names another that is ever there. -/
def Isolated (k : Nat) (cs : List (Command α)) : Prop :=
  ∀ turn ∈ ({} : Session α).transcript cs, ∀ t ∈ turn.target,
    ∀ job ∈ turn.command.jobs, ∀ u ∈ names t job,
      u < (({} : Session α).after cs).shop.workers.length → (t = k ↔ u = k)

instance (k : Nat) (cs : List (Command α)) : Decidable (Isolated k cs) :=
  inferInstanceAs (Decidable (∀ turn ∈ ({} : Session α).transcript cs, ∀ t ∈ turn.target,
    ∀ job ∈ turn.command.jobs, ∀ u ∈ names t job,
      u < (({} : Session α).after cs).shop.workers.length → (t = k ↔ u = k)))

/-- The border round an isolated worker is never crossed. -/
theorem Isolated.separates (h : Isolated k cs) (hside : π.worker = fun i => i == k)
    (hcount : π.count = (({} : Session α).after cs).shop.workers.length) :
    π.Separates (({} : Session α).transcript cs) := by
  intro turn hturn t ht job hjob
  have hnamed : ∀ u ∈ t :: names t job, u < π.count → (t = k ↔ u = k) := by
    intro u hu hlt
    rcases List.mem_cons.1 hu with rfl | hu
    · exact Iff.rfl
    · exact h turn hturn t ht job hjob u hu (hcount ▸ hlt)
  intro u hu v hv hult hvlt
  rw [hside, Bool.eq_iff_iff, beq_iff_eq, beq_iff_eq, ← hnamed u hu hult, ← hnamed v hv hvlt]

/-! ## Commands left out -/

/-- Whether a command is addressed to nobody but worker `k`. -/
def Turn.spares (k : Nat) (turn : Turn α) : Bool := turn.target.all (· == k)

/-- The new numbers where all that is handed out to others than worker `k` is left out. -/
def Numbers.alone (k : Nat) (cs : List (Command α)) : Numbers :=
  (Portion.ofRun (· == k) cs).numbers

/-- A run without the commands to others than worker `k`, under new numbers. -/
def alone (k : Nat) (cs : List (Command α)) : List (Command α) :=
  ((({} : Session α).transcript cs).filter (Turn.spares k)).map fun turn =>
    turn.command.rename (Numbers.alone k cs)

/-- **Without the commands to others** all that an isolated worker is told stays the same,
and so does all there is to be seen of it. -/
theorem Isolated.alone (h : Isolated k cs) :
    ({} : Session α).transcript (alone k cs)
        = ((({} : Session α).transcript cs).filter (Turn.spares k)).map
          (Turn.rename (Numbers.alone k cs)) ∧
      (({} : Session α).after (Session.alone k cs)).sight ((Numbers.alone k cs).worker k)
        = (({} : Session α).after cs).sight k := by
  have hkept : ∀ turn : Turn α, ∀ t, turn.target = some t →
      (Portion.ofRun (· == k) cs).worker t = Turn.spares k turn := by
    intro turn t ht
    rw [Turn.spares, ht]
    rfl
  obtain ⟨htranscript, hpart, -⟩ := (Portion.part_empty _).run (Portion.apart_empty _)
    resting_empty resting_empty (Portion.marks_ofRun (· == k) cs) (h.separates rfl rfl) hkept
  exact ⟨htranscript, hpart.sight (beq_self_eq_true k)⟩

/-! ## Commands in another order -/

theorem hires_rename (σ : Numbers) (c : Command α) : (c.rename σ).hires = c.hires := by
  cases c <;> rfl

/-- As many are hired in another order. -/
theorem length_workers_exchange (σ : Numbers) (first last : List (Command α)) (a b : Command α) :
    (({} : Session α).after (first ++ b :: a :: last.map (Command.rename σ))).shop.workers.length
      = (({} : Session α).after (first ++ a :: b :: last)).shop.workers.length := by
  have hsame : (Command.hires ∘ Command.rename σ : Command α → Bool) = Command.hires :=
    funext (hires_rename σ)
  rw [length_workers_after resting_empty, length_workers_after resting_empty]
  simp only [List.countP_append, List.countP_cons, List.countP_map, hsame]
  omega

/-- A run in another order: `b` before `a`, and what comes after them under new numbers. -/
def swapped (first : List (Command α)) (a b : Command α) (last : List (Command α)) :
    List (Command α) :=
  first ++ b :: a ::
    last.map (Command.rename (Numbers.exchange (({} : Session α).after first) a b))

section Exchange

variable (hI : Isolated k (first ++ a :: b :: last)) (hI' : Isolated j (first ++ a :: b :: last))
  (hk : (({} : Session α).after first).target a = some k)
  (hj : ((({} : Session α).after first).perform a).2.target b = some j) (hne : j ≠ k)

include hI hI' hk hj

/-- What a run begins with names no number that changes if two commands to isolated workers
come the other way round. -/
theorem Isolated.fixes_names {turn : Turn α} (hturn : turn ∈ ({} : Session α).transcript first)
    {t : Nat} (ht : turn.target = some t) {job : Work α} (hjob : job ∈ turn.command.jobs)
    {u : Nat} (hu : u ∈ names t job) :
    (Numbers.exchange (({} : Session α).after first) a b).worker u = u := by
  have hr : (({} : Session α).after first).Resting := resting_empty.after first
  have hmem : turn ∈ ({} : Session α).transcript (first ++ a :: b :: last) := by
    rw [transcript_append]
    exact List.mem_append_left _ hturn
  have hlt := placed_empty.target_lt_after resting_empty hturn ht
  have hlast := (grown_after ((hr.perform a).perform b) last).workers
  -- A job sent so far is not to a worker that comes later, so it does not name one if that
  -- one is isolated.
  have hnot : ∀ {i : Nat}, Isolated i (first ++ a :: b :: last) →
      (({} : Session α).after first).shop.workers.length ≤ i →
      i < (({} : Session α).after (first ++ a :: b :: last)).shop.workers.length → u ≠ i := by
    intro i hi hge hlt' heq
    have hiff := hi turn hmem t ht job hjob u hu (heq ▸ hlt')
    rw [hiff.2 heq] at hlt
    exact Nat.lt_irrefl _ (Nat.lt_of_lt_of_le hlt hge)
  rw [after_append] at hnot
  have hlength := length_workers_perform hr a
  have hlength' := length_workers_perform (hr.perform a) b
  have ha := Bool.toNat_le a.hires
  have hb := Bool.toNat_le b.hires
  refine exchanged_eq_self_of_ne (by omega) (by omega) (by omega) (by omega) fun hma hab => ?_
  have hfirst := (dealt_perform hk).news.workers (Nat.le_refl _) hma
  have hsecond := (dealt_perform hj).news.workers (Nat.le_refl _) hab
  have hkept : u ≠ k := by
    refine hnot hI (Nat.le_of_eq hfirst) ?_
    rw [← hfirst]
    exact Nat.lt_of_lt_of_le hma (Nat.le_trans (Nat.le_of_lt hab) hlast)
  have hkept' : u ≠ j := by
    refine hnot hI' ?_ ?_
    · rw [← hsecond]
      exact Nat.le_of_lt hma
    · rw [← hsecond]
      exact Nat.lt_of_lt_of_le hab hlast
  rw [← hfirst] at hkept
  rw [← hsecond] at hkept'
  exact ⟨hkept, hkept'⟩

include hne

/-- **Commands to two isolated workers in the other order**: all commands are answered the
same, and every worker is the same sight, under the new numbers. -/
theorem Isolated.exchange :
    let s := ({} : Session α).after first
    let s₁ := (s.perform a).2
    let s₂ := (s₁.perform b).2
    let σ := Numbers.exchange s a b
    ({} : Session α).transcript (swapped first a b last) = ({} : Session α).transcript first
        ++ (s₁.transcript [b] ++ s.transcript [a] ++ s₂.transcript last).map (Turn.rename σ) ∧
      ∀ i, (({} : Session α).after (swapped first a b last)).sight (σ.worker i)
        = (({} : Session α).after (first ++ a :: b :: last)).sight i := by
  intro s s₁ s₂ σ
  have hr : s.Resting := resting_empty.after first
  have hp : s.Placed := placed_empty.after resting_empty first
  have hlast := grown_after ((hr.perform a).perform b) last
  -- The portions are those of the worker that the first command is to, in either run.
  let π := Portion.ofRun (· == k) (first ++ a :: b :: last)
  let π' := Portion.ofRun (· == σ.worker k) (swapped first a b last)
  have hcount : π.count = (s₂.after last).shop.workers.length := by
    simp only [π, Portion.ofRun, after_append]
    rfl
  have hR : Portion.Renumbers σ π π' :=
    Portion.renumbers_exchange hr hk hj hne hp rfl rfl (length_workers_exchange σ first last a b)
      (hcount ▸ hlast.workers)
  have hseparates := hI.separates (π := π) rfl rfl
  rw [transcript_append] at hseparates
  have hmarks := Portion.marks_append.1 (Portion.marks_ofRun (· == k) (first ++ a :: b :: last))
  have hmarks' := Portion.marks_append.1 (Portion.marks_ofRun (· == σ.worker k)
    (swapped first a b last))
  have hother : π.worker j = false := by simp [π, Portion.ofRun, hne]
  have hempty : Portion.Twin σ π π' ({} : Session α) {} {} {} :=
    ⟨Portion.Halves.empty π, Portion.Halves.empty π',
      Portion.handed_empty σ π π'⟩
  obtain ⟨p, q, hsame⟩ := hempty.same hR hmarks.1 hmarks'.1
    (fun turn hturn => hseparates turn (List.mem_append_left _ hturn))
    (fun turn hturn t ht job hjob u hu => hI.fixes_names hI' hk hj hturn ht hjob hu)
    (Portion.fixes_before s a b)
  obtain ⟨⟨p₁, q₁, hswap⟩, hturns⟩ := hsame.swap hR hk hj hne (beq_self_eq_true k)
    hother ⟨hmarks.2.1, hmarks.2.2.1, trivial⟩ ⟨hmarks'.2.1, hmarks'.2.2.1, trivial⟩
    (hseparates ⟨s.target a, a, (s.perform a).1⟩
      (List.mem_append_right _ List.mem_cons_self) k hk)
    (hseparates ⟨s₁.target b, b, (s₁.perform b).1⟩
      (List.mem_append_right _ (List.mem_cons_of_mem _ List.mem_cons_self)) j hj)
  obtain ⟨htranscript, p₂, q₂, hend⟩ := hswap.run hR hmarks.2.2.2 hmarks'.2.2.2
    (fun turn hturn => hseparates turn (List.mem_append_right _
      (List.mem_cons_of_mem _ (List.mem_cons_of_mem _ hturn))))
    (Portion.fixes_after hr a b)
  refine ⟨?_, fun i => ?_⟩
  · have hrest : s.transcript (b :: a :: last.map (Command.rename σ)) = _ :=
      transcript_append s [b, a] _
    rw [hturns, htranscript, ← List.map_append] at hrest
    rw [swapped, transcript_append]
    exact congrArg _ hrest
  · have hsight := hend.sight hR i
    rw [swapped, after_append, after_append]
    exact hsight

end Exchange

/-! ## Isolated workers apart -/

/-- **An isolated worker and all else do not notice each other.**  Without the commands to
others it is told the same, and is the same sight.  And where a command to it is followed by
one to another isolated worker, the two may as well come in the other order: under the new
numbers all commands are answered the same, and every worker is the same sight. -/
theorem isolated_apart (cs : List (Command α)) (k : Nat) (hI : Isolated k cs) :
    (({} : Session α).transcript (alone k cs)
        = ((({} : Session α).transcript cs).filter (Turn.spares k)).map
          (Turn.rename (Numbers.alone k cs)) ∧
      (({} : Session α).after (alone k cs)).sight ((Numbers.alone k cs).worker k)
        = (({} : Session α).after cs).sight k) ∧
    ∀ (first last : List (Command α)) (a b : Command α) (j : Nat),
      cs = first ++ a :: b :: last →
      let s := ({} : Session α).after first
      let s₁ := (s.perform a).2
      let s₂ := (s₁.perform b).2
      let σ := Numbers.exchange s a b
      s.target a = some k → s₁.target b = some j → j ≠ k → Isolated j cs →
      ({} : Session α).transcript (swapped first a b last) = ({} : Session α).transcript first
          ++ (s₁.transcript [b] ++ s.transcript [a] ++ s₂.transcript last).map (Turn.rename σ) ∧
        ∀ i, (({} : Session α).after (swapped first a b last)).sight (σ.worker i)
          = (({} : Session α).after cs).sight i := by
  refine ⟨hI.alone, ?_⟩
  rintro first last a b j rfl s s₁ s₂ σ hk hj hne hI'
  exact hI.exchange hI' hk hj hne

/-- One who is to be isolated is hired. -/
def hireCalm : Command Nat := .hireUsual "calm" none

/-- And another, with room for one job. -/
def hireUnruly : Command Nat := .hire { capacity := some 1 } "unruly" none

/-- The other one is held at a gate, its mailbox is filled until a job is refused, it is
stopped with a status, and then its first job panics. -/
def unruly : List (Command Nat) :=
  [.send (.worker 1) .prompt (.act .gate (.act (.panic (.literal "no")) .done)),
    .send (.worker 0) .prompt (.act (.log 7) .done), .send (.worker 1) .prompt .done,
    .send (.worker 1) .prompt .done, .stop (.worker 1) 3, .release (.worker 1),
    .await (.worker 1), .await (.worker 0)]

/-- Of all this the first one notices nothing, and it is no matter which of them was hired
first. -/
theorem isolated_apart_unruly :
    Isolated 0 (hireCalm :: hireUnruly :: unruly) ∧
      Isolated 1 (hireCalm :: hireUnruly :: unruly) ∧
      alone 0 (hireCalm :: hireUnruly :: unruly)
        = [hireCalm, .send (.worker 0) .prompt (.act (.log 7) .done), .await (.worker 0)] ∧
      (({} : Session Nat).after (alone 0 (hireCalm :: hireUnruly :: unruly))).sight 0
        = (({} : Session Nat).after (hireCalm :: hireUnruly :: unruly)).sight 0 ∧
      (({} : Session Nat).after (swapped [] hireCalm hireUnruly unruly)).sight 1
        = (({} : Session Nat).after (hireCalm :: hireUnruly :: unruly)).sight 0 ∧
      (({} : Session Nat).after (swapped [] hireCalm hireUnruly unruly)).sight 0
        = (({} : Session Nat).after (hireCalm :: hireUnruly :: unruly)).sight 1 := by
  have hcalm : Isolated 0 (hireCalm :: hireUnruly :: unruly) := by decide +kernel
  have hunruly : Isolated 1 (hireCalm :: hireUnruly :: unruly) := by decide +kernel
  obtain ⟨⟨-, hleft⟩, hswap⟩ := isolated_apart _ 0 hcalm
  obtain ⟨-, hsight⟩ := hswap [] unruly hireCalm hireUnruly 1 rfl (by decide +kernel)
    (by decide +kernel) (by decide) hunruly
  have hfirst : (Numbers.exchange ({} : Session Nat) hireCalm hireUnruly).worker 0 = 1 := by
    decide +kernel
  have hsecond : (Numbers.exchange ({} : Session Nat) hireCalm hireUnruly).worker 1 = 0 := by
    decide +kernel
  refine ⟨hcalm, hunruly, by decide +kernel, hleft, ?_, ?_⟩
  · rw [← hsight 0]
    exact congrArg _ hfirst.symm
  · rw [← hsight 1]
    exact congrArg _ hsecond.symm

end Session

end SerialWorkers
