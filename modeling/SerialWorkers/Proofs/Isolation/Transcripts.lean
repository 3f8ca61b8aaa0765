import SerialWorkers.Proofs.Isolation.Commands

/-!
# Runs of a session and their portions

A run of a session is a list of commands.  Its transcript says of each command whom it
was addressed to and what it was answered.  If the portion and the rest have nothing to do
with each other in a run, the commands to the portion, under new numbers, are a run of
their own, with the same answers.

* `Session.transcript`, `Session.after` — what is said of a run, and where it leads.
* `Portion.ofRun` — who and what belongs to a group of workers in a run.
* `Portion.Part.run` — the commands to a portion are a run of their own.
-/

namespace SerialWorkers

open Workshop

variable {α : Type}

namespace Session

/-! ## Runs -/

/-- What is said of one command of a run. -/
structure Turn (α : Type) where
  /-- Whom it was addressed to, if anybody. -/
  target : Option Nat
  /-- The command. -/
  command : Command α
  /-- What it was answered. -/
  answer : Answer
  deriving Repr, DecidableEq

/-- The same under new numbers. -/
def Turn.rename (ν : Numbers) (turn : Turn α) : Turn α :=
  ⟨turn.target.map ν.worker, turn.command.rename ν, turn.answer.rename ν⟩

/-- The session after some commands. -/
def after (s : Session α) : List (Command α) → Session α
  | [] => s
  | c :: cs => after (s.perform c).2 cs

/-- The transcript of some commands. -/
def transcript (s : Session α) : List (Command α) → List (Turn α)
  | [] => []
  | c :: cs => ⟨s.target c, c, (s.perform c).1⟩ :: transcript (s.perform c).2 cs

variable {s s' s₁ : Session α}

theorem after_append (s : Session α) (first rest : List (Command α)) :
    s.after (first ++ rest) = (s.after first).after rest := by
  induction first generalizing s with
  | nil => rfl
  | cons c first ih => exact ih _

theorem transcript_append (s : Session α) (first rest : List (Command α)) :
    s.transcript (first ++ rest) = s.transcript first ++ (s.after first).transcript rest := by
  induction first generalizing s with
  | nil => rfl
  | cons c first ih => exact congrArg _ (ih _)

theorem Resting.after (hr : s.Resting) (cs : List (Command α)) : (s.after cs).Resting := by
  induction cs generalizing s with
  | nil => exact hr
  | cons c cs ih => exact ih (hr.perform c)

theorem grown_after (hr : s.Resting) (cs : List (Command α)) : Grown s (s.after cs) := by
  induction cs generalizing s with
  | nil => exact grown_refl s
  | cons c cs ih => exact (grown_perform hr c).trans (ih (hr.perform c))

/-- **As many workers are there as commands that hired one.** -/
theorem length_workers_after (hr : s.Resting) (cs : List (Command α)) :
    (s.after cs).shop.workers.length = s.shop.workers.length + cs.countP Command.hires := by
  induction cs generalizing s with
  | nil => rfl
  | cons c cs ih =>
      rw [after, ih (hr.perform c), length_workers_perform hr, List.countP_cons]
      cases c.hires with
      | false => rfl
      | true =>
          simp only [Bool.toNat_true, if_true]
          omega

theorem Placed.after (hp : s.Placed) (hr : s.Resting) (cs : List (Command α)) :
    (s.after cs).Placed := by
  induction cs generalizing s with
  | nil => exact hp
  | cons c cs ih => exact ih (hp.perform hr c) (hr.perform c)

/-- Whomever a command of a run is addressed to is there after it. -/
theorem Placed.target_lt_after {cs : List (Command α)} (hp : s.Placed) (hr : s.Resting)
    {turn : Turn α} (hturn : turn ∈ s.transcript cs) {k : Nat} (hk : turn.target = some k) :
    k < (s.after cs).shop.workers.length := by
  induction cs generalizing s with
  | nil => cases hturn
  | cons c cs ih =>
      rcases List.mem_cons.1 hturn with rfl | hturn
      · exact Nat.lt_of_lt_of_le (hp.target_lt hr hk) (grown_after (hr.perform c) cs).workers
      · exact ih (hp.perform hr c) (hr.perform c) hturn

/-! ## A group of workers in a run -/

/-- Which clients call in commands to workers of a group. -/
def callers (group : Nat → Bool) (s : Session α) : List (Command α) → Nat → Bool
  | [], _ => false
  | c :: cs, n =>
      if n < (s.perform c).2.shop.clients.length then (s.target c).any group
      else callers group (s.perform c).2 cs n

namespace Portion

/-- The portion of a group of workers in a run: with them go the clients that call on their
behalf, and what is handed out to do with them. -/
def ofRun (group : Nat → Bool) (cs : List (Command α)) : Portion :=
  let s := ({} : Session α).after cs
  { worker := group
    client := callers group {} cs
    count := s.shop.workers.length
    handle := fun n => (s.handles[n]?).any fun r => group r.1
    errand := fun n => (s.errands[n]?).any fun e => group e.worker
    wait := fun n => (s.waits[n]?).any fun v => group v.worker }

variable {π : Portion}

/-- What a run brings is marked as being on the side of whom it is for. -/
def Marks (π : Portion) : Session α → List (Command α) → Prop
  | _, [] => True
  | s, c :: cs =>
      (∀ k, s.target c = some k → π.Marked k s (s.perform c).2) ∧ π.Marks (s.perform c).2 cs

/-- The jobs sent in a run name across no border. -/
def Separates (π : Portion) (turns : List (Turn α)) : Prop :=
  ∀ turn ∈ turns, ∀ k, turn.target = some k → ∀ job ∈ turn.command.jobs, π.Within k job

theorem marks_append {first rest : List (Command α)} :
    π.Marks s (first ++ rest) ↔ π.Marks s first ∧ π.Marks (s.after first) rest := by
  induction first generalizing s with
  | nil => simp [Marks, Session.after]
  | cons c first ih => exact (and_congr_right fun _ => ih).trans and_assoc.symm

theorem Tabled.of_grown (ht : π.Tabled s₁) (h : Grown s s₁) : π.Tabled s := by
  intro t n k hn
  exact ht t n k (getElem?_of_start (h.tables t) hn)

theorem tabled_ofRun (group : Nat → Bool) (cs : List (Command α)) :
    (ofRun group cs).Tabled (({} : Session α).after cs) := by
  intro t n k hn
  cases t with
  | handles | errands | waits =>
      simp only [owners, List.getElem?_map] at hn
      obtain ⟨r, hr, rfl⟩ := Option.map_eq_some_iff.1 hn
      simp [keeps, ofRun, hr]

/-- What is marked by what comes of a run is marked all along. -/
theorem marks_of_after {cs : List (Command α)} (hr : s.Resting)
    (hclients : ∀ n, s.shop.clients.length ≤ n → π.client n = callers π.worker s cs n)
    (hcount : (s.after cs).shop.workers.length ≤ π.count) (ht : π.Tabled (s.after cs)) :
    π.Marks s cs := by
  induction cs generalizing s with
  | nil => trivial
  | cons c cs ih =>
      have hgrown := grown_after (hr.perform c) cs
      refine ⟨fun k hk => ⟨Nat.le_trans hgrown.workers hcount, fun n hn hlt => ?_,
        ht.of_grown hgrown⟩, ih (hr.perform c) (fun n hn => ?_) hcount ht⟩
      · rw [hclients n hn, callers, if_pos hlt, hk]
        rfl
      · rw [hclients n (Nat.le_trans (grown_perform hr c).clients hn), callers,
          if_neg (Nat.not_lt.2 hn)]

theorem marks_ofRun (group : Nat → Bool) (cs : List (Command α)) :
    (ofRun group cs).Marks {} cs :=
  marks_of_after resting_empty (fun _ _ => rfl) (Nat.le_refl _) (tabled_ofRun group cs)

/-! ## The portion of a run -/

/-- The commands to a portion, under new numbers, where `kept` says which they are. -/
def own (π : Portion) (kept : Turn α → Bool) (turns : List (Turn α)) : List (Command α) :=
  (turns.filter kept).map fun turn => turn.command.rename π.numbers

/-- **One command of a run.**  Where it is kept, it is told to the portion, and otherwise
nothing happens there. -/
theorem Part.step {c : Command α} {kept : Bool} (h : π.Part s s') (ha : π.Apart s)
    (hr : s.Resting) (hr' : s'.Resting)
    (hf : ∀ k, s.target c = some k → π.Fair k c.jobs s (s.perform c).2)
    (hall : ∀ k, s.target c = some k → π.worker k = kept) :
    if kept then π.Told (s.perform c) (s'.perform (c.rename π.numbers))
    else π.Part (s.perform c).2 s' := by
  cases kept with
  | true => exact h.perform ha hr ⟨hall, hf⟩
  | false =>
      cases hk : s.target c with
      | none =>
          rw [perform_of_target_eq_none hr hk]
          exact h
      | some k => exact h.dealt_rest ha hr' (dealt_perform hk) (hf k hk) (hall k hk)

/-- The portion and the rest stay apart. -/
theorem Apart.perform {c : Command α} (ha : π.Apart s) (hr : s.Resting)
    (hf : ∀ k, s.target c = some k → π.Fair k c.jobs s (s.perform c).2) :
    π.Apart (s.perform c).2 := by
  cases hk : s.target c with
  | none =>
      rw [perform_of_target_eq_none hr hk]
      exact ha
  | some k => exact ha.dealt (dealt_perform hk) (hf k hk)

/-- **The commands to a portion are a run of their own**, with the same transcript under new
numbers, and lead to the portion.  It is no matter if some that are addressed to nobody are
left out. -/
theorem Part.run {kept : Turn α → Bool} {cs : List (Command α)} (h : π.Part s s')
    (ha : π.Apart s) (hr : s.Resting) (hr' : s'.Resting) (hm : π.Marks s cs)
    (hs : π.Separates (s.transcript cs))
    (hkept : ∀ turn : Turn α, ∀ k, turn.target = some k → π.worker k = kept turn) :
    s'.transcript (π.own kept (s.transcript cs))
        = ((s.transcript cs).filter kept).map (Turn.rename π.numbers) ∧
      π.Part (s.after cs) (s'.after (π.own kept (s.transcript cs))) ∧ π.Apart (s.after cs) := by
  induction cs generalizing s s' with
  | nil => exact ⟨rfl, h, ha⟩
  | cons c cs ih =>
      have hf : ∀ k, s.target c = some k → π.Fair k c.jobs s (s.perform c).2 := fun k hk =>
        { hm.1 k hk with within := hs _ List.mem_cons_self k hk }
      have hstep := h.step ha hr hr' hf (hkept ⟨s.target c, c, (s.perform c).1⟩)
      have ha₁ := ha.perform hr hf
      have hs₁ : π.Separates ((s.perform c).2.transcript cs) := fun turn hturn =>
        hs turn (List.mem_cons_of_mem _ hturn)
      cases hk : kept ⟨s.target c, c, (s.perform c).1⟩ with
      | true =>
          rw [hk] at hstep
          have htarget := h.target ha.tabled fun k ht => (hkept _ k ht).trans hk
          obtain ⟨htranscript, hpart, hapart⟩ :=
            ih hstep.part ha₁ (hr.perform c) (hr'.perform _) hm.2 hs₁
          simp only [transcript, own, List.filter_cons, hk, if_true, List.map_cons]
          refine ⟨?_, hpart, hapart⟩
          rw [htarget, hstep.answer]
          exact congrArg _ htranscript
      | false =>
          rw [hk] at hstep
          have hrest := ih hstep ha₁ (hr.perform c) hr' hm.2 hs₁
          simp only [transcript, own, List.filter_cons, hk]
          exact hrest

end Portion

end Session

end SerialWorkers
