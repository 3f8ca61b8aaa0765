import SerialWorkers.Proofs.Isolation.Exchange

/-!
# Two sessions of the same parts

A session is put together from a portion and the rest, and neither of them notices the
other.  So two sessions of the same parts answer alike, whatever numbers they have given
out.

* `Portion.Halved`, `Portion.Halves` — a table and a session, and their two parts.
* `Portion.Twin` — two sessions of the same parts.
* `Portion.Twin.step`, `Portion.Twin.run` — a command and a run in both of them.
* `Portion.Twin.same` — a run that both begin with.
-/

namespace SerialWorkers

open Workshop

namespace Session.Portion

variable {α : Type} {σ : Numbers} {π π' : Portion} {s s' s₁ : Session α} {k : Nat}
  {c : Command α}

/-! ## Two parts of a table -/

/-- Whose the things of a table are, in the table and in its two parts. -/
structure Halved (keep side : Nat → Bool) (owners mine rest : List Nat) : Prop where
  /-- The one part. -/
  mine : mine = (select keep owners).map (rank side)
  /-- The other. -/
  rest : rest = (select (fun n => !keep n) owners).map (rank fun k => !side k)
  /-- A thing is on the side of its owner. -/
  side : ∀ {n k : Nat}, owners[n]? = some k → keep n = side k

namespace Halved

variable {keep keep' side side' : Nat → Bool} {owners owners' mine rest : List Nat}
  {f g : Nat → Nat}

theorem swap (h : Halved keep side owners mine rest) :
    Halved (fun n => !keep n) (fun k => !side k) owners rest mine where
  mine := h.rest
  rest := by
    simp only [Bool.not_not]
    exact h.mine
  side hn := by rw [h.side hn]

theorem length (h : Halved keep side owners mine rest) :
    owners.length = mine.length + rest.length := by
  rw [h.mine, h.rest, List.length_map, List.length_map, length_select, length_select]
  exact (rank_add_rank_not keep owners.length).symm

/-- As many are in the one part. -/
theorem rank_length (h : Halved keep side owners mine rest)
    (h' : Halved keep' side' owners' mine rest) :
    rank keep' owners.length = rank keep owners.length := by
  have hlength := congrArg List.length (h'.mine.symm.trans h.mine)
  have howners : owners'.length = owners.length := h'.length.trans h.length.symm
  rwa [List.length_map, List.length_map, length_select, length_select, howners] at hlength

variable (h : Halved keep side owners mine rest) (h' : Halved keep' side' owners' mine rest)
  (hg : ∀ n, Carries g side side' n) (hf : Carries f keep keep' owners.length)

include h h' hg hf

/-- Whose a thing in the one part is. -/
theorem owner_kept {n k : Nat} (hk : owners[n]? = some k) (hn : keep n = true) :
    owners'[f n]? = some (g k) := by
  have hlt : n < owners.length := (List.getElem?_eq_some_iff.1 hk).1
  have hn' : keep' (f n) = true := (hf.side n hlt).trans hn
  have hfound : mine[rank keep n]? = some (rank side k) := by
    rw [h.mine, getElem?_map_select _ fun _ _ => hn, hk]
    rfl
  rw [h'.mine, ← hf.kept n hlt hn, getElem?_map_select _ fun _ _ => hn'] at hfound
  obtain ⟨k', hk', hrank⟩ := Option.map_eq_some_iff.1 hfound
  rw [hk', (hg (k + 1)).eq_of_rank (Nat.lt_succ_self k) ((h.side hk).symm.trans hn)
    ((h'.side hk').symm.trans hn') hrank]

/-- **Whose a thing is** does not depend on the order of the table. -/
theorem owner (hbeyond : ∀ n, owners.length ≤ n → f n = n) (n : Nat) :
    owners'[f n]? = (owners[n]?).map g := by
  cases hk : owners[n]? with
  | some k =>
      cases hn : keep n with
      | true => exact h.owner_kept h' hg hf hk hn
      | false =>
          exact h.swap.owner_kept h'.swap (fun m => (hg m).swap) hf.swap hk (by simp [hn])
  | none =>
      have hle : owners.length ≤ n := List.getElem?_eq_none_iff.1 hk
      rw [hbeyond n hle, List.getElem?_eq_none_iff.2]
      · rfl
      · rw [h'.length, ← h.length]
        exact hle

end Halved

/-! ## Two parts of a session -/

/-- A session and its two parts. -/
structure Halves (π : Portion) (s p q : Session α) : Prop where
  /-- The portion. -/
  own : π.Part s p
  /-- The rest. -/
  others : π.others.Part s q
  /-- They have nothing to do with each other. -/
  apart : π.Apart s
  /-- The session is at rest. -/
  resting : s.Resting
  /-- Whoever is told of is there. -/
  placed : s.Placed
  /-- The portion is at rest. -/
  restingOwn : p.Resting
  /-- And so is the rest. -/
  restingOthers : q.Resting

namespace Halves

variable {p q : Session α}

theorem swap (h : π.Halves s p q) : π.others.Halves s q p where
  own := h.others
  others := by
    rw [others_others]
    exact h.own
  apart := h.apart.others
  resting := h.resting
  placed := h.placed
  restingOwn := h.restingOthers
  restingOthers := h.restingOwn

theorem empty (π : Portion) : π.Halves ({} : Session α) {} {} :=
  ⟨part_empty _, part_empty _, apart_empty _, resting_empty, placed_empty, resting_empty,
    resting_empty⟩

/-- **A command to one side happens there**, and the other side stays as it is. -/
theorem step (h : π.Halves s p q) (hk : s.target c = some k) (hown : π.worker k = true)
    (hf : π.Fair k c.jobs s (s.perform c).2) :
    π.Halves (s.perform c).2 (p.perform (c.rename π.numbers)).2 q ∧
      (p.perform (c.rename π.numbers)).1 = (s.perform c).1.rename π.numbers := by
  have htold := h.own.perform h.apart h.resting
    ⟨fun j hj => (by cases hk.symm.trans hj; exact hown), fun j hj => by
      cases hk.symm.trans hj
      exact hf⟩
  have hothers : π.others.worker k = false := by simp [Portion.others, Share.rest, hown]
  exact ⟨{
    own := htold.part
    others := h.others.dealt_rest h.apart.others h.restingOthers (dealt_perform hk) hf.others
      hothers
    apart := h.apart.dealt (dealt_perform hk) hf
    resting := h.resting.perform c
    placed := h.placed.perform h.resting c
    restingOwn := h.restingOwn.perform _
    restingOthers := h.restingOthers }, htold.answer⟩

/-- And a command to the other side happens there. -/
theorem step_others (h : π.Halves s p q) (hk : s.target c = some k) (hk' : π.worker k = false)
    (hf : π.Fair k c.jobs s (s.perform c).2) :
    π.Halves (s.perform c).2 p (q.perform (c.rename π.others.numbers)).2 ∧
      (q.perform (c.rename π.others.numbers)).1 = (s.perform c).1.rename π.others.numbers := by
  have hothers : π.others.worker k = true := by simp [Portion.others, Share.rest, hk']
  obtain ⟨hhalves, hanswer⟩ := h.swap.step hk hothers hf.others
  have hback := hhalves.swap
  rw [others_others] at hback
  exact ⟨hback, hanswer⟩

/-- The workers are those of the parts. -/
theorem length_workers (h : π.Halves s p q) :
    s.shop.workers.length = p.shop.workers.length + q.shop.workers.length := by
  have hp := h.own.shop.length_workers
  have hq := h.others.shop.length_workers
  have hrank := rank_add_rank_not π.worker s.shop.workers.length
  rw [hp, hq]
  exact hrank.symm

/-- **Every table has two parts.** -/
theorem table (h : π.Halves s p q) (t : Table) :
    Halved (π.keeps t) π.worker (s.owners t) (p.owners t) (q.owners t) where
  mine := h.own.toListed.owners t
  rest := by
    have hrest := h.others.toListed.owners t
    rwa [keeps_others] at hrest
  side := h.apart.tabled t _ _

/-- Two sessions of the same parts have handed out as much. -/
theorem length_eq (h : π.Halves s p q) (h' : π'.Halves s' p q) (t : Table) :
    (s'.owners t).length = (s.owners t).length := by
  rw [(h.table t).length, (h'.table t).length]

end Halves

/-! ## What is new -/

variable {s₁ : Session α}

/-- The numbers newly given out are on the side of whom they were given out for. -/
theorem keeps_of_news (hn : News k s s₁) (ht : π.Tabled s₁) (t : Table) (i : Nat)
    (hi : (s.owners t).length ≤ i) (hlt : i < (s₁.owners t).length) :
    π.keeps t i = π.worker k := by
  obtain ⟨new, hnew, hk⟩ := hn.tables t
  obtain ⟨j, hj⟩ : ∃ j, (s₁.owners t)[i]? = some j := ⟨_, List.getElem?_eq_getElem hlt⟩
  rw [ht t i j hj]
  rw [hnew, List.getElem?_append_right hi] at hj
  rw [hk j (List.mem_of_getElem? hj)]

/-- Whether an answer names no number. -/
def plain : Answer → Bool
  | .hired .. => false
  | .errand _ => false
  | .wait _ => false
  | .handle _ => false
  | _ => true

theorem rename_of_plain (ν : Numbers) {a : Answer} (ha : plain a = true) : a.rename ν = a := by
  cases a with
  | hired | errand | wait | handle => cases ha
  | _ => rfl

theorem plain_rename (ν : Numbers) (a : Answer) : plain (a.rename ν) = plain a := by
  cases a <;> rfl

theorem eq_rename_of_plain {ν ν' : Numbers} {a a' : Answer} (ha : plain a = true)
    (h : a'.rename ν' = a.rename ν) : a' = a.rename σ := by
  have ha' : plain a' = true := by rw [← plain_rename ν', h, plain_rename, ha]
  rw [rename_of_plain ν ha, rename_of_plain ν' ha'] at h
  rw [rename_of_plain σ ha, h]

theorem exists_of_not_plain {ν : Numbers} {a b : Answer} (h : a.rename ν = b) :
    match b with
    | .hired j name => ∃ i, a = .hired i name ∧ ν.worker i = j
    | .errand j => ∃ i, a = .errand i ∧ ν.errand i = j
    | .wait j => ∃ i, a = .wait i ∧ ν.wait i = j
    | .handle j => ∃ i, a = .handle i ∧ ν.handle i = j
    | _ => True := by
  subst h
  cases a with
  | hired i name => exact ⟨i, rfl, rfl⟩
  | errand i | wait i | handle i => exact ⟨i, rfl, rfl⟩
  | _ => trivial

/-- **The same answer under the numbers of the portion is the same under `σ`**, as far as it
tells of what was handed out to the portion. -/
theorem eq_rename_of_about {a a' : Answer} (hR : Renumbers σ π π') (hH : Handed σ π π' s)
    (ht : π.Tabled s) (ht' : π'.Tabled s') (hown : π.worker k = true) (ha : a.About s k)
    (ha' : a'.About s' (σ.worker k)) (hsame : a'.rename π'.numbers = a.rename π.numbers) :
    a' = a.rename σ := by
  have hown' : π'.worker (σ.worker k) = true := (hR.side k).trans hown
  have hnumber : ∀ (t : Table) (n i : Nat), (s.owners t)[n]? = some k →
      (s'.owners t)[i]? = some (σ.worker k) → π'.numbers.of t i = π.numbers.of t n →
      i = σ.of t n := by
    intro t n i hn hi hrank
    rw [numbers_of, numbers_of] at hrank
    exact (hH t).eq_of_rank (List.getElem?_eq_some_iff.1 hn).1 ((ht t n k hn).trans hown)
      ((ht' t i _ hi).trans hown') hrank
  cases a with
  | hired j name =>
      obtain ⟨i, rfl, -⟩ := exists_of_not_plain hsame
      have hj : j = k := ha
      have hi : i = σ.worker k := ha'
      rw [hj, hi]
      rfl
  | handle n =>
      obtain ⟨i, rfl, hi⟩ := exists_of_not_plain hsame
      exact congrArg Answer.handle (hnumber .handles n i ha ha' hi)
  | errand n =>
      obtain ⟨i, rfl, hi⟩ := exists_of_not_plain hsame
      exact congrArg Answer.errand (hnumber .errands n i ha ha' hi)
  | wait n =>
      obtain ⟨i, rfl, hi⟩ := exists_of_not_plain hsame
      exact congrArg Answer.wait (hnumber .waits n i ha ha' hi)
  | _ => exact eq_rename_of_plain rfl hsame

/-! ## Two sessions of the same parts -/

/-- Two sessions of the same parts, in which what was handed out has other numbers. -/
structure Twin (σ : Numbers) (π π' : Portion) (s s' p q : Session α) : Prop where
  /-- The parts of the one. -/
  halves : π.Halves s p q
  /-- The parts of the other. -/
  halves' : π'.Halves s' p q
  /-- What was handed out. -/
  handed : Handed σ π π' s

namespace Twin

variable {p q p₁ q₁ : Session α} {s₁' : Session α}

theorem others (h : Twin σ π π' s s' p q) : Twin σ π.others π'.others s s' q p :=
  ⟨h.halves.swap, h.halves'.swap, h.handed.others⟩

/-- What is said of the portion of one is said of that of the other. -/
theorem fair (hR : Renumbers σ π π') (hm' : π'.Marked (σ.worker k) s' s₁)
    (hw : ∀ job ∈ c.jobs, π.Within k job) :
    π'.Fair (σ.worker k) (c.rename σ).jobs s' s₁ :=
  { hm' with
    within := fun job hjob => by
      rw [jobs_rename] at hjob
      obtain ⟨job, hmem, rfl⟩ := List.mem_map.1 hjob
      exact hR.within (hw job hmem) }

/-- What is new goes where it goes in the other session. -/
theorem handed_news (hT : Twin σ π π' s s' p q) (hR : Renumbers σ π π')
    (hhalves : π.Halves s₁ p₁ q₁) (hhalves' : π'.Halves s₁' p₁ q₁) (hn : News k s s₁)
    (hn' : News (σ.worker k) s' s₁') (hfix : Fixes (· ≥ ·) σ s ∨ Fixes (· < ·) σ s₁) :
    Handed σ π π' s₁ := by
  intro t
  have hlength := hT.halves.length_eq hT.halves' t
  have hlength₁ := hhalves.length_eq hhalves' t
  refine (hT.handed t).extend ((hT.halves.table t).rank_length (hT.halves'.table t))
    (fun i hi hlt => hfix.elim (fun h => h.tables t i hi) fun h => h.tables t i hlt)
    fun i hi hlt => ⟨keeps_of_news hn hhalves.apart.tabled t i hi hlt, ?_⟩
  rw [← hR.side k]
  exact keeps_of_news hn' hhalves'.apart.tabled t i (by omega) (by omega)

/-- Two sessions of the same parts answer a command to the portion alike. -/
theorem step_own (hT : Twin σ π π' s s' p q) (hR : Renumbers σ π π') (hk : s.target c = some k)
    (hk' : s'.target (c.rename σ) = some (σ.worker k)) (hown : π.worker k = true)
    (hm : π.Marked k s (s.perform c).2)
    (hm' : π'.Marked (σ.worker k) s' (s'.perform (c.rename σ)).2)
    (hw : ∀ job ∈ c.jobs, π.Within k job)
    (hfix : Fixes (· ≥ ·) σ s ∨ Fixes (· < ·) σ (s.perform c).2) :
    ∃ p₁ q₁, Twin σ π π' (s.perform c).2 (s'.perform (c.rename σ)).2 p₁ q₁ ∧
      (s'.perform (c.rename σ)).1 = (s.perform c).1.rename σ := by
  have hown' : π'.worker (σ.worker k) = true := (hR.side k).trans hown
  have hcount : k < π.count :=
    Nat.lt_of_lt_of_le (hT.halves.placed.target_lt hT.halves.resting hk) hm.count
  have hsame := rename_command hR hT.handed hT.halves.apart.tabled hown hcount hk hw
  obtain ⟨hhalves, hanswer⟩ := hT.halves.step hk hown { hm with within := hw }
  obtain ⟨hhalves', hanswer'⟩ := hT.halves'.step hk' hown' (fair hR hm' hw)
  rw [hsame] at hhalves' hanswer'
  have hhanded := hT.handed_news hR hhalves hhalves' (dealt_perform hk).news
    (dealt_perform hk').news hfix
  exact ⟨_, _, ⟨hhalves, hhalves', hhanded⟩, eq_rename_of_about hR hhanded hm.tabled hm'.tabled
    hown (about_perform hk) (about_perform hk') (hanswer'.symm.trans hanswer)⟩

/-- **Two sessions of the same parts answer a command alike**, whichever part it is for. -/
theorem step (hT : Twin σ π π' s s' p q) (hR : Renumbers σ π π') (hk : s.target c = some k)
    (hk' : s'.target (c.rename σ) = some (σ.worker k)) (hm : π.Marked k s (s.perform c).2)
    (hm' : π'.Marked (σ.worker k) s' (s'.perform (c.rename σ)).2)
    (hw : ∀ job ∈ c.jobs, π.Within k job)
    (hfix : Fixes (· ≥ ·) σ s ∨ Fixes (· < ·) σ (s.perform c).2) :
    ∃ p₁ q₁, Twin σ π π' (s.perform c).2 (s'.perform (c.rename σ)).2 p₁ q₁ ∧
      (s'.perform (c.rename σ)).1 = (s.perform c).1.rename σ := by
  cases hside : π.worker k with
  | true => exact hT.step_own hR hk hk' hside hm hm' hw hfix
  | false =>
      have hothers : π.others.worker k = true := by simp [Portion.others, Share.rest, hside]
      obtain ⟨q₁, p₁, htwin, hanswer⟩ := hT.others.step_own hR.others hk hk' hothers hm.others
        hm'.others (fun job hjob => within_others (hw job hjob)) hfix
      have hback := htwin.others
      rw [others_others, others_others] at hback
      exact ⟨p₁, q₁, hback, hanswer⟩

/-! ## A run that both begin with -/

/-- **A session is a twin of itself**, as long as no number is given out that changes. -/
theorem same {cs : List (Command α)} (hT : Twin σ π π' s s p q) (hR : Renumbers σ π π')
    (hm : π.Marks s cs) (hm' : π'.Marks s cs) (hs : π.Separates (s.transcript cs))
    (hnames : ∀ turn ∈ s.transcript cs, ∀ t, turn.target = some t →
      ∀ job ∈ turn.command.jobs, ∀ u ∈ names t job, σ.worker u = u)
    (hfix : Fixes (· < ·) σ (s.after cs)) :
    ∃ p' q', Twin σ π π' (s.after cs) (s.after cs) p' q' := by
  induction cs generalizing s p q with
  | nil => exact ⟨p, q, hT⟩
  | cons c cs ih =>
      have hr := hT.halves.resting
      have hs₁ : π.Separates ((s.perform c).2.transcript cs) := fun turn hturn =>
        hs turn (List.mem_cons_of_mem _ hturn)
      have hnames₁ := fun turn hturn => hnames turn (List.mem_cons_of_mem _ hturn)
      cases hk : s.target c with
      | none =>
          refine ih (p := p) (q := q) ?_ hm.2 hm'.2 hs₁ hnames₁ hfix
          rw [perform_of_target_eq_none hr hk]
          exact hT
      | some k =>
          have hfix₁ := hfix.before (grown_after (hr.perform c) cs)
          have ht := hfix₁.workers k (hT.halves.placed.target_lt hr hk)
          have hc := rename_eq_self hk (hfix₁.before (grown_perform hr c)) ht
            (hnames _ List.mem_cons_self k hk)
          obtain ⟨p₁, q₁, hT₁, -⟩ := hT.step hR hk (by rw [hc, ht, hk]) (hm.1 k hk)
            (by rw [hc, ht]; exact hm'.1 k hk) (hs _ List.mem_cons_self k hk) (.inr hfix₁)
          rw [hc] at hT₁
          exact ih hT₁ hm.2 hm'.2 hs₁ hnames₁ hfix

/-! ## Whom commands are addressed to -/

theorem length_workers_eq (hT : Twin σ π π' s s' p q) :
    s'.shop.workers.length = s.shop.workers.length := by
  rw [hT.halves.length_workers, hT.halves'.length_workers]

/-- Whose what is handed out is. -/
theorem owner (hT : Twin σ π π' s s' p q) (hR : Renumbers σ π π') (hfix : Fixes (· ≥ ·) σ s)
    (t : Table) (n : Nat) : (s'.owners t)[σ.of t n]? = ((s.owners t)[n]?).map σ.worker :=
  (hT.halves.table t).owner (hT.halves'.table t) hR.carries (hT.handed t) (hfix.tables t) n

/-- **An address means the same worker** in both. -/
theorem addressee (hT : Twin σ π π' s s' p q) (hR : Renumbers σ π π')
    (hfix : Fixes (· ≥ ·) σ s) (whom : Address) :
    s'.addressee (whom.rename σ) = (s.addressee whom).map σ.worker := by
  cases whom with
  | worker k =>
      -- No number from there on is taken by another, so none below leads there.
      have hlt : σ.worker k < s.shop.workers.length ↔ k < s.shop.workers.length := by
        constructor
        · intro h
          refine Nat.lt_of_not_le fun hge => Nat.lt_irrefl k ?_
          rw [hfix.workers k hge] at h
          exact Nat.lt_of_lt_of_le h hge
        · intro h
          refine Nat.lt_of_not_le fun hge => ?_
          rw [hR.injective (hfix.workers _ hge)] at hge
          exact Nat.not_lt.2 hge h
      simp only [Address.rename, addressee_worker, hT.length_workers_eq, hlt]
      split <;> rfl
  | handle n =>
      simp only [Address.rename, addressee_handle]
      exact hT.owner hR hfix .handles n

/-- **A command is addressed to the same worker** in both. -/
theorem target (hT : Twin σ π π' s s' p q) (hR : Renumbers σ π π')
    (hfix : Fixes (· ≥ ·) σ s) (c : Command α) :
    s'.target (c.rename σ) = (s.target c).map σ.worker := by
  have hhiree : ∀ (settings : Settings) (name : String) (fault : Option Fault),
      s'.hiree (s'.shop.hire settings name fault)
        = (s.hiree (s.shop.hire settings name fault)).map σ.worker := by
    intro settings name fault
    rw [hiree_hire, hiree_hire, hT.length_workers_eq]
    split
    · exact congrArg some (hfix.workers _ (Nat.le_refl _)).symm
    · rfl
  cases c with
  | hire settings name fault => exact hhiree settings name fault
  | hireUsual name fault =>
      simp only [Command.rename, Session.target, hiree_hireUsual]
      exact hhiree {} name fault
  | collect n =>
      simp only [Command.rename, target_collect]
      exact hT.owner hR hfix .errands n
  | awaited n =>
      simp only [Command.rename, target_awaited]
      exact hT.owner hR hfix .waits n
  | send | sendAll | sendAside | stop | abandon | release | await | awaitAside | handle | inspect
  | identity | rush => exact hT.addressee hR hfix _

/-! ## A run of both -/

theorem unmet_rename (σ : Numbers) (c : Command α) : (c.rename σ).unmet = c.unmet := by
  cases c with
  | hire | hireUsual | collect | awaited => rfl
  | send whom | sendAll whom | sendAside whom | stop whom | abandon whom | release whom
  | await whom | awaitAside whom | handle whom | inspect whom | identity whom | rush whom =>
      cases whom <;> rfl

theorem plain_unmet (c : Command α) : plain c.unmet = true := by
  cases c with
  | hire settings name fault =>
      simp only [Command.unmet]
      split <;> rfl
  | hireUsual | collect | awaited => rfl
  | send whom | sendAll whom | sendAside whom | stop whom | abandon whom | release whom
  | await whom | awaitAside whom | handle whom | inspect whom | identity whom | rush whom =>
      cases whom <;> rfl

/-- **Two sessions of the same parts have the same transcript**, under new numbers. -/
theorem run {cs : List (Command α)} (hT : Twin σ π π' s s' p q) (hR : Renumbers σ π π')
    (hm : π.Marks s cs) (hm' : π'.Marks s' (cs.map (Command.rename σ)))
    (hs : π.Separates (s.transcript cs)) (hfix : Fixes (· ≥ ·) σ s) :
    s'.transcript (cs.map (Command.rename σ)) = (s.transcript cs).map (Turn.rename σ) ∧
      ∃ p' q', Twin σ π π' (s.after cs) (s'.after (cs.map (Command.rename σ))) p' q' := by
  induction cs generalizing s s' p q with
  | nil => exact ⟨rfl, p, q, hT⟩
  | cons c cs ih =>
      have hr := hT.halves.resting
      have hr' := hT.halves'.resting
      have htarget := hT.target hR hfix c
      have hs₁ : π.Separates ((s.perform c).2.transcript cs) := fun turn hturn =>
        hs turn (List.mem_cons_of_mem _ hturn)
      have hstep : (s'.perform (c.rename σ)).1 = (s.perform c).1.rename σ ∧
          ∃ p₁ q₁, Twin σ π π' (s.perform c).2 (s'.perform (c.rename σ)).2 p₁ q₁ := by
        cases hk : s.target c with
        | none =>
            rw [hk] at htarget
            rw [perform_eq_of_target_eq_none hr hk, perform_eq_of_target_eq_none hr' htarget,
              unmet_rename, rename_of_plain σ (plain_unmet c)]
            exact ⟨rfl, p, q, hT⟩
        | some k =>
            rw [hk] at htarget
            obtain ⟨p₁, q₁, hT₁, hanswer⟩ := hT.step hR hk htarget (hm.1 k hk)
              (hm'.1 _ htarget) (hs _ List.mem_cons_self k hk) (.inl hfix)
            exact ⟨hanswer, p₁, q₁, hT₁⟩
      obtain ⟨hanswer, p₁, q₁, hT₁⟩ := hstep
      obtain ⟨htranscript, hafter⟩ :=
        ih hT₁ hm.2 hm'.2 hs₁ (hfix.later (grown_perform hr c))
      refine ⟨?_, hafter⟩
      simp only [List.map_cons, transcript, htranscript, htarget, hanswer]
      rfl

end Twin

end Session.Portion

end SerialWorkers
