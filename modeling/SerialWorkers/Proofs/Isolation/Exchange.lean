import SerialWorkers.Proofs.Isolation.Transcripts

/-!
# Numbers in another order

Two commands that follow each other, one to one side of a session and one to the other,
may as well come the other way round.  Only the numbers that the two have given out change
places.

* `exchanged` — where numbers go when they are given out the other way round.
* `Carries` — a renumbering that is the same on either side.
* `Portion.Renumbers`, `Portion.Handed` — a renumbering of a session that is;
  `Portion.rename_command` says that a command is the same under it.
-/

namespace SerialWorkers

open Workshop

/-! ## Numbers given out the other way round -/

/-- Of the numbers from `m` on, those below `a` were given out first and those below `b`
after that.  This is where they go if it is done the other way round. -/
def exchanged (m a b i : Nat) : Nat :=
  if i < m then i else if i < a then i + (b - a) else if i < b then i - (a - m) else i

section Exchanged

variable {m a b i j : Nat}

theorem exchanged_of_lt (h : i < m) : exchanged m a b i = i := if_pos h

variable (hma : m ≤ a) (hab : a ≤ b)

include hma hab

theorem exchanged_of_ge (h : b ≤ i) : exchanged m a b i = i := by
  unfold exchanged
  grind

theorem exchanged_lt (h : i < b) : exchanged m a b i < b := by
  unfold exchanged
  grind

theorem eq_of_exchanged_eq (h : exchanged m a b i = exchanged m a b j) : i = j := by
  unfold exchanged at h
  grind

/-- If one of the two gives out no number, nothing changes. -/
theorem exchanged_eq_self (h : m = a ∨ a = b) : exchanged m a b i = i := by
  unfold exchanged
  grind

/-- Where each gives out one number at most, those two numbers are all that changes. -/
theorem exchanged_eq_self_of_ne (ha : a ≤ m + 1) (hb : b ≤ a + 1)
    (hi : m < a → a < b → i ≠ m ∧ i ≠ a) : exchanged m a b i = i := by
  unfold exchanged
  grind

end Exchanged

/-- Every number is kept or not. -/
theorem rank_add_rank_not (keep : Nat → Bool) (n : Nat) :
    rank keep n + rank (fun i => !keep i) n = n := by
  induction n with
  | zero => rfl
  | succ n ih =>
      rw [rank_succ, rank_succ]
      cases keep n <;> simp <;> omega

/-- Where one number is kept, all behind it have rank one. -/
theorem rank_beq (k n : Nat) : rank (fun i => i == k) n = if k < n then 1 else 0 := by
  induction n with
  | zero => rfl
  | succ n ih =>
      rw [rank_succ, ih]
      by_cases hn : n = k
      · subst hn
        simp
      · have hne : (n == k) = false := by simpa using hn
        rw [hne]
        split <;> split <;> simp <;> omega

/-- `f` takes the first `n` numbers to where they are on the same side and have the same
rank there. -/
structure Carries (f : Nat → Nat) (keep keep' : Nat → Bool) (n : Nat) : Prop where
  /-- They are on the same side. -/
  side : ∀ i < n, keep' (f i) = keep i
  /-- Those kept have the same rank. -/
  kept : ∀ i < n, keep i = true → rank keep' (f i) = rank keep i
  /-- And so have the others. -/
  others : ∀ i < n, keep i = false →
    rank (fun i => !keep' i) (f i) = rank (fun i => !keep i) i

namespace Carries

variable {f : Nat → Nat} {keep keep' : Nat → Bool} {m n a b : Nat}

theorem zero : Carries f keep keep' 0 := ⟨nofun, nofun, nofun⟩

theorem swap (h : Carries f keep keep' n) :
    Carries f (fun i => !keep i) (fun i => !keep' i) n where
  side i hi := by rw [h.side i hi]
  kept i hi hk := h.others i hi (by simpa using hk)
  others i hi hk := by
    simp only [Bool.not_not]
    exact h.kept i hi (by simpa using hk)

theorem before (h : Carries f keep keep' n) (hm : m ≤ n) : Carries f keep keep' m where
  side i hi := h.side i (Nat.lt_of_lt_of_le hi hm)
  kept i hi := h.kept i (Nat.lt_of_lt_of_le hi hm)
  others i hi := h.others i (Nat.lt_of_lt_of_le hi hm)

theorem side_of_eq (h : Carries f keep keep' n) {i : Nat} (hi : i < n) (hf : f i = i) :
    keep' i = keep i := by
  have hside := h.side i hi
  rwa [hf] at hside

/-- Where a place that is kept goes is told by its rank. -/
theorem eq_of_rank (h : Carries f keep keep' n) {i j : Nat} (hi : i < n) (hk : keep i = true)
    (hj : keep' j = true) (hr : rank keep' j = rank keep i) : j = f i :=
  eq_of_rank_eq hj ((h.side i hi).trans hk) (hr.trans (h.kept i hi hk).symm)

/-- More numbers are given out, all of them on one side. -/
theorem extend (h : Carries f keep keep' m) {c : Bool} (hrank : rank keep' m = rank keep m)
    (hf : ∀ i, m ≤ i → i < n → f i = i)
    (hnew : ∀ i, m ≤ i → i < n → keep i = c ∧ keep' i = c) : Carries f keep keep' n := by
  have hsame : ∀ i, m ≤ i → i < n → rank keep' i = rank keep i := by
    intro i hi
    induction hi with
    | refl => exact fun _ => hrank
    | @step i hi ih =>
        intro hn
        have hin : i < n := Nat.lt_of_succ_lt hn
        rw [rank_succ, rank_succ, ih hin, (hnew i hi hin).1, (hnew i hi hin).2]
  refine ⟨fun i hi => ?_, fun i hi hk => ?_, fun i hi hk => ?_⟩
  · rcases Nat.lt_or_ge i m with hlt | hge
    · exact h.side i hlt
    · rw [hf i hge hi, (hnew i hge hi).1, (hnew i hge hi).2]
  · rcases Nat.lt_or_ge i m with hlt | hge
    · exact h.kept i hlt hk
    · rw [hf i hge hi, hsame i hge hi]
  · rcases Nat.lt_or_ge i m with hlt | hge
    · exact h.others i hlt hk
    · have hkeep := rank_add_rank_not keep i
      have hkeep' := rank_add_rank_not keep' i
      have := hsame i hge hi
      rw [hf i hge hi]
      omega

/-- **The numbers of two sides given out the other way round.** -/
theorem of_exchanged (hma : m ≤ a) (hab : a ≤ b) (hlow : ∀ i < m, keep' i = keep i)
    (hfirst : ∀ i, m ≤ i → i < a → keep i = true)
    (hsecond : ∀ i, a ≤ i → i < b → keep i = false)
    (hfirst' : ∀ i, m ≤ i → i < m + (b - a) → keep' i = false)
    (hsecond' : ∀ i, m + (b - a) ≤ i → i < b → keep' i = true) :
    Carries (exchanged m a b) keep keep' b := by
  have hbase : rank keep' m = rank keep m := rank_congr hlow
  have hend : rank keep' (m + (b - a)) = rank keep' m :=
    rank_add_of_not fun i hi => hfirst' _ (Nat.le_add_right _ _) (Nat.add_lt_add_left hi _)
  have hbase' : rank (fun i => !keep' i) m = rank (fun i => !keep i) m :=
    rank_congr fun i hi => by rw [hlow i hi]
  have hend' : rank (fun i => !keep i) (m + (a - m)) = rank (fun i => !keep i) m :=
    rank_add_of_not fun i hi => by rw [hfirst _ (Nat.le_add_right _ _) (by omega), Bool.not_true]
  rw [Nat.add_sub_cancel' hma] at hend'
  refine ⟨fun i hi => ?_, fun i hi hk => ?_, fun i hi hk => ?_⟩
  · unfold exchanged
    split
    · exact hlow i ‹_›
    · split
      · rw [hfirst i (by omega) ‹_›, hsecond' _ (by omega) (by omega)]
      · rw [hsecond i (by omega) hi, hfirst' _ (by omega) (by omega)]
  · rcases Nat.lt_or_ge i m with hlt | hge
    · rw [exchanged_of_lt hlt]
      exact rank_congr fun j hj => hlow j (Nat.lt_trans hj hlt)
    · have hia : i < a := by
        rcases Nat.lt_or_ge i a with h | h
        · exact h
        · rw [hsecond i h hi] at hk
          cases hk
      obtain ⟨d, rfl⟩ := Nat.exists_eq_add_of_le hge
      have hto : exchanged m a b (m + d) = m + (b - a) + d := by
        unfold exchanged
        grind
      have hfrom : rank keep (m + d) = rank keep m + d :=
        rank_add fun j hj => hfirst _ (Nat.le_add_right _ _) (by omega)
      rw [hto, rank_add fun j hj => hsecond' _ (Nat.le_add_right _ _) (by omega), hend, hbase,
        hfrom]
  · rcases Nat.lt_or_ge i m with hlt | hge
    · rw [exchanged_of_lt hlt]
      exact rank_congr fun j hj => by rw [hlow j (Nat.lt_trans hj hlt)]
    · have hia : a ≤ i := by
        rcases Nat.lt_or_ge i a with h | h
        · rw [hfirst i hge h] at hk
          cases hk
        · exact h
      obtain ⟨d, rfl⟩ := Nat.exists_eq_add_of_le hia
      have hto : exchanged m a b (a + d) = m + d := by
        unfold exchanged
        grind
      have hfrom : rank (fun i => !keep' i) (m + d) = rank (fun i => !keep' i) m + d :=
        rank_add fun j hj => by rw [hfirst' _ (Nat.le_add_right _ _) (by omega), Bool.not_false]
      have hfrom' : rank (fun i => !keep i) (a + d) = rank (fun i => !keep i) a + d :=
        rank_add fun j hj => by rw [hsecond _ (Nat.le_add_right _ _) (by omega), Bool.not_false]
      rw [hto, hfrom, hbase', hfrom', hend']

/-- **One number apart.**  If of two newcomers one is `k`, or there is one newcomer at most,
all others keep their rank among the others. -/
theorem of_beq {k : Nat} (hma : m ≤ a) (hab : a ≤ b) (ha : a ≤ m + 1) (hb : b ≤ a + 1)
    (hfirst : m < a → k = m) (hsecond : a < b → k ≠ a) (n : Nat) :
    Carries (exchanged m a b) (fun i => i == k) (fun i => i == exchanged m a b k) n := by
  have hside : ∀ i, (exchanged m a b i == exchanged m a b k) = (i == k) := fun i => by
    rw [Bool.eq_iff_iff, beq_iff_eq, beq_iff_eq]
    exact ⟨eq_of_exchanged_eq hma hab, fun h => by rw [h]⟩
  refine ⟨fun i _ => hside i, fun i _ hk => ?_, fun i _ hk => ?_⟩
  · rw [beq_iff_eq] at hk
    subst hk
    rw [rank_beq, rank_beq, if_neg (Nat.lt_irrefl _), if_neg (Nat.lt_irrefl _)]
  · have hne : i ≠ k := by simpa using hk
    have hrank := rank_add_rank_not (fun i => i == k) i
    have hrank' := rank_add_rank_not (fun i => i == exchanged m a b k) (exchanged m a b i)
    rw [rank_beq] at hrank hrank'
    generalize rank (fun i => !i == k) i = r at hrank ⊢
    generalize rank (fun i => !i == exchanged m a b k) (exchanged m a b i) = r' at hrank' ⊢
    unfold exchanged at hrank'
    grind

end Carries

namespace Workshop

variable {α : Type}

/-! ## Jobs under two new names -/

theorem Act.rename_rename (f g : Nat → Nat) (a : Act α) :
    (a.rename f).rename g = a.rename (g ∘ f) := by
  cases a <;> simp [Act.rename]

theorem renameJob_renameJob (f g : Nat → Nat) (job : Work α) :
    renameJob g (renameJob f job) = renameJob (g ∘ f) job := by
  induction job with
  | done => rfl
  | act a rest ih => simp only [renameJob, Act.rename_rename, ih]
  | send route job rest ihJob ihRest =>
      simp only [renameJob, Route.rename, Option.map_map, ihJob, ihRest]

theorem renameJob_id (job : Work α) : renameJob id job = job := by
  induction job with
  | done => rfl
  | act a rest ih => cases a <;> simp [renameJob, Act.rename, ih]
  | send route job rest ihJob ihRest => simp [renameJob, Route.rename, ihJob, ihRest]

/-- Only those named matter. -/
theorem renameJob_congr {f g : Nat → Nat} {k : Nat} {job : Work α}
    (h : ∀ t ∈ names k job, f t = g t) : renameJob f job = renameJob g job := by
  have hwhom : ∀ {whom : Option Nat} {k : Nat}, f (whom.getD k) = g (whom.getD k) →
      whom.map f = whom.map g := by
    intro whom k hw
    cases whom with
    | none => rfl
    | some t => exact congrArg some hw
  induction job generalizing k with
  | done => rfl
  | act a rest ih =>
      have hrest := ih fun t ht => h t (List.mem_append_right _ ht)
      cases a with
      | view whom | stop _ whom =>
          have hmap : whom.map f = whom.map g := hwhom (k := k) (h _ List.mem_cons_self)
          simp only [renameJob, Act.rename, hmap, hrest]
      | log | threadName | gate | panic => simp only [renameJob, Act.rename, hrest]
  | send route job rest ihJob ihRest =>
      have hmap : route.whom.map f = route.whom.map g := hwhom (h _ List.mem_cons_self)
      have hjob := ihJob fun t ht => h t (names_nested t (List.mem_cons_of_mem _ ht))
      have hrest := ihRest fun t ht =>
        h t (List.mem_cons_of_mem _ (List.mem_append_right _ ht))
      simp only [renameJob, Route.rename, hmap, hjob, hrest]

/-- Those named under the new names are those named before. -/
theorem names_renameJob (f : Nat → Nat) (k : Nat) (job : Work α) :
    names (f k) (renameJob f job) = (names k job).map f := by
  induction job generalizing k with
  | done => rfl
  | act a rest ih =>
      cases a <;> simp [renameJob, Act.rename, names, Act.names, ih]
  | send route job rest ihJob ihRest =>
      simp only [renameJob, Route.rename, names, getD_map, ihJob, ihRest, List.map_cons,
        List.map_append]

end Workshop

namespace Session

variable {α : Type} {s : Session α} {k : Nat} {c : Command α}

/-! ## Commands under new numbers -/

/-- New numbers for new numbers. -/
def Numbers.comp (ν σ : Numbers) : Numbers :=
  ⟨ν.worker ∘ σ.worker, ν.handle ∘ σ.handle, ν.errand ∘ σ.errand, ν.wait ∘ σ.wait⟩

/-- No new numbers. -/
def Numbers.same : Numbers := ⟨id, id, id, id⟩

theorem Numbers.comp_of (ν σ : Numbers) (t : Table) (n : Nat) :
    (ν.comp σ).of t n = ν.of t (σ.of t n) := by
  cases t <;> rfl

theorem Numbers.same_of (t : Table) (n : Nat) : Numbers.same.of t n = n := by
  cases t <;> rfl

theorem Command.rename_rename (ν σ : Numbers) (c : Command α) :
    (c.rename σ).rename ν = c.rename (ν.comp σ) := by
  have hwhom : ∀ whom : Address, (whom.rename σ).rename ν = whom.rename (ν.comp σ) := by
    intro whom
    cases whom <;> rfl
  cases c <;> simp [Command.rename, hwhom, renameJob_renameJob, Numbers.comp]

theorem Command.rename_same (c : Command α) : c.rename .same = c := by
  have hwhom : ∀ whom : Address, whom.rename .same = whom := by
    intro whom
    cases whom <;> rfl
  have hjob : (renameJob Numbers.same.worker : Work α → Work α) = id := funext renameJob_id
  cases c with
  | hire | hireUsual | collect | awaited => rfl
  | send | sendAll | sendAside | stop | abandon | release | await | awaitAside | handle | inspect
  | identity | rush => simp [Command.rename, hwhom, hjob]

/-- **Only those numbers matter that a command names.** -/
theorem Command.rename_congr {ν ν' : Numbers} (hk : s.target c = some k)
    (hworker : ν.worker k = ν'.worker k)
    (htables : ∀ t n, (s.owners t)[n]? = some k → ν.of t n = ν'.of t n)
    (hjobs : ∀ job ∈ c.jobs, renameJob ν.worker job = renameJob ν'.worker job) :
    c.rename ν = c.rename ν' := by
  have hwhom : ∀ {whom : Address}, s.addressee whom = some k →
      whom.rename ν = whom.rename ν' := by
    intro whom h
    cases whom with
    | worker j =>
        obtain ⟨rfl, -⟩ := eq_of_addressee h
        exact congrArg Address.worker hworker
    | handle n =>
        rw [addressee_handle] at h
        exact congrArg Address.handle (htables .handles n h)
  cases c with
  | hire | hireUsual => rfl
  | collect n =>
      rw [target_collect] at hk
      exact congrArg Command.collect (htables .errands n hk)
  | awaited n =>
      rw [target_awaited] at hk
      exact congrArg Command.awaited (htables .waits n hk)
  | send | sendAside =>
      simp only [Command.rename, hwhom hk, hjobs _ List.mem_cons_self]
  | sendAll whom jobs =>
      have hsame := List.map_congr_left hjobs
      simp only [Command.rename, hwhom hk]
      exact congrArg _ hsame
  | stop | abandon | release | await | awaitAside | handle | inspect | identity | rush =>
      simp only [Command.rename, hwhom hk]

namespace Portion

/-! ## Numbers that are the same on either side -/

/-- Under `σ` workers are on the same side as before and have the same rank there, be they
there or not. -/
structure Renumbers (σ : Numbers) (π π' : Portion) : Prop where
  /-- Those that are there. -/
  carries : ∀ n, Carries σ.worker π.worker π'.worker n
  /-- There are as many. -/
  count : π'.count = π.count
  /-- Those that are never there. -/
  beyond : ∀ i, π.count ≤ i → σ.worker i = i ∧ rank π'.worker i = rank π.worker i
  /-- Different workers have different numbers. -/
  injective : ∀ {i j : Nat}, σ.worker i = σ.worker j → i = j

variable {σ : Numbers} {π π' : Portion} {s' s₁ : Session α}

theorem others_others (π : Portion) : π.others.others = π := by
  simp [Portion.others, Share.rest]

theorem Renumbers.others (h : Renumbers σ π π') : Renumbers σ π.others π'.others where
  carries n := (h.carries n).swap
  count := h.count
  beyond i hi := by
    refine ⟨(h.beyond i hi).1, ?_⟩
    have hrank := rank_add_rank_not π.worker i
    have hrank' := rank_add_rank_not π'.worker i
    have hsame := (h.beyond i hi).2
    show rank (fun k => !π'.worker k) i = rank (fun k => !π.worker k) i
    omega
  injective := h.injective

theorem Renumbers.side (h : Renumbers σ π π') (k : Nat) :
    π'.worker (σ.worker k) = π.worker k :=
  (h.carries (k + 1)).side k (Nat.lt_succ_self k)

theorem Renumbers.rank (h : Renumbers σ π π') (hk : π.worker k = true) :
    rank π'.worker (σ.worker k) = rank π.worker k :=
  (h.carries (k + 1)).kept k (Nat.lt_succ_self k) hk

/-- What a session has handed out goes to the same side and the same rank. -/
def Handed (σ : Numbers) (π π' : Portion) (s : Session α) : Prop :=
  ∀ t, Carries (σ.of t) (π.keeps t) (π'.keeps t) (s.owners t).length

theorem handed_empty (σ : Numbers) (π π' : Portion) : Handed σ π π' ({} : Session α) := by
  intro t
  cases t <;> exact .zero

theorem Handed.others (h : Handed σ π π' s) : Handed σ π.others π'.others s := by
  intro t
  rw [keeps_others, keeps_others]
  exact (h t).swap

/-- What was handed out before was too. -/
theorem Handed.before (h : Handed σ π π' s₁) (hg : Grown s s₁) : Handed σ π π' s :=
  fun t => (h t).before (hg.length_le t)

section Commands

variable (hR : Renumbers σ π π') (hH : Handed σ π π' s) (ht : π.Tabled s)
  (hown : π.worker k = true)

include hR hown

/-- A job that names nobody on the other side. -/
theorem renameJob_own {job : Work α} (hcount : k < π.count) (hw : π.Within k job) :
    renameJob π'.numbers.worker (renameJob σ.worker job) = renameJob π.numbers.worker job := by
  rw [renameJob_renameJob]
  refine renameJob_congr (k := k) fun t hmem => ?_
  rcases Nat.lt_or_ge t π.count with hlt | hge
  · have hside := hw t (List.mem_cons_of_mem _ hmem) k List.mem_cons_self hlt hcount
    exact hR.rank (hside.trans hown)
  · simp only [Function.comp_apply, (hR.beyond t hge).1]
    exact (hR.beyond t hge).2

include hH ht

/-- **A command to the portion is the same command on either way.** -/
theorem rename_command (hcount : k < π.count) (hk : s.target c = some k)
    (hw : ∀ job ∈ c.jobs, π.Within k job) :
    (c.rename σ).rename π'.numbers = c.rename π.numbers := by
  rw [Command.rename_rename]
  refine Command.rename_congr hk (hR.rank hown) (fun t n hn => ?_) fun job hjob => ?_
  · rw [Numbers.comp_of, numbers_of, numbers_of]
    exact (hH t).kept n (List.getElem?_eq_some_iff.1 hn).1 ((ht t n k hn).trans hown)
  · rw [← renameJob_own hR hown hcount (hw job hjob), renameJob_renameJob]
    rfl

end Commands

/-- A job that names nobody on the other side does not do so under new names. -/
theorem Renumbers.within (hR : Renumbers σ π π') {job : Work α} (hw : π.Within k job) :
    π'.Within (σ.worker k) (renameJob σ.worker job) := by
  intro t ht u hu htc huc
  rw [names_renameJob, ← List.map_cons] at ht hu
  obtain ⟨t, htmem, rfl⟩ := List.mem_map.1 ht
  obtain ⟨u, humem, rfl⟩ := List.mem_map.1 hu
  have hlt : ∀ {i}, σ.worker i < π'.count → i < π.count := by
    intro i hi
    rw [hR.count] at hi
    rcases Nat.lt_or_ge i π.count with h | h
    · exact h
    · rw [(hR.beyond i h).1] at hi
      exact hi
  rw [hR.side, hR.side]
  exact hw t htmem u humem (hlt htc) (hlt huc)

theorem jobs_rename (σ : Numbers) (c : Command α) :
    (c.rename σ).jobs = c.jobs.map (renameJob σ.worker) := by
  cases c <;> rfl

/-! ## Numbers that stay -/

/-- The numbers that stand in relation `R` to how many the session has given out stay what
they are. -/
structure Fixes (R : Nat → Nat → Prop) (σ : Numbers) (s : Session α) : Prop where
  /-- Those of workers. -/
  workers : ∀ i, R i s.shop.workers.length → σ.worker i = i
  /-- Those of what is handed out. -/
  tables : ∀ t i, R i (s.owners t).length → σ.of t i = i

theorem Fixes.before (h : Fixes (· < ·) σ s₁) (hg : Grown s s₁) : Fixes (· < ·) σ s where
  workers i hi := h.workers i (Nat.lt_of_lt_of_le hi hg.workers)
  tables t i hi := h.tables t i (Nat.lt_of_lt_of_le hi (hg.length_le t))

theorem Fixes.later (h : Fixes (· ≥ ·) σ s) (hg : Grown s s₁) : Fixes (· ≥ ·) σ s₁ where
  workers i hi := h.workers i (Nat.le_trans hg.workers hi)
  tables t i hi := h.tables t i (Nat.le_trans (hg.length_le t) hi)

/-- A command whose numbers stay what they are stays what it is. -/
theorem rename_eq_self (hk : s.target c = some k) (hfix : Fixes (· < ·) σ s)
    (hworker : σ.worker k = k) (hw : ∀ job ∈ c.jobs, ∀ t ∈ names k job, σ.worker t = t) :
    c.rename σ = c := by
  refine Eq.trans (Command.rename_congr hk hworker (fun t n hn => ?_) fun job hjob => ?_)
    c.rename_same
  · rw [Numbers.same_of]
    exact hfix.tables t n (List.getElem?_eq_some_iff.1 hn).1
  · exact renameJob_congr (hw job hjob)

/-- A hire names nobody. -/
theorem rename_of_hires (σ : Numbers) (hc : c.hires = true) : c.rename σ = c := by
  cases c with
  | hire | hireUsual => rfl
  | _ => cases hc

end Portion

end Session

end SerialWorkers
