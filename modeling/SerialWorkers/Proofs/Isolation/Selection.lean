/-!
# Some of a list, numbered anew

Of a list some places are kept and the others left out, by a predicate on the number
of the place.  What is kept gets a new number, its rank among the numbers kept.

* `rank` — the new number of a place.
* `select` — the list of what is kept.
* `getElem?_select`, `select_modify`, `select_append` — how the two go together.
-/

namespace SerialWorkers

variable {β γ : Type}

/-! ## Ranks -/

/-- How many numbers below `n` are kept. -/
def rank (keep : Nat → Bool) : Nat → Nat
  | 0 => 0
  | n + 1 => rank keep n + (keep n).toNat

variable {keep : Nat → Bool}

@[simp] theorem rank_zero (keep : Nat → Bool) : rank keep 0 = 0 := rfl

theorem rank_succ (keep : Nat → Bool) (n : Nat) :
    rank keep (n + 1) = rank keep n + (keep n).toNat := rfl

theorem rank_succ_of_keep {n : Nat} (h : keep n = true) : rank keep (n + 1) = rank keep n + 1 := by
  rw [rank_succ, h]
  rfl

theorem rank_le_rank {m n : Nat} (h : m ≤ n) : rank keep m ≤ rank keep n := by
  induction h with
  | refl => exact Nat.le_refl _
  | step _ ih => exact Nat.le_trans ih (Nat.le_add_right _ _)

/-- What is kept has a lower rank than everything behind it. -/
theorem rank_lt_rank {m n : Nat} (hm : keep m = true) (h : m < n) : rank keep m < rank keep n :=
  Nat.lt_of_lt_of_le (by rw [rank_succ_of_keep hm]; exact Nat.lt_succ_self _) (rank_le_rank h)

/-- Two numbers kept have different ranks. -/
theorem eq_of_rank_eq {m n : Nat} (hm : keep m = true) (hn : keep n = true)
    (h : rank keep m = rank keep n) : m = n := by
  rcases Nat.lt_trichotomy m n with hlt | heq | hlt
  · exact absurd h (Nat.ne_of_lt (rank_lt_rank hm hlt))
  · exact heq
  · exact absurd h (Nat.ne_of_gt (rank_lt_rank hn hlt))

/-- Every number below a rank is a rank. -/
theorem exists_rank_eq {i n : Nat} (h : i < rank keep n) :
    ∃ m, m < n ∧ keep m = true ∧ rank keep m = i := by
  induction n with
  | zero => cases h
  | succ n ih =>
      rcases Nat.lt_or_ge i (rank keep n) with hi | hi
      · obtain ⟨m, hm, hkeep, hrank⟩ := ih hi
        exact ⟨m, Nat.lt_succ_of_lt hm, hkeep, hrank⟩
      · cases hkeep : keep n with
        | false =>
            rw [rank_succ, hkeep] at h
            exact absurd h (Nat.not_lt.2 hi)
        | true =>
            rw [rank_succ_of_keep hkeep] at h
            exact ⟨n, Nat.lt_succ_self n, hkeep, Nat.le_antisymm hi (Nat.le_of_lt_succ h)⟩

/-- The ranks of a row of numbers that are kept. -/
theorem rank_add {m n : Nat} (h : ∀ i < n, keep (m + i) = true) :
    rank keep (m + n) = rank keep m + n := by
  induction n with
  | zero => rfl
  | succ n ih =>
      rw [← Nat.add_assoc, rank_succ_of_keep (h n (Nat.lt_succ_self n)),
        ih fun i hi => h i (Nat.lt_succ_of_lt hi), Nat.add_assoc]

/-- And of a row of numbers none of which is. -/
theorem rank_add_of_not {m n : Nat} (h : ∀ i < n, keep (m + i) = false) :
    rank keep (m + n) = rank keep m := by
  induction n with
  | zero => rfl
  | succ n ih =>
      rw [← Nat.add_assoc, rank_succ, h n (Nat.lt_succ_self n),
        ih fun i hi => h i (Nat.lt_succ_of_lt hi)]
      rfl

/-- Only the numbers below count. -/
theorem rank_congr {keep' : Nat → Bool} {n : Nat} (h : ∀ m < n, keep' m = keep m) :
    rank keep' n = rank keep n := by
  induction n with
  | zero => rfl
  | succ n ih =>
      rw [rank_succ, rank_succ, ih fun m hm => h m (Nat.lt_succ_of_lt hm), h n (Nat.lt_succ_self n)]

/-! ## What is kept of a list -/

/-- What is kept of a list whose first place bears number `n`. -/
def selectFrom (keep : Nat → Bool) (n : Nat) : List β → List β
  | [] => []
  | a :: l => if keep n then a :: selectFrom keep (n + 1) l else selectFrom keep (n + 1) l

/-- What is kept of a list. -/
def select (keep : Nat → Bool) (l : List β) : List β := selectFrom keep 0 l

theorem selectFrom_append (n : Nat) (l l' : List β) :
    selectFrom keep n (l ++ l') = selectFrom keep n l ++ selectFrom keep (n + l.length) l' := by
  induction l generalizing n with
  | nil => rfl
  | cons a l ih =>
      have hlength : n + (a :: l).length = n + 1 + l.length := by
        rw [List.length_cons]
        omega
      rw [List.cons_append, selectFrom, selectFrom, ih, hlength]
      split <;> rfl

/-- **What is put behind a list** is kept or not by the numbers it gets. -/
theorem select_append (l l' : List β) :
    select keep (l ++ l') = select keep l ++ selectFrom keep l.length l' := by
  rw [select, selectFrom_append, Nat.zero_add]
  rfl

theorem selectFrom_of_keep {n : Nat} {l : List β} (h : ∀ i < l.length, keep (n + i) = true) :
    selectFrom keep n l = l := by
  induction l generalizing n with
  | nil => rfl
  | cons a l ih =>
      have h0 : keep n = true := h 0 (Nat.zero_lt_succ _)
      rw [selectFrom, if_pos h0, ih fun i hi => ?_]
      rw [Nat.add_assoc, Nat.add_comm 1 i]
      exact h (i + 1) (Nat.succ_lt_succ hi)

theorem selectFrom_of_not {n : Nat} {l : List β} (h : ∀ i < l.length, keep (n + i) = false) :
    selectFrom keep n l = [] := by
  induction l generalizing n with
  | nil => rfl
  | cons a l ih =>
      have h0 : keep n = false := h 0 (Nat.zero_lt_succ _)
      rw [selectFrom, if_neg (by simp [h0]), ih fun i hi => ?_]
      rw [Nat.add_assoc, Nat.add_comm 1 i]
      exact h (i + 1) (Nat.succ_lt_succ hi)

theorem getElem?_selectFrom {n k j : Nat} (hk : keep (n + k) = true)
    (hj : rank keep (n + k) = rank keep n + j) (l : List β) :
    (selectFrom keep n l)[j]? = l[k]? := by
  induction l generalizing n k j with
  | nil => simp [selectFrom]
  | cons a l ih =>
      rw [selectFrom]
      cases k with
      | zero =>
          rw [Nat.add_zero] at hk hj
          have hj0 : j = 0 := by omega
          subst hj0
          rw [if_pos hk]
          rfl
      | succ k =>
          have hshift : n + (k + 1) = n + 1 + k := by omega
          rw [hshift] at hk hj
          split
          · rename_i hn
            cases j with
            | zero =>
                have hlt := rank_lt_rank hn (Nat.lt_of_lt_of_le (Nat.lt_succ_self n)
                  (Nat.le_add_right (n + 1) k))
                omega
            | succ j =>
                rw [List.getElem?_cons_succ, List.getElem?_cons_succ]
                exact ih hk (by rw [hj, rank_succ_of_keep hn]; omega)
          · rename_i hn
            have hn : keep n = false := by simpa using hn
            rw [List.getElem?_cons_succ]
            refine ih hk ?_
            rw [hj, rank_succ, hn]
            rfl

/-- **What is kept is found at its rank.** -/
theorem getElem?_select {k : Nat} (hk : keep k = true) (l : List β) :
    (select keep l)[rank keep k]? = l[k]? := by
  refine getElem?_selectFrom ?_ ?_ l <;> simp [hk]

theorem length_selectFrom (n : Nat) (l : List β) :
    rank keep n + (selectFrom keep n l).length = rank keep (n + l.length) := by
  induction l generalizing n with
  | nil => rfl
  | cons a l ih =>
      have hlength : n + (a :: l).length = n + 1 + l.length := by
        rw [List.length_cons]
        omega
      rw [hlength, ← ih, selectFrom]
      split
      · rename_i hn
        rw [rank_succ_of_keep hn, List.length_cons]
        omega
      · rename_i hn
        have hn : keep n = false := by simpa using hn
        rw [rank_succ, hn]
        rfl

/-- As many places are kept as there are numbers kept. -/
@[simp] theorem length_select (l : List β) : (select keep l).length = rank keep l.length := by
  have : rank keep 0 + (selectFrom keep 0 l).length = rank keep (0 + l.length) :=
    length_selectFrom 0 l
  simpa [select] using this

/-- **A change at a place that is kept** is a change at its rank. -/
theorem select_modify {k : Nat} (hk : keep k = true) (l : List β) (f : β → β) :
    select keep (l.modify k f) = (select keep l).modify (rank keep k) f := by
  apply List.ext_getElem?
  intro i
  rcases Nat.lt_or_ge i (rank keep l.length) with hi | hi
  · obtain ⟨m, hm, hkeep, rfl⟩ := exists_rank_eq hi
    rw [getElem?_select hkeep, List.getElem?_modify, List.getElem?_modify, getElem?_select hkeep]
    by_cases hkm : k = m
    · subst hkm
      simp
    · have hne : rank keep k ≠ rank keep m := fun h => hkm (eq_of_rank_eq hk hkeep h)
      simp [hkm, hne]
  · rw [List.getElem?_eq_none_iff.2, List.getElem?_eq_none_iff.2]
    · rw [List.length_modify, length_select]
      exact hi
    · rw [length_select, List.length_modify]
      exact hi

/-- **A change at any other place** is none. -/
theorem select_modify_of_not {k : Nat} (hk : keep k = false) (l : List β) (f : β → β) :
    select keep (l.modify k f) = select keep l := by
  apply List.ext_getElem?
  intro i
  rcases Nat.lt_or_ge i (rank keep l.length) with hi | hi
  · obtain ⟨m, hm, hkeep, rfl⟩ := exists_rank_eq hi
    have hkm : k ≠ m := by
      rintro rfl
      rw [hk] at hkeep
      cases hkeep
    rw [getElem?_select hkeep, List.getElem?_modify, getElem?_select hkeep]
    simp [hkm]
  · rw [List.getElem?_eq_none_iff.2, List.getElem?_eq_none_iff.2]
    · rw [length_select]
      exact hi
    · rw [length_select, List.length_modify]
      exact hi

/-- A change at a place that is kept, seen through a map. -/
theorem map_select_modify {k : Nat} (hk : keep k = true) {l : List β} {g : β → γ} {f : β → β}
    {f' : γ → γ} (hf : ∀ a, l[k]? = some a → f' (g a) = g (f a)) :
    (select keep (l.modify k f)).map g = ((select keep l).map g).modify (rank keep k) f' := by
  rw [select_modify hk]
  apply List.ext_getElem?
  intro i
  rw [List.getElem?_map, List.getElem?_modify, List.getElem?_modify, List.getElem?_map]
  by_cases hi : rank keep k = i
  · subst hi
    rw [getElem?_select hk]
    cases ha : l[k]? with
    | none => rfl
    | some a => simp [hf a ha]
  · simp [hi]

/-- What is found at the rank of a place, seen through a map. -/
theorem getElem?_map_select {k : Nat} {l : List β} (g : β → γ)
    (hk : ∀ a, l[k]? = some a → keep k = true) :
    ((select keep l).map g)[rank keep k]? = (l[k]?).map g := by
  rw [List.getElem?_map]
  cases ha : l[k]? with
  | some a => rw [getElem?_select (hk a ha), ha]
  | none =>
      have hlength : l.length ≤ k := List.getElem?_eq_none_iff.1 ha
      rw [List.getElem?_eq_none_iff.2]
      rw [length_select]
      exact rank_le_rank hlength

/-- One more that is kept. -/
theorem select_concat {l : List β} (h : keep l.length = true) (a : β) :
    select keep (l ++ [a]) = select keep l ++ [a] := by
  rw [select_append, selectFrom_of_keep (by simpa using h)]

/-- And one that is not. -/
theorem select_concat_of_not {l : List β} (h : keep l.length = false) (a : β) :
    select keep (l ++ [a]) = select keep l := by
  rw [select_append, selectFrom_of_not (by simpa using h), List.append_nil]

/-- What a list begins with is where it was. -/
theorem getElem?_of_start {l l' : List β} {n : Nat} {a : β} (h : l <+: l')
    (ha : l[n]? = some a) : l'[n]? = some a := by
  obtain ⟨more, rfl⟩ := h
  rw [List.getElem?_append_left (List.getElem?_eq_some_iff.1 ha).1]
  exact ha

/-- Of a list whose end is kept, the end. -/
theorem drop_select {l : List β} {n : Nat} (hn : n ≤ l.length)
    (h : ∀ k, n ≤ k → k < l.length → keep k = true) :
    (select keep l).drop (rank keep n) = l.drop n := by
  have hlength : (l.take n).length = n := by rw [List.length_take, Nat.min_eq_left hn]
  have hsplit : select keep (l.take n ++ l.drop n) = _ := select_append _ _
  rw [List.take_append_drop, hlength] at hsplit
  have hrank : (select keep (l.take n)).length = rank keep n := by rw [length_select, hlength]
  have hkeep : ∀ i < (l.drop n).length, keep (n + i) = true := fun i hi => by
    rw [List.length_drop] at hi
    exact h _ (Nat.le_add_right _ _) (by omega)
  rw [hsplit, List.drop_left' hrank, selectFrom_of_keep hkeep]

/-- On which side the places are that are put behind a list, if it is seen from what is
there. -/
theorem keep_of_append {side : β → Bool} {b : Bool} {l l' : List β}
    (h : ∀ {n : Nat} {a : β}, (l ++ l')[n]? = some a → keep n = side a)
    (hb : ∀ a ∈ l', side a = b) : ∀ i < l'.length, keep (l.length + i) = b := by
  intro i hi
  have hget : (l ++ l')[l.length + i]? = some l'[i] := by
    rw [List.getElem?_append_right (Nat.le_add_right _ _), Nat.add_sub_cancel_left,
      List.getElem?_eq_getElem hi]
  exact (h hget).trans (hb _ (List.getElem_mem hi))

theorem selectFrom_map (g : β → γ) (n : Nat) (l : List β) :
    selectFrom keep n (l.map g) = (selectFrom keep n l).map g := by
  induction l generalizing n with
  | nil => rfl
  | cons a l ih =>
      rw [List.map_cons, selectFrom, selectFrom, ih]
      split <;> rfl

theorem select_map (g : β → γ) (l : List β) : select keep (l.map g) = (select keep l).map g :=
  selectFrom_map g 0 l

/-- What is kept is found at a place that is. -/
theorem exists_of_mem_select {l : List β} {a : β} (h : a ∈ select keep l) :
    ∃ k, keep k = true ∧ l[k]? = some a := by
  obtain ⟨i, hi⟩ := List.getElem?_of_mem h
  have hlt : i < rank keep l.length := by
    rw [← length_select]
    exact (List.getElem?_eq_some_iff.1 hi).1
  obtain ⟨k, -, hk, rfl⟩ := exists_rank_eq hlt
  exact ⟨k, hk, by rw [← getElem?_select hk, hi]⟩

/-! ## The first that can -/

/-- The first of a row of numbers for which something is there. -/
theorem findSome?_range_eq_some {f : Nat → Option β} {n : Nat} {b : β} :
    (List.range n).findSome? f = some b ↔
      ∃ i, i < n ∧ f i = some b ∧ ∀ j < i, f j = none := by
  induction n with
  | zero => simp
  | succ n ih =>
      rw [List.range_succ, List.findSome?_append, List.findSome?_singleton, Option.or_eq_some_iff,
        ih]
      constructor
      · rintro (⟨i, hi, hb, hnone⟩ | ⟨hnone, hb⟩)
        · exact ⟨i, Nat.lt_succ_of_lt hi, hb, hnone⟩
        · refine ⟨n, Nat.lt_succ_self n, hb, fun j hj => ?_⟩
          exact List.findSome?_eq_none_iff.1 hnone j (List.mem_range.2 hj)
      · rintro ⟨i, hi, hb, hnone⟩
        rcases Nat.lt_succ_iff_lt_or_eq.1 hi with hi | rfl
        · exact .inl ⟨i, hi, hb, hnone⟩
        · refine .inr ⟨List.findSome?_eq_none_iff.2 fun j hj => ?_, hb⟩
          exact hnone j (List.mem_range.1 hj)

theorem findSome?_range_eq_none {f : Nat → Option β} {n : Nat} :
    (List.range n).findSome? f = none ↔ ∀ i < n, f i = none := by
  simp [List.findSome?_eq_none_iff]

/-- **The first that can, of all and of those kept.**  Where those kept can do at their
ranks what they can do, up to `R`, and what the others do leaves `c` as it is, the first
of all does the latter or is the first of those kept. -/
theorem findSome?_select {R : β → γ → Prop} {f : Nat → Option β} {g : Nat → Option γ} {n : Nat}
    {c : γ} (hkeep : ∀ i, keep i = true → Option.Rel R (f i) (g (rank keep i)))
    (hnot : ∀ i b, keep i = false → f i = some b → R b c) :
    ((List.range n).findSome? f = none → (List.range (rank keep n)).findSome? g = none) ∧
    ∀ b, (List.range n).findSome? f = some b →
      R b c ∨ ∃ b', (List.range (rank keep n)).findSome? g = some b' ∧ R b b' := by
  have hnone : ∀ i, keep i = true → f i = none → g (rank keep i) = none := by
    intro i hi hf
    have := hkeep i hi
    rw [hf] at this
    cases hg : g (rank keep i) with
    | none => rfl
    | some b' =>
        rw [hg] at this
        cases this
  refine ⟨fun h => ?_, fun b h => ?_⟩
  · rw [findSome?_range_eq_none] at h ⊢
    intro i hi
    obtain ⟨m, hm, hkm, rfl⟩ := exists_rank_eq hi
    exact hnone m hkm (h m hm)
  · obtain ⟨i, hi, hb, hbefore⟩ := findSome?_range_eq_some.1 h
    cases hki : keep i with
    | false => exact .inl (hnot i b hki hb)
    | true =>
        have hrel := hkeep i hki
        rw [hb] at hrel
        cases hg : g (rank keep i) with
        | none =>
            rw [hg] at hrel
            cases hrel
        | some b' =>
            rw [hg] at hrel
            cases hrel with
            | some hr =>
                refine .inr ⟨b', findSome?_range_eq_some.2 ⟨_, rank_lt_rank hki hi, hg, ?_⟩, hr⟩
                intro j hj
                obtain ⟨m, hm, hkm, rfl⟩ := exists_rank_eq hj
                exact hnone m hkm (hbefore m hm)

end SerialWorkers
