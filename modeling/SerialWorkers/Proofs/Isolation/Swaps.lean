import SerialWorkers.Proofs.Isolation.Twins

/-!
# Commands in another order

Of two commands that follow each other, the one may be to a portion of a session and the
other to the rest.  Either of them means the same worker, and is answered the same, if the
other one comes first; only the numbers that the two give out change places.

* `Numbers.exchange` — the new numbers.
* `Portion.renumbers_exchange` — the portion of the worker that the first command is to
  is under them what it was.
* `Portion.Twin.swap` — the two commands in either order.
-/

namespace SerialWorkers

open Workshop

namespace Session

variable {α : Type} {σ : Numbers} {π π' : Portion} {s s' p q : Session α} {j k : Nat}
  {a b c : Command α}

/-! ## New numbers -/

/-- The new numbers if `b` comes before `a` and not after it. -/
def Numbers.exchange (s : Session α) (a b : Command α) : Numbers :=
  let s₁ := (s.perform a).2
  let s₂ := (s₁.perform b).2
  { worker := exchanged s.shop.workers.length s₁.shop.workers.length s₂.shop.workers.length
    handle := exchanged s.handles.length s₁.handles.length s₂.handles.length
    errand := exchanged s.errands.length s₁.errands.length s₂.errands.length
    wait := exchanged s.waits.length s₁.waits.length s₂.waits.length }

theorem Numbers.exchange_of (s : Session α) (a b : Command α) (t : Table) :
    (Numbers.exchange s a b).of t = exchanged (s.owners t).length
      ((s.perform a).2.owners t).length (((s.perform a).2.perform b).2.owners t).length := by
  cases t <;> simp only [Numbers.exchange, Numbers.of, owners, List.length_map]

namespace Portion

theorem fixes_before (s : Session α) (a b : Command α) :
    Fixes (· < ·) (Numbers.exchange s a b) s where
  workers _ := exchanged_of_lt
  tables t i hi := by
    rw [Numbers.exchange_of]
    exact exchanged_of_lt hi

theorem fixes_after (hr : s.Resting) (a b : Command α) :
    Fixes (· ≥ ·) (Numbers.exchange s a b) ((s.perform a).2.perform b).2 := by
  have ha := grown_perform hr a
  have hb := grown_perform (hr.perform a) b
  refine ⟨fun _ => exchanged_of_ge ha.workers hb.workers, fun t i hi => ?_⟩
  rw [Numbers.exchange_of]
  exact exchanged_of_ge (ha.length_le t) (hb.length_le t) hi

/-! ## Whom the two are to -/

section Swap

variable (hr : s.Resting) (hk : s.target a = some k) (hj : (s.perform a).2.target b = some j)
  (hne : j ≠ k)

include hr hk hj hne

/-- The second command means the same worker before the first. -/
theorem target_first : s.target b = some ((Numbers.exchange s a b).worker j) := by
  have hlength := length_workers_perform hr a
  have hlength' := length_workers_perform (hr.perform a) b
  cases hb : b.hires with
  | true =>
      rw [target_of_hires _ hb] at hj ⊢
      rw [hb] at hlength'
      cases hj
      simp only [Numbers.exchange, hlength', hlength, exchanged, Bool.toNat_true]
      refine congrArg some ?_
      grind
  | false =>
      rw [hb] at hlength'
      have hfixed : (Numbers.exchange s a b).worker j = j :=
        exchanged_eq_self (by omega) (by omega) (.inr (by simpa using hlength'.symm))
      rw [hfixed]
      exact (dealt_perform hk).news.target hb hj hne

/-- The second command names nothing that changes. -/
theorem rename_second : b.rename (Numbers.exchange s a b) = b := by
  have hlength := length_workers_perform hr a
  have hlength' := length_workers_perform (hr.perform a) b
  cases hb : b.hires with
  | true => exact rename_of_hires _ hb
  | false =>
      rw [hb] at hlength'
      have hsame : ∀ i, (Numbers.exchange s a b).worker i = i := fun i =>
        exchanged_eq_self (by omega) (by omega) (.inr (by simpa using hlength'.symm))
      exact rename_eq_self ((dealt_perform hk).news.target hb hj hne) (fixes_before s a b)
        (hsame j) fun _ _ t _ => hsame t

omit hj hne in
/-- Nor does the first. -/
theorem rename_first : a.rename (Numbers.exchange s a b) = a := by
  have hlength := length_workers_perform hr a
  have hlength' := length_workers_perform (hr.perform a) b
  cases ha : a.hires with
  | true => exact rename_of_hires _ ha
  | false =>
      rw [ha] at hlength
      have hsame : ∀ i, (Numbers.exchange s a b).worker i = i := fun i =>
        exchanged_eq_self (by omega) (by omega) (.inl (by simpa using hlength.symm))
      exact rename_eq_self hk (fixes_before s a b) (hsame k) fun _ _ t _ => hsame t

omit hj hne in
/-- The first command means the same worker after the second. -/
theorem target_second : (s.perform b).2.target a = some ((Numbers.exchange s a b).worker k) := by
  have hlength := length_workers_perform hr a
  have hlength' := length_workers_perform (hr.perform a) b
  have hlengthb := length_workers_perform hr b
  cases ha : a.hires with
  | true =>
      rw [target_of_hires _ ha] at hk ⊢
      rw [ha] at hlength
      cases hk
      simp only [Numbers.exchange, hlength', hlength, hlengthb, exchanged, Bool.toNat_true]
      refine congrArg some ?_
      grind
  | false =>
      rw [ha] at hlength
      have hfixed : (Numbers.exchange s a b).worker k = k :=
        exchanged_eq_self (by omega) (by omega) (.inl (by simpa using hlength.symm))
      rw [hfixed]
      exact (grown_perform hr b).target ha hk

/-- **The portion of the one worker under the new numbers.** -/
theorem renumbers_exchange (hp : s.Placed) (hside : π.worker = fun i => i == k)
    (hside' : π'.worker = fun i => i == (Numbers.exchange s a b).worker k)
    (hcount : π'.count = π.count)
    (hle : ((s.perform a).2.perform b).2.shop.workers.length ≤ π.count) :
    Renumbers (Numbers.exchange s a b) π π' := by
  have hlength := length_workers_perform hr a
  have hlength' := length_workers_perform (hr.perform a) b
  have hlt := hp.target_lt hr hk
  have ha := Bool.toNat_le a.hires
  have hb := Bool.toNat_le b.hires
  refine ⟨fun n => ?_, hcount, fun i hi => ?_, ?_⟩
  · rw [hside, hside']
    refine Carries.of_beq (by omega) (by omega) (by omega) (by omega) (fun hlt => ?_)
      (fun hlt heq => hne ?_) n
    · exact ((dealt_perform hk).news.workers (Nat.le_refl _) hlt).symm
    · exact ((dealt_perform hj).news.workers (Nat.le_refl _) hlt).symm.trans heq.symm
  · have hfixed : (Numbers.exchange s a b).worker i = i :=
      exchanged_of_ge (by omega) (by omega) (Nat.le_trans hle hi)
    have hlt' : (Numbers.exchange s a b).worker k < _ :=
      exchanged_lt (a := (s.perform a).2.shop.workers.length)
        (b := ((s.perform a).2.perform b).2.shop.workers.length) (by omega) (by omega) (by omega)
    refine ⟨hfixed, ?_⟩
    rw [hside, hside', rank_beq, rank_beq, if_pos (by omega), if_pos (by omega)]
  · exact fun h => eq_of_exchanged_eq (by omega) (by omega) h

end Swap

/-! ## The two in either order -/

section Swap

variable (hT : Twin (Numbers.exchange s a b) π π' s s p q)
  (hR : Renumbers (Numbers.exchange s a b) π π') (hk : s.target a = some k)
  (hj : (s.perform a).2.target b = some j) (hne : j ≠ k) (hown : π.worker k = true)
  (hother : π.worker j = false)

include hT hR hk hj hne hown hother

/-- What was handed out goes where it goes. -/
theorem handed_swap {p₁ q₁ : Session α} (h₁ : π.Halves (s.perform a).2 p₁ q)
    (h₂ : π.Halves ((s.perform a).2.perform b).2 p₁ q₁) (h₁' : π'.Halves (s.perform b).2 p q₁)
    (h₂' : π'.Halves ((s.perform b).2.perform a).2 p₁ q₁) :
    Handed (Numbers.exchange s a b) π π' ((s.perform a).2.perform b).2 := by
  have hr := hT.halves.resting
  have hfix := fixes_before s a b
  have hside : π'.worker ((Numbers.exchange s a b).worker k) = true := (hR.side k).trans hown
  have hside' : π'.worker ((Numbers.exchange s a b).worker j) = false := (hR.side j).trans hother
  have hfirst := (dealt_perform (target_first hr hk hj hne)).news
  have hsecond := (dealt_perform (target_second hr hk (b := b))).news
  have hgrown₁ := grown_perform hr a
  have hgrown₂ := grown_perform (hr.perform a) b
  intro t
  rw [Numbers.exchange_of]
  -- How much each of them hands out is a matter of its part alone.
  have hlength := (hT.halves.table t).length
  have hlength₁ := (h₁.table t).length
  have hlength₂ := (h₂.table t).length
  have hlength₁' := (h₁'.table t).length
  have hlength₂' := (h₂'.table t).length
  refine .of_exchanged (hgrown₁.length_le t) (hgrown₂.length_le t) (fun i hi => ?_)
    (fun i hi hlt => ?_) (fun i hi hlt => ?_) (fun i hi hlt => ?_) fun i hi hlt => ?_
  · exact (hT.handed t).side_of_eq hi (hfix.tables t i hi)
  · exact (keeps_of_news (dealt_perform hk).news h₁.apart.tabled t i hi hlt).trans hown
  · exact (keeps_of_news (dealt_perform hj).news h₂.apart.tabled t i hi hlt).trans hother
  · exact (keeps_of_news hfirst h₁'.apart.tabled t i hi (by omega)).trans hside'
  · exact (keeps_of_news hsecond h₂'.apart.tabled t i (by omega) (by omega)).trans hside

/-- **Two commands to different sides in either order**: they are answered the same, and
the same two parts come of it. -/
theorem Twin.swap (hm : π.Marks s [a, b]) (hm' : π'.Marks s [b, a])
    (hwa : ∀ job ∈ a.jobs, π.Within k job) (hwb : ∀ job ∈ b.jobs, π.Within j job) :
    (∃ p₁ q₁, Twin (Numbers.exchange s a b) π π' (s.after [a, b]) (s.after [b, a]) p₁ q₁) ∧
      s.transcript [b, a] = ((s.perform a).2.transcript [b] ++ s.transcript [a]).map
        (Turn.rename (Numbers.exchange s a b)) := by
  have hr := hT.halves.resting
  have hsa := rename_first hr hk (b := b)
  have hsb := rename_second hr hk hj hne
  have hk' := target_second hr hk (b := b)
  have hj' := target_first hr hk hj hne
  have hown' : π'.worker ((Numbers.exchange s a b).worker k) = true := (hR.side k).trans hown
  have hother' : π'.worker ((Numbers.exchange s a b).worker j) = false :=
    (hR.side j).trans hother
  have hothers : π.others.worker j = true := by simp [Portion.others, Share.rest, hother]
  have hma := hm.1 k hk
  have hmb := hm.2.1 j hj
  have hma' := hm'.2.1 _ hk'
  have hmb' := hm'.1 _ hj'
  have hfaira' : π'.Fair _ a.jobs _ _ := hsa ▸ Twin.fair hR hma' hwa
  have hfairb' : π'.Fair _ b.jobs _ _ := hsb ▸ Twin.fair hR hmb' hwb
  -- Either command is the same in its part, whichever order they come in.
  have hsamea : a.rename π'.numbers = a.rename π.numbers := by
    have hcount := Nat.lt_of_lt_of_le (hT.halves.placed.target_lt hr hk) hma.count
    have hsame := rename_command hR hT.handed hT.halves.apart.tabled hown hcount hk hwa
    rwa [hsa] at hsame
  have hsameb : b.rename π'.others.numbers = b.rename π.others.numbers := by
    cases hb : b.hires with
    | true => rw [rename_of_hires _ hb, rename_of_hires _ hb]
    | false =>
        have hbefore := (dealt_perform hk).news.target hb hj hne
        have hcount := Nat.lt_of_lt_of_le
          ((hT.halves.placed.perform hr a).target_lt (hr.perform a) hj) hmb.count
        have hsame := rename_command hR.others hT.handed.others hT.halves.apart.tabled.others
          hothers hcount hbefore fun job hjob => within_others (hwb job hjob)
        rwa [hsb] at hsame
  obtain ⟨h₁, hanswera⟩ := hT.halves.step hk hown { hma with within := hwa }
  obtain ⟨h₂, hanswerb⟩ := h₁.step_others hj hother { hmb with within := hwb }
  obtain ⟨h₁', hanswerb'⟩ := hT.halves'.step_others hj' hother' hfairb'
  obtain ⟨h₂', hanswera'⟩ := h₁'.step hk' hown' hfaira'
  rw [hsameb] at h₁' hanswerb' h₂'
  rw [hsamea] at h₂' hanswera'
  have hhanded := handed_swap hT hR hk hj hne hown hother h₁ h₂ h₁' h₂'
  have hsecond : ((s.perform b).2.perform a).1
      = (s.perform a).1.rename (Numbers.exchange s a b) :=
    eq_rename_of_about hR (hhanded.before (grown_perform (hr.perform a) b)) hma.tabled
      hma'.tabled hown (about_perform hk) (about_perform hk') (hanswera'.symm.trans hanswera)
  have hfirst : (s.perform b).1
      = ((s.perform a).2.perform b).1.rename (Numbers.exchange s a b) :=
    eq_rename_of_about hR.others hhanded.others hmb.tabled.others hmb'.tabled.others hothers
      (about_perform hj) (about_perform hj') (hanswerb'.symm.trans hanswerb)
  refine ⟨⟨_, _, h₂, h₂', hhanded⟩, ?_⟩
  simp only [transcript, List.singleton_append, List.map_cons, List.map_nil, Turn.rename, hk, hj,
    hk', hj', hsa, hsb, hfirst, hsecond, Option.map_some]

end Swap

end Portion

end Session

end SerialWorkers
