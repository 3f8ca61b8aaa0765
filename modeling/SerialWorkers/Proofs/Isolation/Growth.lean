import SerialWorkers.Proofs.Isolation.Dealings
import SerialWorkers.Proofs.Isolation.Selection

/-!
# How a session grows

Nothing that a session has given out is ever taken back.  What a command brings is for
the worker it was addressed to, so it does not change whom another command means.

* `Session.News` — what is new is for one worker.
* `Session.Grown` — what was there is still there.
* `Session.Grown.target`, `Session.News.target` — a command means the same worker before
  and after.
* `Session.Placed` — whoever is told of is there.
-/

namespace SerialWorkers

open Workshop

namespace Session

variable {α : Type} {s s₁ : Session α} {k : Nat} {c : Command α}

/-! ## Workers -/

/-- Who does not hire adds no worker. -/
theorem Dealt.length_workers (h : Dealt k c s s₁) (hc : c.hires = false) :
    s₁.shop.workers.length = s.shop.workers.length := by
  cases h with
  | idle | answers => rfl
  | hired hc' =>
      rw [hc] at hc'
      cases hc'
  | acts hs es ws hw => simp only [restWith, note, length_workers_settle, hw.length_workers]

theorem length_workers_hire {settings : Settings} {name : String} {fault : Option Fault} :
    (s.shop.afterHiring (s.shop.hire settings name fault)).workers.length
      = s.shop.workers.length
        + ((settings.objection? name).isNone && fault.isNone).toNat := by
  unfold hire
  cases settings.objection? name with
  | some q => rfl
  | none =>
      cases fault with
      | some fault => rfl
      | none => simp [afterHiring, report]

/-- **As many workers are hired as commands that hire.** -/
theorem length_workers_perform (hr : s.Resting) (c : Command α) :
    (s.perform c).2.shop.workers.length = s.shop.workers.length + c.hires.toNat := by
  have hother : c.hires = false → (s.perform c).2.shop.workers.length
      = s.shop.workers.length + c.hires.toNat := by
    intro hc
    rw [hc]
    cases hk : s.target c with
    | none =>
        rw [perform_of_target_eq_none hr hk]
        rfl
    | some k => exact (dealt_perform hk).length_workers hc
  cases c with
  | hire settings name fault =>
      simp only [perform, restWith, note, length_workers_settle]
      exact length_workers_hire
  | hireUsual name fault =>
      simp only [perform, restWith, note, length_workers_settle, afterHiring_hireUsual]
      exact length_workers_hire
  | send | sendAll | sendAside | collect | stop | abandon | release | await | awaitAside
  | awaited | handle | inspect | identity | rush => exact hother rfl

/-! ## What is new -/

/-- Coming to rest changes nobody's things. -/
theorem owners_restWith (s : Session α) (w : Workshop α) (t : Table) :
    (s.restWith w).owners t = s.owners t := by
  cases t with
  | handles | waits => rfl
  | errands =>
      simp only [owners, restWith, note, List.map_map]
      rfl

/-- What is new is worker `k`, or was handed out for it, and the rest is as it was. -/
structure News (k : Nat) (s s₁ : Session α) : Prop where
  /-- No worker goes. -/
  workers_le : s.shop.workers.length ≤ s₁.shop.workers.length
  /-- No other worker comes. -/
  workers : ∀ {i : Nat}, s.shop.workers.length ≤ i → i < s₁.shop.workers.length → i = k
  /-- No client goes. -/
  clients : s.shop.clients.length ≤ s₁.shop.clients.length
  /-- What is handed out is for it. -/
  tables : ∀ t, ∃ new : List Nat, s₁.owners t = s.owners t ++ new ∧ ∀ j ∈ new, j = k

theorem news_refl (k : Nat) (s : Session α) : News k s s where
  workers_le := Nat.le_refl _
  workers hi hlt := absurd hlt (Nat.not_lt.2 hi)
  clients := Nat.le_refl _
  tables _ := ⟨[], by simp⟩

/-- What was answered does not change for whom it was. -/
theorem owners_answered (s : Session α) (n : Nat) (t : Table) :
    owners { s with waits := s.waits.modify n fun v => { v with answered := true } } t
      = s.owners t := by
  cases t with
  | handles | errands => rfl
  | waits =>
      apply List.ext_getElem?
      intro i
      simp only [owners, List.getElem?_map, List.getElem?_modify]
      cases s.waits[i]? with
      | none => rfl
      | some v => by_cases hi : n = i <;> simp [hi]

/-- **What a command brings is for the worker it was addressed to.** -/
theorem Dealt.news (h : Dealt k c s s₁) : News k s s₁ := by
  cases h with
  | idle => exact news_refl k s
  | @hired w settings name fault _ hk hm =>
      obtain ⟨hle, hlt⟩ := length_workers_of_hire hm
      refine ⟨?_, fun {i} hi hlt' => ?_, ?_, fun t => ⟨[], by simp [owners_restWith]⟩⟩
      · simpa [restWith, note] using hle
      · have hlt' : i < w.workers.length := by simpa [restWith, note] using hlt'
        omega
      · exact Nat.le_trans (length_clients_le_of_move hm) (length_clients_le_settle _)
  | @acts w hs es ws hw hhs hes hws =>
      have hlength : ∀ t : Session α, (t.restWith w).shop.workers.length = s.shop.workers.length :=
        fun t => by simp [restWith, note, hw.length_workers]
      refine ⟨Nat.le_of_eq (hlength _).symm, fun {i} hi hlt => ?_, ?_, fun t => ?_⟩
      · rw [hlength] at hlt
        exact absurd hlt (Nat.not_lt.2 hi)
      · exact Nat.le_trans hw.length_clients_le (length_clients_le_settle _)
      · rw [owners_restWith]
        cases t with
        | handles =>
            refine ⟨hs.map Prod.fst, List.map_append, fun j hj => ?_⟩
            obtain ⟨r, hr, rfl⟩ := List.mem_map.1 hj
            exact hhs r hr
        | errands =>
            refine ⟨es.map Errand.worker, List.map_append, fun j hj => ?_⟩
            obtain ⟨e, he, rfl⟩ := List.mem_map.1 hj
            exact (hes e he).1
        | waits =>
            refine ⟨ws.map Wait.worker, List.map_append, fun j hj => ?_⟩
            obtain ⟨v, hv, rfl⟩ := List.mem_map.1 hj
            exact hws v hv
  | @answers n hn =>
      exact { news_refl k s with tables := fun t => ⟨[], by simp [owners_answered]⟩ }

/-! ## What stays -/

/-- Who is there stays there, and what was handed out stays with whom it was. -/
structure Grown (s s₁ : Session α) : Prop where
  /-- No worker goes. -/
  workers : s.shop.workers.length ≤ s₁.shop.workers.length
  /-- No client goes. -/
  clients : s.shop.clients.length ≤ s₁.shop.clients.length
  /-- What was handed out stays with whom it was. -/
  tables : ∀ t, s.owners t <+: s₁.owners t

theorem grown_refl (s : Session α) : Grown s s :=
  ⟨Nat.le_refl _, Nat.le_refl _, fun _ => List.prefix_refl _⟩

theorem Grown.trans {s₂ : Session α} (h : Grown s s₁) (h' : Grown s₁ s₂) : Grown s s₂ :=
  ⟨Nat.le_trans h.workers h'.workers, Nat.le_trans h.clients h'.clients,
    fun t => (h.tables t).trans (h'.tables t)⟩

theorem Grown.length_le (h : Grown s s₁) (t : Table) :
    (s.owners t).length ≤ (s₁.owners t).length := (h.tables t).length_le

theorem News.grown (h : News k s s₁) : Grown s s₁ where
  workers := h.workers_le
  clients := h.clients
  tables t := by
    obtain ⟨new, hnew, -⟩ := h.tables t
    exact ⟨new, hnew.symm⟩

/-- **Nothing handed out is ever taken back.** -/
theorem grown_perform (hr : s.Resting) (c : Command α) : Grown s (s.perform c).2 := by
  cases hk : s.target c with
  | none =>
      rw [perform_of_target_eq_none hr hk]
      exact grown_refl s
  | some k => exact (dealt_perform hk).news.grown

/-! ## Whom it is addressed to in another session -/

/-- Who hires means the worker there is next. -/
theorem target_of_hires (s : Session α) (hc : c.hires = true) :
    s.target c = some s.shop.workers.length := by
  cases c with
  | hire settings name fault =>
      rw [target, hiree_hire]
      exact if_pos hc
  | hireUsual name fault =>
      rw [target, hiree_hireUsual, hiree_hire]
      exact if_pos hc
  | _ => cases hc

/-- A hire that fails is addressed to nobody. -/
theorem hiree_of_not_hires {settings : Settings} {name : String} {fault : Option Fault}
    (hc : ((settings.objection? name).isNone && fault.isNone) = false) :
    s.hiree (s.shop.hire settings name fault) = none := by
  rw [hiree_hire, hc]
  rfl

theorem addressee_handle (s : Session α) (n : Nat) :
    s.addressee (.handle n) = (s.owners .handles)[n]? := by
  simp only [addressee, reach, owners, List.getElem?_map]
  cases s.handles[n]? <;> rfl

theorem addressee_worker (s : Session α) (k : Nat) :
    s.addressee (.worker k) = if k < s.shop.workers.length then some k else none := by
  unfold addressee reach
  by_cases hk : k < s.shop.workers.length <;> simp [hk]

theorem target_collect (s : Session α) (n : Nat) :
    s.target (.collect n) = (s.owners .errands)[n]? := List.getElem?_map.symm

theorem target_awaited (s : Session α) (n : Nat) :
    s.target (.awaited n) = (s.owners .waits)[n]? := List.getElem?_map.symm

/-- **A command stays addressed to whom it was**, unless it hires. -/
theorem Grown.target (h : Grown s s₁) (hc : c.hires = false) (hk : s.target c = some k) :
    s₁.target c = some k := by
  have haddressee : ∀ {whom : Address}, s.addressee whom = some k →
      s₁.addressee whom = some k := by
    intro whom hwhom
    cases whom with
    | worker j =>
        obtain ⟨rfl, hlt⟩ := eq_of_addressee hwhom
        rw [addressee_worker, if_pos (Nat.lt_of_lt_of_le hlt h.workers)]
    | handle n =>
        rw [addressee_handle] at hwhom ⊢
        exact getElem?_of_start (h.tables .handles) hwhom
  cases c with
  | hire => exact absurd hk (by rw [Session.target, hiree_of_not_hires hc]; simp)
  | hireUsual =>
      exact absurd hk (by rw [Session.target, hiree_hireUsual, hiree_of_not_hires hc]; simp)
  | collect n =>
      rw [target_collect] at hk ⊢
      exact getElem?_of_start (h.tables .errands) hk
  | awaited n =>
      rw [target_awaited] at hk ⊢
      exact getElem?_of_start (h.tables .waits) hk
  | send | sendAll | sendAside | stop | abandon | release | await | awaitAside | handle | inspect
  | identity | rush => exact haddressee hk

/-- What is not in the new end of a list is in the old part. -/
theorem getElem?_of_append {l more : List Nat} {n i : Nat} (h : (l ++ more)[n]? = some k)
    (hmore : ∀ j ∈ more, j = i) (hne : k ≠ i) : l[n]? = some k := by
  rcases Nat.lt_or_ge n l.length with hlt | hge
  · rwa [List.getElem?_append_left hlt] at h
  · rw [List.getElem?_append_right hge] at h
    exact absurd (hmore k (List.mem_of_getElem? h)) hne

/-- **A command was addressed to the same worker before another one got anything.** -/
theorem News.target {i : Nat} (h : News i s s₁) (hc : c.hires = false)
    (hk : s₁.target c = some k) (hne : k ≠ i) : s.target c = some k := by
  have hold : ∀ {t : Table} {n : Nat}, (s₁.owners t)[n]? = some k →
      (s.owners t)[n]? = some k := by
    intro t n hn
    obtain ⟨new, hnew, hi⟩ := h.tables t
    rw [hnew] at hn
    exact getElem?_of_append hn hi hne
  have haddressee : ∀ {whom : Address}, s₁.addressee whom = some k →
      s.addressee whom = some k := by
    intro whom hwhom
    cases whom with
    | worker j =>
        obtain ⟨rfl, hlt⟩ := eq_of_addressee hwhom
        rw [addressee_worker, if_pos]
        exact Nat.lt_of_not_le fun hge => hne (h.workers hge hlt)
    | handle n =>
        rw [addressee_handle] at hwhom ⊢
        exact hold hwhom
  cases c with
  | hire => exact absurd hk (by rw [Session.target, hiree_of_not_hires hc]; simp)
  | hireUsual =>
      exact absurd hk (by rw [Session.target, hiree_hireUsual, hiree_of_not_hires hc]; simp)
  | collect n =>
      rw [target_collect] at hk ⊢
      exact hold hk
  | awaited n =>
      rw [target_awaited] at hk ⊢
      exact hold hk
  | send | sendAll | sendAside | stop | abandon | release | await | awaitAside | handle | inspect
  | identity | rush => exact haddressee hk

/-! ## Who is there -/

/-- Whomever the tables tell of is there. -/
def Placed (s : Session α) : Prop := ∀ t, ∀ j ∈ s.owners t, j < s.shop.workers.length

theorem placed_empty : Placed ({} : Session α) := by
  intro t j hj
  cases t <;> cases hj

theorem Placed.addressee {whom : Address} (hp : s.Placed) (hk : s.addressee whom = some k) :
    k < s.shop.workers.length := by
  cases whom with
  | worker j => exact (eq_of_addressee hk).2
  | handle n =>
      rw [addressee_handle] at hk
      exact hp _ k (List.mem_of_getElem? hk)

/-- **Whom a command is addressed to is there after it.** -/
theorem Placed.target_lt (hp : s.Placed) (hr : s.Resting) (hk : s.target c = some k) :
    k < (s.perform c).2.shop.workers.length := by
  rw [length_workers_perform hr]
  have hhire : ∀ {settings : Settings} {name : String} {fault : Option Fault},
      s.hiree (s.shop.hire settings name fault) = some k →
        k < s.shop.workers.length + ((settings.objection? name).isNone && fault.isNone).toNat := by
    intro settings name fault hh
    rw [hiree_hire] at hh
    split at hh
    · rename_i hsuccess
      cases hh
      rw [hsuccess]
      exact Nat.lt_succ_self _
    · cases hh
  cases c with
  | hire => exact hhire hk
  | hireUsual =>
      rw [target, hiree_hireUsual] at hk
      exact hhire hk
  | collect n =>
      rw [target_collect] at hk
      exact hp _ k (List.mem_of_getElem? hk)
  | awaited n =>
      rw [target_awaited] at hk
      exact hp _ k (List.mem_of_getElem? hk)
  | send | sendAll | sendAside | stop | abandon | release | await | awaitAside | handle | inspect
  | identity | rush => exact hp.addressee hk

theorem Placed.perform (hp : s.Placed) (hr : s.Resting) (c : Command α) :
    (s.perform c).2.Placed := by
  cases hk : s.target c with
  | none =>
      rw [perform_of_target_eq_none hr hk]
      exact hp
  | some k =>
      have hlt := hp.target_lt hr hk
      have hnews := (dealt_perform hk).news
      intro t j hj
      obtain ⟨new, hnew, hk'⟩ := hnews.tables t
      rw [hnew] at hj
      rcases List.mem_append.1 hj with hj | hj
      · exact Nat.lt_of_lt_of_le (hp t j hj) hnews.workers_le
      · rw [hk' j hj]
        exact hlt

end Session

end SerialWorkers
