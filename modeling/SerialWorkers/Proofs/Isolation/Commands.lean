import SerialWorkers.Proofs.Isolation.Portions

/-!
# Commands to a portion

A command to a worker of a portion, or to nobody, is answered in the session of the
portion alone as it is among the others, and leaves the portion behind as it does there.

* `Portion.Told` — the same is answered and left behind, under new numbers.
* `Portion.Part.target` — whom a command is addressed to.
* `Portion.Part.perform` — what a command is answered, and what it leaves behind.
-/

namespace SerialWorkers

open Workshop

variable {α : Type}

namespace Session.Portion

variable {π : Portion} {s s' : Session α} {w w' : Workshop α} {k : Nat} {jobs : List (Work α)}

/-- The same is answered, and the portion is left behind, under new numbers. -/
structure Told (π : Portion) (out out' : Answer × Session α) : Prop where
  /-- The same is answered. -/
  answer : out'.1 = out.1.rename π.numbers
  /-- The portion is left behind. -/
  part : π.Part out.2 out'.2

/-! ## Addresses -/

theorem Listed.handle {n : Nat} (h : π.Listed s s')
    (hn : ∀ r, s.handles[n]? = some r → π.handle n = true) :
    s'.handles[π.numbers.handle n]? = (s.handles[n]?).map (renameHandle π.renaming) := by
  rw [h.handles]
  exact getElem?_map_select _ hn

theorem Listed.errand {n : Nat} (h : π.Listed s s')
    (hn : ∀ e, s.errands[n]? = some e → π.errand n = true) :
    s'.errands[π.numbers.errand n]? = (s.errands[n]?).map (Errand.rename π.renaming) := by
  rw [h.errands]
  exact getElem?_map_select _ hn

theorem Listed.wait {n : Nat} (h : π.Listed s s')
    (hn : ∀ v, s.waits[n]? = some v → π.wait n = true) :
    s'.waits[π.numbers.wait n]? = (s.waits[n]?).map (Wait.rename π.renaming) := by
  rw [h.waits]
  exact getElem?_map_select _ hn

/-- The reasons there is nobody to mean name no number. -/
theorem rename_of_reach {whom : Address} {a : Answer} (ν : Numbers)
    (ha : s.reach whom = .error a) : a.rename ν = a := by
  unfold Session.reach at ha
  split at ha
  · split at ha <;> cases ha
    rfl
  · split at ha <;> cases ha
    rfl

theorem rename_of_resolve {whom : Address} {a : Answer} (ν : Numbers)
    (hr : s.resolve whom = .error a) : a.rename ν = a := by
  unfold Session.resolve at hr
  split at hr
  · split at hr
    · cases hr
    · cases hr
      rfl
  · exact rename_of_reach ν hr

section Addresses

variable (h : π.Part s s') (ht : π.Tabled s) {whom : Address}
  (hw : ∀ k, s.addressee whom = some k → π.worker k = true)

include h ht hw

theorem Part.reach : s'.reach (whom.rename π.numbers)
    = (s.reach whom).map (renameHandle π.renaming) := by
  cases whom with
  | worker k =>
      simp only [Address.rename, Session.reach, h.shop.length_workers]
      by_cases hk : k < s.shop.workers.length
      · have hkept : π.worker k = true := hw k (by simp [addressee, Session.reach, hk])
        have hlt : π.numbers.worker k < π.renaming.worker s.shop.workers.length :=
          rank_lt_rank hkept hk
        rw [if_pos hk, if_pos hlt]
        rfl
      · have hge : ¬ π.numbers.worker k < π.renaming.worker s.shop.workers.length :=
          Nat.not_lt.2 (rank_le_rank (Nat.not_lt.1 hk))
        rw [if_neg hk, if_neg hge]
        rfl
  | handle n =>
      have hkept : ∀ r, s.handles[n]? = some r → π.handle n = true := fun r hr =>
        (ht.handle hr).trans (hw r.1 (by simp [addressee, Session.reach, hr]))
      simp only [Address.rename, Session.reach, h.handle hkept]
      cases s.handles[n]? <;> rfl

theorem Part.addressee : s'.addressee (whom.rename π.numbers)
    = (s.addressee whom).map π.renaming.worker := by
  unfold Session.addressee
  rw [h.reach ht hw]
  cases s.reach whom <;> rfl

theorem Part.resolve : s'.resolve (whom.rename π.numbers)
    = (s.resolve whom).map (renameHandle π.renaming) := by
  unfold Session.resolve
  rw [h.reach ht hw]
  cases hr : s.reach whom with
  | error a => cases whom <;> rfl
  | ok r =>
      obtain ⟨k, n⟩ := r
      have hk : π.worker k = true := hw k (by simp [Session.addressee, hr])
      have howns := h.shop.owns (.inl hk)
      cases whom with
      | handle j => rfl
      | worker j =>
          simp only [Except.map, Address.rename, renameHandle, howns]
          split <;> rfl

/-- **A command that means a worker.** -/
theorem Part.withWorker {f f' : Nat → Nat → Answer × Session α}
    (hf : ∀ k n, s.addressee whom = some k → s.withWorker whom f = f k n →
      π.Told (f k n) (f' (π.renaming.worker k) n)) :
    π.Told (s.withWorker whom f) (s'.withWorker (whom.rename π.numbers) f') := by
  unfold Session.withWorker at hf ⊢
  rw [h.resolve ht hw]
  cases hr : s.resolve whom with
  | error a => exact ⟨(rename_of_resolve _ hr).symm, h⟩
  | ok r => exact hf r.1 r.2 (eq_of_resolve hr) (by rw [hr])

theorem Part.withOwned {f f' : Nat → Answer × Session α}
    (hf : ∀ k, s.addressee whom = some k → s.withOwned whom f = f k →
      π.Told (f k) (f' (π.renaming.worker k))) :
    π.Told (s.withOwned whom f) (s'.withOwned (whom.rename π.numbers) f') := by
  unfold Session.withOwned Session.resolveOwned at hf ⊢
  rw [h.resolve ht hw]
  cases hr : s.resolve whom with
  | error a => exact ⟨(rename_of_resolve _ hr).symm, h⟩
  | ok r =>
      have hk := eq_of_resolve hr
      have howns := h.shop.owns (.inl (hw r.1 hk))
      simp only [Except.map, renameHandle, howns]
      cases ho : s.shop.owns r.1 with
      | false => exact ⟨rfl, h⟩
      | true => exact hf r.1 hk (by simp only [hr, ho, if_true])

end Addresses

end Session.Portion

/-! ## What a session sees of its workshop -/

namespace Workshop.Share

variable {p : Share} {w w' : Workshop α} {k c : Nat}

theorem Part.lastReceipt (h : p.Part w w') (hc : p.client c = true) :
    Session.lastReceipt w' (p.renaming.client c) = Session.lastReceipt w c := by
  unfold Session.lastReceipt
  rw [h.client hc]
  cases w.clients[c]? with
  | none => rfl
  | some client => simp [Client.rename]

theorem Part.held (h : p.Part w w') (hk : p.worker k = true) :
    Session.held w' (p.renaming.worker k) = Session.held w k := by
  unfold Session.held
  rw [h.worker (.inl hk)]
  cases w.workers[k]? with
  | none => rfl
  | some v => simp

theorem Part.wouldWait (h : p.Part w w') (hk : p.worker k = true) :
    Session.wouldWait w' (p.renaming.worker k) = Session.wouldWait w k := by
  unfold Session.wouldWait
  rw [h.worker (.inl hk)]
  cases w.workers[k]? with
  | none => rfl
  | some v =>
      simp only [Option.map_some, Option.any_some, Worker.held_rename]
      simp only [Worker.rename, Mailbox.isOpen_map, Mailbox.isFull_map]

theorem Part.endOf (h : p.Part w w') (hk : p.worker k = true) :
    Session.endOf w' (p.renaming.worker k) = Session.endOf w k := by
  unfold Session.endOf
  rw [h.worker (.inl hk)]
  cases w.workers[k]? with
  | none => rfl
  | some v => simp

/-! ## Calls -/

/-- What is done where it can be done, on both sides. -/
theorem Part.getD {out out' : Option (Workshop α)} (h : p.Part w w')
    (ho : Option.Rel p.Part out out') : p.Part (out.getD w) (out'.getD w') := by
  cases ho with
  | some hpart => exact hpart
  | none => exact h

theorem Part.callBy (h : p.Part w w') (hc : p.client c = true) (hk : p.worker k = true)
    (manner : Manner) (job : Work α) :
    p.Part (Session.callBy w manner c k job)
      (Session.callBy w' manner (p.renaming.client c) (p.renaming.worker k)
        (renameJob p.renaming.worker job)) :=
  h.getD (h.call hc hk manner job)

theorem Part.sendAll (h : p.Part w w') (hc : p.client c = true) (hk : p.worker k = true)
    (jobs : List (Work α)) :
    (Session.sendAll (p.renaming.client c) (p.renaming.worker k)
        (jobs.map (renameJob p.renaming.worker)) w').1 = (Session.sendAll c k jobs w).1 ∧
      p.Part (Session.sendAll c k jobs w).2
        (Session.sendAll (p.renaming.client c) (p.renaming.worker k)
          (jobs.map (renameJob p.renaming.worker)) w').2 := by
  induction jobs generalizing w w' with
  | nil => exact ⟨rfl, h⟩
  | cons job jobs ih =>
      have hcall := h.callBy hc hk .prompt job
      obtain ⟨hreceipts, hpart⟩ := ih hcall
      simp only [List.map_cons, Session.sendAll, hreceipts, hcall.lastReceipt hc]
      exact ⟨trivial, hpart⟩

/-- A call within the share leaves share and rest apart. -/
theorem Apart.callBy (h : p.Apart w) (hside : p.client c = p.worker k) {job : Work α}
    (hjob : p.Within k job) (manner : Manner) : p.Apart (Session.callBy w manner c k job) := by
  unfold Session.callBy
  cases hm : w.call manner c k job with
  | none => exact h
  | some w₁ =>
      have hmove : w.move (.call manner c k job) = some w₁ := hm
      have ho : (Move.call manner c k job).Ordered k 0 [job] :=
        .call manner (Nat.zero_le c) (.inr List.mem_cons_self)
      rw [Option.getD_some]
      refine h.move hmove ?_ fun _ _ _ _ heq => ?_
      · rw [length_workers_of_ordered ho hmove]
        exact h.count
      · cases heq
        exact ⟨hside, hjob⟩

/-! ## Rushes -/

/-- Many clients of the share come. -/
theorem Part.crowd (h : p.Part w w') {n : Nat}
    (hc : ∀ i < n, p.client (w.clients.length + i) = true) :
    p.Part { w with clients := w.clients ++ List.replicate n {} }
      { w' with clients := w'.clients ++ List.replicate n {} } where
  workers := h.workers
  clients := by
    rw [select_append, selectFrom_of_keep (by simpa using hc), List.map_append, h.clients,
      List.map_replicate]
    rfl

theorem Part.rushWith (h : p.Part w w') (ha : p.Apart w) (hk : p.worker k = true)
    {calls : List Nat} (hc : ∀ c ∈ calls, p.client c = true) (manner : Manner) :
    p.Part (Session.rushWith manner k calls w)
      (Session.rushWith manner (p.renaming.worker k) (calls.map p.renaming.client) w') := by
  induction calls generalizing w w' with
  | nil => exact h
  | cons c calls ih =>
      have hkept := hc c List.mem_cons_self
      have hapart : p.Apart (Session.callBy w manner c k .done) :=
        ha.callBy (hkept.trans hk.symm) (within_done p k) manner
      exact ih ((h.callBy hkept hk manner .done).settle hapart) hapart.settle
        fun c' hc' => hc c' (List.mem_cons_of_mem _ hc')

/-- The clients of a rush bear the ranks of their numbers. -/
theorem rushCalls_rename {first threads : Nat} (hc : ∀ i < threads, p.client (first + i) = true)
    (jobs : Nat) :
    Session.rushCalls (p.renaming.client first) threads jobs
      = (Session.rushCalls first threads jobs).map p.renaming.client := by
  unfold Session.rushCalls
  rw [List.map_flatMap, List.flatMap_def, List.flatMap_def]
  refine congrArg List.flatten (List.map_congr_left fun t ht => ?_)
  have hrank : p.renaming.client (first + t) = p.renaming.client first + t :=
    rank_add fun i hi => hc i (Nat.lt_trans hi (List.mem_range.1 ht))
  rw [List.map_replicate, hrank]

theorem mem_rushCalls {first threads jobs c : Nat} (h : c ∈ Session.rushCalls first threads jobs) :
    ∃ t, t < threads ∧ c = first + t := by
  obtain ⟨t, ht, hc⟩ := List.mem_flatMap.1 h
  exact ⟨t, List.mem_range.1 ht, (List.mem_replicate.1 hc).2⟩

/-- Which jobs of a client a worker started. -/
theorem startedTickets_rename {v : Worker α} (hv : v.Keeps p.custom k) (hk : p.worker k = true)
    (hc : p.client c = true) :
    Session.startedTickets (v.rename p.renaming) (p.renaming.client c)
      = Session.startedTickets v c := by
  unfold Session.startedTickets
  have hsame : ∀ mail ∈ v.started,
      ((renameMail p.renaming mail).sender == .client (p.renaming.client c))
        = (mail.sender == .client c) := by
    intro mail hmail
    rw [Bool.eq_iff_iff, beq_iff_eq, beq_iff_eq]
    cases hs : mail.sender with
    | worker j => simp [renameMail, hs, Sender.rename]
    | client c' =>
        have hkept : p.client c' = true := (hv.started mail hmail c' hs).trans hk
        simp only [renameMail, hs, Sender.rename, Sender.client.injEq]
        exact ⟨eq_of_rank_eq hkept hc, fun heq => by rw [heq]⟩
  have hstarted : (v.rename p.renaming).started = v.started.map (renameMail p.renaming) := rfl
  rw [hstarted, List.filter_map, List.map_map]
  exact congrArg (List.map _) (List.filter_congr hsame)

/-- **The counts of a rush** by clients of the share, who are the last that came. -/
theorem Part.tally (h : p.Part w w') {v : Worker α} (hv : v.Keeps p.custom k)
    (hk : p.worker k = true) {first threads : Nat}
    (hthreads : first + threads ≤ w.clients.length)
    (hc : ∀ c, first ≤ c → c < w.clients.length → p.client c = true) :
    Session.tally w' (v.rename p.renaming) (p.renaming.client first) threads
      = Session.tally w v first threads := by
  have hreceipts : (w'.clients.drop (p.renaming.client first)).flatMap Client.receipts
      = (w.clients.drop first).flatMap Client.receipts := by
    have hdrop : (select p.client w.clients).drop (p.renaming.client first)
        = w.clients.drop first :=
      drop_select (Nat.le_trans (Nat.le_add_right _ _) hthreads) hc
    rw [h.clients, ← List.map_drop, hdrop, List.flatMap_map]
    rfl
  have htickets : ((List.range threads).map (p.renaming.client first + ·)).map
        (Session.startedTickets (v.rename p.renaming))
      = ((List.range threads).map (first + ·)).map (Session.startedTickets v) := by
    rw [List.map_map, List.map_map]
    refine List.map_congr_left fun t ht => ?_
    have ht := List.mem_range.1 ht
    have hkept : ∀ i < threads, p.client (first + i) = true := fun i hi =>
      hc _ (Nat.le_add_right _ _) (Nat.lt_of_lt_of_le (Nat.add_lt_add_left hi _) hthreads)
    have hrank : p.renaming.client (first + t) = p.renaming.client first + t :=
      rank_add fun i hi => hkept i (Nat.lt_trans hi ht)
    simp only [Function.comp_apply, ← hrank]
    exact startedTickets_rename hv hk (hkept t ht)
  simp only [Session.tally, hreceipts, htickets, Worker.peak_rename]

/-! ## Hires -/

/-- Two hires come to the same, on both sides. -/
inductive Hires (p : Share) : Hiring α → Hiring α → Prop
  /-- There is one more worker. -/
  | hired {w w' : Workshop α} (h : p.Part w w') : Hires p (.hired w) (.hired w')
  /-- The thread is refused. -/
  | refused (f : HireFailure) : Hires p (.refused f) (.refused f)
  /-- The attempt panics. -/
  | panicked (q : HirePanic) : Hires p (.panicked q) (.panicked q)

theorem Part.hire (h : p.Part w w') {settings : Settings} {identity : String}
    {fault : Option Fault} (hk : ∀ w₁, w.hire settings identity fault = .hired w₁ →
      p.worker w.workers.length = true) :
    p.Hires (w.hire settings identity fault) (w'.hire settings identity fault) := by
  unfold Workshop.hire at hk ⊢
  cases ho : settings.objection? identity with
  | some q => exact .panicked q
  | none =>
      cases fault with
      | some fault => exact .refused _
      | none => exact .hired (h.hired (hk _ (by simp only [ho]; rfl)) settings identity)

theorem Hires.usual {name : String} {fault : Option Fault}
    (h : p.Hires (w.hire {} name fault) (w'.hire {} name fault)) :
    p.Hires (w.hireUsual name fault) (w'.hireUsual name fault) := by
  unfold Workshop.hireUsual
  generalize w.hire {} name fault = out, w'.hire {} name fault = out' at h ⊢
  cases h with
  | hired h => exact .hired h
  | refused => exact .panicked _
  | panicked q => exact .panicked q

end Workshop.Share

namespace Session.Portion

variable {π : Portion} {s s' t t' : Session α} {w w' : Workshop α} {k : Nat}
  {jobs : List (Work α)}

/-! ## What is handed out -/

theorem Listed.giveHandle (h : π.Listed s s') (hn : π.handle s.handles.length = true)
    (r : Nat × Nat) :
    π.Listed { s with handles := s.handles ++ [r] }
      { s' with handles := s'.handles ++ [renameHandle π.renaming r] } where
  handles := by rw [select_concat hn, h.handles, List.map_append, List.map_singleton]
  errands := h.errands
  waits := h.waits

theorem Listed.giveErrand (h : π.Listed s s') (hn : π.errand s.errands.length = true)
    (e : Errand) :
    π.Listed { s with errands := s.errands ++ [e] }
      { s' with errands := s'.errands ++ [e.rename π.renaming] } where
  handles := h.handles
  errands := by rw [select_concat hn, h.errands, List.map_append, List.map_singleton]
  waits := h.waits

theorem Listed.giveWait (h : π.Listed s s') (hn : π.wait s.waits.length = true) (v : Wait) :
    π.Listed { s with waits := s.waits ++ [v] }
      { s' with waits := s'.waits ++ [v.rename π.renaming] } where
  handles := h.handles
  errands := h.errands
  waits := by rw [select_concat hn, h.waits, List.map_append, List.map_singleton]

theorem Listed.length_handles (h : π.Listed s s') :
    s'.handles.length = π.numbers.handle s.handles.length := by
  rw [h.handles, List.length_map, length_select]
  rfl

theorem Listed.length_errands (h : π.Listed s s') :
    s'.errands.length = π.numbers.errand s.errands.length := by
  rw [h.errands, List.length_map, length_select]
  rfl

theorem Listed.length_waits (h : π.Listed s s') :
    s'.waits.length = π.numbers.wait s.waits.length := by
  rw [h.waits, List.length_map, length_select]
  rfl

/-- What is handed out last bears the number next to the last one. -/
theorem Tabled.last {β : Type} {keep : Nat → Bool} {side : β → Bool} {l : List β} {a : β}
    (h : ∀ {n : Nat} {b : β}, (l ++ [a])[n]? = some b → keep n = side b) :
    keep l.length = side a :=
  h (List.getElem?_concat_length ..)

/-! ## Commands one by one -/

section Commands

variable (h : π.Part s s') (ha : π.Apart s) (hk : π.worker k = true)

include h ha

/-- Moves are made, and all comes to rest. -/
theorem Part.acts (hw : π.toShare.Part w w')
    (hd : Dealing k s.shop.clients.length jobs s.shop w) (hf : π.Fair k jobs s (s.restWith w)) :
    π.Part (s.restWith w) (s'.restWith w') :=
  Part.restWith h.toListed hw (hd.apart ha.shop hf.within hf.newcomers) ha.tabled ha.errands

include hk

theorem Part.send {job : Work α} (hj : job ∈ jobs) (manner : Manner)
    (hf : π.Fair k jobs s (s.send k manner job).2) :
    π.Told (s.send k manner job)
      (s'.send (π.renaming.worker k) manner (renameJob π.renaming.worker job)) := by
  unfold Session.send at hf ⊢
  rw [h.shop.wouldWait hk]
  by_cases hwait : manner = .patient ∧ Session.wouldWait s.shop k = true
  · rw [if_pos hwait, if_pos hwait]
    exact ⟨rfl, h⟩
  · rw [if_neg hwait] at hf
    rw [if_neg hwait, if_neg hwait, h.shop.length_clients]
    have hnew : π.client s.shop.clients.length = true :=
      (hf.newcomers _ (Nat.le_refl _) (lt_length_callBy_welcome ..)).trans hk
    have hcall := (h.shop.welcome hnew).callBy hnew hk manner job
    have hrest := h.acts ha hcall
      (Dealing.refl.welcome.callBy manner (Nat.le_refl _) (.inr hj)) hf
    refine ⟨?_, hrest⟩
    simp only [hrest.shop.lastReceipt hnew]
    cases Session.lastReceipt (s.restWith _).shop s.shop.clients.length <;> rfl

theorem Part.sendAside {job : Work α} (hj : job ∈ jobs)
    (hf : π.Fair k jobs s (s.sendAside k job).2) :
    π.Told (s.sendAside k job)
      (s'.sendAside (π.renaming.worker k) (renameJob π.renaming.worker job)) := by
  unfold Session.sendAside at hf ⊢
  rw [h.shop.length_clients]
  have hnew : π.client s.shop.clients.length = true :=
    (hf.newcomers _ (Nat.le_refl _) (lt_length_callBy_welcome ..)).trans hk
  have htabled := hf.tabled.of_restWith
  have hlisted := h.toListed.giveErrand ((Tabled.last htabled.errand).trans hk)
    { client := s.shop.clients.length, worker := k }
  have hd : Dealing k s.shop.clients.length jobs s.shop
      (callBy s.shop.welcome .patient s.shop.clients.length k job) :=
    Dealing.refl.welcome.callBy .patient (Nat.le_refl _) (.inr hj)
  refine ⟨congrArg Answer.errand h.length_errands, Part.restWith hlisted
    ((h.shop.welcome hnew).callBy hnew hk .patient job)
    (hd.apart ha.shop hf.within hf.newcomers) htabled fun e he => ?_⟩
  rcases List.mem_append.1 he with he | he
  · exact ha.errands e he
  · rw [List.mem_singleton.1 he]
    exact hnew.trans hk.symm

theorem Part.sendAll {more : List (Work α)} (hj : ∀ job ∈ more, job ∈ jobs)
    (hf : π.Fair k jobs s
      (s.restWith (Session.sendAll s.shop.clients.length k more s.shop.welcome).2)) :
    π.Told
      (.receipts (Session.sendAll s.shop.clients.length k more s.shop.welcome).1,
        s.restWith (Session.sendAll s.shop.clients.length k more s.shop.welcome).2)
      (.receipts (Session.sendAll s'.shop.clients.length (π.renaming.worker k)
          (more.map (renameJob π.renaming.worker)) s'.shop.welcome).1,
        s'.restWith (Session.sendAll s'.shop.clients.length (π.renaming.worker k)
          (more.map (renameJob π.renaming.worker)) s'.shop.welcome).2) := by
  have hlength : s.shop.clients.length
      < (Session.sendAll s.shop.clients.length k more s.shop.welcome).2.clients.length := by
    have hd : Dealing k 0 more s.shop.welcome _ :=
      Dealing.refl.sendAll (Nat.zero_le s.shop.clients.length) fun _ hjob => hjob
    exact Nat.lt_of_lt_of_le (by simp [Workshop.welcome]) hd.length_clients_le
  have hnew : π.client s.shop.clients.length = true :=
    (hf.newcomers _ (Nat.le_refl _) hlength).trans hk
  obtain ⟨hreceipts, hpart⟩ := (h.shop.welcome hnew).sendAll hnew hk more
  rw [h.shop.length_clients]
  refine ⟨congrArg Answer.receipts hreceipts, h.acts ha hpart ?_ hf⟩
  exact Dealing.refl.welcome.sendAll (Nat.le_refl _) hj

theorem Part.await (hf : π.Fair k jobs s (s.await k).2) :
    π.Told (s.await k) (s'.await (π.renaming.worker k)) := by
  unfold Session.await at hf ⊢
  rw [h.shop.held hk]
  cases hheld : Session.held s.shop k with
  | true => exact ⟨rfl, h⟩
  | false =>
      rw [hheld] at hf
      have hrest := h.acts ha (h.shop.getD (h.shop.leave hk)) (Dealing.refl.getD .leave) hf
      refine ⟨?_, hrest⟩
      simp only [Bool.false_eq_true, if_false, hrest.shop.endOf hk]
      rcases endOf_eq (s.restWith ((s.shop.leave k).getD s.shop)).shop k with hend | ⟨o, hend⟩
      · rw [hend]
        rfl
      · rw [hend]
        rfl

theorem Part.awaitAside
    (hf : π.Fair k jobs s (Session.restWith { s with waits := s.waits ++ [{ worker := k }] }
      ((s.shop.leave k).getD s.shop))) :
    π.Told
      (.wait s.waits.length, Session.restWith { s with waits := s.waits ++ [{ worker := k }] }
        ((s.shop.leave k).getD s.shop))
      (.wait s'.waits.length,
        Session.restWith { s' with waits := s'.waits ++ [{ worker := π.renaming.worker k }] }
          ((s'.shop.leave (π.renaming.worker k)).getD s'.shop)) := by
  have htabled := hf.tabled.of_restWith
  have hlisted := h.toListed.giveWait ((Tabled.last htabled.wait).trans hk) { worker := k }
  have hd : Dealing k s.shop.clients.length jobs s.shop ((s.shop.leave k).getD s.shop) :=
    Dealing.refl.getD .leave
  exact ⟨congrArg Answer.wait h.length_waits, Part.restWith hlisted
    (h.shop.getD (h.shop.leave hk)) (hd.apart ha.shop hf.within hf.newcomers) htabled ha.errands⟩

theorem Part.giveHandle (n given : Nat)
    (hf : π.Fair k jobs s (Session.restWith { s with handles := s.handles ++ [(k, given)] }
      (s.shop.cloneHandle k n))) :
    π.Told
      (.handle s.handles.length,
        Session.restWith { s with handles := s.handles ++ [(k, given)] } (s.shop.cloneHandle k n))
      (.handle s'.handles.length,
        Session.restWith { s' with handles := s'.handles ++ [(π.renaming.worker k, given)] }
          (s'.shop.cloneHandle (π.renaming.worker k) n)) := by
  have htabled := hf.tabled.of_restWith
  have hlisted := h.toListed.giveHandle ((Tabled.last htabled.handle).trans hk) (k, given)
  have hd : Dealing k s.shop.clients.length jobs s.shop (s.shop.cloneHandle k n) :=
    Dealing.refl.getD (.cloneHandle n)
  exact ⟨congrArg Answer.handle h.length_handles, Part.restWith hlisted
    (h.shop.cloneHandle hk n) (hd.apart ha.shop hf.within hf.newcomers) htabled ha.errands⟩

theorem Part.rush (manner : Manner) (threads count : Nat)
    (hf : π.Fair k jobs s (s.rush k manner threads count).2) :
    π.Told (s.rush k manner threads count)
      (s'.rush (π.renaming.worker k) manner threads count) := by
  have hfull : (s'.shop.workers[π.renaming.worker k]?).any
        (fun v => v.held && v.mailbox.capacity.isSome)
      = (s.shop.workers[k]?).any fun v => v.held && v.mailbox.capacity.isSome := by
    rw [h.shop.worker (.inl hk), Option.any_map]
    refine congrArg (fun f => Option.any f _) (funext fun v => ?_)
    simp only [Worker.held_rename]
    rfl
  cases hwait : (s.shop.workers[k]?).any fun v => v.held && v.mailbox.capacity.isSome with
  | true =>
      unfold Session.rush
      rw [hfull, if_pos hwait, if_pos hwait]
      exact ⟨rfl, h⟩
  | false =>
      rw [rush_of_not_held hwait] at hf ⊢
      rw [rush_of_not_held (hfull.trans hwait)]
      have hd : Dealing k s.shop.clients.length jobs s.shop _ :=
        dealing_rushed s.shop k manner threads count
      have hcrowd : s.shop.clients.length + threads
          ≤ (rushed s.shop k manner threads count).clients.length := by
        have hcalls : Dealing k 0 jobs { s.shop with
            clients := s.shop.clients ++ List.replicate threads {} }
            (rushed s.shop k manner threads count) :=
          Dealing.refl.rushWith manner fun _ _ => Nat.zero_le _
        simpa using hcalls.length_clients_le
      have hnew : ∀ i < threads, π.client (s.shop.clients.length + i) = true := fun i hi =>
        (hf.newcomers _ (Nat.le_add_right _ _)
          (Nat.lt_of_lt_of_le (Nat.add_lt_add_left hi _) hcrowd)).trans hk
      have hapart := (Dealing.refl.crowd threads).apart ha.shop hf.within fun c hge hlt => by
        refine hf.newcomers c hge (Nat.lt_of_lt_of_le hlt ?_)
        simpa using hcrowd
      have hpart : π.toShare.Part (rushed s.shop k manner threads count)
          (rushed s'.shop (π.renaming.worker k) manner threads count) := by
        unfold rushed
        rw [h.shop.length_clients, Share.rushCalls_rename hnew]
        refine (h.shop.crowd hnew).rushWith hapart hk (fun c hc => ?_) manner
        obtain ⟨t, ht, rfl⟩ := Share.mem_rushCalls hc
        exact hnew t ht
      have hrest := h.acts ha hpart hd hf
      refine ⟨?_, hrest⟩
      simp only [hrest.shop.worker (.inl hk), h.shop.length_clients]
      cases hv : (s.restWith (rushed s.shop k manner threads count)).shop.workers[k]? with
      | none => rfl
      | some v =>
          have hsettle := (hd.apart ha.shop hf.within hf.newcomers).settle
          refine congrArg Answer.tally (hrest.shop.tally (hsettle.keeps.workers hv) hk
            (Nat.le_trans hcrowd (length_clients_le_settle _)) fun c hge hlt => ?_)
          exact (hf.clients c hge hlt).trans hk

omit hk in
/-- A hire, whatever comes of it. -/
theorem Part.hires {hiring hiring' : Hiring α} (name : String)
    (hh : π.toShare.Hires hiring hiring')
    (happart : π.toShare.Apart (s.shop.afterHiring hiring)) :
    π.Told (s.hiringAnswer name hiring, s.restWith (s.shop.afterHiring hiring))
      (s'.hiringAnswer name hiring', s'.restWith (s'.shop.afterHiring hiring')) := by
  cases hh with
  | hired hpart =>
      have hrest := Part.restWith h.toListed hpart happart ha.tabled ha.errands
      refine ⟨?_, hrest⟩
      simp only [hiringAnswer, h.shop.length_workers]
      rfl
  | refused | panicked =>
      exact ⟨rfl, Part.restWith h.toListed h.shop ha.shop ha.tabled ha.errands⟩

omit hk in
theorem Part.collect {n : Nat} (hn : ∀ k, s.target (.collect n) = some k → π.worker k = true) :
    π.Told (s.perform (.collect n)) (s'.perform (.collect (π.numbers.errand n))) := by
  have hkept : ∀ e, s.errands[n]? = some e → π.worker e.worker = true := fun e he =>
    hn e.worker (by rw [Session.target, he]; rfl)
  simp only [Session.perform, h.errand fun e he => (ha.tabled.errand he).trans (hkept e he)]
  cases he : s.errands[n]? with
  | none => exact ⟨rfl, h⟩
  | some e =>
      have hc : π.client e.client = true :=
        (ha.errands e (List.mem_of_getElem? he)).trans (hkept e he)
      refine ⟨?_, h⟩
      simp only [Option.map_some, Errand.rename, h.shop.lastReceipt hc]
      split
      · cases Session.lastReceipt s.shop e.client <;> rfl
      · rfl

omit hk in
theorem Part.awaited {n : Nat} (hn : ∀ k, s.target (.awaited n) = some k → π.worker k = true) :
    π.Told (s.awaited n) (s'.awaited (π.numbers.wait n)) := by
  have hkept : ∀ v, s.waits[n]? = some v → π.worker v.worker = true := fun v hv =>
    hn v.worker (by rw [Session.target, hv]; rfl)
  have hwait := h.wait fun v hv => (ha.tabled.wait hv).trans (hkept v hv)
  unfold Session.awaited
  rw [hwait]
  cases hv : s.waits[n]? with
  | none => exact ⟨rfl, h⟩
  | some v =>
      obtain ⟨k, answered⟩ := v
      cases answered with
      | true => exact ⟨rfl, h⟩
      | false =>
          have hk : π.worker k = true := hkept _ hv
          have hend := h.shop.endOf hk
          have hpart : π.Part
              { s with waits := s.waits.modify n fun v => { v with answered := true } }
              { s' with
                waits := s'.waits.modify (π.numbers.wait n) fun v =>
                  { v with answered := true } } :=
            { handles := h.handles, errands := h.errands, shop := h.shop
              waits := by
                simp only [h.waits]
                exact (map_select_modify ((ha.tabled.wait hv).trans hk) fun _ _ => by rfl).symm }
          simp only [Option.map_some, Wait.rename, hend]
          rcases endOf_eq s.shop k with hended | ⟨o, hended⟩
          · rw [hended]
            exact ⟨rfl, h⟩
          · rw [hended]
            exact ⟨rfl, hpart⟩

end Commands

/-! ## All commands -/

/-- A command is addressed to nobody in the rest, and what it brings is on the side of the
worker it is addressed to. -/
structure Ours (π : Portion) (s : Session α) (c : Command α) : Prop where
  /-- It is addressed to a worker of the portion, or to nobody. -/
  kept : ∀ k, s.target c = some k → π.worker k = true
  /-- What it brings is on the worker's side. -/
  fair : ∀ k, s.target c = some k → π.Fair k c.jobs s (s.perform c).2

variable {c : Command α}

theorem hires_of_hiree (h : π.Part s s') {settings : Settings} {name : String}
    {fault : Option Fault} (hk : ∀ k, s.hiree (s.shop.hire settings name fault) = some k →
      π.worker k = true) :
    π.toShare.Hires (s.shop.hire settings name fault) (s'.shop.hire settings name fault) :=
  h.shop.hire fun w₁ hw₁ => hk _ (by rw [hw₁]; rfl)

/-- **Whom a command is addressed to** does not change with the numbers. -/
theorem Part.target (h : π.Part s s') (ht : π.Tabled s)
    (hc : ∀ k, s.target c = some k → π.worker k = true) :
    s'.target (c.rename π.numbers) = (s.target c).map π.renaming.worker := by
  have hhiree : ∀ {hiring hiring' : Hiring α}, π.toShare.Hires hiring hiring' →
      s'.hiree hiring' = (s.hiree hiring).map π.renaming.worker := by
    intro hiring hiring' hh
    cases hh with
    | hired => exact congrArg some h.shop.length_workers
    | refused | panicked => rfl
  cases c with
  | hire settings name fault => exact hhiree (hires_of_hiree h hc)
  | hireUsual name fault =>
      rw [Session.target, hiree_hireUsual] at hc
      exact hhiree (hires_of_hiree h hc).usual
  | collect n =>
      have hkept : ∀ e, s.errands[n]? = some e → π.worker e.worker = true := fun e he =>
        hc e.worker (by rw [Session.target, he]; rfl)
      simp only [Command.rename, Session.target,
        h.errand fun e he => (ht.errand he).trans (hkept e he)]
      cases s.errands[n]? <;> rfl
  | awaited n =>
      have hkept : ∀ v, s.waits[n]? = some v → π.worker v.worker = true := fun v hv =>
        hc v.worker (by rw [Session.target, hv]; rfl)
      simp only [Command.rename, Session.target,
        h.wait fun v hv => (ht.wait hv).trans (hkept v hv)]
      cases s.waits[n]? <;> rfl
  | send | sendAll | sendAside | stop | abandon | release | await | awaitAside | handle | inspect
  | identity | rush => exact h.addressee ht hc

/-- Who is hired is on one side. -/
theorem Apart.afterHiring (ha : π.Apart s) {settings : Settings} {name : String}
    {fault : Option Fault}
    (hcount : (s.restWith (s.shop.afterHiring
      (s.shop.hire settings name fault))).shop.workers.length ≤ π.count) :
    π.toShare.Apart (s.shop.afterHiring (s.shop.hire settings name fault)) := by
  simp only [Session.restWith, note, length_workers_settle] at hcount
  exact ha.shop.move (m := .hire settings name fault) rfl hcount fun _ _ _ _ heq => by cases heq

/-- There are never more workers than counted. -/
theorem Ours.count (hc : π.Ours s c) (ha : π.Apart s) (hr : s.Resting) :
    (s.perform c).2.shop.workers.length ≤ π.count := by
  cases hk : s.target c with
  | none =>
      rw [perform_of_target_eq_none hr hk]
      exact ha.shop.count
  | some k => exact (hc.fair k hk).count

/-- **A command to the portion is answered as if the portion were alone**, and leaves the
portion behind. -/
theorem Part.perform (h : π.Part s s') (ha : π.Apart s) (hr : s.Resting) (hc : π.Ours s c) :
    π.Told (s.perform c) (s'.perform (c.rename π.numbers)) := by
  have hcount := hc.count ha hr
  cases c with
  | hire settings name fault =>
      exact h.hires ha name (hires_of_hiree h hc.kept) (ha.afterHiring hcount)
  | hireUsual name fault =>
      have hkept := hc.kept
      rw [Session.target, hiree_hireUsual] at hkept
      simp only [Session.perform, afterHiring_hireUsual] at hcount
      refine h.hires ha name (hires_of_hiree h hkept).usual ?_
      rw [afterHiring_hireUsual]
      exact ha.afterHiring hcount
  | send whom manner job =>
      refine h.withWorker ha.tabled hc.kept fun k n hk heq => ?_
      have hf := hc.fair k hk
      rw [Session.perform, heq] at hf
      exact h.send ha (hc.kept k hk) List.mem_cons_self manner hf
  | sendAll whom jobs =>
      refine h.withWorker ha.tabled hc.kept fun k n hk heq => ?_
      have hf := hc.fair k hk
      rw [Session.perform, heq] at hf
      exact h.sendAll ha (hc.kept k hk) (fun _ hjob => hjob) hf
  | sendAside whom job =>
      refine h.withWorker ha.tabled hc.kept fun k n hk heq => ?_
      have hf := hc.fair k hk
      rw [Session.perform, heq] at hf
      exact h.sendAside ha (hc.kept k hk) List.mem_cons_self hf
  | collect n => exact h.collect ha hc.kept
  | stop whom status =>
      refine h.withOwned ha.tabled hc.kept fun k hk heq => ?_
      have hf := hc.fair k hk
      rw [Session.perform, heq] at hf
      exact ⟨rfl, h.acts ha (h.shop.getD (h.shop.stop (hc.kept k hk) status))
        (Dealing.refl.getD (.stop status)) hf⟩
  | abandon whom =>
      refine h.withOwned ha.tabled hc.kept fun k hk heq => ?_
      have hf := hc.fair k hk
      rw [Session.perform, heq] at hf
      exact ⟨rfl, h.acts ha (h.shop.getD (h.shop.abandon (hc.kept k hk)))
        (Dealing.refl.getD .abandon) hf⟩
  | release whom =>
      have hf := hc.fair
      simp only [Session.perform] at hf
      simp only [Command.rename, Session.perform, h.reach ha.tabled hc.kept]
      cases hreach : s.reach whom with
      | error a => exact ⟨(rename_of_reach _ hreach).symm, h⟩
      | ok r =>
          obtain ⟨k, n⟩ := r
          have hk : s.addressee whom = some k := by rw [Session.addressee, hreach]
          have hrel := h.shop.release (hc.kept k hk)
          simp only [hreach] at hf
          simp only [Except.map, renameHandle]
          generalize s'.shop.release (π.renaming.worker k) = out' at hrel ⊢
          cases hw : s.shop.release k with
          | none =>
              rw [hw] at hrel
              cases hrel
              exact ⟨rfl, h⟩
          | some w =>
              rw [hw] at hrel
              cases hrel with
              | some hpart =>
                  have hf := hf k hk
                  rw [hw] at hf
                  exact ⟨rfl, h.acts ha hpart (Dealing.refl.move .release hw) hf⟩
  | await whom =>
      refine h.withOwned ha.tabled hc.kept fun k hk heq => ?_
      have hf := hc.fair k hk
      rw [Session.perform, heq] at hf
      exact h.await ha (hc.kept k hk) hf
  | awaitAside whom =>
      refine h.withOwned ha.tabled hc.kept fun k hk heq => ?_
      have hf := hc.fair k hk
      rw [Session.perform, heq] at hf
      exact h.awaitAside ha (hc.kept k hk) hf
  | awaited n => exact h.awaited ha hc.kept
  | handle whom =>
      refine h.withWorker ha.tabled hc.kept fun k n hk heq => ?_
      have hf := hc.fair k hk
      rw [Session.perform, heq] at hf
      have hgiven : ((s'.shop.workers[π.renaming.worker k]?).map fun v =>
            v.mailbox.handles.length).getD 0
          = ((s.shop.workers[k]?).map fun v => v.mailbox.handles.length).getD 0 := by
        rw [h.shop.worker (.inl (hc.kept k hk)), Option.map_map]
        rfl
      simp only [hgiven]
      exact h.giveHandle ha (hc.kept k hk) n _ hf
  | inspect whom =>
      refine h.withWorker ha.tabled hc.kept fun k n hk _ => ?_
      rw [h.shop.worker (.inl (hc.kept k hk))]
      cases whom with
      | worker j => exact ⟨rfl, h⟩
      | handle j =>
          cases s.shop.workers[k]? with
          | none => exact ⟨rfl, h⟩
          | some v =>
              refine ⟨?_, h⟩
              simp only [Option.map_some, Address.rename, Worker.rename, Mailbox.pending_map]
              rfl
  | identity whom =>
      refine h.withWorker ha.tabled hc.kept fun k n hk _ => ?_
      rw [h.shop.worker (.inl (hc.kept k hk))]
      cases s.shop.workers[k]? <;> exact ⟨rfl, h⟩
  | rush whom manner threads jobs =>
      refine h.withWorker ha.tabled hc.kept fun k n hk heq => ?_
      have hf := hc.fair k hk
      rw [Session.perform, heq] at hf
      exact h.rush ha (hc.kept k hk) manner threads jobs hf

end Session.Portion

end SerialWorkers
