import SerialWorkers.Proofs.Isolation.Growth
import SerialWorkers.Proofs.Isolation.Parts

/-!
# A session with a share alone

Of a session, too, a portion can be had on its own: some workers with their clients, and
the handles, errands and waits that are theirs, all under new numbers.

* `Numbers` — new numbers for what a session hands out.
* `Portion` — what belongs to a portion; `Portion.Part` is a session with nothing else.
* `Portion.Apart.dealt` — the portion and the rest stay apart.
* `Portion.Part.dealt_rest` — a command to the rest does not matter in the portion.
-/

namespace SerialWorkers

open Workshop

variable {α : Type}

namespace Session

/-! ## New numbers -/

/-- New numbers for what a session hands out. -/
structure Numbers where
  /-- The new number of a worker. -/
  worker : Nat → Nat
  /-- The new number of a handle. -/
  handle : Nat → Nat
  /-- The new number of an errand. -/
  errand : Nat → Nat
  /-- The new number of a wait. -/
  wait : Nat → Nat

/-- The new numbers in a table. -/
def Numbers.of (ν : Numbers) : Table → Nat → Nat
  | .handles => ν.handle
  | .errands => ν.errand
  | .waits => ν.wait

/-- An address under new numbers. -/
def Address.rename (ν : Numbers) : Address → Address
  | .worker k => .worker (ν.worker k)
  | .handle h => .handle (ν.handle h)

/-- A command under new numbers. -/
def Command.rename (ν : Numbers) : Command α → Command α
  | .hire settings name fault => .hire settings name fault
  | .hireUsual name fault => .hireUsual name fault
  | .send whom manner job => .send (whom.rename ν) manner (renameJob ν.worker job)
  | .sendAll whom jobs => .sendAll (whom.rename ν) (jobs.map (renameJob ν.worker))
  | .sendAside whom job => .sendAside (whom.rename ν) (renameJob ν.worker job)
  | .collect n => .collect (ν.errand n)
  | .stop whom status => .stop (whom.rename ν) status
  | .abandon whom => .abandon (whom.rename ν)
  | .release whom => .release (whom.rename ν)
  | .await whom => .await (whom.rename ν)
  | .awaitAside whom => .awaitAside (whom.rename ν)
  | .awaited n => .awaited (ν.wait n)
  | .handle whom => .handle (whom.rename ν)
  | .inspect whom => .inspect (whom.rename ν)
  | .identity whom => .identity (whom.rename ν)
  | .rush whom manner threads jobs => .rush (whom.rename ν) manner threads jobs

/-- An answer under new numbers. -/
def Answer.rename (ν : Numbers) : Answer → Answer
  | .hired k identity => .hired (ν.worker k) identity
  | .errand n => .errand (ν.errand n)
  | .wait n => .wait (ν.wait n)
  | .handle h => .handle (ν.handle h)
  | a => a

/-- An errand under new numbers. -/
def Errand.rename (r : Renaming) (e : Errand) : Errand :=
  ⟨r.client e.client, r.worker e.worker, e.settled⟩

/-- A wait under new numbers. -/
def Wait.rename (r : Renaming) (v : Wait) : Wait := ⟨r.worker v.worker, v.answered⟩

/-- A handle under new numbers. -/
def renameHandle (r : Renaming) (h : Nat × Nat) : Nat × Nat := (r.worker h.1, h.2)

/-! ## Portions -/

/-- A portion of a session: a share of its workshop, and what is handed out of it. -/
structure Portion extends Share where
  /-- Which handles belong to it. -/
  handle : Nat → Bool
  /-- Which errands do. -/
  errand : Nat → Bool
  /-- Which waits do. -/
  wait : Nat → Bool

namespace Portion

/-- The new numbers in a portion. -/
def numbers (π : Portion) : Numbers :=
  ⟨rank π.worker, rank π.handle, rank π.errand, rank π.wait⟩

/-- The rest of the session. -/
def others (π : Portion) : Portion :=
  ⟨π.rest, fun n => !π.handle n, fun n => !π.errand n, fun n => !π.wait n⟩

/-- What in a table belongs to the portion. -/
def keeps (π : Portion) : Table → Nat → Bool
  | .handles => π.handle
  | .errands => π.errand
  | .waits => π.wait

/-- What was handed out belongs to the portion just if its worker does. -/
def Tabled (π : Portion) (s : Session α) : Prop :=
  ∀ (t : Table) (n k : Nat), (s.owners t)[n]? = some k → π.keeps t n = π.worker k

/-- The portion and the rest have nothing to do with each other. -/
structure Apart (π : Portion) (s : Session α) : Prop where
  /-- Nor have the shares. -/
  shop : π.toShare.Apart s.shop
  /-- What was handed out is on the side of its worker. -/
  tabled : π.Tabled s
  /-- And so is the client of an errand. -/
  errands : ∀ e ∈ s.errands, π.client e.client = π.worker e.worker

/-- The tables of `s'` are those of the portion of `s`. -/
structure Listed (π : Portion) (s s' : Session α) : Prop where
  /-- Its handles. -/
  handles : s'.handles = (select π.handle s.handles).map (renameHandle π.renaming)
  /-- Its errands. -/
  errands : s'.errands = (select π.errand s.errands).map (Errand.rename π.renaming)
  /-- Its waits. -/
  waits : s'.waits = (select π.wait s.waits).map (Wait.rename π.renaming)

/-- Session `s'` is the portion of `s`. -/
structure Part (π : Portion) (s s' : Session α) : Prop extends π.Listed s s' where
  /-- Its workshop is the share. -/
  shop : π.toShare.Part s.shop s'.shop

variable {π : Portion} {s s' s₁ : Session α} {w w' : Workshop α} {k : Nat}
  {jobs : List (Work α)}

theorem numbers_of (π : Portion) (t : Table) : π.numbers.of t = rank (π.keeps t) := by
  cases t <;> rfl

theorem keeps_others (π : Portion) (t : Table) : π.others.keeps t = fun n => !π.keeps t n := by
  cases t <;> rfl

theorem Listed.owners (h : π.Listed s s') (t : Table) :
    s'.owners t = (select (π.keeps t) (s.owners t)).map (rank π.worker) := by
  cases t with
  | handles =>
      simp only [Session.owners, h.handles, select_map, List.map_map]
      rfl
  | errands =>
      simp only [Session.owners, h.errands, select_map, List.map_map]
      rfl
  | waits =>
      simp only [Session.owners, h.waits, select_map, List.map_map]
      rfl

theorem Tabled.handle {n : Nat} {r : Nat × Nat} (h : π.Tabled s) (hn : s.handles[n]? = some r) :
    π.handle n = π.worker r.1 := h .handles n r.1 (by simp [owners, hn])

theorem Tabled.errand {n : Nat} {e : Errand} (h : π.Tabled s) (hn : s.errands[n]? = some e) :
    π.errand n = π.worker e.worker := h .errands n e.worker (by simp [owners, hn])

theorem Tabled.wait {n : Nat} {v : Wait} (h : π.Tabled s) (hn : s.waits[n]? = some v) :
    π.wait n = π.worker v.worker := h .waits n v.worker (by simp [owners, hn])

theorem Tabled.others (h : π.Tabled s) : π.others.Tabled s := by
  intro t n k hn
  rw [keeps_others]
  exact congrArg _ (h t n k hn)

theorem Apart.others (h : π.Apart s) : π.others.Apart s where
  shop := h.shop.rest
  tabled := h.tabled.others
  errands e he := by simp [Portion.others, Share.rest, h.errands e he]

theorem apart_empty (π : Portion) : π.Apart ({} : Session α) where
  shop := Share.apart_empty _
  tabled t n k hn := by cases t <;> simp [owners] at hn
  errands _ he := by cases he

theorem part_empty (π : Portion) : π.Part ({} : Session α) {} :=
  ⟨⟨rfl, rfl, rfl⟩, Share.part_empty _⟩

/-! ## Rest -/

/-- Whether an errand's end is known is seen in the portion alone. -/
theorem known_rename {e : Errand} (h : π.toShare.Part w w') (hc : π.client e.client = true)
    (hk : π.worker e.worker = true) : known w' (e.rename π.renaming) = known w e := by
  have hcall : ∀ client : Client α,
      (client.rename π.renaming).sending.isNone = client.sending.isNone := fun client => by
    simp [Client.rename]
  have hopen : ∀ v : Worker α, (v.rename π.renaming).mailbox.isOpen = v.mailbox.isOpen :=
    fun _ => rfl
  simp only [known, Errand.rename, h.client hc, h.worker (.inl hk), Option.any_map, hcall,
    hopen, Worker.held_rename]

theorem Tabled.of_restWith (h : π.Tabled (s.restWith w)) : π.Tabled s := by
  intro t n k hn
  rw [← owners_restWith s w] at hn
  exact h t n k hn

/-- **A portion comes to rest as if it were alone.** -/
theorem Part.restWith (h : π.Listed s s') (hw : π.toShare.Part w w') (ha : π.toShare.Apart w)
    (ht : π.Tabled s) (he : ∀ e ∈ s.errands, π.client e.client = π.worker e.worker) :
    π.Part (s.restWith w) (s'.restWith w') where
  handles := h.handles
  errands := by
    have hsettle := hw.settle ha
    simp only [Session.restWith, note, h.errands, select_map, List.map_map]
    refine List.map_congr_left fun e hmem => ?_
    obtain ⟨n, hn, hget⟩ := exists_of_mem_select hmem
    have hk : π.worker e.worker = true := (ht.errand hget).symm.trans hn
    have hc : π.client e.client = true := (he e (List.mem_of_getElem? hget)).trans hk
    have hknown := known_rename hsettle hc hk
    simp only [Function.comp_apply, hknown]
    rfl
  waits := h.waits
  shop := hw.settle ha

/-! ## What a command does to the other side -/

/-- What a command addressed to worker `k` brings is marked as being on its side: the
clients, and what is handed out. -/
structure Marked (π : Portion) (k : Nat) (s s₁ : Session α) : Prop where
  /-- There are no more workers than counted. -/
  count : s₁.shop.workers.length ≤ π.count
  /-- New clients are on the worker's side. -/
  clients : ∀ c, s.shop.clients.length ≤ c → c < s₁.shop.clients.length →
    π.client c = π.worker k
  /-- What is handed out is on the side of its worker. -/
  tabled : π.Tabled s₁

/-- And so are those whom its jobs name. -/
structure Fair (π : Portion) (k : Nat) (jobs : List (Work α)) (s s₁ : Session α) : Prop
    extends π.Marked k s s₁ where
  /-- No job names across the border. -/
  within : ∀ job ∈ jobs, π.Within k job

theorem Fair.newcomers {t : Session α} (hf : π.Fair k jobs s (t.restWith w)) :
    ∀ c, s.shop.clients.length ≤ c → c < w.clients.length → π.client c = π.worker k :=
  fun c hc hlt => hf.clients c hc (Nat.lt_of_lt_of_le hlt (length_clients_le_settle w))

theorem Marked.others (h : π.Marked k s s₁) : π.others.Marked k s s₁ where
  count := h.count
  clients c hc hlt := by simp [Portion.others, Share.rest, h.clients c hc hlt]
  tabled := h.tabled.others

theorem within_others {job : Work α} (h : π.Within k job) : π.others.Within k job := by
  intro t ht u hu
  rw [show π.others.toShare = π.toShare.rest from rfl, Share.near_rest]
  exact h t ht u hu

theorem Fair.others (h : π.Fair k jobs s s₁) : π.others.Fair k jobs s s₁ :=
  { h.toMarked.others with within := fun job hjob => within_others (h.within job hjob) }

end Portion

end Session

namespace Workshop.Dealing

variable {p : Share} {w w' w₁ : Workshop α} {k first : Nat} {jobs : List (Work α)}

theorem lt_of_call {manner : Manner} {c : Nat} {job : Work α}
    (h : w.call manner c k job = some w₁) : c < w.clients.length := by
  unfold call at h
  split at h
  · rename_i hc _
    exact (List.getElem?_eq_some_iff.1 hc).1
  · cases h

/-- **Share and rest stay apart**, whatever is done on behalf of one worker. -/
theorem apart (h : Dealing k first jobs w w₁) (ha : p.Apart w)
    (hjobs : ∀ job ∈ jobs, p.Within k job)
    (hclients : ∀ c, first ≤ c → c < w₁.clients.length → p.client c = p.worker k) :
    p.Apart w₁ := by
  induction h with
  | refl => exact ha
  | @move w₁ w₂ m h ho hm ih =>
      have hle := length_clients_le_of_move hm
      have ha₁ := ih fun c hc hlt => hclients c hc (Nat.lt_of_lt_of_le hlt hle)
      refine ha₁.move hm ?_ fun manner c j job hcalls => ?_
      · rw [length_workers_of_ordered ho hm]
        exact ha₁.count
      · cases ho with
        | call _ hc hj =>
            cases hcalls
            refine ⟨hclients c hc (Nat.lt_of_lt_of_le (lt_of_call hm) hle), ?_⟩
            rcases hj with rfl | hj
            · exact Share.within_done p k
            · exact hjobs job hj
        | _ => cases hcalls
  | settle h ih =>
      exact (ih fun c hc hlt => hclients c hc
        (Nat.lt_of_lt_of_le hlt (length_clients_le_settle _))).settle

/-- **What is done on behalf of a worker of the rest** does not matter in the share. -/
theorem part_rest (h : Dealing k first jobs w w₁) (hpart : p.Part w w') (ha : p.Apart w)
    (hstill : w'.next? = none) (hk : p.worker k = false)
    (hjobs : ∀ job ∈ jobs, p.Within k job) (hfirst : first ≤ w.clients.length)
    (hclients : ∀ c, first ≤ c → c < w₁.clients.length → p.client c = p.worker k) :
    p.Part w₁ w' := by
  induction h with
  | refl => exact hpart
  | @move w₁ w₂ m h ho hm ih =>
      have hle := length_clients_le_of_move hm
      have hbefore : ∀ c, first ≤ c → c < w₁.clients.length → p.client c = p.worker k :=
        fun c hc hlt => hclients c hc (Nat.lt_of_lt_of_le hlt hle)
      refine (ih hbefore).outside (h.apart ha hjobs hbefore) ?_ hm
      cases ho with
      | welcome =>
          cases hm
          have hlast := hclients w₁.clients.length (Nat.le_trans hfirst h.length_clients_le)
            (by simp [Workshop.welcome])
          exact hlast.trans hk
      | call _ hc hj => exact ⟨(hbefore _ hc (lt_of_call hm)).trans hk, hk⟩
      | release | stop | leave | abandon | cloneHandle => exact hk
  | @settle w₁ h ih =>
      have hbefore : ∀ c, first ≤ c → c < w₁.clients.length → p.client c = p.worker k :=
        fun c hc hlt => hclients c hc (Nat.lt_of_lt_of_le hlt (length_clients_le_settle _))
      have hsettle := (ih hbefore).settle (h.apart ha hjobs hbefore)
      rwa [settle_of_still hstill] at hsettle

end Workshop.Dealing

namespace Session.Portion

variable {π : Portion} {s s' s₁ : Session α} {k : Nat} {c : Command α}

/-- **The portion and the rest stay apart.** -/
theorem Apart.dealt (ha : π.Apart s) (hd : Dealt k c s s₁) (hf : π.Fair k c.jobs s s₁) :
    π.Apart s₁ := by
  cases hd with
  | idle => exact ha
  | @hired w _ _ _ _ hk hm =>
      refine ⟨(ha.shop.move hm ?_ fun _ _ _ _ heq => by cases heq).settle, hf.tabled, ?_⟩
      · have hcount := hf.count
        simp only [restWith, note, length_workers_settle] at hcount
        exact hcount
      · intro e he
        obtain ⟨e', he', rfl⟩ := List.mem_map.1 he
        exact ha.errands e' he'
  | @acts w hs es ws hw hhs hes hws =>
      have hclients := hf.newcomers
      refine ⟨(hw.apart ha.shop hf.within hclients).settle, hf.tabled, fun e he => ?_⟩
      obtain ⟨e', he', rfl⟩ := List.mem_map.1 he
      rcases List.mem_append.1 he' with he' | he'
      · exact ha.errands e' he'
      · obtain ⟨hworker, hge, hlt⟩ := hes e' he'
        exact (hclients e'.client hge hlt).trans (by rw [hworker])
  | answers => exact ⟨ha.shop, hf.tabled, ha.errands⟩

/-- **A command to the rest does not matter in the portion.** -/
theorem Part.dealt_rest (h : π.Part s s') (ha : π.Apart s) (hr : s'.Resting)
    (hd : Dealt k c s s₁) (hf : π.Fair k c.jobs s s₁) (hk : π.worker k = false) :
    π.Part s₁ s' := by
  cases hd with
  | idle => exact h
  | @hired w _ _ _ _ hlength hm =>
      subst hlength
      have hcount := hf.count
      simp only [Session.restWith, note, length_workers_settle] at hcount
      have hw : π.toShare.Part w s'.shop := h.shop.outside ha.shop (m := .hire _ _ _) hk hm
      have haw : π.toShare.Apart w := ha.shop.move hm hcount fun _ _ _ _ heq => by cases heq
      have hrest := Part.restWith h.toListed hw haw ha.tabled ha.errands
      rwa [hr.restWith_shop] at hrest
  | @acts w hs es ws hw hhs hes hws =>
      have hclients := hf.newcomers
      have haw := hw.apart ha.shop hf.within hclients
      have hpart := hw.part_rest h.shop ha.shop hr.still hk hf.within (Nat.le_refl _) hclients
      have htabled := hf.tabled.of_restWith
      have hlisted : π.Listed { s with
          handles := s.handles ++ hs, errands := s.errands ++ es, waits := s.waits ++ ws } s' := by
        refine ⟨?_, ?_, ?_⟩
        · have hnot := keep_of_append htabled.handle fun r hr => by rw [hhs r hr, hk]
          rw [select_append, selectFrom_of_not hnot, List.append_nil, h.handles]
        · have hnot := keep_of_append htabled.errand fun e he => by rw [(hes e he).1, hk]
          rw [select_append, selectFrom_of_not hnot, List.append_nil, h.errands]
        · have hnot := keep_of_append htabled.wait fun v hv => by rw [hws v hv, hk]
          rw [select_append, selectFrom_of_not hnot, List.append_nil, h.waits]
      have hrest := Part.restWith hlisted hpart haw htabled fun e he => by
        rcases List.mem_append.1 he with he | he
        · exact ha.errands e he
        · obtain ⟨hworker, hge, hlt⟩ := hes e he
          exact (hclients e.client hge hlt).trans (by rw [hworker])
      rwa [hr.restWith_shop] at hrest
  | @answers n hn =>
      have hwait : π.wait n = false := (ha.tabled.wait hn).trans hk
      refine ⟨⟨h.handles, h.errands, ?_⟩, h.shop⟩
      rw [h.waits, select_modify_of_not hwait]

end Session.Portion

end SerialWorkers
