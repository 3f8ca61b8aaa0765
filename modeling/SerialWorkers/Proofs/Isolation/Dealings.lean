import SerialWorkers.Proofs.Workshop.Resting
import SerialWorkers.Session.Basic

/-!
# What a command does to a session

A command is addressed to one worker, or to nobody, and what it does it does on behalf
of that worker: a few moves, then rest, and at most an entry in one of the tables.

* `Session.target` — whom a command is addressed to; `Session.owners` — whose the things
  are that a session has handed out.
* `Workshop.Dealing`, `Session.Dealt` — what a command addressed to a worker can do;
  `Session.dealt_perform` says that it does no more.
* `Session.Resting` — a session is at rest, and has taken note of it.
-/

namespace SerialWorkers

open Workshop

variable {α : Type}

namespace Workshop

variable {w w' w₁ : Workshop α} {k first : Nat} {jobs : List (Work α)}

/-! ## Moves on behalf of a worker -/

/-- A move on behalf of worker `k`, in which only clients numbered from `first` call, with
one of `jobs` or an empty one. -/
inductive Move.Ordered (k first : Nat) (jobs : List (Work α)) : Move α → Prop
  /-- A client comes. -/
  | welcome : Ordered k first jobs .welcome
  /-- A client calls. -/
  | call (manner : Manner) {c : Nat} {job : Work α} (hc : first ≤ c)
      (hj : job = .done ∨ job ∈ jobs) : Ordered k first jobs (.call manner c k job)
  /-- The worker is let past its gate. -/
  | release : Ordered k first jobs (.release k)
  /-- Its owner requests it to stop. -/
  | stop (status : Int) : Ordered k first jobs (.stop k status)
  /-- Its owner gives it up. -/
  | leave : Ordered k first jobs (.leave k)
  /-- Its owner lets it go. -/
  | abandon : Ordered k first jobs (.abandon k)
  /-- A handle is copied. -/
  | cloneHandle (h : Nat) : Ordered k first jobs (.cloneHandle k h)

/-- Moves on behalf of a worker, and rest in between. -/
inductive Dealing (k first : Nat) (jobs : List (Work α)) (w : Workshop α) : Workshop α → Prop
  /-- Nothing happens. -/
  | refl : Dealing k first jobs w w
  /-- One more move is made. -/
  | move {w₁ w₂ : Workshop α} {m : Move α} (h : Dealing k first jobs w w₁)
      (ho : m.Ordered k first jobs) (hm : w₁.move m = some w₂) : Dealing k first jobs w w₂
  /-- Everything comes to rest. -/
  | settle {w₁ : Workshop α} (h : Dealing k first jobs w w₁) : Dealing k first jobs w w₁.settle

namespace Dealing

theorem getD {m : Move α} (h : Dealing k first jobs w w₁) (ho : m.Ordered k first jobs) :
    Dealing k first jobs w ((w₁.move m).getD w₁) := by
  cases hm : w₁.move m with
  | none => exact h
  | some w₂ => exact h.move ho hm

theorem welcome (h : Dealing k first jobs w w₁) : Dealing k first jobs w w₁.welcome :=
  h.move .welcome rfl

theorem callBy (h : Dealing k first jobs w w₁) (manner : Manner) {c : Nat} {job : Work α}
    (hc : first ≤ c) (hj : job = .done ∨ job ∈ jobs) :
    Dealing k first jobs w (Session.callBy w₁ manner c k job) :=
  h.getD (.call manner hc hj)

theorem sendAll (h : Dealing k first jobs w w₁) {c : Nat} (hc : first ≤ c) {more : List (Work α)}
    (hj : ∀ job ∈ more, job ∈ jobs) :
    Dealing k first jobs w (Session.sendAll c k more w₁).2 := by
  induction more generalizing w₁ with
  | nil => exact h
  | cons job more ih =>
      exact ih (h.callBy .prompt hc (.inr (hj job List.mem_cons_self)))
        fun job' hjob' => hj job' (List.mem_cons_of_mem _ hjob')

/-- Many clients come. -/
theorem crowd (h : Dealing k first jobs w w₁) (n : Nat) :
    Dealing k first jobs w { w₁ with clients := w₁.clients ++ List.replicate n {} } := by
  induction n with
  | zero => simpa using h
  | succ n ih =>
      have hnext := ih.welcome
      simp only [Workshop.welcome, List.append_assoc] at hnext
      rw [List.replicate_succ']
      exact hnext

theorem rushWith (h : Dealing k first jobs w w₁) (manner : Manner) {calls : List Nat}
    (hc : ∀ c ∈ calls, first ≤ c) :
    Dealing k first jobs w (Session.rushWith manner k calls w₁) := by
  induction calls generalizing w₁ with
  | nil => exact h
  | cons c calls ih =>
      exact ih (h.callBy manner (hc c List.mem_cons_self) (.inl rfl)).settle
        fun c' hc' => hc c' (List.mem_cons_of_mem _ hc')

end Dealing

/-! ## Who is there afterwards -/

/-- No client ever goes. -/
theorem length_clients_le_of_move {m : Move α} (h : w.move m = some w') :
    w.clients.length ≤ w'.clients.length := by
  obtain ⟨rs, h⟩ : ∃ rs, Moved w m rs w' := ⟨_, moved_of_move h⟩
  cases h with
  | welcome => simp [welcome]
  | called | enters | resumed => simp [changeClient, change]
  | stopsFrom | stops => simp [change, clients_stopBy]
  | leaves | abandons => simp [change, clients_stopUnlessStopped]
  | hire | hireFails | goesOn | sends | sendEnters | sendsOn | advances | clones | drops =>
      exact Nat.le_refl _

theorem length_clients_le_settle (w : Workshop α) : w.clients.length ≤ w.settle.clients.length := by
  fun_induction Workshop.settle w with
  | case1 w _ => exact Nat.le_refl _
  | case2 w w' hnext ih =>
      obtain ⟨m, -, hm⟩ := exists_move_of_next? hnext
      exact Nat.le_trans (length_clients_le_of_move hm) ih

@[simp] theorem length_workers_settle (w : Workshop α) :
    w.settle.workers.length = w.workers.length := by
  fun_induction Workshop.settle w with
  | case1 w _ => rfl
  | case2 w w' hnext ih =>
      obtain ⟨m, hu, hm⟩ := exists_move_of_next? hnext
      rw [ih, length_of_unasked hu hm]

@[simp] theorem length_stopUnlessStopped (w : Workshop α) (k : Nat) :
    (w.stopUnlessStopped k).workers.length = w.workers.length := by
  unfold stopUnlessStopped
  split
  · rfl
  · split
    · exact length_stopBy _ _ _ _
    · rfl

/-- Nobody is hired on behalf of a worker. -/
theorem length_workers_of_ordered {m : Move α} (ho : m.Ordered k first jobs)
    (h : w.move m = some w') : w'.workers.length = w.workers.length := by
  obtain ⟨rs, h⟩ : ∃ rs, Moved w m rs w' := ⟨_, moved_of_move h⟩
  cases h with
  | hire | hireFails | resumed | stopsFrom | sendsOn | advances | drops => cases ho
  | welcome => rfl
  | called | enters | clones => exact length_change _ _ _
  | goesOn | sends | sendEnters => simp
  | stops => exact length_stopBy _ _ _ _
  | leaves | abandons => simp

/-- A hire adds one worker at most. -/
theorem length_workers_of_hire {settings : Settings} {identity : String} {fault : Option Fault}
    (h : w.move (.hire settings identity fault) = some w') :
    w.workers.length ≤ w'.workers.length ∧ w'.workers.length ≤ w.workers.length + 1 := by
  obtain ⟨rs, h⟩ : ∃ rs, Moved w (.hire settings identity fault) rs w' := ⟨_, moved_of_move h⟩
  cases h with
  | hire => simp
  | hireFails => exact ⟨Nat.le_refl _, Nat.le_succ _⟩
  | enters hcalls => cases hcalls
  | goesOn _ _ hj | sends hj | sendEnters hj => cases hj

namespace Dealing

theorem length_clients_le (h : Dealing k first jobs w w₁) :
    w.clients.length ≤ w₁.clients.length := by
  induction h with
  | refl => exact Nat.le_refl _
  | move _ _ hm ih => exact Nat.le_trans ih (length_clients_le_of_move hm)
  | settle _ ih => exact Nat.le_trans ih (length_clients_le_settle _)

theorem length_workers (h : Dealing k first jobs w w₁) :
    w₁.workers.length = w.workers.length := by
  induction h with
  | refl => rfl
  | move _ ho hm ih => rw [length_workers_of_ordered ho hm, ih]
  | settle _ ih => rw [length_workers_settle, ih]

end Dealing

end Workshop

namespace Session

/-! ## Whom a command is addressed to -/

/-- The jobs that a command has sent. -/
def Command.jobs : Command α → List (Work α)
  | .send _ _ job | .sendAside _ job => [job]
  | .sendAll _ jobs => jobs
  | _ => []

/-- Whether a command hires a worker: nobody objects to the terms, and the system refuses
no thread. -/
def Command.hires : Command α → Bool
  | .hire settings name fault => (settings.objection? name).isNone && fault.isNone
  | .hireUsual name fault => (({} : Settings).objection? name).isNone && fault.isNone
  | _ => false

/-- The worker that `whom` is the address of, if there is one. -/
def addressee (s : Session α) (whom : Address) : Option Nat :=
  match s.reach whom with
  | .ok (k, _) => some k
  | .error _ => none

theorem eq_of_addressee {s : Session α} {j k : Nat} (h : s.addressee (.worker j) = some k) :
    j = k ∧ k < s.shop.workers.length := by
  unfold addressee reach at h
  by_cases hj : j < s.shop.workers.length
  · simp only [hj, if_true, Option.some.injEq] at h
    exact ⟨h, h ▸ hj⟩
  · simp [hj] at h

/-- What a session hands out. -/
inductive Table where
  /-- Handles. -/
  | handles
  /-- Errands. -/
  | errands
  /-- Waits. -/
  | waits

/-- Whose the things in a table are. -/
def owners (s : Session α) : Table → List Nat
  | .handles => s.handles.map Prod.fst
  | .errands => s.errands.map Errand.worker
  | .waits => s.waits.map Wait.worker

/-- The worker that there is after a hire. -/
def hiree (s : Session α) : Hiring α → Option Nat
  | .hired _ => some s.shop.workers.length
  | _ => none

/-- The worker a command is addressed to, if any: who hires means the new worker, and who
asks after an errand or a wait means its worker. -/
def target (s : Session α) : Command α → Option Nat
  | .hire settings identity fault => s.hiree (s.shop.hire settings identity fault)
  | .hireUsual identity fault => s.hiree (s.shop.hireUsual identity fault)
  | .collect n => (s.errands[n]?).map Errand.worker
  | .awaited n => (s.waits[n]?).map Wait.worker
  | .send whom _ _ | .sendAll whom _ | .sendAside whom _ | .stop whom _ | .abandon whom
  | .release whom | .await whom | .awaitAside whom | .handle whom | .inspect whom
  | .identity whom | .rush whom .. => s.addressee whom

/-! ## What it does -/

/-- A session is at rest, and has taken note of it. -/
structure Resting (s : Session α) : Prop where
  /-- Nobody can go on. -/
  still : s.shop.next? = none
  /-- The errands whose end is known are settled. -/
  noted : ∀ e ∈ s.errands, known s.shop e = true → e.settled = true

theorem resting_empty : Resting ({} : Session α) := ⟨rfl, fun _ he => by cases he⟩

theorem resting_restWith (s : Session α) (w : Workshop α) : (s.restWith w).Resting where
  still := next?_settle w
  noted e he hk := by
    obtain ⟨e', -, rfl⟩ := List.mem_map.1 he
    have hknown : known w.settle e' = true := hk
    simp [hknown]

variable {s s₁ : Session α} {k : Nat} {c : Command α} {jobs : List (Work α)}

/-- Where all is at rest and noted, resting is nothing. -/
theorem Resting.restWith_shop (h : s.Resting) : s.restWith s.shop = s := by
  have hnoted : ∀ e ∈ s.errands,
      ({ e with settled := e.settled || known s.shop e } : Errand) = e := by
    intro e he
    cases hk : known s.shop e with
    | false => simp
    | true => simp [← h.noted e he hk]
  have herrands := List.map_congr_left hnoted
  rw [List.map_id'] at herrands
  simp only [restWith, note, settle_of_still h.still, herrands]

/-- What a command addressed to worker `k` can do. -/
inductive Dealt (k : Nat) (c : Command α) (s : Session α) : Session α → Prop
  /-- Nothing. -/
  | idle : Dealt k c s s
  /-- The worker is hired. -/
  | hired {w : Workshop α} {settings : Settings} {identity : String} {fault : Option Fault}
      (hc : c.hires = true)
      (hk : k = s.shop.workers.length) (hm : s.shop.move (.hire settings identity fault) = some w) :
      Dealt k c s (s.restWith w)
  /-- Moves are made on its behalf, and entries about it made in the tables. -/
  | acts {w : Workshop α} (hs : List (Nat × Nat)) (es : List Errand) (ws : List Wait)
      (hw : Dealing k s.shop.clients.length c.jobs s.shop w) (hhs : ∀ r ∈ hs, r.1 = k)
      (hes : ∀ e ∈ es, e.worker = k ∧ s.shop.clients.length ≤ e.client ∧
        e.client < w.clients.length) (hws : ∀ v ∈ ws, v.worker = k) :
      Dealt k c s (restWith
        { s with
          handles := s.handles ++ hs
          errands := s.errands ++ es
          waits := s.waits ++ ws } w)
  /-- A wait for its end is answered. -/
  | answers {n : Nat} (hn : s.waits[n]? = some ⟨k, false⟩) :
      Dealt k c s { s with waits := s.waits.modify n fun v => { v with answered := true } }

/-- Only moves are made. -/
theorem Dealt.of_dealing {w : Workshop α}
    (hw : Dealing k s.shop.clients.length c.jobs s.shop w) : Dealt k c s (s.restWith w) := by
  have h := Dealt.acts (s := s) [] [] [] hw (fun _ h => by cases h) (fun _ h => by cases h)
    (fun _ h => by cases h)
  simpa using h

theorem eq_of_resolve {whom : Address} {h : Nat} (hr : s.resolve whom = .ok (k, h)) :
    s.addressee whom = some k := by
  unfold addressee
  unfold resolve at hr
  split at hr
  · rename_i hreach
    split at hr
    · cases hr
      rw [hreach]
    · cases hr
  · rw [hr]

/-- What is answered where `whom` means nobody. -/
def Address.missing : Address → Answer
  | .worker _ => .noWorker
  | .handle _ => .noHandle

theorem error_of_addressee_eq_none {whom : Address} (h : s.addressee whom = none) :
    s.reach whom = .error whom.missing ∧ s.resolve whom = .error whom.missing ∧
      s.resolveOwned whom = .error whom.missing := by
  have hreach : s.reach whom = .error whom.missing := by
    cases whom with
    | worker j =>
        by_cases hj : j < s.shop.workers.length
        · simp [addressee, reach, hj] at h
        · simp [reach, hj, Address.missing]
    | handle n =>
        cases hn : s.handles[n]? with
        | none => simp only [reach, hn, Address.missing]
        | some r => simp [addressee, reach, hn] at h
  have hresolve : s.resolve whom = .error whom.missing := by
    unfold resolve
    rw [hreach]
    cases whom <;> rfl
  refine ⟨hreach, hresolve, ?_⟩
  rw [resolveOwned, hresolve]

/-- A command that means a worker deals with that one. -/
theorem dealt_withWorker {whom : Address} {f : Nat → Nat → Answer × Session α}
    (hk : s.addressee whom = some k) (hf : ∀ h, Dealt k c s (f k h).2) :
    Dealt k c s (s.withWorker whom f).2 := by
  unfold withWorker
  split
  · exact .idle
  · rename_i j h hr
    rw [eq_of_resolve hr] at hk
    cases hk
    exact hf h

theorem dealt_withOwned {whom : Address} {f : Nat → Answer × Session α}
    (hk : s.addressee whom = some k) (hf : Dealt k c s (f k).2) :
    Dealt k c s (s.withOwned whom f).2 := by
  unfold withOwned resolveOwned
  cases hr : s.resolve whom with
  | error a => exact .idle
  | ok r =>
      obtain ⟨j, h⟩ := r
      rw [eq_of_resolve hr] at hk
      cases hk
      simp only
      split
      · exact .idle
      · rename_i j' hj
        split at hj
        · cases hj
          exact hf
        · cases hj

/-- There is one client more after a call by a new client. -/
theorem lt_length_callBy_welcome (w : Workshop α) (manner : Manner) (c k : Nat) (job : Work α) :
    w.clients.length < (callBy w.welcome manner c k job).clients.length := by
  have h : Dealing k 0 [job] w.welcome (callBy w.welcome manner c k job) :=
    Dealing.refl.callBy manner (Nat.zero_le c) (.inr List.mem_cons_self)
  exact Nat.lt_of_lt_of_le (by simp [welcome]) h.length_clients_le

theorem dealt_send (s : Session α) (k : Nat) (manner : Manner) {job : Work α} (hj : job ∈ c.jobs) :
    Dealt k c s (s.send k manner job).2 := by
  unfold send
  split
  · exact .idle
  · exact .of_dealing (Dealing.refl.welcome.callBy manner (Nat.le_refl _) (.inr hj))

theorem dealt_sendAside (s : Session α) (k : Nat) {job : Work α} (hj : job ∈ c.jobs) :
    Dealt k c s (s.sendAside k job).2 := by
  have hw : Dealing k s.shop.clients.length c.jobs s.shop
      (callBy s.shop.welcome .patient s.shop.clients.length k job) :=
    Dealing.refl.welcome.callBy .patient (Nat.le_refl _) (.inr hj)
  have hlength := lt_length_callBy_welcome s.shop .patient s.shop.clients.length k job
  have h := Dealt.acts (s := s) [] [{ client := s.shop.clients.length, worker := k }] [] hw
    (fun _ h => by cases h) (fun e he => by
      cases List.mem_singleton.1 he
      exact ⟨rfl, Nat.le_refl _, hlength⟩) (fun _ h => by cases h)
  simp only [List.append_nil] at h
  exact h

theorem dealt_await (s : Session α) (k : Nat) : Dealt k c s (s.await k).2 := by
  unfold await
  split
  · exact .idle
  · exact .of_dealing (Dealing.refl.getD .leave)

theorem dealt_awaited {n : Nat} {v : Wait} (hv : s.waits[n]? = some v) :
    Dealt v.worker c s (s.awaited n).2 := by
  unfold awaited
  split
  · rename_i k hn
    rw [hv] at hn
    cases hn
    split
    · exact .idle
    · exact .answers hv
  · exact .idle

/-- The clients of a rush come, and make their calls. -/
def rushed (w : Workshop α) (k : Nat) (manner : Manner) (threads count : Nat) : Workshop α :=
  rushWith manner k (rushCalls w.clients.length threads count)
    { w with clients := w.clients ++ List.replicate threads {} }

theorem dealing_rushed (w : Workshop α) (k : Nat) (manner : Manner) (threads count : Nat) :
    Dealing k w.clients.length jobs w (rushed w k manner threads count) := by
  refine (Dealing.refl.crowd threads).rushWith manner fun c hc => ?_
  obtain ⟨t, -, hc⟩ := List.mem_flatMap.1 hc
  rw [(List.mem_replicate.1 hc).2]
  exact Nat.le_add_right _ _

/-- A rush that does not have to wait for anybody at a gate. -/
theorem rush_of_not_held {manner : Manner} {threads count : Nat}
    (h : (s.shop.workers[k]?).any (fun v => v.held && v.mailbox.capacity.isSome) = false) :
    s.rush k manner threads count =
      (((s.restWith (rushed s.shop k manner threads count)).shop.workers[k]?).elim .noWorker
          fun v => .tally (tally (s.restWith (rushed s.shop k manner threads count)).shop v
            s.shop.clients.length threads),
        s.restWith (rushed s.shop k manner threads count)) := by
  unfold rush
  rw [if_neg (by simp [h])]
  simp only [rushed]
  split
  · rename_i hv
    rw [hv]
    rfl
  · rename_i v hv
    rw [hv]
    rfl

theorem dealt_rush (s : Session α) (k : Nat) (manner : Manner) (threads count : Nat) :
    Dealt k c s (s.rush k manner threads count).2 := by
  cases h : (s.shop.workers[k]?).any fun v => v.held && v.mailbox.capacity.isSome with
  | true =>
      unfold rush
      rw [if_pos h]
      exact .idle
  | false =>
      rw [rush_of_not_held h]
      exact .of_dealing (dealing_rushed s.shop k manner threads count)

/-- Whether a hire succeeds is a matter of its terms and the system alone. -/
theorem hiree_hire (s : Session α) (settings : Settings) (name : String) (fault : Option Fault) :
    s.hiree (s.shop.hire settings name fault)
      = if (settings.objection? name).isNone && fault.isNone then some s.shop.workers.length
        else none := by
  unfold hire
  cases settings.objection? name with
  | some q => rfl
  | none => cases fault <;> rfl

theorem dealt_hire {settings : Settings} {identity : String} {fault : Option Fault}
    (hc : c.hires = ((settings.objection? identity).isNone && fault.isNone))
    (hk : s.hiree (s.shop.hire settings identity fault) = some k) :
    Dealt k c s (s.restWith (s.shop.afterHiring (s.shop.hire settings identity fault))) := by
  rw [hiree_hire] at hk
  split at hk
  · rename_i hsuccess
    cases hk
    exact .hired (hc.trans hsuccess) rfl rfl
  · cases hk

/-- A hire on the usual terms leaves the same behind as any. -/
theorem afterHiring_hireUsual (w : Workshop α) (identity : String) (fault : Option Fault) :
    w.afterHiring (w.hireUsual identity fault) = w.afterHiring (w.hire {} identity fault) := by
  unfold hireUsual
  cases w.hire {} identity fault <;> rfl

theorem hiree_hireUsual (s : Session α) (identity : String) (fault : Option Fault) :
    s.hiree (s.shop.hireUsual identity fault) = s.hiree (s.shop.hire {} identity fault) := by
  unfold hireUsual
  cases s.shop.hire {} identity fault <;> rfl

/-- **What a command can do.** -/
theorem dealt_perform (hk : s.target c = some k) :
    Dealt k c s (s.perform c).2 := by
  cases c with
  | hire settings identity fault => exact dealt_hire rfl hk
  | hireUsual identity fault =>
      rw [target, hiree_hireUsual] at hk
      simp only [perform, afterHiring_hireUsual]
      exact dealt_hire rfl hk
  | send whom manner job =>
      exact dealt_withWorker hk fun _ => dealt_send s k manner List.mem_cons_self
  | sendAll whom jobs =>
      exact dealt_withWorker hk fun _ => .of_dealing
        (Dealing.refl.welcome.sendAll (Nat.le_refl _) fun _ hjob => hjob)
  | sendAside whom job =>
      exact dealt_withWorker hk fun _ => dealt_sendAside s k List.mem_cons_self
  | collect n =>
      simp only [perform]
      split <;> exact .idle
  | stop whom status => exact dealt_withOwned hk (.of_dealing (Dealing.refl.getD (.stop status)))
  | abandon whom => exact dealt_withOwned hk (.of_dealing (Dealing.refl.getD .abandon))
  | release whom =>
      simp only [perform]
      split
      · exact .idle
      · rename_i j h hreach
        have hj : s.addressee whom = some j := by rw [addressee, hreach]
        cases hj.symm.trans hk
        split
        · exact .idle
        · rename_i w hw
          exact .of_dealing (Dealing.refl.move .release hw)
  | await whom => exact dealt_withOwned hk (dealt_await s k)
  | awaitAside whom =>
      refine dealt_withOwned hk ?_
      have h := Dealt.acts (s := s) (k := k) (c := .awaitAside whom) [] [] [{ worker := k }]
        (Dealing.refl.getD .leave) (fun _ h => by cases h) (fun _ h => by cases h)
        (fun v hv => by rw [List.mem_singleton.1 hv])
      simp only [List.append_nil] at h
      exact h
  | awaited n =>
      obtain ⟨v, hv, rfl⟩ := Option.map_eq_some_iff.1 hk
      exact dealt_awaited hv
  | handle whom =>
      refine dealt_withWorker hk fun h => ?_
      have h := Dealt.acts (s := s) (k := k) (c := .handle whom)
        [(k, ((s.shop.workers[k]?).map fun v => v.mailbox.handles.length).getD 0)] [] []
        (Dealing.refl.getD (.cloneHandle h)) (fun r hr => by rw [List.mem_singleton.1 hr])
        (fun _ h => by cases h) (fun _ h => by cases h)
      simp only [List.append_nil] at h
      exact h
  | inspect whom =>
      refine dealt_withWorker hk fun h => ?_
      split <;> exact .idle
  | identity whom =>
      refine dealt_withWorker hk fun h => ?_
      split <;> exact .idle
  | rush whom manner threads jobs =>
      exact dealt_withWorker hk fun _ => dealt_rush s k manner threads jobs

theorem afterHiring_of_hiree_eq_none {hiring : Hiring α} (h : s.hiree hiring = none) :
    s.shop.afterHiring hiring = s.shop := by
  cases hiring with
  | hired => cases h
  | refused | panicked => rfl

/-- What a command is answered that is addressed to nobody. -/
def Command.unmet : Command α → Answer
  | .hire settings name fault =>
      match settings.objection? name, fault with
      | some q, _ => .panicked q
      | none, some fault => .hireRefused ⟨name, fault⟩
      | none, none => .noWorker
  | .hireUsual name _ => .panicked ((({} : Settings).objection? name).getD .refused)
  | .collect _ => .noErrand
  | .awaited _ => .noWait
  | .send whom _ _ | .sendAll whom _ | .sendAside whom _ | .stop whom _ | .abandon whom
  | .release whom | .await whom | .awaitAside whom | .handle whom | .inspect whom
  | .identity whom | .rush whom .. => whom.missing

/-- **A command addressed to nobody does nothing**, and nothing but the command matters for
the answer. -/
theorem perform_eq_of_target_eq_none (hr : s.Resting) (hc : s.target c = none) :
    s.perform c = (c.unmet, s) := by
  cases c with
  | hire settings name fault =>
      simp only [perform, afterHiring_of_hiree_eq_none hc, hr.restWith_shop]
      refine congrArg (·, s) ?_
      rw [target, hiree_hire] at hc
      cases ho : settings.objection? name with
      | some q => simp only [hire, Command.unmet, ho, hiringAnswer]
      | none =>
          cases fault with
          | some fault => simp only [hire, Command.unmet, ho, hiringAnswer]
          | none => simp [ho] at hc
  | hireUsual name fault =>
      simp only [perform, afterHiring_of_hiree_eq_none hc, hr.restWith_shop]
      refine congrArg (·, s) ?_
      rw [target, hiree_hireUsual, hiree_hire] at hc
      cases ho : ({} : Settings).objection? name with
      | some q => simp only [hireUsual, hire, Command.unmet, ho, hiringAnswer, Option.getD_some]
      | none =>
          cases fault with
          | some fault =>
              simp only [hireUsual, hire, Command.unmet, ho, hiringAnswer, Option.getD_none]
          | none => simp [ho] at hc
  | collect n => simp only [perform, Option.map_eq_none_iff.1 hc, Command.unmet]
  | awaited n => simp only [perform, awaited, Option.map_eq_none_iff.1 hc, Command.unmet]
  | release whom =>
      obtain ⟨ha, -, -⟩ := error_of_addressee_eq_none hc
      simp only [perform, ha, Command.unmet]
  | stop | abandon | await | awaitAside =>
      obtain ⟨-, -, ha⟩ := error_of_addressee_eq_none hc
      simp only [perform, withOwned, ha, Command.unmet]
  | send | sendAll | sendAside | handle | inspect | identity | rush =>
      obtain ⟨-, ha, -⟩ := error_of_addressee_eq_none hc
      simp only [perform, withWorker, ha, Command.unmet]

theorem perform_of_target_eq_none (hr : s.Resting) (hc : s.target c = none) :
    (s.perform c).2 = s := by
  rw [perform_eq_of_target_eq_none hr hc]

/-! ## What it is answered -/

/-- What an answer tells of is worker `k` or was handed out for it. -/
def Answer.About (s : Session α) (k : Nat) : Answer → Prop
  | .hired j _ => j = k
  | .handle n => (s.owners .handles)[n]? = some k
  | .errand n => (s.owners .errands)[n]? = some k
  | .wait n => (s.owners .waits)[n]? = some k
  | _ => True

/-- The reasons there is nobody to mean tell of nothing. -/
theorem about_of_reach {whom : Address} {a : Answer} (ha : s.reach whom = .error a) :
    a.About s₁ k := by
  unfold reach at ha
  split at ha
  · split at ha <;> cases ha
    trivial
  · split at ha <;> cases ha
    trivial

theorem about_of_resolve {whom : Address} {a : Answer} (ha : s.resolve whom = .error a) :
    a.About s₁ k := by
  unfold resolve at ha
  split at ha
  · split at ha <;> cases ha
    trivial
  · exact about_of_reach ha

theorem about_withWorker {whom : Address} {f : Nat → Nat → Answer × Session α}
    (hk : s.addressee whom = some k) (hf : ∀ h, (f k h).1.About (f k h).2 k) :
    (s.withWorker whom f).1.About (s.withWorker whom f).2 k := by
  unfold withWorker
  cases hr : s.resolve whom with
  | error a => exact about_of_resolve hr
  | ok r =>
      cases (eq_of_resolve hr).symm.trans hk
      exact hf r.2

theorem about_withOwned {whom : Address} {f : Nat → Answer × Session α}
    (hk : s.addressee whom = some k) (hf : (f k).1.About (f k).2 k) :
    (s.withOwned whom f).1.About (s.withOwned whom f).2 k := by
  unfold withOwned resolveOwned
  cases hr : s.resolve whom with
  | error a => exact about_of_resolve hr
  | ok r =>
      cases (eq_of_resolve hr).symm.trans hk
      simp only
      cases s.shop.owns r.1 with
      | false => trivial
      | true => exact hf

theorem about_ofReceipt (s : Session α) (r : Receipt) : (Answer.ofReceipt r).About s k := by
  cases r <;> trivial

/-- Somebody who waits for a worker's end is told of it, or waits. -/
theorem endOf_eq (w : Workshop α) (k : Nat) :
    endOf w k = .wouldWait ∨ ∃ o, endOf w k = .ended o := by
  unfold endOf
  split
  · exact .inl rfl
  · exact .inr ⟨_, rfl⟩

theorem about_endOf (s : Session α) (w : Workshop α) (j : Nat) : (endOf w j).About s k := by
  rcases endOf_eq w j with h | ⟨o, h⟩ <;> rw [h] <;> trivial

/-- **An answer tells of nothing but the worker the command was addressed to**, and of what
was handed out for it. -/
theorem about_perform (hk : s.target c = some k) : (s.perform c).1.About (s.perform c).2 k := by
  have hhire : ∀ {s₁ : Session α} {name : String} {hiring : Hiring α},
      s.hiree hiring = some k → (s.hiringAnswer name hiring).About s₁ k := by
    intro s₁ name hiring hh
    cases hiring with
    | hired w =>
        cases hh
        exact rfl
    | refused | panicked => trivial
  cases c with
  | hire | hireUsual => exact hhire hk
  | send whom manner job =>
      refine about_withWorker hk fun h => ?_
      unfold send
      split
      · trivial
      · exact about_ofReceipt _ _
  | sendAll => exact about_withWorker hk fun h => trivial
  | sendAside whom job =>
      refine about_withWorker hk fun h => ?_
      simp [sendAside, restWith, note, Answer.About, owners]
  | collect n =>
      simp only [perform]
      split
      · trivial
      · split
        · exact about_ofReceipt _ _
        · trivial
  | stop | abandon => exact about_withOwned hk trivial
  | release whom =>
      simp only [perform]
      split
      · rename_i a ha
        exact about_of_reach ha
      · split <;> trivial
  | await whom =>
      refine about_withOwned hk ?_
      unfold await
      split
      · trivial
      · exact about_endOf _ _ _
  | awaitAside whom =>
      refine about_withOwned hk ?_
      simp [restWith, note, Answer.About, owners]
  | awaited n =>
      simp only [perform, awaited]
      split
      · split
        · trivial
        · exact about_endOf _ _ _
      · trivial
  | handle whom =>
      refine about_withWorker hk fun h => ?_
      simp [restWith, note, Answer.About, owners]
  | inspect whom =>
      refine about_withWorker hk fun h => ?_
      split <;> trivial
  | identity whom =>
      refine about_withWorker hk fun h => ?_
      split <;> trivial
  | rush whom manner threads jobs =>
      refine about_withWorker hk fun h => ?_
      unfold rush
      split
      · trivial
      · simp only
        split <;> trivial

/-! ## What stays -/

theorem Dealt.resting (hr : s.Resting) (h : Dealt k c s s₁) : s₁.Resting := by
  cases h with
  | idle => exact hr
  | hired | acts => exact resting_restWith _ _
  | answers => exact ⟨hr.still, hr.noted⟩

/-- **Every command leaves a session at rest.** -/
theorem Resting.perform (hr : s.Resting) (c : Command α) : (s.perform c).2.Resting := by
  cases hk : s.target c with
  | none =>
      rw [perform_of_target_eq_none hr hk]
      exact hr
  | some k => exact (dealt_perform hk).resting hr

end Session

end SerialWorkers
