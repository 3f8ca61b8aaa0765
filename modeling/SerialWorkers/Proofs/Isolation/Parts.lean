import SerialWorkers.Proofs.Isolation.Renaming
import SerialWorkers.Proofs.Isolation.Shares

/-!
# A workshop of a share alone

What belongs to a share of a workshop can be put in a workshop of its own, under new
numbers.  There it fares as it did among the others, as long as share and rest have
nothing to do with each other: what happens in the share happens in its own workshop,
and what happens in the rest does not matter there.

* `Share.Part` — a workshop that is nothing but the share of another.
* `Share.Part.work`, `Share.Part.resume` and the like — what happens in the share.
* `Share.Part.outside` — what happens in the rest.
* `Share.Part.settle` — a share comes to rest as if it were alone.
-/

namespace SerialWorkers.Workshop

variable {α : Type}

/-- The new numbers in a share. -/
def Share.renaming (p : Share) : Renaming := ⟨rank p.worker, rank p.client⟩

/-- Workshop `w'` is the share of `w`. -/
structure Share.Part (p : Share) (w w' : Workshop α) : Prop where
  /-- Its workers are those of the share. -/
  workers : w'.workers = (select p.worker w.workers).map (Worker.rename p.renaming)
  /-- Its clients are those of the share. -/
  clients : w'.clients = (select p.client w.clients).map (Client.rename p.renaming)

/-- A thread renamed. -/
def Thread.rename (r : Renaming) : Thread → Thread
  | .outside => .outside
  | .worker k => .worker (r.worker k)

namespace Share

variable {p : Share} {w w' w₁ : Workshop α} {k : Nat}

theorem part_empty (p : Share) : p.Part ({} : Workshop α) {} := ⟨rfl, rfl⟩

/-! ## Who is there -/

/-- A number means the same in the workshop of the share: a worker there, or nobody. -/
def Known (p : Share) (w : Workshop α) (k : Nat) : Prop :=
  p.worker k = true ∨ w.workers.length ≤ k

theorem Known.kept {v : Worker α} (h : p.Known w k) (hv : w.workers[k]? = some v) :
    p.worker k = true := by
  rcases h with h | h
  · exact h
  · rw [List.getElem?_eq_none_iff.2 h] at hv
    cases hv

/-- Whom a job of a worker of the share names is known there. -/
theorem Apart.known {v : Worker α} {t : Nat} (h : p.Apart w) (hk : p.worker k = true)
    (hv : w.workers[k]? = some v) (hn : p.Near k t) : p.Known w t := by
  have hcount : k < p.count :=
    Nat.lt_of_lt_of_le (List.getElem?_eq_some_iff.1 hv).1 h.count
  rcases Nat.lt_or_ge t w.workers.length with ht | ht
  · exact .inl ((hn hcount (Nat.lt_of_lt_of_le ht h.count)).symm.trans hk)
  · exact .inr ht

theorem Part.worker (h : p.Part w w') (hk : p.Known w k) :
    w'.workers[p.renaming.worker k]? = (w.workers[k]?).map (Worker.rename p.renaming) := by
  rw [h.workers]
  exact getElem?_map_select _ fun v hv => hk.kept hv

theorem Part.client {c : Nat} (h : p.Part w w') (hc : p.client c = true) :
    w'.clients[p.renaming.client c]? = (w.clients[c]?).map (Client.rename p.renaming) := by
  rw [h.clients]
  exact getElem?_map_select _ fun _ _ => hc

theorem Part.length_workers (h : p.Part w w') :
    w'.workers.length = p.renaming.worker w.workers.length := by
  rw [h.workers, List.length_map, length_select]
  rfl

theorem Part.length_clients (h : p.Part w w') :
    w'.clients.length = p.renaming.client w.clients.length := by
  rw [h.clients, List.length_map, length_select]
  rfl

/-! ## Changes of one participant -/

/-- **A change in the share.** -/
theorem Part.change (h : p.Part w w') (hk : p.worker k = true) {f f' : Worker α → Worker α}
    (hf : ∀ v, w.workers[k]? = some v → f' (v.rename p.renaming) = (f v).rename p.renaming) :
    p.Part (w.change k f) (w'.change (p.renaming.worker k) f') where
  workers := by
    rw [Workshop.change, Workshop.change, map_select_modify hk hf, h.workers]
    rfl
  clients := h.clients

theorem Part.changeClient {c : Nat} (h : p.Part w w') (hc : p.client c = true)
    {f f' : Client α → Client α} (hf : ∀ client, w.clients[c]? = some client →
      f' (client.rename p.renaming) = (f client).rename p.renaming) :
    p.Part (w.changeClient c f) (w'.changeClient (p.renaming.client c) f') where
  workers := h.workers
  clients := by
    rw [Workshop.changeClient, Workshop.changeClient, map_select_modify hc hf, h.clients]
    rfl

/-- A change in the rest. -/
theorem Part.change_rest (h : p.Part w w') (hk : p.worker k = false)
    (f : Worker α → Worker α) : p.Part (w.change k f) w' where
  workers := by rw [Workshop.change, select_modify_of_not hk, h.workers]
  clients := h.clients

theorem Part.changeClient_rest {c : Nat} (h : p.Part w w') (hc : p.client c = false)
    (f : Client α → Client α) : p.Part (w.changeClient c f) w' where
  workers := h.workers
  clients := by rw [Workshop.changeClient, select_modify_of_not hc, h.clients]

/-- A worker of the share becomes another. -/
theorem Part.put (h : p.Part w w') (hk : p.worker k = true) (v : Worker α) :
    p.Part (w.change k fun _ => v)
      (w'.change (p.renaming.worker k) fun _ => v.rename p.renaming) :=
  h.change hk fun _ _ => by rfl

/-! ## Newcomers -/

/-- A client of the share comes. -/
theorem Part.welcome (h : p.Part w w') (hc : p.client w.clients.length = true) :
    p.Part w.welcome w'.welcome where
  workers := h.workers
  clients := by
    rw [Workshop.welcome, Workshop.welcome, select_concat hc, h.clients, List.map_append]
    rfl

theorem Part.welcome_rest (h : p.Part w w') (hc : p.client w.clients.length = false) :
    p.Part w.welcome w' where
  workers := h.workers
  clients := by
    rw [Workshop.welcome, select_concat_of_not hc, h.clients]

/-- A worker of the share is hired. -/
theorem Part.hired (h : p.Part w w') (hk : p.worker w.workers.length = true)
    (settings : Settings) (identity : String) {es es' : List Event} :
    p.Part { w with workers := w.workers ++ [Worker.hired settings identity], outside := es }
      { w' with workers := w'.workers ++ [Worker.hired settings identity], outside := es' } where
  workers := by
    rw [select_concat hk, h.workers, List.map_append]
    rfl
  clients := h.clients

theorem Part.hired_rest (h : p.Part w w') (hk : p.worker w.workers.length = false)
    (settings : Settings) (identity : String) {es : List Event} :
    p.Part { w with workers := w.workers ++ [Worker.hired settings identity], outside := es }
      w' where
  workers := by
    rw [select_concat_of_not hk, h.workers]
  clients := h.clients

/-! ## Stops -/

theorem Part.owns (h : p.Part w w') (hk : p.Known w k) :
    w'.owns (p.renaming.worker k) = w.owns k := by
  rw [Workshop.owns, Workshop.owns, h.worker hk, Option.any_map]
  rfl

theorem Part.report (h : p.Part w w') {thread : Thread}
    (ht : ∀ j, thread = .worker j → p.worker j = true) (e : Event) :
    p.Part (w.report thread e) (w'.report (thread.rename p.renaming) e) := by
  cases thread with
  | outside => exact ⟨h.workers, h.clients⟩
  | worker j => exact h.change (ht j rfl) fun _ _ => by rfl

theorem Part.report_rest (h : p.Part w w') {thread : Thread}
    (ht : ∀ j, thread = .worker j → p.worker j = false) (e : Event) :
    p.Part (w.report thread e) w' := by
  cases thread with
  | outside => exact ⟨h.workers, h.clients⟩
  | worker j => exact h.change_rest (ht j rfl) _

/-- **A request to stop a worker of the share**, by somebody of the share. -/
theorem Part.stopBy (h : p.Part w w') (hk : p.Known w k) (thread : Thread)
    (ht : ∀ j, thread = .worker j → p.worker j = true) (status : Int) :
    p.Part (w.stopBy thread k status)
      (w'.stopBy (thread.rename p.renaming) (p.renaming.worker k) status) := by
  unfold Workshop.stopBy
  rw [h.worker hk]
  cases hv : w.workers[k]? with
  | none => exact h
  | some v =>
      have hstop : p.Part (w.change k fun v => (v.stop status).2)
          (w'.change (p.renaming.worker k) fun v => (v.stop status).2) :=
        h.change (hk.kept hv) fun v _ => by rw [Worker.stop_rename]
      simp only [Option.map_some, Worker.stop_rename]
      split
      · exact hstop.report ht _
      · exact hstop

theorem Part.stopBy_rest (h : p.Part w w') (hk : p.worker k = false) {thread : Thread}
    (ht : ∀ j, thread = .worker j → p.worker j = false) (status : Int) :
    p.Part (w.stopBy thread k status) w' := by
  unfold Workshop.stopBy
  split
  · exact h
  · simp only
    split
    · exact (h.change_rest hk _).report_rest ht _
    · exact h.change_rest hk _

theorem Part.stopUnlessStopped (h : p.Part w w') (hk : p.worker k = true) :
    p.Part (w.stopUnlessStopped k) (w'.stopUnlessStopped (p.renaming.worker k)) := by
  unfold Workshop.stopUnlessStopped
  rw [h.worker (.inl hk)]
  cases w.workers[k]? with
  | none => exact h
  | some v =>
      have hopen : (v.rename p.renaming).mailbox.isOpen = v.mailbox.isOpen := rfl
      simp only [Option.map_some, hopen]
      split
      · exact h.stopBy (.inl hk) .outside (fun _ hj => by cases hj) 0
      · exact h

theorem Part.stopUnlessStopped_rest (h : p.Part w w') (hk : p.worker k = false) :
    p.Part (w.stopUnlessStopped k) w' := by
  unfold Workshop.stopUnlessStopped
  split
  · exact h
  · split
    · exact h.stopBy_rest hk (fun _ hj => by cases hj) 0
    · exact h

/-! ## Clients -/

/-- **A client of the share calls a worker of it.** -/
theorem Part.call {c : Nat} (h : p.Part w w') (hc : p.client c = true) (hk : p.worker k = true)
    (manner : Manner) (job : Work α) :
    Option.Rel p.Part (w.call manner c k job)
      (w'.call manner (p.renaming.client c) (p.renaming.worker k)
        (renameJob p.renaming.worker job)) := by
  unfold Workshop.call
  rw [h.client hc, h.worker (.inl hk)]
  cases w.clients[c]? with
  | none => exact .none
  | some client =>
      cases w.workers[k]? with
      | none => exact .none
      | some v =>
          have hcall : (client.rename p.renaming).sending.isSome = client.sending.isSome := by
            simp [Client.rename]
          have hpost := Worker.post_rename p.renaming v (.client c) job
          simp only [Sender.rename] at hpost
          simp only [Option.map_some, hcall, hpost]
          split
          · exact .none
          · have hput := h.put hk (v.post (.client c) job).2
            split
            · exact .some (hput.changeClient hc fun _ _ => by rfl)
            · exact .some (hput.changeClient hc fun _ _ => by rfl)

/-- **A client of the share gets on.** -/
theorem Part.resume {c : Nat} (h : p.Part w w') (ha : p.Apart w) (hc : p.client c = true) :
    Option.Rel p.Part (w.resume c) (w'.resume (p.renaming.client c)) := by
  unfold Workshop.resume
  rw [h.client hc]
  cases hclient : w.clients[c]? with
  | none => exact .none
  | some client =>
      cases hs : client.sending with
      | none => simp [Client.rename, hs]
      | some call =>
          obtain ⟨k, mail⟩ := call
          have hk : p.worker k = true := (ha.sending hclient hs).symm.trans hc
          simp only [Option.map_some, Client.rename, hs, h.worker (.inl hk)]
          cases w.workers[k]? with
          | none => exact .none
          | some v =>
              simp only [Option.map_some, Worker.put_rename]
              split
              · exact .none
              · exact .some ((h.put hk (v.put mail).2).changeClient hc fun _ _ => by rfl)

/-! ## Threads -/

section Threads

variable {t : Nat} (h : p.Part w w') (hk : p.worker k = true) (ht : p.Known w t)
  (manner : Manner) (job rest : Work α)

include h hk

/-- A worker of the share gets on in its job. -/
theorem Part.goOn (es : List (Entry α)) (phase : Phase α) :
    p.Part (w.change k fun u => { u with log := u.log ++ es, phase := phase })
      (w'.change (p.renaming.worker k) fun u =>
        { u with log := u.log ++ es, phase := phase.rename p.renaming }) :=
  h.change hk fun _ _ => by rfl

/-- It is told and gets on. -/
theorem Part.told (e : Entry α) :
    p.Part (w.change k fun u => (u.write e).resume rest)
      (w'.change (p.renaming.worker k) fun u =>
        (u.write e).resume (renameJob p.renaming.worker rest)) :=
  h.goOn hk [e] (.running rest)

include ht

theorem Part.viewFrom :
    p.Part (w.viewFrom k t rest) (w'.viewFrom (p.renaming.worker k) (p.renaming.worker t)
      (renameJob p.renaming.worker rest)) := by
  unfold Workshop.viewFrom
  rw [h.worker ht]
  cases w.workers[t]? with
  | none => exact h.change hk fun _ _ => by rfl
  | some v =>
      simp only [Option.map_some, Worker.view_rename]
      exact h.told hk rest _

theorem Part.stopFrom (status : Int) :
    p.Part (w.stopFrom k t status rest)
      (w'.stopFrom (p.renaming.worker k) (p.renaming.worker t) status
        (renameJob p.renaming.worker rest)) := by
  unfold Workshop.stopFrom
  rw [h.owns ht]
  split
  · have hstop := h.stopBy ht (.worker k) (fun j hj => by cases hj; exact hk) status
    exact hstop.change hk fun _ _ => by rfl
  · exact h.told hk rest _

theorem Part.sendTo :
    p.Part (w.sendTo k t manner job rest)
      (w'.sendTo (p.renaming.worker k) (p.renaming.worker t) manner
        (renameJob p.renaming.worker job) (renameJob p.renaming.worker rest)) := by
  unfold Workshop.sendTo
  rw [h.worker ht]
  cases hv : w.workers[t]? with
  | none => exact h.told hk rest _
  | some v =>
      have hpost := Worker.post_rename p.renaming v (.worker k) job
      simp only [Sender.rename] at hpost
      have hput := h.put (ht.kept hv) (v.post (.worker k) job).2
      simp only [Option.map_some, hpost]
      split
      · exact hput.change hk fun _ _ => by rfl
      · exact hput.told hk rest _

/-- **A worker of the share sends a job.** -/
theorem Part.sendFrom :
    p.Part (w.sendFrom k t manner job rest)
      (w'.sendFrom (p.renaming.worker k) (p.renaming.worker t) manner
        (renameJob p.renaming.worker job) (renameJob p.renaming.worker rest)) := by
  have hwait : (w'.workers[p.renaming.worker t]?).any
      (wouldWait (p.renaming.worker k) (p.renaming.worker t))
        = (w.workers[t]?).any (wouldWait k t) := by
    rw [h.worker ht]
    cases hu : w.workers[t]? with
    | none => rfl
    | some u =>
        -- the worker itself is meant under the new numbers just if it is under the old
        have hself : (p.renaming.worker k == p.renaming.worker t) = (k == t) := by
          rw [Bool.eq_iff_iff, beq_iff_eq, beq_iff_eq]
          exact ⟨eq_of_rank_eq hk (ht.kept hu), fun heq => by rw [heq]⟩
        simp only [Option.map_some, Option.any_some, wouldWait, hself, Worker.held_rename]
        simp only [Worker.rename, Mailbox.isOpen_map, Mailbox.isFull_map]
  unfold Workshop.sendFrom
  rw [hwait]
  split
  · exact h.told hk rest _
  · exact h.sendTo hk ht manner job rest

/-- **A worker of the share gets on in a call.** -/
theorem Part.sendOn (mail : Mail α) :
    Option.Rel p.Part (w.sendOn k t manner mail rest)
      (w'.sendOn (p.renaming.worker k) (p.renaming.worker t) manner
        (renameMail p.renaming mail) (renameJob p.renaming.worker rest)) := by
  unfold Workshop.sendOn
  rw [h.worker ht]
  cases hv : w.workers[t]? with
  | none => exact .none
  | some v =>
      simp only [Option.map_some, Worker.put_rename]
      split
      · exact .none
      · exact .some ((h.put (ht.kept hv) (v.put mail).2).told hk rest _)

end Threads

/-- **A worker of the share takes its next step.** -/
theorem Part.work (h : p.Part w w') (ha : p.Apart w) (hk : p.worker k = true) :
    Option.Rel p.Part (w.work k) (w'.work (p.renaming.worker k)) := by
  unfold Workshop.work
  rw [h.worker (.inl hk)]
  cases hu : w.workers[k]? with
  | none => exact .none
  | some u =>
      have hkeeps : u.Keeps p.custom k := ha.keeps.workers hu
      have hadvance : Option.Rel p.Part (u.advance.map fun v => w.change k fun _ => v)
          ((u.rename p.renaming).advance.map fun v =>
            w'.change (p.renaming.worker k) fun _ => v) := by
        rw [Worker.advance_rename]
        cases u.advance with
        | none => exact .none
        | some v => exact .some (h.put hk v)
      simp only [Option.map_some]
      cases hp : u.phase with
      | running rest =>
          have hphase : (u.rename p.renaming).phase
              = .running (renameJob p.renaming.worker rest) := by
            rw [Worker.rename, hp]
            rfl
          have hnamed : ∀ t ∈ names k rest, p.Near k t := fun t ht =>
            hkeeps.running rest hp k List.mem_cons_self t (List.mem_cons_of_mem _ ht)
          rw [hphase]
          cases rest with
          | done => exact hadvance
          | send route job rest =>
              have ht := ha.known hk hu (hnamed _ List.mem_cons_self)
              simp only [renameJob, Route.rename, getD_map]
              exact .some (h.sendFrom hk ht _ _ _)
          | act a rest =>
              cases a with
              | view whom =>
                  have ht := ha.known hk hu (hnamed _ List.mem_cons_self)
                  simp only [renameJob, Act.rename, getD_map]
                  exact .some (h.viewFrom hk ht _)
              | stop status whom =>
                  have ht := ha.known hk hu (hnamed _ List.mem_cons_self)
                  simp only [renameJob, Act.rename, getD_map]
                  exact .some (h.stopFrom hk ht _ _)
              | log | threadName | gate | panic => exact hadvance
      | sending manner t mail rest =>
          have hphase : (u.rename p.renaming).phase
              = .sending manner (p.renaming.worker t) (renameMail p.renaming mail)
                  (renameJob p.renaming.worker rest) := by
            rw [Worker.rename, hp]
            rfl
          have ht := ha.known hk hu (hkeeps.sending manner t mail rest hp).1
          rw [hphase]
          exact h.sendOn hk ht _ _ _
      | waiting | retiring | leaving | ended =>
          have hphase : (u.rename p.renaming).phase = u.phase.rename p.renaming := rfl
          rw [hphase, hp]
          exact hadvance

/-! ## Owners and handles -/

section Owners

variable (h : p.Part w w') (hk : p.worker k = true)

include h hk

theorem Part.release :
    Option.Rel p.Part (w.release k) (w'.release (p.renaming.worker k)) := by
  unfold Workshop.release
  rw [h.worker (.inl hk)]
  cases w.workers[k]? with
  | none => exact .none
  | some v =>
      simp only [Option.map_some, Option.bind_some, Worker.pastGate_rename]
      cases v.pastGate with
      | none => exact .none
      | some v' => exact .some (h.put hk v')

theorem Part.stop (status : Int) :
    Option.Rel p.Part (w.stop k status) (w'.stop (p.renaming.worker k) status) := by
  unfold Workshop.stop
  rw [h.owns (.inl hk)]
  split
  · exact .some (h.stopBy (.inl hk) .outside (fun _ hj => by cases hj) status)
  · exact .none

theorem Part.leave : Option.Rel p.Part (w.leave k) (w'.leave (p.renaming.worker k)) := by
  unfold Workshop.leave
  rw [h.owns (.inl hk)]
  split
  · exact .some ((h.stopUnlessStopped hk).change hk fun _ _ => by rfl)
  · exact .none

theorem Part.abandon : Option.Rel p.Part (w.abandon k) (w'.abandon (p.renaming.worker k)) := by
  unfold Workshop.abandon
  rw [h.owns (.inl hk)]
  split
  · exact .some ((h.stopUnlessStopped hk).change hk fun _ _ => by rfl)
  · exact .none

theorem Part.cloneHandle (n : Nat) :
    p.Part (w.cloneHandle k n) (w'.cloneHandle (p.renaming.worker k) n) :=
  h.change hk fun _ _ => by rfl

end Owners

/-! ## What happens in the rest -/

/-- Whether the share has no part in a move. -/
def Spared (p : Share) (w : Workshop α) : Move α → Prop
  | .hire .. => p.worker w.workers.length = false
  | .welcome => p.client w.clients.length = false
  | .call _ c k _ | .enter _ c k _ => p.client c = false ∧ p.worker k = false
  | .resume c => p.client c = false
  | .work k | .insist k | .enterFrom k | .release k | .stop k _ | .leave k | .abandon k
  | .cloneHandle k _ | .dropHandle k _ => p.worker k = false

theorem Spared.of_call {m : Move α} {manner : Manner} {c : Nat} {job : Work α}
    (h : p.Spared w m) (hm : m.OfCall manner c k job) :
    p.client c = false ∧ p.worker k = false := by
  cases hm <;> exact h

theorem Spared.of_job {m : Move α} (h : p.Spared w m) (hm : m.OfJob k) : p.worker k = false := by
  cases hm <;> exact h

/-- Whom a job in the rest names is in the rest. -/
theorem Apart.stranger {t : Nat} {u v : Worker α} (h : p.Apart w) (hk : p.worker k = false)
    (hu : w.workers[k]? = some u) (hv : w.workers[t]? = some v) (hn : p.Near k t) :
    p.worker t = false := by
  have hcount : ∀ {j x}, w.workers[j]? = some x → j < p.count := fun hx =>
    Nat.lt_of_lt_of_le (List.getElem?_eq_some_iff.1 hx).1 h.count
  exact (hn (hcount hu) (hcount hv)).symm.trans hk

/-- **What happens in the rest does not matter in the share.** -/
theorem Part.outside {m : Move α} (h : p.Part w w') (ha : p.Apart w) (hs : p.Spared w m)
    (hm : w.move m = some w₁) : p.Part w₁ w' := by
  obtain ⟨rs, hm⟩ : ∃ rs, Moved w m rs w₁ := ⟨_, moved_of_move hm⟩
  cases hm with
  | hire => exact h.hired_rest hs _ _
  | hireFails => exact h
  | welcome => exact h.welcome_rest hs
  | called => exact (h.change_rest hs.2 _).changeClient_rest hs.1 _
  | enters hcalls =>
      obtain ⟨hclient, hworker⟩ := hs.of_call hcalls
      exact (h.change_rest hworker _).changeClient_rest hclient _
  | resumed hc hcall =>
      have hk := (ha.sending hc hcall).symm.trans hs
      exact (h.change_rest hk _).changeClient_rest hs _
  | goesOn _ _ hj => exact h.change_rest (hs.of_job hj) _
  | stopsFrom hu hp ht ho =>
      obtain ⟨v, hv, -⟩ := exists_of_owns ho
      have hn := (ha.keeps.workers hu).running _ hp _ List.mem_cons_self _
        (List.mem_cons_of_mem _ List.mem_cons_self)
      rw [ht] at hn
      have ht := ha.stranger hs hu hv hn
      exact (h.stopBy_rest ht (fun j hj => by cases hj; exact hs) _).change_rest hs _
  | sends hj hu hp hv _ _ ht | sendEnters hj hu hp hv _ ht =>
      have hn := (ha.keeps.workers hu).running _ hp _ List.mem_cons_self _
        (List.mem_cons_of_mem _ List.mem_cons_self)
      rw [ht] at hn
      have hk := hs.of_job hj
      exact (h.change_rest (ha.stranger hk hu hv hn) _).change_rest hk _
  | sendsOn hu hp hv =>
      have hn := ((ha.keeps.workers hu).sending _ _ _ _ hp).1
      exact (h.change_rest (ha.stranger hs hu hv hn) _).change_rest hs _
  | advances | clones | drops => exact h.change_rest hs _
  | stops => exact h.stopBy_rest hs (fun _ hj => by cases hj) _
  | leaves | abandons => exact (h.stopUnlessStopped_rest hs).change_rest hs _

/-! ## Rest -/

/-- **The next step is one of the rest, or the next one of the share.** -/
theorem Part.next? (h : p.Part w w') (ha : p.Apart w) :
    (w.next? = none → w'.next? = none) ∧
    ∀ w₁, w.next? = some w₁ → p.Part w₁ w' ∨ ∃ w₁', w'.next? = some w₁' ∧ p.Part w₁ w₁' := by
  have hclients := findSome?_select (R := p.Part) (c := w') (n := w.clients.length)
    (fun c hc => h.resume ha hc) fun c w₁ hc hmove => h.outside ha (m := .resume c) hc hmove
  have hworkers := findSome?_select (R := p.Part) (c := w') (n := w.workers.length)
    (fun k hk => h.work ha hk) fun k w₁ hk hmove => h.outside ha (m := .work k) hk hmove
  unfold Workshop.next?
  rw [h.length_clients, h.length_workers]
  cases hc : (List.range w.clients.length).findSome? w.resume with
  | some w₂ =>
      refine ⟨fun hn => (by cases hn), fun w₁ hw₁ => ?_⟩
      cases hw₁
      rcases hclients.2 _ hc with hpart | ⟨w₁', hnext, hpart⟩
      · exact .inl hpart
      · refine .inr ⟨w₁', ?_, hpart⟩
        exact congrArg (· <|> _) hnext
  | none =>
      have hnone : (List.range (p.renaming.client w.clients.length)).findSome? w'.resume = none :=
        hclients.1 hc
      rw [hnone]
      exact hworkers

/-- **A share comes to rest as if it were alone.** -/
theorem Part.settle (h : p.Part w w') (ha : p.Apart w) : p.Part w.settle w'.settle := by
  fun_induction Workshop.settle w generalizing w' with
  | case1 w hnone =>
      rw [settle_of_still ((h.next? ha).1 hnone)]
      exact h
  | case2 w w₁ hnext ih =>
      obtain ⟨m, hu, hm⟩ := exists_move_of_next? hnext
      have ha₁ := ha.unasked hu hm
      rcases (h.next? ha).2 w₁ hnext with hpart | ⟨w₁', hnext', hpart⟩
      · exact ih hpart ha₁
      · rw [settle_of_next? hnext']
        exact ih hpart ha₁

end Share

end SerialWorkers.Workshop
