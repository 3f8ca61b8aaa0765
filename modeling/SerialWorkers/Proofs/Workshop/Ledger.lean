import SerialWorkers.Proofs.Workshop.Custody

/-!
# What senders are told

A job that is sent gets a ticket, and in the end its sender is told whether it
was taken in; until then the sender is in the call.  The ledger of a run
ties the three together: what a worker accepted is what its senders were told was
accepted, in that order, no ticket is given twice, and what one sender sends is
decided in the order it was sent.

* `Workshop.Posted` — all that a move can do to tickets, calls and what senders are told.
* `Workshop.Ledger` — the ledger; `ledger_of_run` says that it is always right.
-/

namespace SerialWorkers

open Workshop

variable {α : Type}

namespace Worker

/-! ## What taking in a job does to a worker's books -/

/-- The jobs accepted, once the sender of `mail` was told `r`. -/
def acceptedAfter (v : Worker α) (mail : Mail α) (r : Receipt) : List (Mail α) :=
  if r = .accepted then v.accepted ++ [mail] else v.accepted

theorem attempts_put (v : Worker α) (mail : Mail α) : (v.put mail).2.attempts = v.attempts := by
  have hh := handed_put v mail
  generalize v.put mail = put at hh ⊢
  cases hh <;> rfl

theorem accepted_put (v : Worker α) (mail : Mail α) :
    (v.put mail).2.accepted = v.acceptedAfter mail (v.put mail).1 := by
  have hh := handed_put v mail
  generalize v.put mail = put at hh ⊢
  cases hh <;> simp [acceptedAfter, begin]

theorem calling_put (v : Worker α) (mail : Mail α) :
    (v.put mail).2.phase.calling = v.phase.calling := by
  have hh := handed_put v mail
  generalize v.put mail = put at hh ⊢
  cases hh with
  | passed hi hc hw hn => simp [begin, hw, Phase.calling]
  | refused | queued | waits => rfl

theorem attempts_post (v : Worker α) (sender : Sender) (job : Work α) :
    (v.post sender job).2.attempts = v.attempts + 1 := by
  unfold post
  split
  · exact attempts_put _ _
  · rfl

theorem accepted_post (v : Worker α) (sender : Sender) (job : Work α) :
    (v.post sender job).2.accepted
      = v.acceptedAfter (v.mailFrom sender job) (v.post sender job).1 := by
  unfold post
  split
  · exact accepted_put v.counted _
  · simp [acceptedAfter, counted]

theorem calling_post (v : Worker α) (sender : Sender) (job : Work α) :
    (v.post sender job).2.phase.calling = v.phase.calling := by
  unfold post
  split
  · exact calling_put _ _
  · rfl

/-- Promptness does not change what is accepted. -/
theorem acceptedAfter_inManner (v : Worker α) (mail : Mail α) (r : Receipt) (manner : Manner) :
    v.acceptedAfter mail (r.inManner manner) = v.acceptedAfter mail r := by
  cases r <;> cases manner <;> simp [acceptedAfter, Receipt.inManner]

/-- A thread that takes a step of its own is in no call, before or after. -/
theorem advance_quiet {v v' : Worker α} (h : v.advance = some v') :
    v'.attempts = v.attempts ∧ v'.accepted = v.accepted ∧
      v.phase.calling = none ∧ v'.phase.calling = none := by
  cases advanced_of_advance h with
  | panics hp =>
      rw [hp]
      unfold Worker.panic
      split <;> exact ⟨rfl, rfl, rfl, rfl⟩
  | begins hp | heeds hp | despairs hp | finishes hp | writes _ hp | marks hp | goes hp =>
      rw [hp]
      exact ⟨rfl, rfl, rfl, rfl⟩

end Worker

namespace Workshop

/-! ## Tickets and calls in a workshop -/

/-- How many jobs somebody tried to send worker `k`, and those it accepted. -/
def intake (w : Workshop α) (k : Nat) : Option (Nat × List (Mail α)) :=
  (w.workers[k]?).map fun v => (v.attempts, v.accepted)

theorem intake_of_getElem? {w : Workshop α} {k : Nat} {v : Worker α}
    (hv : w.workers[k]? = some v) : w.intake k = some (v.attempts, v.accepted) := by
  rw [intake, hv]
  rfl

theorem intake_change (w : Workshop α) (k j : Nat) (f : Worker α → Worker α) :
    (w.change k f).intake j
      = if k = j then (w.workers[j]?).map (fun v => ((f v).attempts, (f v).accepted))
        else w.intake j := by
  rw [intake, workers_change]
  split
  · rw [Option.map_map]
    rfl
  · rfl

theorem calling_change (w : Workshop α) (k j : Nat) (f : Worker α → Worker α) :
    (w.change k f).calling (.worker j)
      = if k = j then (w.workers[j]?).bind (fun v => (f v).phase.calling)
        else w.calling (.worker j) := by
  rw [calling, workers_change]
  split
  · cases w.workers[j]? <;> rfl
  · rfl

/-- Two workshops with the same tickets and calls. -/
structure Alike (w w' : Workshop α) : Prop where
  /-- Every worker has the same tickets and jobs. -/
  intake : ∀ k, w'.intake k = w.intake k
  /-- Every sender is in the same call, if any. -/
  calling : ∀ s, w'.calling s = w.calling s

theorem alike_refl (w : Workshop α) : Alike w w := ⟨fun _ => rfl, fun _ => rfl⟩

theorem Alike.trans {w w' w'' : Workshop α} (h : Alike w w') (h' : Alike w' w'') : Alike w w'' :=
  ⟨fun k => (h'.intake k).trans (h.intake k), fun s => (h'.calling s).trans (h.calling s)⟩

/-- A change of one worker that leaves its tickets and calls alone. -/
theorem alike_change {w : Workshop α} {k : Nat} {f : Worker α → Worker α}
    (hf : ∀ v, w.workers[k]? = some v → (f v).attempts = v.attempts ∧
      (f v).accepted = v.accepted ∧ (f v).phase.calling = v.phase.calling) :
    Alike w (w.change k f) where
  intake j := by
    rw [intake_change]
    split
    · rename_i hk
      subst hk
      cases hv : w.workers[k]? with
      | none => simp [Workshop.intake, hv]
      | some v =>
          obtain ⟨h1, h2, -⟩ := hf v hv
          simp [Workshop.intake, hv, h1, h2]
    · rfl
  calling s := by
    cases s with
    | client c => rfl
    | worker j =>
        rw [calling_change]
        split
        · rename_i hk
          subst hk
          cases hv : w.workers[k]? with
          | none => simp [Workshop.calling, hv]
          | some v => simp [Workshop.calling, hv, (hf v hv).2.2]
        · rfl

theorem alike_report (w : Workshop α) (thread : Thread) (e : Event) :
    Alike w (w.report thread e) := by
  cases thread with
  | outside => exact ⟨fun _ => rfl, fun s => by cases s <;> rfl⟩
  | worker k => exact alike_change fun _ _ => ⟨rfl, rfl, rfl⟩

theorem alike_stopBy (w : Workshop α) (thread : Thread) (k : Nat) (status : Int) :
    Alike w (w.stopBy thread k status) := by
  have hstop : Alike w (w.change k fun v => (v.stop status).2) :=
    alike_change fun _ _ => ⟨rfl, rfl, rfl⟩
  unfold stopBy
  split
  · exact alike_refl w
  · simp only
    split
    · exact hstop.trans (alike_report _ thread _)
    · exact hstop

theorem alike_stopUnlessStopped (w : Workshop α) (k : Nat) :
    Alike w (w.stopUnlessStopped k) := by
  unfold stopUnlessStopped
  split
  · exact alike_refl w
  · split
    · exact alike_stopBy w _ k 0
    · exact alike_refl w

/-! ## What a move does to them -/

/-- All that a move can do to tickets and calls, with what senders are told. -/
inductive Posted (w w' : Workshop α) : List (SubmitResult α) → Prop
  /-- Nothing; at most a worker is hired, with no ticket given and no job accepted. -/
  | quiet (intake : ∀ k, w'.intake k = w.intake k ∨ w.intake k = none ∧ w'.intake k = some (0, []))
      (calling : ∀ s, w'.calling s = w.calling s) : Posted w w' []
  /-- A sender sends a job and is told at once. -/
  | told {s : Sender} {k : Nat} {v : Worker α} {job : Work α} {manner : Manner} {r : Receipt}
      (hv : w.workers[k]? = some v) (hs : w.calling s = none)
      (hr : (v.post s job).1.inManner manner = r) (hw : r ≠ .waits)
      (intake : ∀ j, w'.intake j = if k = j then
        some (v.attempts + 1, v.acceptedAfter (v.mailFrom s job) r) else w.intake j)
      (calling : ∀ s', w'.calling s' = w.calling s') : Posted w w' [⟨k, v.mailFrom s job, r⟩]
  /-- A sender found a mailbox open, and is in the call. -/
  | enters {s : Sender} {k : Nat} {v : Worker α} (job : Work α)
      (hv : w.workers[k]? = some v) (hs : w.calling s = none) (ho : v.mailbox.isOpen = true)
      (intake : ∀ j, w'.intake j = if k = j then some (v.attempts + 1, v.accepted)
        else w.intake j)
      (calling : ∀ s', w'.calling s' = if s = s' then some (k, v.mailFrom s job)
        else w.calling s') : Posted w w' []
  /-- A sender in a call is told. -/
  | resumed {s : Sender} {k : Nat} {v : Worker α} {mail : Mail α} {manner : Manner} {r : Receipt}
      (hv : w.workers[k]? = some v) (hs : w.calling s = some (k, mail))
      (hr : (v.put mail).1.inManner manner = r) (hw : r ≠ .waits)
      (intake : ∀ j, w'.intake j = if k = j then
        some (v.attempts, v.acceptedAfter mail r) else w.intake j)
      (calling : ∀ s', w'.calling s' = if s = s' then none else w.calling s') :
      Posted w w' [⟨k, mail, r⟩]

theorem Alike.posted {w w' : Workshop α} (h : Alike w w') : Posted w w' [] :=
  .quiet (fun k => .inl (h.intake k)) h.calling

/-- A hire gives no ticket. -/
theorem posted_hire (w : Workshop α) (settings : Settings) (identity : String)
    (outside : List Event) :
    Posted w { w with
      workers := w.workers ++ [Worker.hired settings identity], outside := outside } [] := by
  refine .quiet ?_ ?_
  · intro k
    simp only [intake, List.getElem?_append]
    split
    · exact .inl rfl
    · rename_i hk
      rw [List.getElem?_singleton]
      rw [Nat.not_lt] at hk
      rw [List.getElem?_eq_none_iff.2 hk]
      split
      · exact .inr ⟨rfl, rfl⟩
      · exact .inl rfl
  · intro s
    cases s with
    | client c => rfl
    | worker k =>
        simp only [calling, List.getElem?_append]
        split
        · rfl
        · rename_i hk
          rw [Nat.not_lt] at hk
          rw [List.getElem?_eq_none_iff.2 hk, List.getElem?_singleton]
          split <;> rfl

theorem alike_welcome (w : Workshop α) : Alike w w.welcome where
  intake _ := rfl
  calling s := by
    cases s with
    | worker k => rfl
    | client c =>
        simp only [calling, welcome, List.getElem?_append]
        split
        · rfl
        · rename_i hk
          rw [Nat.not_lt] at hk
          rw [List.getElem?_eq_none_iff.2 hk, List.getElem?_singleton]
          split <;> rfl

/-- The tickets after worker `k` was changed. -/
theorem intake_of_change {w : Workshop α} {k : Nat} {v x : Worker α}
    (hv : w.workers[k]? = some v) (j : Nat) :
    (w.change k fun _ => x).intake j
      = if k = j then some (x.attempts, x.accepted) else w.intake j := by
  rw [intake_change]
  split
  · rename_i hk
    subst hk
    rw [hv]
    rfl
  · rfl

/-- The calls after worker `k` was changed, not by its own thread. -/
theorem calling_of_change {w : Workshop α} {k : Nat} {v x : Worker α}
    (hv : w.workers[k]? = some v) (hc : x.phase.calling = v.phase.calling) (s : Sender) :
    (w.change k fun _ => x).calling s = w.calling s := by
  cases s with
  | client c => rfl
  | worker j =>
      rw [calling_change]
      split
      · rename_i hk
        subst hk
        simp [calling, hv, hc]
      · rfl

/-- The calls after something was done by client `c`. -/
theorem calling_changeClient {w : Workshop α} {c : Nat} {client : Client α}
    (hc : w.clients[c]? = some client) (f : Client α → Client α) (s : Sender) :
    (w.changeClient c f).calling s
      = if Sender.client c = s then (f client).sending else w.calling s := by
  cases s with
  | worker k => rfl
  | client c' =>
      simp only [calling, changeClient, List.getElem?_modify, Sender.client.injEq]
      split
      · rename_i h
        subst h
        simp [hc]
      · simp

/-- The calls after something was done by the thread of worker `k`. -/
theorem calling_of_own_change {w : Workshop α} {k : Nat} {v : Worker α}
    (hv : w.workers[k]? = some v) (f : Worker α → Worker α) (p : Phase α)
    (hf : ∀ v, (f v).phase = p) (s : Sender) :
    (w.change k f).calling s = if Sender.worker k = s then p.calling else w.calling s := by
  cases s with
  | client c => rfl
  | worker j =>
      rw [calling_change]
      simp only [Sender.worker.injEq]
      split
      · rename_i hk
        subst hk
        simp [hv, hf]
      · rfl

/-- The same, after something was done to a worker `t` by that thread. -/
theorem calling_of_own_send {w : Workshop α} {k t : Nat} {u v' : Worker α}
    (hu : w.workers[k]? = some u) (f : Worker α → Worker α) (p : Phase α)
    (hf : ∀ v, (f v).phase = p) (s : Sender) :
    ((w.change t fun _ => v').change k f).calling s
      = if Sender.worker k = s then p.calling else (w.change t fun _ => v').calling s := by
  by_cases ht : t = k
  · subst ht
    exact calling_of_own_change (v := v') (by simp [workers_change, hu]) f p hf s
  · exact calling_of_own_change (v := u) (by simp [workers_change, ht, hu]) f p hf s

/-- The tickets after a job was sent to worker `k`. -/
theorem intake_after_post {w : Workshop α} {k : Nat} {v : Worker α}
    (hv : w.workers[k]? = some v) (s : Sender) (job : Work α) (manner : Manner) (j : Nat) :
    (w.change k fun _ => (v.post s job).2).intake j = if k = j then
      some (v.attempts + 1,
        v.acceptedAfter (v.mailFrom s job) ((v.post s job).1.inManner manner))
      else w.intake j := by
  rw [intake_of_change hv, Worker.attempts_post, Worker.accepted_post,
    Worker.acceptedAfter_inManner]

/-- The tickets after a job was put in at worker `k`. -/
theorem intake_after_put {w : Workshop α} {k : Nat} {v : Worker α}
    (hv : w.workers[k]? = some v) (mail : Mail α) (manner : Manner) (j : Nat) :
    (w.change k fun _ => (v.put mail).2).intake j = if k = j then
      some (v.attempts, v.acceptedAfter mail ((v.put mail).1.inManner manner))
      else w.intake j := by
  rw [intake_of_change hv, Worker.attempts_put, Worker.accepted_put,
    Worker.acceptedAfter_inManner]

/-- Getting on in a job is nothing to tickets. -/
theorem intake_own_change (w : Workshop α) (k : Nat) {f : Worker α → Worker α}
    (hf : ∀ v, (f v).attempts = v.attempts ∧ (f v).accepted = v.accepted) (j : Nat) :
    (w.change k f).intake j = w.intake j := by
  rw [intake_change]
  split
  · simp [intake, hf]
  · rfl

/-- Who is in no call leaves none. -/
theorem ite_calling_of_free {w : Workshop α} {s : Sender} (hfree : w.calling s = none)
    (s' : Sender) : (if s = s' then none else w.calling s') = w.calling s' := by
  split
  · rename_i hs
    rw [← hs, hfree]
  · rfl

/-- **All that a move can do to tickets and calls.** -/
theorem posted_of_moved {w w' : Workshop α} {m : Move α} {rs : List (SubmitResult α)}
    (h : Moved w m rs w') : Posted w w' rs := by
  cases h with
  | hire => exact posted_hire w _ _ _
  | hireFails => exact (alike_refl w).posted
  | welcome => exact (alike_welcome w).posted
  | @called manner c k job client v r hc hs hv hr hw =>
      subst hr
      have hfree : w.calling (.client c) = none := by simp [calling, hc, hs]
      refine .told hv hfree rfl hw (intake_after_post hv _ job manner) ?_
      intro s
      rw [calling_changeClient (w := w.change k _) hc,
        calling_of_change hv (Worker.calling_post _ _ _), Client.sending_told]
      exact ite_calling_of_free hfree s
  | @enters m manner c k job client v hm hc hs hv ho =>
      have hfree : w.calling (.client c) = none := by simp [calling, hc, hs]
      refine .enters job hv hfree ho (intake_of_change (x := v.counted) hv) ?_
      intro s
      rw [calling_changeClient (w := w.change k _) hc, calling_of_change (x := v.counted) hv rfl]
  | @resumed c k client mail v r hc hs hv hr hw =>
      subst hr
      have hbusy : w.calling (.client c) = some (k, mail) := by simp [calling, hc, hs]
      refine .resumed hv hbusy rfl hw (intake_after_put hv mail client.manner) ?_
      intro s
      rw [calling_changeClient (w := w.change k _) hc,
        calling_of_change hv (Worker.calling_put _ _), Client.sending_told]
  | @goesOn _ k u job f rest es hm hu hp hd hf =>
      refine (alike_change ?_).posted
      intro x hx
      rw [hu] at hx
      cases hx
      rw [hf, hp]
      exact ⟨rfl, rfl, rfl⟩
  | @stopsFrom k t u status whom rest hu hp =>
      refine ((alike_stopBy w (.worker k) t status).trans (alike_change ?_)).posted
      intro x hx
      rw [phase_of_stopBy hu hx, hp]
      exact ⟨rfl, rfl, rfl⟩
  | @sends _ k t u v route job rest r hm hu hp hv hr hw =>
      subst hr
      have hfree : w.calling (.worker k) = none := by simp [calling, hu, hp, Phase.calling]
      refine .told hv hfree rfl hw ?_ ?_
      · intro j
        rw [intake_own_change]
        · exact intake_after_post hv _ job route.manner j
        · exact fun _ => ⟨rfl, rfl⟩
      · intro s
        rw [calling_of_own_send hu _ (.running rest) fun _ => rfl,
          calling_of_change hv (Worker.calling_post _ _ _)]
        exact ite_calling_of_free hfree s
  | @sendEnters _ k t u v route job rest hm hu hp hv ho =>
      have hfree : w.calling (.worker k) = none := by simp [calling, hu, hp, Phase.calling]
      refine .enters job hv hfree ho ?_ ?_
      · intro j
        rw [intake_own_change]
        · exact intake_of_change (x := v.counted) hv j
        · exact fun _ => ⟨rfl, rfl⟩
      · intro s
        rw [calling_of_own_send hu _ (.sending route.manner t (v.mailFrom (.worker k) job) rest)
          fun _ => rfl, calling_of_change (x := v.counted) hv rfl]
        rfl
  | @sendsOn k t u v manner mail rest r hu hp hv hr hw =>
      subst hr
      have hbusy : w.calling (.worker k) = some (t, mail) := by
        simp [calling, hu, hp, Phase.calling]
      refine .resumed hv hbusy rfl hw ?_ ?_
      · intro j
        rw [intake_own_change]
        · exact intake_after_put hv mail manner j
        · exact fun _ => ⟨rfl, rfl⟩
      · intro s
        rw [calling_of_own_send hu _ (.running rest) fun _ => rfl,
          calling_of_change hv (Worker.calling_put _ _)]
        rfl
  | @advances k u u' hu hadv =>
      refine (alike_change ?_).posted
      intro x hx
      rw [hu] at hx
      cases hx
      obtain ⟨h1, h2, h3, h4⟩ := Worker.advance_quiet hadv
      exact ⟨h1, h2, h4.trans h3.symm⟩
  | stops => exact (alike_stopBy w _ _ _).posted
  | leaves | abandons =>
      refine ((alike_stopUnlessStopped w _).trans (alike_change ?_)).posted
      intro _ _
      exact ⟨rfl, rfl, rfl⟩
  | clones | drops =>
      refine (alike_change ?_).posted
      intro _ _
      exact ⟨rfl, rfl, rfl⟩

/-! ## The ledger -/

/-- The jobs that senders were told worker `k` accepted. -/
def acceptedBy (k : Nat) (told : List (SubmitResult α)) : List (Mail α) :=
  (told.filter fun r => r.worker = k ∧ r.receipt = .accepted).map SubmitResult.mail

@[simp] theorem acceptedBy_nil (k : Nat) : acceptedBy k ([] : List (SubmitResult α)) = [] := rfl

theorem acceptedBy_append (k : Nat) (told more : List (SubmitResult α)) :
    acceptedBy k (told ++ more) = acceptedBy k told ++ acceptedBy k more := by
  simp [acceptedBy]

theorem acceptedBy_of_ne {k : Nat} {told : List (SubmitResult α)} (h : ∀ r ∈ told, r.worker ≠ k) :
    acceptedBy k told = [] := by
  rw [acceptedBy, List.filter_eq_nil_iff.2, List.map_nil]
  intro r hr
  simp [h r hr]

theorem acceptedBy_singleton_of_ne {k : Nat} {r : SubmitResult α} (h : r.worker ≠ k) :
    acceptedBy k [r] = [] :=
  acceptedBy_of_ne (by simpa using h)

/-- What one result adds to the jobs accepted. -/
theorem acceptedAfter_eq_append (v : Worker α) (k : Nat) (mail : Mail α) (r : Receipt) :
    v.acceptedAfter mail r = v.accepted ++ acceptedBy k [⟨k, mail, r⟩] := by
  by_cases hr : r = .accepted <;> simp [Worker.acceptedAfter, acceptedBy, hr]

/-- Of two jobs sent to one worker: they are told apart by their tickets, and if
one sender sent both, `a` was sent first. -/
def Precedes (a b : Mail α) : Prop :=
  a.ticket ≠ b.ticket ∧ (a.sender = b.sender → a.ticket < b.ticket)

/-- Whether `mail` got its ticket from worker `k`. -/
def Ticketed (w : Workshop α) (k : Nat) (mail : Mail α) : Prop :=
  ∃ n acc, w.intake k = some (n, acc) ∧ mail.ticket < n

/-- The ledger of a workshop whose senders were `told`. -/
structure Ledger (told : List (SubmitResult α)) (w : Workshop α) : Prop where
  /-- Workers accepted what their senders were told was accepted, in that order. -/
  accepted : ∀ {k n acc}, w.intake k = some (n, acc) → acc = acceptedBy k told
  /-- Every result is of a job that got a ticket before. -/
  ticketed : ∀ r ∈ told, w.Ticketed r.worker r.mail
  /-- Results come in the order of sending, sender by sender. -/
  ordered : told.Pairwise fun a b => a.worker = b.worker → Precedes a.mail b.mail
  /-- Whoever is in a call entered it after all that have their result. -/
  calling : ∀ {s k mail}, w.calling s = some (k, mail) →
    mail.sender = s ∧ w.Ticketed k mail ∧ ∀ r ∈ told, r.worker = k → Precedes r.mail mail
  /-- No two senders in calls have the same ticket. -/
  apart : ∀ {s s' k mail mail'}, w.calling s = some (k, mail) → w.calling s' = some (k, mail') →
    s ≠ s' → mail.ticket ≠ mail'.ticket

theorem ledger_empty : Ledger [] ({} : Workshop α) where
  accepted h := by simp [intake] at h
  ticketed r hr := by cases hr
  ordered := .nil
  calling := by
    intro s k mail h
    cases s <;> simp [Workshop.calling] at h
  apart := by
    intro s s' k mail mail' h
    cases s <;> simp [Workshop.calling] at h

variable {told : List (SubmitResult α)} {w w' : Workshop α}

/-- A job on its way to a worker comes after all that have their result, as tickets go. -/
theorem Ledger.precedes_fresh (h : Ledger told w) {k : Nat} {v : Worker α}
    (hv : w.workers[k]? = some v) (s : Sender) (job : Work α) {r : SubmitResult α} (hr : r ∈ told)
    (hk : r.worker = k) : Precedes r.mail (v.mailFrom s job) := by
  obtain ⟨n, acc, hi, ht⟩ := h.ticketed r hr
  rw [hk, intake_of_getElem? hv] at hi
  cases hi
  exact ⟨by simp only [Worker.mailFrom]; omega, fun _ => ht⟩

/-- Every ticket given is still given. -/
def KeepsTickets (w w' : Workshop α) : Prop :=
  ∀ k n acc, w.intake k = some (n, acc) → ∃ n' acc', w'.intake k = some (n', acc') ∧ n ≤ n'

theorem Ticketed.mono {k : Nat} {mail : Mail α} (h : w.Ticketed k mail) (hw : KeepsTickets w w') :
    w'.Ticketed k mail := by
  obtain ⟨n, acc, hn, ht⟩ := h
  obtain ⟨n', acc', hn', hle⟩ := hw _ _ _ hn
  exact ⟨n', acc', hn', by omega⟩

theorem keepsTickets_of_update {k n' : Nat} {v : Worker α} {acc' : List (Mail α)}
    (hv : w.workers[k]? = some v) (hle : v.attempts ≤ n')
    (hi : ∀ j, w'.intake j = if k = j then some (n', acc') else w.intake j) :
    KeepsTickets w w' := by
  intro j n acc hn
  by_cases hk : k = j
  · subst hk
    rw [intake_of_getElem? hv] at hn
    cases hn
    exact ⟨n', acc', (hi k).trans (if_pos rfl), hle⟩
  · exact ⟨n, acc, (hi j).trans ((if_neg hk).trans hn), Nat.le_refl n⟩

/-- No move takes a ticket back. -/
theorem Posted.keepsTickets {rs : List (SubmitResult α)} (h : Posted w w' rs) :
    KeepsTickets w w' := by
  cases h with
  | quiet hi hc =>
      intro k n acc hn
      rcases hi k with hk | ⟨hk, -⟩
      · exact ⟨n, acc, hk.trans hn, Nat.le_refl n⟩
      · rw [hk] at hn
        cases hn
  | told hv hs hr hw hi hc => exact keepsTickets_of_update hv (Nat.le_succ _) hi
  | enters job hv hs ho hi hc => exact keepsTickets_of_update hv (Nat.le_succ _) hi
  | resumed hv hs hr hw hi hc => exact keepsTickets_of_update hv (Nat.le_refl _) hi

/-- The results of a move stay in the order of sending. -/
theorem Ledger.ordered_append (h : Ledger told w) {r : SubmitResult α}
    (hr : ∀ r' ∈ told, r'.worker = r.worker → Precedes r'.mail r.mail) :
    (told ++ [r]).Pairwise fun a b => a.worker = b.worker → Precedes a.mail b.mail := by
  refine List.pairwise_append.2 ⟨h.ordered, List.pairwise_singleton _ _, ?_⟩
  intro a ha b hb hab
  rw [List.mem_singleton] at hb
  subst hb
  exact hr a ha hab

/-- The accepted jobs, after a job sent to worker `k` has its result. -/
theorem Ledger.accepted_append (h : Ledger told w) {k n : Nat} {v : Worker α} {mail : Mail α}
    {r : Receipt} (hv : w.workers[k]? = some v)
    (hi : ∀ j, w'.intake j = if k = j then some (n, v.acceptedAfter mail r) else w.intake j)
    {j n' : Nat} {acc : List (Mail α)} (hj : w'.intake j = some (n', acc)) :
    acc = acceptedBy j (told ++ [⟨k, mail, r⟩]) := by
  rw [hi j] at hj
  rw [acceptedBy_append]
  by_cases hk : k = j
  · subst hk
    rw [if_pos rfl] at hj
    cases hj
    rw [acceptedAfter_eq_append v k, h.accepted (intake_of_getElem? hv)]
  · rw [if_neg hk] at hj
    rw [acceptedBy_singleton_of_ne hk, List.append_nil]
    exact h.accepted hj

/-- Whoever is still in the same call entered it after `r` too. -/
theorem Ledger.calling_append (h : Ledger told w) (hkeep : KeepsTickets w w') {r : SubmitResult α}
    {s : Sender} {k : Nat} {mail : Mail α} (hs : w.calling s = some (k, mail))
    (hr : r.worker = k → Precedes r.mail mail) :
    mail.sender = s ∧ w'.Ticketed k mail ∧
      ∀ r' ∈ told ++ [r], r'.worker = k → Precedes r'.mail mail := by
  obtain ⟨h1, h2, h3⟩ := h.calling hs
  refine ⟨h1, h2.mono hkeep, ?_⟩
  intro r' hr' hk
  rcases List.mem_append.1 hr' with hr' | hr'
  · exact h3 r' hr' hk
  · rw [List.mem_singleton] at hr'
    subst hr'
    exact hr hk

/-- Whoever is in a call has an earlier ticket than a job sent now. -/
theorem Ledger.ticket_lt_fresh (h : Ledger told w) {k : Nat} {v : Worker α}
    (hv : w.workers[k]? = some v) (s : Sender) (job : Work α) {s' : Sender} {mail : Mail α}
    (hs' : w.calling s' = some (k, mail)) : mail.ticket < (v.mailFrom s job).ticket := by
  obtain ⟨-, ⟨n, acc, hi, ht⟩, -⟩ := h.calling hs'
  rw [intake_of_getElem? hv] at hi
  cases hi
  exact ht

/-- A move in which nothing is sent keeps the ledger. -/
theorem Ledger.quiet (h : Ledger told w) (hkeep : KeepsTickets w w')
    (hi : ∀ k, w'.intake k = w.intake k ∨ w.intake k = none ∧ w'.intake k = some (0, []))
    (hc : ∀ s, w'.calling s = w.calling s) : Ledger told w' where
  accepted := by
    intro k n acc hn
    rcases hi k with hk | ⟨hk, hk'⟩
    · exact h.accepted (hk ▸ hn)
    · -- a worker just hired: nobody sent it anything yet
      rw [hk'] at hn
      cases hn
      refine (acceptedBy_of_ne ?_).symm
      intro r hr hrk
      obtain ⟨n, acc, hn, -⟩ := h.ticketed r hr
      rw [hrk, hk] at hn
      cases hn
  ticketed r hr := (h.ticketed r hr).mono hkeep
  ordered := h.ordered
  calling := by
    intro s k mail hs
    rw [hc] at hs
    obtain ⟨h1, h2, h3⟩ := h.calling hs
    exact ⟨h1, h2.mono hkeep, h3⟩
  apart := by
    intro s s' k mail mail' hs hs'
    rw [hc] at hs hs'
    exact h.apart hs hs'

/-- The jobs with a result, before and now, have got a ticket. -/
theorem Ledger.ticketed_append (h : Ledger told w) (hkeep : KeepsTickets w w') {r : SubmitResult α}
    (hr : w'.Ticketed r.worker r.mail) :
    ∀ r' ∈ told ++ [r], w'.Ticketed r'.worker r'.mail := by
  intro r' hr'
  rcases List.mem_append.1 hr' with hr' | hr'
  · exact (h.ticketed r' hr').mono hkeep
  · rw [List.mem_singleton] at hr'
    subst hr'
    exact hr

/-- A sender that is told at once keeps the ledger. -/
theorem Ledger.told_at_once (h : Ledger told w) (hkeep : KeepsTickets w w') {s : Sender}
    {k : Nat} {v : Worker α} {job : Work α} {r : Receipt} (hv : w.workers[k]? = some v)
    (hs : w.calling s = none)
    (hi : ∀ j, w'.intake j = if k = j then
      some (v.attempts + 1, v.acceptedAfter (v.mailFrom s job) r) else w.intake j)
    (hc : ∀ s', w'.calling s' = w.calling s') :
    Ledger (told ++ [⟨k, v.mailFrom s job, r⟩]) w' where
  accepted hn := h.accepted_append hv hi hn
  ticketed := h.ticketed_append hkeep ⟨_, _, (hi k).trans (if_pos rfl), Nat.lt_succ_self _⟩
  ordered := h.ordered_append fun _ hr' hk => h.precedes_fresh hv s job hr' hk
  calling := by
    intro s' j mail hs'
    rw [hc] at hs'
    apply h.calling_append hkeep hs'
    intro hk
    -- who is in a call is somebody else, and has an earlier ticket
    simp only at hk
    subst hk
    refine ⟨Nat.ne_of_gt (h.ticket_lt_fresh hv s job hs'), ?_⟩
    intro hsame
    rw [← (h.calling hs').1, ← hsame] at hs'
    exact absurd (hs.symm.trans hs') (by simp)
  apart := by
    intro s₁ s₂ j mail₁ mail₂ h₁ h₂
    rw [hc] at h₁ h₂
    exact h.apart h₁ h₂

/-- A sender that enters a call keeps the ledger. -/
theorem Ledger.enters (h : Ledger told w) (hkeep : KeepsTickets w w') {s : Sender} {k : Nat}
    {v : Worker α} {job : Work α} (hv : w.workers[k]? = some v)
    (hi : ∀ j, w'.intake j = if k = j then some (v.attempts + 1, v.accepted) else w.intake j)
    (hc : ∀ s', w'.calling s' = if s = s' then some (k, v.mailFrom s job) else w.calling s') :
    Ledger told w' where
  accepted := by
    intro j n acc hn
    rw [hi j] at hn
    by_cases hk : k = j
    · subst hk
      rw [if_pos rfl] at hn
      cases hn
      exact h.accepted (intake_of_getElem? hv)
    · rw [if_neg hk] at hn
      exact h.accepted hn
  ticketed r hr := (h.ticketed r hr).mono hkeep
  ordered := h.ordered
  calling := by
    intro s' j mail hs'
    rw [hc] at hs'
    by_cases hsame : s = s'
    · subst hsame
      rw [if_pos rfl] at hs'
      cases hs'
      refine ⟨rfl, ⟨_, _, (hi k).trans (if_pos rfl), Nat.lt_succ_self _⟩, ?_⟩
      exact fun r hr hk => h.precedes_fresh hv s job hr hk
    · rw [if_neg hsame] at hs'
      obtain ⟨h1, h2, h3⟩ := h.calling hs'
      exact ⟨h1, h2.mono hkeep, h3⟩
  apart := by
    intro s₁ s₂ j mail₁ mail₂ h₁ h₂ hne
    rw [hc] at h₁ h₂
    by_cases hs₁ : s = s₁
    · rw [if_pos hs₁] at h₁
      rw [if_neg (hs₁ ▸ hne)] at h₂
      cases h₁
      exact Nat.ne_of_gt (h.ticket_lt_fresh hv s job h₂)
    · rw [if_neg hs₁] at h₁
      by_cases hs₂ : s = s₂
      · rw [if_pos hs₂] at h₂
        cases h₂
        exact Nat.ne_of_lt (h.ticket_lt_fresh hv s job h₁)
      · rw [if_neg hs₂] at h₂
        exact h.apart h₁ h₂ hne

/-- A sender in a call that is told keeps the ledger. -/
theorem Ledger.resumed (h : Ledger told w) (hkeep : KeepsTickets w w') {s : Sender} {k : Nat}
    {v : Worker α} {mail : Mail α} {r : Receipt} (hv : w.workers[k]? = some v)
    (hs : w.calling s = some (k, mail))
    (hi : ∀ j, w'.intake j = if k = j then some (v.attempts, v.acceptedAfter mail r)
      else w.intake j)
    (hc : ∀ s', w'.calling s' = if s = s' then none else w.calling s') :
    Ledger (told ++ [⟨k, mail, r⟩]) w' where
  accepted hn := h.accepted_append hv hi hn
  ticketed := h.ticketed_append hkeep ((h.calling hs).2.1.mono hkeep)
  ordered := h.ordered_append (h.calling hs).2.2
  calling := by
    intro s' j mail' hs'
    rw [hc] at hs'
    by_cases hne : s = s'
    · rw [if_pos hne] at hs'
      cases hs'
    · rw [if_neg hne] at hs'
      apply h.calling_append hkeep hs'
      intro hk
      simp only at hk
      subst hk
      refine ⟨h.apart hs hs' hne, ?_⟩
      intro hsame
      exact absurd ((h.calling hs).1.symm.trans (hsame.trans (h.calling hs').1)) hne
  apart := by
    intro s₁ s₂ j mail₁ mail₂ h₁ h₂
    rw [hc] at h₁ h₂
    by_cases hs₁ : s = s₁
    · rw [if_pos hs₁] at h₁
      cases h₁
    · rw [if_neg hs₁] at h₁
      by_cases hs₂ : s = s₂
      · rw [if_pos hs₂] at h₂
        cases h₂
      · rw [if_neg hs₂] at h₂
        exact h.apart h₁ h₂

/-- **Every move keeps the ledger.** -/
theorem Ledger.posted {rs : List (SubmitResult α)} (h : Ledger told w) (hp : Posted w w' rs) :
    Ledger (told ++ rs) w' := by
  have hkeep := hp.keepsTickets
  cases hp with
  | quiet hi hc =>
      rw [List.append_nil]
      exact h.quiet hkeep hi hc
  | told hv hs hr hw hi hc => exact h.told_at_once hkeep hv hs hi hc
  | enters job hv hs ho hi hc =>
      rw [List.append_nil]
      exact h.enters hkeep hv hi hc
  | resumed hv hs hr hw hi hc => exact h.resumed hkeep hv hs hi hc

/-- **The ledger is right at all times.** -/
theorem ledger_of_run {moves : List (Move α)} {w : Workshop α} (h : run {} moves = some w) :
    Ledger (trace submitResults {} moves) w :=
  trace_invariant submitResults [] (P := fun told w => Ledger told w)
    (fun hl hm => hl.posted (posted_of_moved (moved_of_move hm))) ledger_empty h

/-! ## What clients remember -/

/-- What `sender` was told, in order. -/
def toldTo (sender : Sender) (told : List (SubmitResult α)) : List Receipt :=
  (told.filter fun r => r.mail.sender = sender).map SubmitResult.receipt

theorem toldTo_append (sender : Sender) (told more : List (SubmitResult α)) :
    toldTo sender (told ++ more) = toldTo sender told ++ toldTo sender more := by
  simp [toldTo]

/-- Every client remembers what it was told. -/
def Remembered (told : List (SubmitResult α)) (w : Workshop α) : Prop :=
  ∀ c, toldTo (.client c) told = ((w.clients[c]?).map Client.receipts).getD []

/-- A client's memory is not touched by what is told to somebody else. -/
theorem Remembered.append (h : Remembered told w) {rs : List (SubmitResult α)}
    (hrs : ∀ r ∈ rs, ∀ c, r.mail.sender ≠ .client c)
    (hw : ∀ c : Nat, ((w'.clients[c]?).map Client.receipts).getD []
      = ((w.clients[c]?).map Client.receipts).getD []) : Remembered (told ++ rs) w' := by
  intro c
  have hnil : toldTo (.client c) rs = [] := by
    rw [toldTo, List.filter_eq_nil_iff.2, List.map_nil]
    intro r hr
    simpa using hrs r hr c
  rw [toldTo_append, hnil, List.append_nil, hw, h c]

/-- A client remembers one thing more that it was told. -/
theorem Remembered.tell (h : Remembered told w) {r : SubmitResult α} {c : Nat} {client : Client α}
    (hc : w.clients[c]? = some client) (hr : r.mail.sender = .client c)
    {f : Client α → Client α} (hf : ∀ client, (f client).receipts = client.receipts ++ [r.receipt])
    (hw : w'.clients = w.clients.modify c f) : Remembered (told ++ [r]) w' := by
  intro c'
  rw [toldTo_append, h c', hw, List.getElem?_modify]
  by_cases hcc : c = c'
  · subst hcc
    simp [toldTo, hc, hr, hf]
  · simp [toldTo, hr, hcc]

theorem clients_report (w : Workshop α) (thread : Thread) (e : Event) :
    (w.report thread e).clients = w.clients := by
  cases thread <;> rfl

theorem clients_stopBy (w : Workshop α) (thread : Thread) (k : Nat) (status : Int) :
    (w.stopBy thread k status).clients = w.clients := by
  unfold stopBy
  split
  · rfl
  · simp only
    split
    · rw [clients_report]
      rfl
    · rfl

theorem clients_stopUnlessStopped (w : Workshop α) (k : Nat) :
    (w.stopUnlessStopped k).clients = w.clients := by
  unfold stopUnlessStopped
  split
  · rfl
  · split
    · exact clients_stopBy w _ k 0
    · rfl

/-- **Every move leaves clients with what they were told in it.** -/
theorem Remembered.moved {m : Move α} {rs : List (SubmitResult α)} (h : Remembered told w)
    (hl : Ledger told w) (hm : Moved w m rs w') : Remembered (told ++ rs) w' := by
  have quiet : ∀ {w' : Workshop α}, w'.clients = w.clients → Remembered (told ++ []) w' :=
    fun hc => h.append (by simp) fun c => by rw [hc]
  cases hm with
  | called hc hs hv hr hw => exact h.tell hc rfl (fun _ => rfl) rfl
  | @enters _ _ c k job client v hm hc hs hv ho =>
      apply h.append (by simp)
      intro c'
      simp only [changeClient, change, List.getElem?_modify]
      by_cases hcc : c = c'
      · subst hcc
        simp [hc]
      · simp [hcc]
  | @resumed c k client mail v r hc hs hv hr hw =>
      have hbusy : w.calling (.client c) = some (k, mail) := by simp [Workshop.calling, hc, hs]
      exact h.tell hc (hl.calling hbusy).1 (fun _ => rfl) rfl
  | sends hm hu hp hv hr hw =>
      refine h.append ?_ fun _ => rfl
      intro r hr c
      rw [List.mem_singleton] at hr
      subst hr
      simp [Worker.mailFrom]
  | @sendsOn k t u v manner mail rest r hu hp hv hr hw =>
      have hbusy : w.calling (.worker k) = some (t, mail) := by
        simp [Workshop.calling, hu, hp, Phase.calling]
      refine h.append ?_ fun _ => rfl
      intro r hr c
      rw [List.mem_singleton] at hr
      subst hr
      simp [(hl.calling hbusy).1]
  | welcome =>
      apply h.append (by simp)
      intro c
      simp only [Workshop.welcome, List.getElem?_append]
      split
      · rfl
      · rename_i hk
        rw [Nat.not_lt] at hk
        rw [List.getElem?_eq_none_iff.2 hk, List.getElem?_singleton]
        split <;> rfl
  | stopsFrom hu hp => exact quiet (clients_stopBy w _ _ _)
  | stops => exact quiet (clients_stopBy w _ _ _)
  | leaves => exact quiet (clients_stopUnlessStopped w _)
  | abandons => exact quiet (clients_stopUnlessStopped w _)
  | hire | hireFails | goesOn | sendEnters | advances | clones | drops => exact quiet rfl

/-- **Clients remember what they were told at all times.** -/
theorem remembered_of_run {moves : List (Move α)} {w : Workshop α}
    (h : run {} moves = some w) : Remembered (trace submitResults {} moves) w := by
  have hboth := trace_invariant submitResults []
    (P := fun told w => Ledger told w ∧ Remembered told w)
    (fun hb hm => ⟨hb.1.posted (posted_of_moved (moved_of_move hm)),
      hb.2.moved hb.1 (moved_of_move hm)⟩) ⟨ledger_empty, fun c => by simp [toldTo]⟩ h
  exact hboth.2

end Workshop

end SerialWorkers
