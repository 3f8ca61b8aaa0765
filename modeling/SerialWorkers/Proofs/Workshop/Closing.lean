import SerialWorkers.Proofs.Workshop.Ledger
import SerialWorkers.Proofs.Workshop.Standing

/-!
# Once closed, closed for good

A worker that was requested to stop, or whose thread is done with the service,
starts no further job, and whoever looks at its lifecycle from then on is refused.
Only a sender that had looked at it before may still be told that its job was taken
in: between the look and the put the worker was closed, and nobody looks again.  So
it is with a sender that waited for room, and also with one that only came to put
its job in after the stop.

* `Worker.Frozen` — what every step of a closed worker keeps.
* `Workshop.ClosedForGood` — what holds of a closed worker ever after.
* `Workshop.closed_for_good` — it does, in every continuation of every run.
-/

namespace SerialWorkers

open Workshop

variable {α : Type}

namespace Worker

variable {v u u' : Worker α} {ds : List (LoopEvent α)}

/-! ## One closed worker -/

/-- No step changes the bound. -/
theorem Step.capacity (h : Step u ds u') : u'.mailbox.capacity = u.mailbox.capacity := by
  cases h with
  | advance ha =>
      cases advanced_of_advance ha with
      | begins hp hn =>
          have hcap := congrArg Mailbox.capacity (Mailbox.next_eq_item hn).2.2.2
          exact hcap
      | heeds hp hn =>
          have hcap := congrArg Mailbox.capacity (Mailbox.next_eq_noticed hn).2
          exact hcap
      | despairs hp hn =>
          have hcap := congrArg Mailbox.capacity (Mailbox.next_eq_deserted hn).2.2.2.2
          exact hcap
      | panics hp =>
          unfold Worker.panic
          split <;> rfl
      | finishes | writes | marks | goes => rfl
  | put mail =>
      have hh := handed_put u mail
      generalize u.put mail = put at hh ⊢
      cases hh <;> rfl
  | stop status => exact Mailbox.capacity_stop u.mailbox status
  | count | goOn | report | handles | leave | abandon => rfl

theorem Course.capacity (h : Course u ds u') : u'.mailbox.capacity = u.mailbox.capacity :=
  h.invariant [] (P := fun _ x => x.mailbox.capacity = u.mailbox.capacity)
    (fun hx hs => hs.capacity.trans hx) rfl

/-- What has become of a closed worker, found as `v`: it is `u` now. -/
structure Frozen (v u : Worker α) : Prop where
  /-- Thread and mailbox still go together. -/
  sound : Sound false u
  /-- It is still closed. -/
  closed : u.mailbox.isOpen = false
  /-- Its bound is the same. -/
  capacity : u.mailbox.capacity = v.mailbox.capacity
  /-- It has started no job. -/
  started : u.started = v.started
  /-- What it accepted it queued, in the room there was. -/
  late : ∃ late, u.accepted = v.accepted ++ late ∧
    (u.mailbox.inbox = true → u.mailbox.queue = v.mailbox.queue ++ late) ∧
    ∀ n, v.mailbox.capacity = some n → v.mailbox.pending + late.length ≤ n

theorem frozen_refl (hs : Sound false v) (hc : v.mailbox.isOpen = false) : Frozen v v where
  sound := hs
  closed := hc
  capacity := rfl
  started := rfl
  late := ⟨[], by simp, by simp, hs.within⟩

/-- A step in which no job is taken in or taken up. -/
theorem Frozen.congr (h : Frozen v u) (hstep : Step u ds u') (hc : u'.mailbox.isOpen = false)
    (hst : u'.started = u.started) (hacc : u'.accepted = u.accepted)
    (hq : u'.mailbox.inbox = true →
      u.mailbox.inbox = true ∧ u'.mailbox.queue = u.mailbox.queue) : Frozen v u' where
  sound := h.sound.step hstep
  closed := hc
  capacity := hstep.capacity.trans h.capacity
  started := hst.trans h.started
  late := by
    obtain ⟨late, ha, hl, hn⟩ := h.late
    refine ⟨late, hacc.trans ha, ?_, hn⟩
    intro hi
    obtain ⟨hi, hq⟩ := hq hi
    exact hq.trans (hl hi)

/-- A job that is put into a closed mailbox is put into the queue at best: no thread waits for one
there that it could be passed to. -/
theorem Frozen.put (h : Frozen v u) (mail : Mail α) : Frozen v (u.put mail).2 := by
  have hstep := Step.put u mail
  have hh := handed_put u mail
  generalize u.put mail = put at hh hstep ⊢
  cases hh with
  | refused hi => exact h
  | waits hi hf => exact h
  | passed hi hc hw hn =>
      rw [h.sound.next_of_waiting hw h.closed] at hn
      cases hn
  | queued hi hf =>
      obtain ⟨late, ha, hl, -⟩ := h.late
      have hsound := h.sound.step hstep
      have hq := hl hi
      refine ⟨hsound, h.closed, h.capacity, h.started, late ++ [mail], ?_, ?_,
        ?_⟩
      · simp only [ha, List.append_assoc]
      · intro _
        simp only [Mailbox.push, hq, List.append_assoc]
      · intro n hn
        have := hsound.within n (h.capacity.trans hn)
        simp only [Mailbox.pending, Mailbox.push, hq, List.length_append] at this ⊢
        omega

/-- A closed worker's thread takes up no job. -/
theorem Frozen.advance (h : Frozen v u) (ha : u.advance = some u') : Frozen v u' := by
  have hstep := Step.advance ha
  cases advanced_of_advance ha with
  | begins hp hn =>
      rw [h.sound.next_of_waiting hp h.closed] at hn
      cases hn
  | heeds hp hn =>
      obtain ⟨-, rfl⟩ := Mailbox.next_eq_noticed hn
      exact h.congr hstep h.closed rfl rfl fun hi => ⟨hi, rfl⟩
  | despairs hp hn => exact absurd hn h.sound.next_ne_deserted
  | finishes | writes => exact h.congr hstep h.closed rfl rfl fun hi => ⟨hi, rfl⟩
  | panics hp =>
      refine h.congr hstep ?_ ?_ ?_ ?_ <;> unfold Worker.panic <;> split
      · exact h.closed
      · exact h.closed
      · rfl
      · rfl
      · rfl
      · rfl
      · exact fun hi => ⟨hi, rfl⟩
      · exact fun hi => ⟨hi, rfl⟩
  | marks hp => exact h.congr hstep rfl rfl rfl fun hi => ⟨hi, rfl⟩
  | goes hp => exact h.congr hstep h.closed rfl rfl nofun

/-- **Nothing that happens to a closed worker makes it start a job.** -/
theorem Frozen.step (h : Frozen v u) (hs : Step u ds u') : Frozen v u' := by
  cases hs with
  | advance ha => exact h.advance ha
  | put mail => exact h.put mail
  | stop status =>
      apply h.congr (.stop u status) (isOpen_stop _ _) rfl rfl
      intro hi
      exact ⟨(Mailbox.inbox_stop u.mailbox status).symm.trans hi, Mailbox.queue_stop _ _⟩
  | count => exact h.congr (.count u) h.closed rfl rfl fun hi => ⟨hi, rfl⟩
  | goOn log hv hd hp hg =>
      exact h.congr (.goOn log hv hd hp hg) h.closed rfl rfl fun hi => ⟨hi, rfl⟩
  | report identity status =>
      exact h.congr (.report u identity status) h.closed rfl rfl fun hi => ⟨hi, rfl⟩
  | handles hh => exact h.congr (.handles hh) h.closed rfl rfl fun hi => ⟨hi, rfl⟩
  | leave hc => exact h.congr (.leave hc) h.closed rfl rfl fun hi => ⟨hi, rfl⟩
  | abandon hc => exact h.congr (.abandon hc) h.closed rfl rfl fun hi => ⟨hi, rfl⟩

theorem frozen_of_course (hs : Sound false v) (hc : v.mailbox.isOpen = false) (h : Course v ds u) :
    Frozen v u :=
  h.invariant [] (P := fun _ x => Frozen v x) (fun hx hs => hx.step hs)
    (frozen_refl hs hc)

/-! ## What a closed mailbox answers -/

/-- Whoever sends a job to a closed worker is refused. -/
theorem post_of_closed (hc : v.mailbox.isOpen = false) (s : Sender) (job : Work α) :
    (v.post s job).1 = .refused .closed := by
  rw [post]
  simp [hc]

/-- A sender waits only where there is no room in a bounded mailbox. -/
theorem bounded_of_put_waits {mail : Mail α} (h : (v.put mail).1 = .waits) :
    v.mailbox.isFull = true ∧ ∃ n, v.mailbox.capacity = some n := by
  have hh := handed_put v mail
  generalize v.put mail = put at h hh
  cases hh with
  | waits hi hf =>
      refine ⟨hf, ?_⟩
      cases hn : v.mailbox.capacity with
      | none => simp [Mailbox.isFull, hn] at hf
      | some n => exact ⟨n, rfl⟩
  | refused | queued | passed => cases h

end Worker

namespace Workshop

/-! ## Senders in calls -/

/-- Whoever is in a call sends a worker that is there. -/
theorem exists_of_calling {moves : List (Move α)} {w : Workshop α} (h : run {} moves = some w)
    {s : Sender} {k : Nat} {mail : Mail α} (hs : w.calling s = some (k, mail)) :
    ∃ v, w.workers[k]? = some v := by
  obtain ⟨-, ⟨n, acc, hi, -⟩, -⟩ := (ledger_of_run h).calling hs
  obtain ⟨v, hv, -⟩ := Option.map_eq_some_iff.1 hi
  exact ⟨v, hv⟩

/-- At rest nobody is in a call who could get on. -/
theorem put_waits_of_rest {w : Workshop α} (hrest : w.next? = none) {s : Sender} {k : Nat}
    {mail : Mail α} {v : Worker α} (hs : w.calling s = some (k, mail))
    (hv : w.workers[k]? = some v) : (v.put mail).1 = .waits := by
  simp only [next?, Option.orElse_eq_orElse, Option.orElse_eq_or, Option.or_eq_none_iff,
    List.findSome?_eq_none_iff, List.mem_range] at hrest
  obtain ⟨hclients, hworkers⟩ := hrest
  cases s with
  | client c =>
      obtain ⟨client, hc, hcall⟩ := Option.bind_eq_some_iff.1 hs
      have hres := hclients c (List.getElem?_eq_some_iff.1 hc).1
      have hwait : (v.put mail).1.inManner client.manner = .waits := by
        simpa [resume, hc, hcall, hv] using hres
      exact (Receipt.inManner_eq_waits_iff.1 hwait).1
  | worker j =>
      obtain ⟨u, hu, hcall⟩ := Option.bind_eq_some_iff.1 hs
      have hwork := hworkers j (List.getElem?_eq_some_iff.1 hu).1
      cases hp : u.phase with
      | sending manner t mail' rest =>
          rw [hp] at hcall
          cases hcall
          have hwait : (v.put mail).1.inManner manner = .waits := by
            simpa [work, hu, hp, sendOn, hv] using hwork
          exact (Receipt.inManner_eq_waits_iff.1 hwait).1
      | _ =>
          rw [hp] at hcall
          cases hcall

/-- At rest nobody is in a call to a worker that is gone. -/
theorem calling_ne_of_rest {w : Workshop α} (hrest : w.next? = none) {k : Nat} {v : Worker α}
    (hv : w.workers[k]? = some v) (hi : v.mailbox.inbox = false) (s : Sender) (mail : Mail α) :
    w.calling s ≠ some (k, mail) := by
  intro hs
  have hwait := put_waits_of_rest hrest hs hv
  rw [Worker.put] at hwait
  simp [hi] at hwait

/-! ## What senders to a closed worker are told -/

/-- What can be said of the senders to worker `k`, closed in `w`, after they were
`told` and the workshop has come to be `w'`. -/
structure SendersRefused (w : Workshop α) (k : Nat) (told : List (SubmitResult α))
    (w' : Workshop α) : Prop where
  /-- Nobody is in a call who was not before. -/
  still : ∀ {s mail}, w'.calling s = some (k, mail) → w.calling s = some (k, mail)
  /-- Whoever was in a call still is, or was told. -/
  answered : ∀ {s mail}, w.calling s = some (k, mail) → w'.calling s = some (k, mail) ∨
    ∃ r ∈ told, r.worker = k ∧ r.mail = mail
  /-- Whoever was told was refused, or had been in a call before. -/
  results : ∀ r ∈ told, r.worker = k → r.receipt = .refused .closed ∨
    ∃ s, w.calling s = some (k, r.mail)

variable {w u u' : Workshop α} {k : Nat} {told rs : List (SubmitResult α)} {v : Worker α}

/-- What the senders to others are told is nothing to worker `k`. -/
theorem SendersRefused.append_of_calling (h : SendersRefused w k told u)
    (hrs : ∀ r ∈ rs, r.worker = k → r.receipt = .refused .closed)
    (hc : ∀ s mail, u'.calling s = some (k, mail) ↔ u.calling s = some (k, mail)) :
    SendersRefused w k (told ++ rs) u' where
  still hs := h.still ((hc _ _).1 hs)
  answered hs := by
    rcases h.answered hs with hs | ⟨r, hr, hk⟩
    · exact .inl ((hc _ _).2 hs)
    · exact .inr ⟨r, List.mem_append_left _ hr, hk⟩
  results r hr hk := by
    rcases List.mem_append.1 hr with hr | hr
    · exact h.results r hr hk
    · exact .inl (hrs r hr hk)

/-- Whoever is told at the end of a call was in it before. -/
theorem SendersRefused.resumed (h : SendersRefused w k told u) {s : Sender} {j : Nat}
    {mail : Mail α} {r : Receipt} (hs : u.calling s = some (j, mail))
    (hcall : ∀ s', u'.calling s' = if s = s' then none else u.calling s') :
    SendersRefused w k (told ++ [⟨j, mail, r⟩]) u' where
  still := by
    intro s' mail' hs'
    rw [hcall] at hs'
    by_cases hsame : s = s'
    · rw [if_pos hsame] at hs'
      cases hs'
    · rw [if_neg hsame] at hs'
      exact h.still hs'
  answered := by
    intro s' mail' hs'
    rcases h.answered hs' with hstill | ⟨r, hr, hk⟩
    · by_cases hsame : s = s'
      · subst hsame
        rw [hs] at hstill
        cases hstill
        exact .inr ⟨_, List.mem_append_right _ (List.mem_singleton.2 rfl), rfl, rfl⟩
      · exact .inl (by rw [hcall, if_neg hsame, hstill])
    · exact .inr ⟨r, List.mem_append_left _ hr, hk⟩
  results := by
    intro r' hr' hk
    rcases List.mem_append.1 hr' with hr' | hr'
    · exact h.results r' hr' hk
    · rw [List.mem_singleton] at hr'
      subst hr'
      simp only at hk
      subst hk
      exact .inr ⟨s, h.still hs⟩

/-- **No move lets a sender into a call to a closed worker.** -/
theorem SendersRefused.posted (h : SendersRefused w k told u) (hv : u.workers[k]? = some v)
    (hc : v.mailbox.isOpen = false) (hp : Posted u u' rs) : SendersRefused w k (told ++ rs) u' := by
  cases hp with
  | quiet _ hcall => exact h.append_of_calling (by simp) fun s mail => by rw [hcall]
  | @told s j x job manner r hx hs hr hw hi hcall =>
      refine h.append_of_calling ?_ fun s mail => by rw [hcall]
      intro r' hr' hk
      rw [List.mem_singleton] at hr'
      subst hr'
      simp only at hk
      subst hk
      rw [hv] at hx
      cases hx
      rw [Worker.post_of_closed hc] at hr
      rw [← hr]
      rfl
  | @enters s j x job hx hs ho hi hcall =>
      have hj : j ≠ k := by
        rintro rfl
        rw [hv] at hx
        cases hx
        exact absurd ho (by simp [hc])
      apply h.append_of_calling (by simp)
      intro s' mail
      rw [hcall]
      by_cases hsame : s = s'
      · subst hsame
        simp [hs, hj]
      · rw [if_neg hsame]
  | resumed hx hs hr hw hi hcall => exact h.resumed hs hcall

/-- A run that begins with a closed worker. -/
theorem sendersRefused_of_run {after : List (Move α)} (hs : Worker.Sound false v)
    (hv : w.workers[k]? = some v) (hc : v.mailbox.isOpen = false) (h : w.run after = some u) :
    SendersRefused w k (w.trace submitResults after) u := by
  have hboth := trace_invariant submitResults []
    (P := fun told u => SendersRefused w k told u ∧
      ∃ x, u.workers[k]? = some x ∧ Worker.Frozen v x) ?_ ?_ h
  · exact hboth.1
  · rintro told u u' m ⟨hb, x, hx, hf⟩ hm
    obtain ⟨x', hx', hp⟩ := (follows_of_move hm).course hx
    refine ⟨hb.posted hx hf.closed (posted_of_moved (moved_of_move hm)), x', hx', ?_⟩
    exact hp.invariant [] (P := fun _ x => Worker.Frozen v x) (fun h hs => h.step hs) hf
  · exact ⟨⟨id, .inl, by simp⟩, v, hv, Worker.frozen_refl hs hc⟩

/-! ## Closed for good -/

/-- Worker `k`, found closed as `v` in `w`, is found as `v'` in `w'`, after senders
were `told` and `ds` was told of its thread. -/
structure ClosedForGood (w : Workshop α) (k : Nat) (v : Worker α) (told : List (SubmitResult α))
    (ds : List (LoopEvent α)) (w' : Workshop α) (v' : Worker α) : Prop where
  /-- It is still closed. -/
  closed : v'.mailbox.isOpen = false
  /-- Whoever sends it a job now is refused. -/
  refuses : ∀ (s : Sender) (job : Work α) (manner : Manner),
    (v'.post s job).1.inManner manner = .refused .closed
  /-- It has started no job. -/
  started : v'.started = v.started
  /-- The only job that may have ended is the one its thread was in. -/
  serial : ds.countP LoopEvent.endsJob + (if v'.phase.inJob = true then 1 else 0)
    = if v.phase.inJob = true then 1 else 0
  /-- All it accepted is what senders were told was accepted. -/
  accepted : v'.accepted = v.accepted ++ acceptedBy k told
  /-- Whoever was told was refused, or had looked before the worker was closed and was in
  the call since. -/
  results : ∀ r ∈ told, r.worker = k → r.receipt = .refused .closed ∨
    w.calling r.mail.sender = some (k, r.mail)
  /-- Such calls have not brought more than there was room for. -/
  room : ∀ n, v.mailbox.capacity = some n →
    v.mailbox.pending + (acceptedBy k told).length ≤ n
  /-- If there was no room, nothing was accepted since. -/
  full : v.mailbox.isFull = true →
    v'.accepted = v.accepted ∧ ∀ r ∈ told, r.worker = k → r.receipt ≠ .accepted
  /-- If nobody was in a call to it, nothing was accepted and all were refused. -/
  free : (∀ s mail, w.calling s ≠ some (k, mail)) →
    v'.accepted = v.accepted ∧ ∀ r ∈ told, r.worker = k → r.receipt = .refused .closed
  /-- Once the thread is gone and the workshop at rest, nobody is in a call to it, and
  whoever was has been told. -/
  settled : w'.next? = none → v'.phase.isGone = true → ∀ (s : Sender) (mail : Mail α),
    w'.calling s ≠ some (k, mail) ∧
      (w.calling s = some (k, mail) → ∃ r ∈ told, r.worker = k ∧ r.mail = mail)

/-- A job that somebody was told is accepted is among those accepted. -/
theorem mem_acceptedBy {r : SubmitResult α} (hr : r ∈ told) (hk : r.worker = k)
    (hacc : r.receipt = .accepted) : r.mail ∈ acceptedBy k told :=
  List.mem_map_of_mem (List.mem_filter.2 ⟨hr, by simp [hk, hacc]⟩)

/-- Where nobody was in a call, whoever was told was refused. -/
theorem SendersRefused.refused_of_free (h : SendersRefused w k told u)
    (hfree : ∀ s mail, w.calling s ≠ some (k, mail)) {r : SubmitResult α} (hr : r ∈ told)
    (hk : r.worker = k) : r.receipt = .refused .closed := by
  rcases h.results r hr hk with hclosed | ⟨s, hs⟩
  · exact hclosed
  · exact absurd hs (hfree s r.mail)

/-- Nothing was accepted if nobody was told so. -/
theorem acceptedBy_eq_nil_of_refused
    (h : ∀ r ∈ told, r.worker = k → r.receipt = .refused .closed) : acceptedBy k told = [] := by
  rw [acceptedBy, List.filter_eq_nil_iff.2, List.map_nil]
  intro r hr hmem
  simp only [decide_eq_true_eq] at hmem
  rw [h r hr hmem.1] at hmem
  cases hmem.2

/-- Where there was no room, nothing was accepted. -/
theorem acceptedBy_eq_nil_of_isFull
    (hroom : ∀ n, v.mailbox.capacity = some n →
      v.mailbox.pending + (acceptedBy k told).length ≤ n)
    (hfull : v.mailbox.isFull = true) : acceptedBy k told = [] := by
  cases hn : v.mailbox.capacity with
  | none => simp [Mailbox.isFull, hn] at hfull
  | some n =>
      have := hroom n hn
      simp only [Mailbox.isFull, hn, decide_eq_true_eq] at hfull
      exact List.eq_nil_of_length_eq_zero (by omega)

/-- **Once closed, closed for good.**  However a worker came to be closed, in every
continuation it starts no further job and refuses whoever looks at its lifecycle; at
most those that had looked before, and had yet to put their jobs in, are still let in,
as far as there was room. -/
theorem closed_for_good {before after : List (Move α)} {w w' : Workshop α}
    (hbefore : run {} before = some w) {k : Nat} {v : Worker α} (hv : w.workers[k]? = some v)
    (hclosed : v.mailbox.isOpen = false) (hafter : w.run after = some w') :
    ∃ v', w'.workers[k]? = some v' ∧ ClosedForGood w k v (w.trace submitResults after)
      (w.trace (loopEvents k) after) w' v' := by
  have hwhole : run {} (before ++ after) = some w' := by
    rw [run_append_of_run hbefore, hafter]
  have hsound := sound_of_run hbefore hv
  obtain ⟨v', hv', hcourse⟩ := course_of_run hafter hv
  have hfrozen := Worker.frozen_of_course hsound hclosed hcourse
  have hrefused := sendersRefused_of_run hsound hv hclosed hafter
  have hledger := ledger_of_run hbefore
  -- what was accepted since is what the ledger has more at the end
  have haccepted : v'.accepted = v.accepted ++ acceptedBy k (w.trace submitResults after) := by
    rw [(ledger_of_run hwhole).accepted (intake_of_getElem? hv'),
      hledger.accepted (intake_of_getElem? hv), trace_append hbefore, acceptedBy_append]
  obtain ⟨late, hlate, -, hroom⟩ := hfrozen.late
  have hlate : late = acceptedBy k (w.trace submitResults after) :=
    List.append_cancel_left (hlate.symm.trans haccepted)
  subst hlate
  refine ⟨v', hv', hfrozen.closed, ?_, hfrozen.started, ?_, haccepted,
    ?_, hroom, fun hfull => ?_, fun hfree => ?_, ?_⟩
  · intro s job manner
    rw [Worker.post_of_closed hfrozen.closed]
    rfl
  · -- as many jobs were started as before, so no more can end than the one under way
    have h1 := (custody_of_run hbefore hv).serial
    have h2 := (custody_of_run hwhole hv').serial
    rw [hfrozen.started, trace_append hbefore, List.countP_append] at h2
    omega
  · intro r hr hk
    rcases hrefused.results r hr hk with hrefused | ⟨s, hs⟩
    · exact .inl hrefused
    · refine .inr ?_
      rw [(hledger.calling hs).1, hs]
  · have hnone := acceptedBy_eq_nil_of_isFull hroom hfull
    refine ⟨by rw [haccepted, hnone, List.append_nil], fun r hr hk hacc => ?_⟩
    have hmem := mem_acceptedBy hr hk hacc
    rw [hnone] at hmem
    cases hmem
  · have hrefused : ∀ r ∈ w.trace submitResults after, r.worker = k →
        r.receipt = .refused .closed := fun r hr hk => hrefused.refused_of_free hfree hr hk
    refine ⟨?_, hrefused⟩
    rw [haccepted, acceptedBy_eq_nil_of_refused hrefused, List.append_nil]
  · intro hrest hgone s mail
    have hfree := calling_ne_of_rest hrest hv' (hfrozen.sound.gone.2 hgone) s mail
    exact ⟨hfree, fun hs => (hrefused.answered hs).resolve_left hfree⟩

/-- A run in which a job requests its own worker to stop, after it was taken up and
so made room for a client that waits for it. -/
def stopRun : List (Move Nat) :=
  [ .hire { capacity := some 1 } "pot" none, .welcome, .welcome,
    .call .patient 0 0 (.act (.stop 0 none) .done), .call .patient 1 0 .done, .work 0, .work 0 ]

/-- After the run the worker is closed, one call may still get on, and then the
worker ends with that one job in its queue. -/
theorem closed_for_good_stopRun :
    ∃ w w' v v', run {} stopRun = some w ∧ w.workers[0]? = some v ∧
      v.mailbox.isOpen = false ∧
      w.run [.resume 1, .work 0, .work 0, .work 0, .work 0] = some w' ∧
      w'.workers[0]? = some v' ∧ v'.phase.isGone = true ∧
      ClosedForGood w 0 v
        (w.trace submitResults [.resume 1, .work 0, .work 0, .work 0, .work 0])
        (w.trace (loopEvents 0) [.resume 1, .work 0, .work 0, .work 0, .work 0]) w' v' := by
  obtain ⟨v', hv', h⟩ := @closed_for_good Nat stopRun
    [.resume 1, .work 0, .work 0, .work 0, .work 0] _ _ rfl 0 _ rfl rfl rfl
  exact ⟨_, _, _, v', rfl, rfl, rfl, rfl, hv', by cases hv'; rfl, h⟩

/-- A run in which a client finds a mailbox open that has no bound, and the worker is
stopped before the client has put its job in. -/
def lookRun : List (Move Nat) :=
  [.hire {} "pot" none, .welcome, .enter .patient 0 0 .done, .stop 0 0]

/-- **What a closed worker has accepted is not settled yet.**  A call that waited for room
when it was closed may still be told that its job was taken in, and so may a call that
had only looked, where nobody ever has to wait. -/
theorem not_frozen_when_closed :
    (¬ ∀ (before after : List (Move Nat)) (w w' : Workshop Nat) (v v' : Worker Nat),
      run {} before = some w → w.workers[0]? = some v → v.mailbox.isOpen = false →
      w.run after = some w' → w'.workers[0]? = some v' → v'.accepted = v.accepted) ∧
    ∃ (w w' : Workshop Nat) (v v' : Worker Nat),
      run {} lookRun = some w ∧ w.workers[0]? = some v ∧ v.mailbox.isOpen = false ∧
      v.mailbox.capacity = none ∧ w.run [.resume 0] = some w' ∧ w'.workers[0]? = some v' ∧
      (w'.clients.map Client.receipts) = [[.accepted]] ∧ v'.accepted ≠ v.accepted := by
  refine ⟨fun h => ?_, _, _, _, _, rfl, rfl, rfl, rfl, rfl, rfl, rfl, by decide⟩
  have := h stopRun [.resume 1] _ _ _ _ rfl rfl rfl rfl rfl
  cases this

end Workshop

end SerialWorkers
