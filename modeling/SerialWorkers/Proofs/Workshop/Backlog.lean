import SerialWorkers.Proofs.Workshop.Reception
import SerialWorkers.Proofs.Workshop.SerialOrder

/-!
# What a bound on a mailbox holds back

A bound is kept whoever sends, waits for room, or ends: no more jobs are queued than it
allows, and so no more are lost when the worker goes, and none of its reports speaks of
more.  A worker without any room for jobs is a special case: there is no queue at all, a
job is accepted only by being passed to a thread that waits for one, and what is accepted
is started.

* `Worker.Bounded` — what a bound comes to, for one worker.
* `Workshop.Rendezvous` — what it comes to where there is no room.
* `Workshop.bound_holds` — both hold of every worker hired with that bound, at all times.
-/

namespace SerialWorkers

open Workshop

variable {α : Type}

namespace Worker

variable {n : Nat} {ds es : List (LoopEvent α)} {v v' : Worker α}

/-! ## What is reported of jobs left behind -/

/-- What a thread reports in a step: where it speaks of jobs left behind it counts those
queued, and when it comes to be done with the service it does speak of them. -/
structure Reports (v : Worker α) (more : List Event) (v' : Worker α) : Prop where
  /-- This is what it reports. -/
  events : v'.events = v.events ++ more
  /-- The jobs left behind are those queued. -/
  counts : ∀ e ∈ more, ∀ d, e.discarded? = some d → d = v.mailbox.pending
  /-- The last report is not left out. -/
  exitEvent : v'.phase.isOut = true → v.phase.isOut = true ∨ v.mailbox.exitEvent ∈ more

/-- A step in which the thread reports nothing, and does not come to be done. -/
theorem reports_nothing (he : v'.events = v.events)
    (hp : v'.phase.isOut = true → v.phase.isOut = true) : Reports v [] v' where
  events := by simpa using he
  counts := by simp
  exitEvent h := .inl (hp h)

/-- A step in which the thread reports something else than jobs left behind, and does not
come to be done. -/
theorem reports_else {e : Event} (he : v'.events = v.events ++ [e]) (hd : e.discarded? = none)
    (hp : v'.phase.isOut = false) : Reports v [e] v' where
  events := he
  counts e' he' d hd' := by
    rw [List.mem_singleton.1 he', hd] at hd'
    cases hd'
  exitEvent h := by
    rw [hp] at h
    cases h

/-- A thread that decides to end counts the jobs as they are queued. -/
theorem reports_retire {box : Mailbox (Mail α)} (hq : box.queue = v.mailbox.queue)
    (reason : Reason) :
    Reports v (box.reasonEvents reason) ({ v with mailbox := box }.retire reason) where
  events := rfl
  counts e he d hd := by
    cases reason with
    | noticed =>
        simp only [Mailbox.reasonEvents] at he
        split at he
        · cases he
        · rw [List.mem_singleton.1 he] at hd
          simp only [Event.discarded?, Option.some.injEq] at hd
          rw [← hd, Mailbox.pending, hq, Mailbox.pending]
    | deserted =>
        rw [List.mem_singleton.1 he] at hd
        cases hd
    | panicked message => cases he
  exitEvent := nofun

/-- A thread reports what its own step comes to. -/
theorem reports_of_advance (h : v.advance = some v') : ∃ more, Reports v more v' := by
  cases advanced_of_advance h with
  | begins => exact ⟨_, reports_else rfl rfl rfl⟩
  | heeds hp hn => exact ⟨_, reports_retire (Mailbox.queue_next hn nofun) .noticed⟩
  | despairs hp hn => exact ⟨_, reports_retire (Mailbox.queue_next hn nofun) .deserted⟩
  | finishes => exact ⟨_, reports_nothing rfl nofun⟩
  | writes => exact ⟨_, reports_nothing rfl nofun⟩
  | panics hp =>
      unfold Worker.panic
      split
      · exact ⟨_, reports_else (by simp [retire, report, Mailbox.reasonEvents]; rfl) rfl rfl⟩
      · exact ⟨_, reports_else rfl rfl rfl⟩
  | marks hp =>
      refine ⟨_, rfl, ?_, fun _ => .inr (List.mem_singleton.2 rfl)⟩
      intro e he d hd
      rw [List.mem_singleton.1 he] at hd
      cases hd
      rfl
  | goes hp => exact ⟨_, reports_nothing rfl fun _ => by rw [hp]; rfl⟩

/-- **What a step adds to the reports.** -/
theorem reports_of_step (h : Step v es v') : ∃ more, Reports v more v' := by
  cases h with
  | advance ha => exact reports_of_advance ha
  | put mail =>
      have hh := handed_put v mail
      generalize v.put mail = put at hh ⊢
      cases hh with
      | passed => exact ⟨_, reports_else rfl rfl rfl⟩
      | refused | queued | waits => exact ⟨_, reports_nothing rfl id⟩
  | goOn log hv hd hp hg =>
      refine ⟨_, reports_nothing rfl fun h => ?_⟩
      rename_i p
      cases p <;> simp_all [Phase.isOut, Phase.inJob]
  | report identity status =>
      refine ⟨_, rfl, ?_, .inl⟩
      intro e he d hd
      rw [List.mem_singleton.1 he] at hd
      cases hd
  | count | stop | handles | leave | abandon => exact ⟨_, reports_nothing rfl id⟩

/-! ## What a bound comes to -/

/-- What a bound of `n` jobs comes to for a worker, after `ds` was told of its thread. -/
structure Bounded (n : Nat) (ds : List (LoopEvent α)) (v : Worker α) : Prop where
  /-- No more jobs are queued. -/
  pending : v.mailbox.pending ≤ n
  /-- All jobs accepted are started but for so many. -/
  unstarted : v.accepted.length ≤ v.started.length + n
  /-- No more are left behind when the thread goes. -/
  lost : (ds.flatMap LoopEvent.leftBehind).length ≤ n
  /-- No report speaks of more. -/
  reported : ∀ e ∈ v.events, ∀ d, e.discarded? = some d → d ≤ n
  /-- A thread that is done with the service has reported how many. -/
  told : v.phase.isOut = true → ∃ name d, .serviceEnded name d ∈ v.events

theorem bounded_hired (settings : Settings) (identity : String) :
    Bounded n [] (hired settings identity : Worker α) where
  pending := Nat.zero_le n
  unstarted := Nat.zero_le _
  lost := Nat.zero_le n
  reported e he d hd := by
    rw [List.mem_singleton.1 he] at hd
    cases hd
  told := nofun

/-- What is left behind in a step is the queue, if anything. -/
theorem leftBehind_of_step (hc : Custody ds v) (h : Step v es v') :
    (ds ++ es).flatMap LoopEvent.leftBehind = ds.flatMap LoopEvent.leftBehind ∨
      (ds ++ es).flatMap LoopEvent.leftBehind = v.mailbox.queue := by
  rw [List.flatMap_append]
  cases h with
  | advance ha =>
      rw [(hc.kept (hc.inbox_of_advance ha)).2]
      unfold loopEvent
      split <;> simp [LoopEvent.leftBehind]
  | count | put | stop | goOn | report | handles | leave | abandon => simp

/-- **Every step keeps the bound.** -/
theorem Bounded.step (h : Bounded n ds v) (hn : v.mailbox.capacity = some n)
    (hs : Sound false v) (hc : Custody ds v) (hstep : Step v es v') :
    Bounded n (ds ++ es) v' := by
  have hpending : v'.mailbox.pending ≤ n := (hs.step hstep).within n (hstep.capacity.trans hn)
  have hlost : ((ds ++ es).flatMap LoopEvent.leftBehind).length ≤ n := by
    rcases leftBehind_of_step hc hstep with hleft | hleft <;> rw [hleft]
    · exact h.lost
    · exact h.pending
  obtain ⟨more, hr⟩ := reports_of_step hstep
  refine ⟨hpending, ?_, hlost, ?_, fun hp => ?_⟩
  · -- what was accepted and not started is queued, or was left behind
    have hc' := hc.step hstep
    cases hi : v'.mailbox.inbox with
    | true =>
        rw [(hc'.kept hi).1, List.length_append]
        exact Nat.add_le_add_left hpending _
    | false =>
        rw [hc'.left hi, List.length_append]
        exact Nat.add_le_add_left hlost _
  · intro e he d hd
    rw [hr.events] at he
    rcases List.mem_append.1 he with he | he
    · exact h.reported e he d hd
    · rw [hr.counts e he d hd]
      exact h.pending
  · rw [hr.events]
    rcases hr.exitEvent hp with hp | hlast
    · obtain ⟨name, d, hmem⟩ := h.told hp
      exact ⟨name, d, List.mem_append_left _ hmem⟩
    · exact ⟨_, _, List.mem_append_right _ hlast⟩

/-! ## Without any room -/

/-- A worker without any room accepts a job only at its wait, and is in it at once. -/
structure Passes (v : Worker α) (mail : Mail α) (v' : Worker α) : Prop where
  /-- It stood at its wait, with nothing to end it. -/
  idle : v.idle = true
  /-- It is in the job. -/
  running : v'.phase = .running mail.job
  /-- It has accepted the job, after all others. -/
  accepted : v'.accepted = v.accepted ++ [mail]
  /-- It has started the job, after all others. -/
  started : v'.started = v.started ++ [mail]

theorem passes_of_put (hn : v.mailbox.capacity = some 0) {mail : Mail α}
    (h : (v.put mail).1 = .accepted) : v.Passes mail (v.put mail).2 := by
  have hh := handed_put v mail
  generalize v.put mail = put at h hh ⊢
  cases hh with
  | refused | waits => cases h
  | queued hi hf => simp [Mailbox.isFull, hn] at hf
  | passed hi hc hw hnext => exact ⟨by simp [idle, hw, hnext], rfl, rfl, rfl⟩

theorem passes_of_post (hn : v.mailbox.capacity = some 0) {s : Sender} {job : Work α}
    (h : (v.post s job).1 = .accepted) : v.Passes (v.mailFrom s job) (v.post s job).2 := by
  cases ho : v.mailbox.isOpen with
  | false =>
      rw [post_of_closed ho] at h
      cases h
  | true =>
      rw [post_of_isOpen ho] at h ⊢
      obtain ⟨hidle, hrun, hacc, hst⟩ := passes_of_put (v := v.counted) hn h
      exact ⟨hidle, hrun, hacc, hst⟩

/-- A worker that stands at its wait is in no job, and so is not its own sender. -/
theorem Passes.ne_of_inJob {w : Workshop α} {k t : Nat} {u : Worker α} {mail : Mail α}
    (h : v.Passes mail v') (hu : w.workers[k]? = some u) (hv : w.workers[t]? = some v)
    (hj : u.phase.inJob = true) : k ≠ t := by
  rintro rfl
  rw [hu] at hv
  cases hv
  exact ne_waiting_of_inJob hj (phase_of_idle h.idle)

end Worker

namespace Workshop

variable {w w' : Workshop α} {m : Move α} {k : Nat} {v : Worker α}

/-- **Where there is no room, a job is accepted by being passed.**  In the very move in which
its sender is told so, it goes to a thread that waits for one; and that is not the sender. -/
theorem passes_of_moved {told rs : List (SubmitResult α)} (hl : Ledger told w)
    (hm : Moved w m rs w')
    {r : SubmitResult α} (hr : r ∈ rs) (hacc : r.receipt = .accepted) :
    ∃ v, w.workers[r.worker]? = some v ∧ (v.mailbox.capacity = some 0 →
      (∃ v', w'.workers[r.worker]? = some v' ∧ v.Passes r.mail v') ∧
        r.mail.sender ≠ .worker r.worker) := by
  cases hm with
  | called hc hs hv hpost hne =>
      obtain rfl := List.mem_singleton.1 hr
      refine ⟨_, hv, fun hn => ?_⟩
      have hpass := Worker.passes_of_post hn (Receipt.inManner_eq_accepted_iff.1 (hpost.trans hacc))
      refine ⟨⟨_, by simp [changeClient, workers_change, hv], hpass⟩, ?_⟩
      simp [Worker.mailFrom]
  | @resumed c k client mail v _ hc hs hv hput =>
      obtain rfl := List.mem_singleton.1 hr
      refine ⟨_, hv, fun hn => ?_⟩
      have hpass := Worker.passes_of_put hn (Receipt.inManner_eq_accepted_iff.1 (hput.trans hacc))
      have hcall : w.calling (.client c) = some (k, mail) := by simp [calling, hc, hs]
      refine ⟨⟨_, by simp [changeClient, workers_change, hv], hpass⟩, ?_⟩
      simp [(hl.calling hcall).1]
  | sends hj hu hp hv hpost hne ht =>
      obtain rfl := List.mem_singleton.1 hr
      refine ⟨_, hv, fun hn => ?_⟩
      have hpass := Worker.passes_of_post hn (Receipt.inManner_eq_accepted_iff.1 (hpost.trans hacc))
      have hkt := hpass.ne_of_inJob hu hv (Worker.inJob_of_running hp)
      refine ⟨⟨_, by simp [workers_change, hkt, hv], hpass⟩, ?_⟩
      simpa [Worker.mailFrom] using hkt
  | @sendsOn k t u v _ mail _ _ hu hp hv hput =>
      obtain rfl := List.mem_singleton.1 hr
      refine ⟨_, hv, fun hn => ?_⟩
      have hpass := Worker.passes_of_put hn (Receipt.inManner_eq_accepted_iff.1 (hput.trans hacc))
      have hkt := hpass.ne_of_inJob hu hv (by rw [hp]; rfl)
      have hcall : w.calling (.worker k) = some (t, mail) := by
        simp [calling, hu, hp, Phase.calling]
      refine ⟨⟨_, by simp [workers_change, hkt, hv], hpass⟩, ?_⟩
      simpa [(hl.calling hcall).1] using hkt
  | _ => cases hr

/-- In one of the moves of a run `mail` was passed to worker `k`. -/
def PassedOn (moves : List (Move α)) (k : Nat) (mail : Mail α) : Prop :=
  ∃ before m after w₁ w₂ v₁ v₂, moves = before ++ m :: after ∧ run {} before = some w₁ ∧
    w₁.move m = some w₂ ∧ w₁.workers[k]? = some v₁ ∧ w₂.workers[k]? = some v₂ ∧
    v₁.Passes mail v₂

/-- Whatever a worker without any room accepted was passed to it, and not by itself. -/
theorem passedOn_of_run {moves : List (Move α)} (h : run {} moves = some w) {r : SubmitResult α}
    (hr : r ∈ trace submitResults {} moves) (hacc : r.receipt = .accepted)
    (hv : w.workers[r.worker]? = some v) (hn : v.mailbox.capacity = some 0) :
    PassedOn moves r.worker r.mail ∧ r.mail.sender ≠ .worker r.worker := by
  obtain ⟨before, m, after, w₁, w₂, rfl, hbefore, hm, hafter, hr⟩ := exists_move_of_mem_trace h hr
  obtain ⟨v₁, hv₁, hpasses⟩ := passes_of_moved (ledger_of_run hbefore) (moved_of_move hm) hr hacc
  -- the bound is the same since
  have hsince : w₁.run (m :: after) = some w := by rw [run_cons, hm]; exact hafter
  obtain ⟨v', hv', hcourse⟩ := course_of_run hsince hv₁
  rw [hv] at hv'
  cases hv'
  obtain ⟨⟨v₂, hv₂, hpass⟩, hsender⟩ := hpasses (hcourse.capacity.symm.trans hn)
  exact ⟨⟨before, m, after, w₁, w₂, v₁, v₂, rfl, hbefore, hm, hv₁, hv₂, hpass⟩, hsender⟩

/-! ## At all times -/

/-- What it comes to for worker `k`, found as `v` after `moves`, that there is no room. -/
structure Rendezvous (moves : List (Move α)) (k : Nat) (v : Worker α) : Prop where
  /-- Nothing is ever queued. -/
  empty : v.mailbox.queue = []
  /-- The jobs accepted are the jobs started, whatever may have happened since. -/
  started : v.started = v.accepted
  /-- They are all different. -/
  once : (v.started.map Parcel.ticket).Nodup
  /-- Each was passed to the thread when it waited for one. -/
  passed : ∀ mail ∈ v.accepted, PassedOn moves k mail
  /-- No report speaks of a job left behind. -/
  reported : ∀ e ∈ v.events, ∀ d, e.discarded? = some d → d = 0
  /-- No job it sent to itself was accepted. -/
  own : ∀ r ∈ trace submitResults {} moves, r.worker = k → r.mail.sender = .worker k →
    r.receipt ≠ .accepted

theorem bounded_of_run {n : Nat} {moves : List (Move α)} (h : run {} moves = some w)
    (hv : w.workers[k]? = some v) (hn : v.mailbox.capacity = some n) :
    v.Bounded n (trace (loopEvents k) {} moves) := by
  have hall := worker_invariant
    (P := fun ds v => Worker.Sound false v ∧ v.Custody ds ∧
      (v.mailbox.capacity = some n → v.Bounded n ds)) ?_ ?_ h hv
  · exact hall.2.2 hn
  · intro settings identity
    exact ⟨Worker.sound_hired _ _, Worker.custody_hired _ _, fun _ => Worker.bounded_hired _ _⟩
  · rintro ds es v v' ⟨hs, hc, hb⟩ hstep
    refine ⟨hs.step hstep, hc.step hstep, fun hn => ?_⟩
    have hn := hstep.capacity.symm.trans hn
    exact (hb hn).step hn hs hc hstep

theorem rendezvous_of_run {moves : List (Move α)} (h : run {} moves = some w)
    (hv : w.workers[k]? = some v) (hn : v.mailbox.capacity = some 0) :
    Rendezvous moves k v := by
  have hb := bounded_of_run h hv hn
  have hl := ledger_of_run h
  have haccepted := hl.accepted (intake_of_getElem? hv)
  have hstarted : v.started = v.accepted := by
    have hprefix : v.started <+: v.accepted := by
      have hc := custody_of_run h hv
      cases hi : v.mailbox.inbox with
      | true => exact (hc.kept hi).1 ▸ List.prefix_append _ _
      | false => exact hc.left hi ▸ List.prefix_append _ _
    exact hprefix.eq_of_length_le hb.unstarted
  refine ⟨List.eq_nil_of_length_eq_zero (Nat.le_zero.1 hb.pending), hstarted, ?_, ?_, ?_, ?_⟩
  · rw [hstarted, haccepted]
    exact List.pairwise_map.2 ((hl.pairwise_acceptedBy k).imp And.left)
  · intro mail hmail
    rw [haccepted] at hmail
    obtain ⟨r, hr, rfl⟩ := List.mem_map.1 hmail
    obtain ⟨htold, hk⟩ := List.mem_filter.1 hr
    simp only [decide_eq_true_eq] at hk
    obtain ⟨rfl, hacc⟩ := hk
    exact (passedOn_of_run h htold hacc hv hn).1
  · exact fun e he d hd => Nat.le_zero.1 (hb.reported e he d hd)
  · rintro r hr rfl hself hacc
    exact (passedOn_of_run h hr hacc hv hn).2 hself

/-- **A bound holds back the backlog and the loss.**  Whatever happens to a worker that was
hired with room for `n` jobs, no more are ever queued, left behind or reported as such; and
if that is none at all, whatever it accepts it starts, having been passed it. -/
theorem bound_holds {before after : List (Move α)} {settings : Settings} {identity : String}
    {fault : Option Fault} {w₀ w₁ : Workshop α} {n : Nat} (hbefore : run {} before = some w₀)
    (hhire : w₀.hire settings identity fault = .hired w₁) (hn : settings.capacity = some n)
    (hafter : w₁.run after = some w) :
    let moves := before ++ .hire settings identity fault :: after
    let k := w₀.workers.length
    ∃ v, w.workers[k]? = some v ∧ v.Bounded n (trace (loopEvents k) {} moves) ∧
      (n = 0 → Rendezvous moves k v) := by
  intro moves k
  have hrun : run {} moves = some w := by
    rw [run_append_of_run hbefore, run_cons, move, hhire]
    exact hafter
  have hnew : w₁.workers[k]? = some (Worker.hired settings identity) := by
    unfold hire at hhire
    split at hhire
    · cases hhire
    · cases hhire
    · cases hhire
      simp [report, k]
  obtain ⟨v, hv, hcourse⟩ := course_of_run hafter hnew
  have hcap : v.mailbox.capacity = some n := hcourse.capacity.trans hn
  refine ⟨v, hv, bounded_of_run hrun hv hcap, ?_⟩
  rintro rfl
  exact rendezvous_of_run hrun hv hcap

/-- What may happen to a worker without any room: a job is passed to it and in vain sends it
another one, a client waits in a call, and the owner stops it while the job stands at a gate. -/
def rendezvousRun : List (Move Nat) :=
  [ .welcome, .welcome,
    .call .prompt 0 0 (.send ⟨.prompt, none⟩ .done (.act .gate .done)), .work 0,
    .call .patient 1 0 .done, .stop 0 7, .release 0, .work 0, .work 0, .work 0, .work 0,
    .resume 1 ]

/-- The one job accepted was started, although the stop followed at once. -/
theorem bound_holds_rendezvous :
    ∃ w₁ w v, ({} : Workshop Nat).hire { capacity := some 0 } "pot" none = .hired w₁ ∧
      w₁.run rendezvousRun = some w ∧ w.workers[0]? = some v ∧ v.phase.isGone = true ∧
      v.started.map Parcel.ticket = [0] ∧ v.attempts = 3 ∧
      Rendezvous (.hire { capacity := some 0 } "pot" none :: rendezvousRun) 0 v := by
  obtain ⟨v, hv, -, hr⟩ :=
    @bound_holds Nat _ [] rendezvousRun { capacity := some 0 } "pot" none {} _ 0 rfl rfl rfl rfl
  exact ⟨_, _, v, rfl, rfl, hv, by cases hv; rfl, by cases hv; rfl, by cases hv; rfl, hr rfl⟩

end Workshop

end SerialWorkers
