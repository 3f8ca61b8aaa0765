import SerialWorkers.Proofs.Workshop.Records
import SerialWorkers.Proofs.Workshop.Parting

/-!
# The status on record and the end that is told

A thread that sees the notice to stop looks once at the status on record, and that settles how
its worker is said to have ended.  Requests that come later put their status on record and have
no say in it.  So those who wait for the end are told of the status on record as long as nobody
has requested anything since the thread saw the notice, and of an earlier one otherwise.

* `Workshop.statusesSince` — the status the thread saw, and those requested since.
* `Workshop.Tracks` — the first settles the end, and the last is on record.
* `Workshop.tells_status_seen` — what those who wait for the end are told.
* `Workshop.not_told_of_later_status` — it need not be the status on record.
-/

namespace SerialWorkers

open Workshop

variable {α : Type}

/-- How a worker is said to have ended whose thread saw the notice with this status on record. -/
def Outcome.ofStatus (s : Int) : Outcome := if s = 0 then .orderly else .broken (.abnormal s)

namespace Worker

variable {v v' : Worker α} {ds : List (LoopEvent α)}

/-- No step changes the policy, and no step brings an owner back. -/
theorem Step.terms (h : Step v ds v') :
    v'.policy = v.policy ∧ (v.owned = false → v'.owned = false) := by
  cases h with
  | advance ha =>
      cases advanced_of_advance ha with
      | panics hp =>
          unfold Worker.panic
          split <;> exact ⟨rfl, id⟩
      | begins | heeds | despairs | finishes | writes | marks | goes => exact ⟨rfl, id⟩
  | put mail =>
      have hh := handed_put v mail
      generalize v.put mail = put at hh ⊢
      cases hh <;> exact ⟨rfl, id⟩
  | leave | abandon => exact ⟨rfl, fun _ => rfl⟩
  | count | stop | goOn | report | handles => exact ⟨rfl, id⟩

theorem Course.terms (h : Course v ds v') :
    v'.policy = v.policy ∧ (v.owned = false → v'.owned = false) :=
  h.invariant [] (P := fun _ u => u.policy = v.policy ∧ (v.owned = false → u.owned = false))
    (fun hu hs => ⟨hs.terms.1.trans hu.1, fun ho => hs.terms.2 (hu.2 ho)⟩) ⟨rfl, id⟩

end Worker

namespace Workshop

variable {w w' : Workshop α} {m : Move α} {moves after : List (Move α)} {k : Nat} {v : Worker α}
  {told : List Int} {p p' : Prospect}

/-! ## The status the thread saw, and later ones -/

/-- What comes in a move to the statuses of worker `k` since its thread saw the notice: first the
one on record when it does, and then those requested. -/
def statusesSince (k : Nat) (w : Workshop α) (m : Move α) : List Int :=
  match w.prospect k with
  | none => []
  | some p =>
      if p.verdict.isSome then (callsOn k (w.stopCalls m)).filterMap StopCall.asked
      else if p.notice && !(w.move m).any (·.noticeAt k) then [p.status]
      else []

/-- What the statuses since the thread saw the notice have to do with the end of a worker. -/
structure Tracks (told : List Int) (p : Prospect) : Prop where
  /-- There are none as long as nothing is decided. -/
  undecided : p.verdict = none → told = []
  /-- The first settles the end, and the last is on record. -/
  noticed : ∀ d, p.verdict = some d → d.reason = .noticed → ∃ seen late, told = seen :: late ∧
    d.outcome = .ofStatus seen ∧ p.status = late.getLast?.getD seen ∧ p.lifecycle ≠ .running

/-- What is decided stays decided, and later requests come behind. -/
theorem Tracks.later (h : Tracks told p) {d : Verdict} (hd : p.verdict = some d)
    (hr : Records (w.stopCalls m) w w') (hp : w.prospect k = some p)
    (hp' : w'.prospect k = some p') (hsame : p'.verdict = p.verdict) :
    Tracks (told ++ w.statusesSince k m) p' where
  undecided hn := by
    rw [hsame, hd] at hn
    cases hn
  noticed d' hd' hnoticed := by
    rw [hsame] at hd'
    obtain ⟨seen, late, rfl, ho, hs, hl⟩ := h.noticed d' hd' hnoticed
    have hlife : w.lifeOf k = p.lifecycle := by
      rw [lifeOf, hp]
      rfl
    -- the worker was closed, so no call on it counts but for the status it asks for
    have hcalls : ∀ c ∈ callsOn k (w.stopCalls m), c.foundOpen = false := by
      intro c hc
      cases hf : c.foundOpen with
      | false => rfl
      | true => exact absurd (hlife.symm.trans (hr.found k c hc hf)) hl
    have hsince : w.statusesSince k m = (callsOn k (w.stopCalls m)).filterMap StopCall.asked := by
      simp [statusesSince, hp, hd]
    refine ⟨seen, late ++ w.statusesSince k m, rfl, ho, ?_, fun hrunning => hl ?_⟩
    · have hstatus := hr.status k
      rw [foldl_record hcalls, ← hsince, statusOf, statusOf, hp, hp'] at hstatus
      rw [List.getLast?_append]
      cases hlast : (w.statusesSince k m).getLast? with
      | none =>
          rw [hlast] at hstatus
          exact hstatus.trans hs
      | some s =>
          rw [hlast] at hstatus
          exact hstatus
    · rw [← hlife]
      refine (hr.running k ?_).1
      rw [lifeOf, hp']
      exact hrunning

/-- Nothing comes in a move after which the notice, if any, is still in the slot, as long as
nothing is decided. -/
theorem statusesSince_eq_nil (hm : w.move m = some w') (hp : w.prospect k = some p)
    (hp' : w'.prospect k = some p') (hd : p.verdict = none)
    (hn : p.notice = true → p'.notice = true) : w.statusesSince k m = [] := by
  have hat : w'.noticeAt k = p'.notice := by simp [noticeAt, hp']
  simp only [statusesSince, hp, hd, hm, Option.isSome_none, Option.any_some, hat]
  cases hnotice : p.notice with
  | false => rfl
  | true => simp [hn hnotice]

/-- **The first status settles the end and the last is on record, after every move.** -/
theorem Tracks.move (h : Tracks told p) (ht : Turns w m k (some p) (some p'))
    (hm : w.move m = some w') (hp : w.prospect k = some p) (hp' : w'.prospect k = some p') :
    Tracks (told ++ w.statusesSince k m) p' := by
  cases hd : p.verdict with
  | some d =>
      refine h.later hd (records_of_move hm) hp hp' ?_
      cases ht with
      | stays | closes | records | marks => rfl
      | heeds | panics => cases hd
  | none =>
      rw [h.undecided hd, List.nil_append]
      have hnil := statusesSince_eq_nil hm hp hp' hd
      cases ht with
      | stays | closes | records =>
          rw [hnil (by simp)]
          exact ⟨fun _ => rfl, fun d hd' => by rw [hd] at hd'; cases hd'⟩
      | panics =>
          rw [hnil id]
          refine ⟨fun hn => ?_, fun d hd' hr => ?_⟩
          · cases hn
          · cases hd'
            cases hr
      | marks => cases hd
      | @heeds s hwork =>
          have hat : w'.noticeAt k = false := by simp [noticeAt, hp']
          have hsince : w.statusesSince k m = [s] := by
            simp [statusesSince, hp, hm, hat]
          rw [hsince]
          refine ⟨fun hn => ?_, fun d hd' _ => ⟨s, [], rfl, ?_, rfl, by simp⟩⟩
          · cases hn
          · cases hd'
            rfl

/-- The same, in a run. -/
theorem tracks_of_run (h : run {} moves = some w) (hp : w.prospect k = some p) :
    Tracks (trace (statusesSince k) {} moves) p := by
  suffices hall : (w.prospect k = none → trace (statusesSince k) {} moves = []) ∧
      ∀ p, w.prospect k = some p → Tracks (trace (statusesSince k) {} moves) p from hall.2 p hp
  refine (trace_invariant (statusesSince k) [] (P := fun told w =>
    (∃ moves, run {} moves = some w) ∧ (w.prospect k = none → told = []) ∧
      ∀ p, w.prospect k = some p → Tracks told p) ?_
    ⟨⟨[], rfl⟩, fun _ => rfl, fun p hp => by simp [prospect] at hp⟩ h).2
  rintro told w w' m ⟨⟨moves, hrun⟩, hnone, hsome⟩ hm
  refine ⟨⟨moves ++ [m], by rw [run_append_of_run hrun, run_cons, hm]; rfl⟩, ?_⟩
  have ht := turns_of_run hrun hm (k := k)
  cases hp : w.prospect k with
  | none =>
      have hsince : w.statusesSince k m = [] := by rw [statusesSince, hp]
      rw [hsince, hnone hp]
      refine ⟨fun _ => rfl, fun p' hp' => ?_⟩
      rw [hp, hp'] at ht
      cases ht
      exact ⟨fun _ => rfl, fun d hd => by cases hd⟩
  | some p =>
      refine ⟨fun hn => ?_, fun p' hp' => ?_⟩
      · rw [hp, hn] at ht
        cases ht
      · rw [hp, hp'] at ht
        exact (hsome p hp).move ht hm hp hp'

/-! ## When the owner has given the worker up -/

/-- Nobody calls on a worker to stop that has no owner. -/
theorem callsOn_of_not_owned (hv : w.workers[k]? = some v) (ho : v.owned = false)
    (hm : w.move m = some w') : callsOn k (w.stopCalls m) = [] := by
  have hother : ∀ {j : Nat} (thread : Thread) (asked : Option Int), w.owns j = true →
      callsOn k (w.stopCallOn j thread asked) = [] := by
    intro j thread asked hj
    have hne : j ≠ k := by
      rintro rfl
      rw [owns, hv, Option.any_some, ho] at hj
      cases hj
    unfold stopCallOn
    split
    · rfl
    · simp [callsOn, hne]
  unfold stopCalls
  split
  · simp only [move, stop] at hm
    split at hm
    · exact hother _ _ ‹_›
    · cases hm
  · exact hother _ _ (Move.Parts.leave.owns_of_move hm)
  · exact hother _ _ (Move.Parts.abandon.owns_of_move hm)
  · split
    · simp only
      split
      · rename_i hj
        exact hother _ _ hj
      · rfl
    · rfl
  · rfl

/-- And nobody does so later. -/
theorem callsOn_trace_of_not_owned (h : w.run moves = some w') (hv : w.workers[k]? = some v)
    (ho : v.owned = false) : callsOn k (w.trace stopCalls moves) = [] := by
  refine (trace_invariant stopCalls [] (P := fun calls w => callsOn k calls = [] ∧
    ∃ v, w.workers[k]? = some v ∧ v.owned = false) ?_ ⟨rfl, v, hv, ho⟩ h).1
  rintro calls w w' m ⟨hcalls, v, hv, ho⟩ hm
  obtain ⟨v', hv', hc⟩ := (follows_of_move hm).course hv
  refine ⟨?_, v', hv', hc.terms.2 ho⟩
  rw [callsOn_append, hcalls, callsOn_of_not_owned hv ho hm]
  rfl

/-- The only call from then on is that of the owner who gives the worker up. -/
theorem callsOn_of_leave (h : w.run (.leave k :: after) = some w')
    (hv : w.workers[k]? = some v) : callsOn k (w.trace stopCalls (.leave k :: after))
      = [⟨k, v.mailbox.identity, .outside, none, v.mailbox.isOpen⟩] := by
  rw [run_cons] at h
  obtain ⟨u, hu, h⟩ := Option.bind_eq_some_iff.1 h
  obtain ⟨x, hx, hc⟩ := (follows_of_move hu).course hv
  have ho : x.owned = false := by
    rw [Move.Parts.leave.move_eq (Move.Parts.leave.owns_of_move hu)] at hu
    cases hu
    rw [workers_change, if_pos rfl] at hx
    obtain ⟨y, -, rfl⟩ := Option.map_eq_some_iff.1 hx
    rfl
  rw [trace_cons hu, callsOn_append, callsOn_trace_of_not_owned h hx ho, stopCalls, stopCallOn, hv]
  simp [callsOn]

/-- The status on record is the same from then on. -/
theorem statusOf_of_leave (hrun : run {} moves = some w) (hv : w.workers[k]? = some v)
    (h : w.run (.leave k :: after) = some w') : w'.statusOf k = v.mailbox.status := by
  have hbefore := statusOf_of_getElem? hv
  rw [(records_of_run h).status k, callsOn_of_leave h hv, hbefore]
  show (if v.mailbox.isOpen = true then 0 else v.mailbox.status) = v.mailbox.status
  split
  · rename_i ho
    -- nobody has called on the worker, so nothing is on record
    have hr := records_of_run hrun
    have hzero := hr.status k
    rw [hr.callsOn_of_isOpen hv ho, hbefore] at hzero
    exact hzero.symm
  · rfl

/-- The worker is closed from then on. -/
theorem isOpen_of_leave (h : w.run (.leave k :: after) = some w') (hv : w.workers[k]? = some v)
    {v' : Worker α} (hv' : w'.workers[k]? = some v') : v'.mailbox.isOpen = false := by
  cases ho : v'.mailbox.isOpen with
  | false => rfl
  | true =>
      have hnone := (records_of_run h).callsOn_of_isOpen hv' ho
      rw [callsOn_of_leave h hv] at hnone
      cases hnone

/-- **Whatever status the thread sees from then on, it is that one.** -/
theorem eq_of_mem_statusesSince (hrun : run {} moves = some w) (hv : w.workers[k]? = some v)
    (h : w.run (.leave k :: after) = some w') {s : Int}
    (hs : s ∈ w.trace (statusesSince k) (.leave k :: after)) : s = v.mailbox.status := by
  obtain ⟨before, m, rest, w₁, w₂, hmoves, hbefore, hm, hrest, hs⟩ := exists_move_of_mem_trace h hs
  have hcalls := callsOn_of_leave h hv
  have hstatus : w₁.statusOf k = v.mailbox.status := by
    cases before with
    | nil =>
        cases hbefore
        exact statusOf_of_getElem? hv
    | cons first before =>
        cases hmoves
        exact statusOf_of_leave hrun hv hbefore
  rw [hmoves, trace_append hbefore, trace_cons hm, callsOn_append, callsOn_append] at hcalls
  unfold statusesSince at hs
  split at hs
  · cases hs
  · rename_i p hp
    rw [statusOf, hp] at hstatus
    split at hs
    · -- a request since would be a second call
      obtain ⟨c, hc, hasked⟩ := List.mem_filterMap.1 hs
      have hmem : c ∈ callsOn k (w.trace stopCalls before) ++
          (callsOn k (w₁.stopCalls m) ++ callsOn k (w₂.trace stopCalls rest)) :=
        List.mem_append_right _ (List.mem_append_left _ hc)
      rw [hcalls, List.mem_singleton] at hmem
      rw [hmem] at hasked
      cases hasked
    · split at hs
      · rw [List.mem_singleton.1 hs]
        exact hstatus
      · cases hs

/-! ## What is told of the end -/

/-- What those are told who wait for the end of worker `k`: that it ended by this status, or
nothing yet; and if nothing at rest, then it has not got over a job. -/
def Tells (w : Workshop α) (k : Nat) (status : Int) : Prop :=
  Session.endOf w k = .ended (.ofStatus status) ∨
    Session.endOf w k = .wouldWait ∧
      (w.Still → ∃ v, w.workers[k]? = some v ∧ v.phase.inJob = true)

/-- Where no job panicked that would have ended the worker, it ends because of a notice. -/
theorem noticed_of_run (h : run {} moves = some w) (hv : w.workers[k]? = some v)
    (hcalm : v.policy = .retire → ∀ p, .panicked p ∉ trace (loopEvents k) {} moves) {d : Verdict}
    (hd : v.phase.verdict? = some d) : d.reason = .noticed := by
  rcases (sound_of_run h hv).decided d hd with ⟨hr, -⟩ | ⟨⟨message, hr⟩, hpolicy⟩
  · exact hr
  · obtain ⟨p, hb, -⟩ := (conduct_of_run h hv).broke d message hd hr
    obtain ⟨before, rest, htold, -⟩ := hb.told
    refine absurd ?_ (hcalm hpolicy p)
    rw [htold]
    exact List.mem_append_right _ List.mem_cons_self

/-- A closed worker that has not ended is in a job, if all is at rest. -/
theorem inJob_of_still (hs : Worker.Sound false v) (hv : w.workers[k]? = some v)
    (hc : v.mailbox.isOpen = false) (hne : ∀ d, v.phase ≠ .ended d) (hstill : w.Still) :
    v.phase.inJob = true := by
  cases (work_eq_none_iff hv).1 (hstill _ (.work k)) with
  | held h =>
      obtain ⟨rest, hp⟩ := phase_of_held h
      rw [hp]
      rfl
  | sending hp =>
      rw [hp]
      rfl
  | gone hp => exact absurd hp (hne _)
  | idle hp hn =>
      rw [Mailbox.next, hs.notice_of_waiting hp hc] at hn
      cases hn

/-- What there is of statuses is the one the thread saw, and what came later. -/
theorem statuses_of_run (h : run {} moves = some w) (hv : w.workers[k]? = some v)
    (hcalm : v.policy = .retire → ∀ p, .panicked p ∉ trace (loopEvents k) {} moves) :
    trace (statusesSince k) {} moves = [] ∨ ∃ seen late,
      trace (statusesSince k) {} moves = seen :: late ∧
        v.mailbox.status = late.getLast?.getD seen := by
  have htracks := tracks_of_run h (prospect_of_getElem? hv)
  cases hd : v.phase.verdict? with
  | none => exact .inl (htracks.undecided hd)
  | some d =>
      obtain ⟨seen, late, htold, -, hs, -⟩ :=
        htracks.noticed d hd (noticed_of_run h hv hcalm hd)
      exact .inr ⟨seen, late, htold, hs⟩

/-- A worker that has ended after its owner gave it up, has ended by the status that its thread
saw before, or else by the one on record then. -/
theorem outcome_of_leave (h : run {} moves = some w) (hv : w.workers[k]? = some v)
    (hafter : w.run (.leave k :: after) = some w') {v' : Worker α}
    (hv' : w'.workers[k]? = some v') {d : Verdict} (hd : v'.phase.verdict? = some d)
    (hr : d.reason = .noticed) :
    d.outcome = .ofStatus ((trace (statusesSince k) {} moves).head?.getD v.mailbox.status) := by
  have hall : run {} (moves ++ .leave k :: after) = some w' := by
    rw [run_append_of_run h, hafter]
  obtain ⟨seen, late, htold, ho, -⟩ :=
    (tracks_of_run hall (prospect_of_getElem? hv')).noticed d hd hr
  rw [ho]
  rw [trace_append h] at htold
  cases hfirst : trace (statusesSince k) {} moves with
  | nil =>
      rw [hfirst, List.nil_append] at htold
      have hmem : seen ∈ w.trace (statusesSince k) (.leave k :: after) := by
        rw [htold]
        exact List.mem_cons_self
      rw [eq_of_mem_statusesSince h hv hafter hmem]
      rfl
  | cons s rest =>
      rw [hfirst, List.cons_append] at htold
      cases htold
      rfl

/-- Nothing is told yet of a worker that has not ended. -/
theorem endOf_of_not_ended (hv : w.workers[k]? = some v) (hne : ∀ d, v.phase ≠ .ended d) :
    Session.endOf w k = .wouldWait := by
  have hnone : v.verdict = none := by
    unfold Worker.verdict
    split
    · exact absurd ‹_› (hne _)
    · rfl
  simp only [Session.endOf, hv, Option.bind_some, hnone]

/-- A wait by command is such a run: the owner gives the worker up, all comes to rest, and it is
told then what there is to tell. -/
theorem exists_run_await {s : Session α} (ho : s.shop.owns k = true)
    (hh : Session.held s.shop k = false) :
    ∃ rest, s.shop.run (.leave k :: rest) = some (s.perform (.await (.worker k))).2.shop ∧
      (s.perform (.await (.worker k))).1
        = Session.endOf (s.perform (.await (.worker k))).2.shop k := by
  obtain ⟨left, hleft⟩ := Move.Parts.leave.exists_move ho
  have hleave : s.shop.leave k = some left := hleft
  obtain ⟨rest, -, hrest⟩ := run_settle left
  simp only [Session.perform, Session.withOwned, Session.resolveOwned_worker ho, Session.await, hh,
    hleave, Option.getD_some]
  refine ⟨rest, ?_, rfl⟩
  rw [run_cons, hleft]
  exact hrest

/-- **What those are told who wait for the end.**  In any run, let the owner of a worker give it
up to wait for its end, and let no job of it panic, then or before, where the policy is to
retire.  Whatever happens then, those who wait are told that it ended by the status that was on
record when its thread saw the notice; if it had not seen it, that is the status on record when
the owner gives it up.  On record then is the last status since the thread saw the notice.  So
if there is no later one, they are told of the status on record.  A wait by command, of a session
that stands where the run led, goes on like that. -/
theorem tells_status_seen (h : run {} moves = some w) (hv : w.workers[k]? = some v)
    (hafter : w.run (.leave k :: after) = some w')
    (hcalm : v.policy = .retire →
      ∀ p, .panicked p ∉ trace (loopEvents k) {} (moves ++ .leave k :: after)) :
    Tells w' k ((trace (statusesSince k) {} moves).head?.getD v.mailbox.status) ∧
      (∀ s, (trace (statusesSince k) {} moves).getLast? = some s → v.mailbox.status = s) ∧
      ((trace (statusesSince k) {} moves).tail = [] → Tells w' k v.mailbox.status) ∧
      ∀ s : Session α, s.shop = w → w.owns k = true → Session.held w k = false →
        ∃ rest, w.run (.leave k :: rest) = some (s.perform (.await (.worker k))).2.shop ∧
          (s.perform (.await (.worker k))).1
            = Session.endOf (s.perform (.await (.worker k))).2.shop k := by
  have hbefore : v.policy = .retire → ∀ p, .panicked p ∉ trace (loopEvents k) {} moves := by
    intro hp p hmem
    refine hcalm hp p ?_
    rw [trace_append h]
    exact List.mem_append_left _ hmem
  have hstatuses := statuses_of_run h hv hbefore
  have htells : Tells w' k ((trace (statusesSince k) {} moves).head?.getD v.mailbox.status) := by
    have hall : run {} (moves ++ .leave k :: after) = some w' := by
      rw [run_append_of_run h, hafter]
    obtain ⟨v', hv', hcourse⟩ := course_of_run hafter hv
    by_cases hp : ∃ d, v'.phase = .ended d
    · obtain ⟨d, hp⟩ := hp
      have hd : v'.phase.verdict? = some d := by
        rw [hp]
        rfl
      have hr := noticed_of_run hall hv' (fun hp' => hcalm (hcourse.terms.1.symm.trans hp')) hd
      exact .inl ((endOf_of_ended hv' hp).trans
        (congrArg _ (outcome_of_leave h hv hafter hv' hd hr)))
    · have hne : ∀ d, v'.phase ≠ .ended d := fun d hd => hp ⟨d, hd⟩
      have hc := isOpen_of_leave hafter hv hv'
      exact .inr ⟨endOf_of_not_ended hv' hne, fun hstill =>
        ⟨v', hv', inJob_of_still (sound_of_run hall hv') hv' hc hne hstill⟩⟩
  refine ⟨htells, fun s hs => ?_, fun htail => ?_, ?_⟩
  · rcases hstatuses with hnil | ⟨seen, late, htold, hstatus⟩
    · rw [hnil] at hs
      cases hs
    · rw [htold, List.getLast?_cons, Option.some.injEq] at hs
      exact hstatus.trans hs
  · rcases hstatuses with hnil | ⟨seen, late, htold, hstatus⟩
    · rw [hnil] at htells
      exact htells
    · -- with nothing behind it, the status that the thread saw is the last one
      rw [htold, List.tail_cons] at htail
      rw [htail] at hstatus
      rw [htold] at htells
      exact hstatus ▸ htells
  · rintro s rfl ho hh
    exact exists_run_await ho hh

/-- A run in which a worker is stopped twice before its thread sees the notice. -/
def restatedRun : List (Move Nat) := [.hire {} "pot" none, .stop 0 2, .stop 0 7]

/-- Its owner, who gives it up and waits, is told of the later status, which is on record. -/
theorem tells_status_seen_restated : ∃ w w' v, run {} restatedRun = some w ∧
    w.workers[0]? = some v ∧ w.run [.leave 0, .work 0, .work 0, .work 0] = some w' ∧
    v.mailbox.status = 7 ∧ Session.endOf w' 0 = .ended (.broken (.abnormal 7)) := by
  refine ⟨_, _, _, rfl, rfl, rfl, rfl, ?_⟩
  have hevents : trace (loopEvents 0) {} (restatedRun ++ [.leave 0, .work 0, .work 0, .work 0])
      = [.left []] := rfl
  obtain ⟨htells, -⟩ := @tells_status_seen Nat _ _ restatedRun [.work 0, .work 0, .work 0] 0 _
    rfl rfl rfl (fun _ p => by rw [hevents]; simp)
  rcases htells with h | ⟨h, -⟩
  · exact h
  · cases h

/-- A run in which a worker is stopped by one status, and by another when its thread has seen the
notice and is gone. -/
def overtakenRun (first : Int) : List (Move Nat) :=
  [.hire {} "pot" none, .stop 0 first, .work 0, .work 0, .work 0, .stop 0 7]

/-- **The status on record is not always what those who wait are told of.**  Here no job panics,
nothing holds the worker up, and the last request puts its status on record; but where the thread
saw the notice in between, the owner who waits is told of the status 2 of the first request, or of
a good end if that was 0. -/
theorem not_told_of_later_status :
    (∃ w w' v, run {} (overtakenRun 2) = some w ∧ w.workers[0]? = some v ∧
      w.run [.leave 0] = some w' ∧
      (∀ p, .panicked p ∉ trace (loopEvents 0) {} (overtakenRun 2 ++ [.leave 0])) ∧
      v.mailbox.status = 7 ∧ Session.endOf w' 0 = .ended (.broken (.abnormal 2)) ∧
      ¬ Tells w' 0 7) ∧
    ∃ w w' v, run {} (overtakenRun 0) = some w ∧ w.workers[0]? = some v ∧
      w.run [.leave 0] = some w' ∧
      (∀ p, .panicked p ∉ trace (loopEvents 0) {} (overtakenRun 0 ++ [.leave 0])) ∧
      v.mailbox.status = 7 ∧ Session.endOf w' 0 = .ended .orderly ∧ ¬ Tells w' 0 7 := by
  have hevents : ∀ first, trace (loopEvents 0) {} (overtakenRun first ++ [.leave 0]) = [.left []] :=
    fun _ => rfl
  constructor
  · refine ⟨_, _, _, rfl, rfl, rfl, fun p => by rw [hevents]; simp, rfl, rfl, ?_⟩
    rintro (h | ⟨h, -⟩) <;> cases h
  · refine ⟨_, _, _, rfl, rfl, rfl, fun p => by rw [hevents]; simp, rfl, rfl, ?_⟩
    rintro (h | ⟨h, -⟩) <;> cases h

end Workshop

end SerialWorkers
