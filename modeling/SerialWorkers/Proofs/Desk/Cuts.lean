import SerialWorkers.Proofs.Desk.Rounds
import SerialWorkers.Proofs.Mapping

/-!
# Services that carry on

Where the policy is to carry on, a panic ends its job and nothing else.  The job might as
well have been cut short before it, and so might every job that is queued or sent: the
service does the same and answers the same, and only the panics are not told.  A job that
was cut does not panic, so then it is all one what the policy is.

* `Desk.cutShort` — a job cut just before its first panic; `Desk.cut` — a desk with every
  job cut.
* `Desk.SameButPanics` — two desks that differ by the cuts and by the panics told.
* `Desk.InStep` — the two services, side by side; `InStep.run`, `InStep.reaches` and
  `InStep.reached` — neither does what the other does not.
* `Desk.carryOn_hides_panics` — panics are invisible but for what is told of them.
-/

namespace SerialWorkers

/-! ## Waits -/

namespace Mailbox

variable {ι κ : Type} {m : Mailbox ι} {g : ι → κ}

/-- What a wait may return, it may when the items were changed. -/
theorem Wakes.map (g : ι → κ) {w : Wake ι} {box : Mailbox ι} (h : m.Wakes w box) :
    (m.map g).Wakes (w.map g) (box.map g) := by
  cases h with
  | notice hn => exact .notice hn
  | ownerGone hn hw => exact .ownerGone hn hw
  | item hn hq => exact .item hn (congrArg (List.map g) hq)
  | deserted hn hq hp => exact .deserted hn (congrArg (List.map g) hq) hp

/-- And it may return nothing else then. -/
theorem Wakes.of_map {w' : Wake κ} {box' : Mailbox κ} (h : (m.map g).Wakes w' box') :
    ∃ w box, m.Wakes w box ∧ w' = w.map g ∧ box' = box.map g := by
  cases h with
  | notice hn => exact ⟨_, _, .notice hn, rfl, rfl⟩
  | ownerGone hn hw => exact ⟨_, _, .ownerGone hn hw, rfl, rfl⟩
  | item hn hq =>
      obtain ⟨x, rest, hqueue, rfl, rfl⟩ := List.map_eq_cons_iff.1 hq
      exact ⟨_, _, .item hn hqueue, rfl, rfl⟩
  | deserted hn hq hp => exact ⟨_, _, .deserted hn (List.map_eq_nil_iff.1 hq) hp, rfl, rfl⟩

end Mailbox

namespace Desk

variable {α : Type} {d₀ d d' e e' : Desk α} {policy : PanicPolicy}

/-! ## Jobs cut short -/

/-- The job cut just before its first panic, and so every job sent in it. -/
def cutShort : Work α → Work α
  | .done => .done
  | .act (.log v) rest => .act (.log v) (cutShort rest)
  | .act (.panic _) _ => .done
  | .act (.call c) rest => .act (.call c) (cutShort rest)
  | .send route job rest => .send route (cutShort job) (cutShort rest)

/-- Whether no act of the job is a panic, nor of any job sent in it. -/
def calm : Work α → Bool
  | .done => true
  | .act (.panic _) _ => false
  | .act _ rest => calm rest
  | .send _ job rest => calm job && calm rest

/-- Nothing is cut from a job without panics. -/
theorem cutShort_of_calm {job : Work α} (h : calm job = true) : cutShort job = job := by
  induction job with
  | done => rfl
  | act a rest ih =>
      cases a with
      | log v => rw [cutShort, ih h]
      | panic p => cases h
      | call c => rw [cutShort, ih h]
  | send route job rest ihjob ih =>
      obtain ⟨hjob, hrest⟩ := Bool.and_eq_true_iff.1 h
      rw [cutShort, ihjob hjob, ih hrest]

/-- A job on its way, cut short. -/
def cutMail (mail : Mail α) : Mail α := { mail with job := cutShort mail.job }

/-- The desk with every job in its queue cut short. -/
def cut (d : Desk α) : Desk α := { d with mailbox := d.mailbox.map cutMail }

/-- A desk without panics in its queue is left as it is. -/
theorem cut_of_calm (h : ∀ mail ∈ d.mailbox.queue, calm mail.job = true) : d.cut = d := by
  have hqueue : d.mailbox.queue.map cutMail = d.mailbox.queue := by
    refine (List.map_congr_left fun mail hmail => ?_).trans (List.map_id _)
    rw [cutMail, cutShort_of_calm (h mail hmail)]
    rfl
  rw [cut, Mailbox.map, hqueue]

/-! ## Desks side by side -/

/-- What is told but panics. -/
def withoutPanics (es : List Event) : List Event := es.filter fun e => !tellsPanic e

theorem withoutPanics_append (es es' : List Event) :
    withoutPanics (es ++ es') = withoutPanics es ++ withoutPanics es' :=
  List.filter_append ..

/-- Desks `d` and `e` had the records of `d₀`, and the same came of them since, but that
on `e` every job was cut short and no panic was told. -/
structure SameButPanics (d₀ d e : Desk α) : Prop where
  /-- They have the same mailbox, but for what was cut. -/
  mailbox : e.mailbox = d.mailbox.map cutMail
  /-- The same was logged. -/
  log : e.log = d.log
  /-- As many jobs were sent. -/
  attempts : e.attempts = d.attempts
  /-- The same was told, but for the panics. -/
  events : ∃ told, d.events = d₀.events ++ told ∧ e.events = d₀.events ++ withoutPanics told
  /-- The same jobs were accepted, but for what was cut. -/
  accepted : ∃ sent, d.accepted = d₀.accepted ++ sent ∧
    e.accepted = d₀.accepted ++ sent.map cutMail
  /-- The same jobs were delivered, but for what was cut. -/
  delivered : ∃ ran, d.delivered = d₀.delivered ++ ran ∧
    e.delivered = d₀.delivered ++ ran.map cutMail

theorem sameButPanics_cut (d : Desk α) : SameButPanics d d d.cut where
  mailbox := rfl
  log := rfl
  attempts := rfl
  events := ⟨[], (List.append_nil _).symm, (List.append_nil _).symm⟩
  accepted := ⟨[], (List.append_nil _).symm, (List.append_nil _).symm⟩
  delivered := ⟨[], (List.append_nil _).symm, (List.append_nil _).symm⟩

/-- What a desk is like with every job cut is settled by what it is like without. -/
theorem SameButPanics.unique (h : SameButPanics d₀ d e) (h' : SameButPanics d₀ d e') : e = e' := by
  obtain ⟨hmailbox, hlog, hattempts, ⟨told, htold, hevents⟩, ⟨sent, hsent, haccepted⟩,
    ⟨ran, hran, hdelivered⟩⟩ := h
  obtain ⟨hmailbox', hlog', hattempts', ⟨told', htold', hevents'⟩, ⟨sent', hsent', haccepted'⟩,
    ⟨ran', hran', hdelivered'⟩⟩ := h'
  obtain rfl : told = told' := List.append_cancel_left (htold.symm.trans htold')
  obtain rfl : sent = sent' := List.append_cancel_left (hsent.symm.trans hsent')
  obtain rfl : ran = ran' := List.append_cancel_left (hran.symm.trans hran')
  cases e
  cases e'
  simp_all

theorem SameButPanics.write (h : SameButPanics d₀ d e) (x : Entry α) :
    SameButPanics d₀ (d.write x) (e.write x) :=
  ⟨h.mailbox, congrArg (· ++ [x]) h.log, h.attempts, h.events, h.accepted, h.delivered⟩

theorem SameButPanics.report (h : SameButPanics d₀ d e) (es : List Event) :
    SameButPanics d₀ (d.report es) (e.report (withoutPanics es)) := by
  obtain ⟨told, hd, he⟩ := h.events
  refine ⟨h.mailbox, h.log, h.attempts, ⟨told ++ es, ?_, ?_⟩, h.accepted, h.delivered⟩
  · rw [← List.append_assoc, ← hd]
    rfl
  · rw [withoutPanics_append, ← List.append_assoc, ← he]
    rfl

/-- A panic that is told makes no difference. -/
theorem SameButPanics.tellPanic (h : SameButPanics d₀ d e) (policy : PanicPolicy)
    (p? : Option Payload) : SameButPanics d₀ (d.tellPanic policy p?) e := by
  cases p? with
  | none => exact h
  | some p =>
      have htold := h.report [.jobPanicked d.mailbox.identity p.message policy]
      rwa [show e.report (withoutPanics [.jobPanicked d.mailbox.identity p.message policy]) = e from
        congrArg (fun es => { e with events := es }) (List.append_nil _)] at htold

theorem SameButPanics.withMailbox (h : SameButPanics d₀ d e) (box : Mailbox (Mail α)) :
    SameButPanics d₀ { d with mailbox := box } { e with mailbox := box.map cutMail } :=
  ⟨rfl, h.log, h.attempts, h.events, h.accepted, h.delivered⟩

theorem SameButPanics.deliver (h : SameButPanics d₀ d e) (box : Mailbox (Mail α)) (mail : Mail α) :
    SameButPanics d₀ (d.deliver box mail) (e.deliver (box.map cutMail) (cutMail mail)) := by
  obtain ⟨ran, hd, he⟩ := h.delivered
  refine ⟨rfl, h.log, h.attempts, h.events, h.accepted, ran ++ [mail], ?_, ?_⟩
  · rw [← List.append_assoc, ← hd]
    rfl
  · rw [List.map_append, ← List.append_assoc, ← he]
    rfl

/-- What is told at the end tells of no panic. -/
theorem withoutPanics_reasonEvents (m : Mailbox (Mail α)) (reason : Reason) :
    withoutPanics (m.reasonEvents reason ++ [m.exitEvent])
      = m.reasonEvents reason ++ [m.exitEvent] := by
  cases reason with
  | noticed =>
      unfold Mailbox.reasonEvents
      by_cases hs : m.status = 0
      · simp only [hs, if_true]
        rfl
      · simp only [hs, if_false]
        rfl
  | deserted | panicked => rfl

theorem SameButPanics.conclude (h : SameButPanics d₀ d e) (reason : Reason) :
    SameButPanics d₀ (d.conclude reason) (e.conclude reason) := by
  have hreport := (h.report (d.mailbox.reasonEvents reason ++ [d.mailbox.exitEvent])).withMailbox
    d.mailbox.markEnded
  rw [withoutPanics_reasonEvents] at hreport
  obtain ⟨box, log, events, attempts, accepted, delivered⟩ := e
  obtain rfl := h.mailbox
  simp only [Desk.conclude, Mailbox.reasonEvents_map, Mailbox.exitEvent_map, List.append_assoc]
  exact hreport

/-! ## Jobs side by side -/

/-- A request of a job under service is to the mailbox, and that does not look at its
jobs. -/
theorem ask_map {g : Mail α → Mail α} (h : e.mailbox = d.mailbox.map g) (c : Call) :
    ∃ r box, d.ask true c = (.replied r, { d with mailbox := box }) ∧
      e.ask true c = (.replied r, { e with mailbox := box.map g }) := by
  obtain ⟨box, log, events, attempts, accepted, delivered⟩ := e
  obtain rfl := h
  cases c with
  | inspect n =>
      refine ⟨_, _, rfl, ?_⟩
      simp only [ask, Mailbox.pending_map]
      rfl
  | giveNotice =>
      simp only [ask, Mailbox.giveNotice_map]
      cases hw : d.mailbox.cancelSender with
      | false => exact ⟨_, _, rfl, by simp [Mailbox.map, hw]⟩
      | true => exact ⟨_, _, rfl, by simp [Mailbox.map, hw]⟩
  | beginStop =>
      refine ⟨_, _, rfl, ?_⟩
      simp only [ask, Mailbox.beginStop_map]
  | dropInbox | wait | serve | look =>
      simp only [ask, view, Bool.not_true, Bool.and_false, Bool.false_eq_true, if_false]
      exact ⟨_, _, rfl, rfl⟩
  | cloneHandle | dropHandle | dropCancelSender | setStatus | markEnded | isOpen | identity =>
      exact ⟨_, _, rfl, rfl⟩

theorem SameButPanics.respond (h : SameButPanics d₀ d e) (c : Call) :
    SameButPanics d₀ (d.respond c) (e.respond c) := by
  obtain ⟨r, box, hd, he⟩ := ask_map h.mailbox c
  rw [respond_eq hd, respond_eq he]
  exact (h.withMailbox box).write _

theorem SameButPanics.accept (h : SameButPanics d₀ d e) (box : Mailbox (Mail α)) (n : Nat)
    (mail : Mail α) :
    SameButPanics d₀ { d with mailbox := box, attempts := n, accepted := d.accepted ++ [mail] }
      { e with
        mailbox := box.map cutMail, attempts := n, accepted := e.accepted ++ [cutMail mail] } := by
  obtain ⟨sent, hd, he⟩ := h.accepted
  refine ⟨rfl, h.log, rfl, h.events, ⟨sent ++ [mail], ?_, ?_⟩, h.delivered⟩
  · rw [← List.append_assoc, ← hd]
  · rw [List.map_append, ← List.append_assoc, ← he]
    rfl

/-- A job that is sent, and the same job cut short. -/
theorem SameButPanics.send (h : SameButPanics d₀ d e) (route : Route) (job : Work α) :
    (e.send route (cutShort job)).1 = (d.send route job).1 ∧
      SameButPanics d₀ (d.send route job).2 (e.send route (cutShort job)).2 := by
  have hholds : e.mailbox.holds route.handle = d.mailbox.holds route.handle := by
    rw [h.mailbox]
    rfl
  have hpost : e.mailbox.post ⟨d.attempts, route.handle, cutShort job⟩
      = ((d.mailbox.post ⟨d.attempts, route.handle, job⟩).1,
        (d.mailbox.post ⟨d.attempts, route.handle, job⟩).2.map cutMail) := by
    rw [h.mailbox]
    exact Mailbox.post_map cutMail d.mailbox ⟨d.attempts, route.handle, job⟩
  unfold Desk.send
  rw [hholds, h.attempts]
  simp only [hpost]
  split
  · exact ⟨rfl, h⟩
  · split
    · exact ⟨rfl, h.accept _ _ _⟩
    · exact ⟨rfl, h.mailbox, h.log, rfl, h.events, h.accepted, h.delivered⟩
    · exact ⟨rfl, h⟩

/-! ## Services side by side -/

/-- A service that carries on, and beside it a service under any policy of the desk with
every job cut. -/
inductive InStep (d₀ : Desk α) (policy : PanicPolicy) : Machine α → Machine α → Prop
  /-- Both stand at their wait. -/
  | waiting {d e : Desk α} (h : SameButPanics d₀ d e) :
      InStep d₀ policy { desk := d, stack := [.service .carryOn] }
        { desk := e, stack := [.service policy] }
  /-- Both run the same job, with this left of it. -/
  | working {d e : Desk α} (h : SameButPanics d₀ d e) (rest : Work α) :
      InStep d₀ policy { desk := d, stack := [.job (.serving .carryOn) rest] }
        { desk := e, stack := [.job (.serving policy) (cutShort rest)] }
  /-- Both have come to the same. -/
  | ended {d e : Desk α} (h : SameButPanics d₀ d e) (r : Reply) :
      InStep d₀ policy { desk := d, stack := [], answer := some r }
        { desk := e, stack := [], answer := some r }

variable {m m' n n' : Machine α}

/-- Both do the same when their waits return with the same. -/
theorem SameButPanics.woken (h : SameButPanics d₀ d e) (policy : PanicPolicy) (w : Wake (Mail α))
    (box : Mailbox (Mail α)) : InStep d₀ policy (Machine.woken d .carryOn [] w box)
      (Machine.woken e policy [] (w.map cutMail) (box.map cutMail)) := by
  cases w with
  | item mail => exact .working ((h.deliver box mail).report [.jobBegan]) mail.job
  | noticed =>
      have hended : InStep d₀ policy _ _ := .ended ((h.withMailbox box).conclude .noticed)
        (.served (box.outcome .noticed))
      rwa [← Mailbox.outcome_map cutMail] at hended
  | deserted => exact .ended ((h.withMailbox box).conclude .deserted) _

/-- Both do the same next in a job. -/
theorem SameButPanics.step_job (h : SameButPanics d₀ d e) (policy : PanicPolicy) (rest : Work α) :
    ∃ m n, Machine.step { desk := d, stack := [.job (.serving .carryOn) rest] } = some m ∧
      Machine.step { desk := e, stack := [.job (.serving policy) (cutShort rest)] } = some n ∧
      InStep d₀ policy m n := by
  cases rest with
  | done => exact ⟨_, _, rfl, rfl, .waiting h⟩
  | send route job rest =>
      obtain ⟨hreply, hsent⟩ := h.send route job
      refine ⟨_, _, rfl, rfl, ?_⟩
      rw [hreply]
      exact .working (hsent.write _) rest
  | act a rest =>
      cases a with
      | log v => exact ⟨_, _, rfl, rfl, .working (h.write _) rest⟩
      | panic p => exact ⟨_, _, rfl, rfl, .waiting (h.tellPanic .carryOn (some p))⟩
      | call c =>
          exact ⟨_, _, Machine.step_call .., Machine.step_call .., .working (h.respond c) rest⟩

/-- **One step of both**: either both take one, or neither can. -/
theorem InStep.step (h : InStep d₀ policy m n) :
    (m.step = none ∧ n.step = none) ∨
      ∃ m' n', m.step = some m' ∧ n.step = some n' ∧ InStep d₀ policy m' n' := by
  cases h with
  | ended => exact .inl ⟨rfl, rfl⟩
  | working h rest => exact .inr (h.step_job policy rest)
  | @waiting d e h =>
      rw [Machine.step_service, Machine.step_service, h.mailbox, Mailbox.next_map]
      cases d.mailbox.next with
      | none => exact .inl ⟨rfl, rfl⟩
      | some p => exact .inr ⟨_, _, rfl, rfl, h.woken policy p.1 p.2⟩

/-- **Both come to the same in the end**, or stand at a wait that nothing can end. -/
theorem InStep.run (h : InStep d₀ policy m n) : InStep d₀ policy m.run n.run := by
  fun_induction Machine.run m generalizing n with
  | case1 m hm =>
      rcases h.step with ⟨-, hn⟩ | ⟨m', n', hm', -⟩
      · rwa [Machine.run_of_step_none hn]
      · rw [hm] at hm'
        cases hm'
  | case2 m m' hm ih =>
      rcases h.step with ⟨hm', -⟩ | ⟨m'', n', hm', hn, hnext⟩
      · rw [hm] at hm'
        cases hm'
      · rw [hm] at hm'
        cases hm'
        rw [Machine.run_of_step_some hn]
        exact ih hnext

/-- What one may do next, so may the other. -/
theorem InStep.goes (h : InStep d₀ policy m n) (hg : m.Goes m') :
    ∃ n', n.Goes n' ∧ InStep d₀ policy m' n' := by
  cases h with
  | ended =>
      cases hg with
      | step hstep => cases hstep
  | working h rest =>
      obtain ⟨m'', n', hm, hn, hnext⟩ := h.step_job policy rest
      cases hg with
      | step hstep =>
          rw [hm] at hstep
          cases hstep
          exact ⟨n', .step hn, hnext⟩
  | waiting h =>
      obtain ⟨w, box, hw, rfl⟩ := Machine.goes_service hg
      refine ⟨_, .wakes ?_, h.woken policy w box⟩
      rw [h.mailbox]
      exact hw.map cutMail

/-- And the other way round. -/
theorem InStep.goes_back (h : InStep d₀ policy m n) (hg : n.Goes n') :
    ∃ m', m.Goes m' ∧ InStep d₀ policy m' n' := by
  cases h with
  | ended =>
      cases hg with
      | step hstep => cases hstep
  | working h rest =>
      obtain ⟨m', n'', hm, hn, hnext⟩ := h.step_job policy rest
      cases hg with
      | step hstep =>
          rw [hn] at hstep
          cases hstep
          exact ⟨m', .step hm, hnext⟩
  | waiting h =>
      obtain ⟨w', box', hmapped, rfl⟩ := Machine.goes_service hg
      rw [h.mailbox] at hmapped
      obtain ⟨w, box, hw, rfl, rfl⟩ := hmapped.of_map
      exact ⟨_, .wakes hw, h.woken policy w box⟩

/-- **What one may come to, so may the other.** -/
theorem InStep.reaches (h : InStep d₀ policy m n) (hm : m.Reaches m') :
    ∃ n', n.Reaches n' ∧ InStep d₀ policy m' n' := by
  induction hm with
  | refl => exact ⟨n, .refl n, h⟩
  | tail _ last ih =>
      obtain ⟨n', hn, hnext⟩ := ih
      obtain ⟨n'', hlast, hnext⟩ := hnext.goes last
      exact ⟨n'', hn.tail hlast, hnext⟩

/-- And the other way round. -/
theorem InStep.reached (h : InStep d₀ policy m n) (hn : n.Reaches n') :
    ∃ m', m.Reaches m' ∧ InStep d₀ policy m' n' := by
  induction hn with
  | refl => exact ⟨m, .refl m, h⟩
  | tail _ last ih =>
      obtain ⟨m', hm, hnext⟩ := ih
      obtain ⟨m'', hlast, hnext⟩ := hnext.goes_back last
      exact ⟨m'', hm.tail hlast, hnext⟩

/-- Wherever both stand, they have given the same answer. -/
theorem InStep.alike (h : InStep d₀ policy m n) :
    n.answer = m.answer ∧ SameButPanics d₀ m.desk n.desk := by
  cases h with
  | waiting h | working h | ended h => exact ⟨rfl, h⟩

/-! ## Whatever is told of panics -/

theorem inStep_serving (d : Desk α) (policy : PanicPolicy) :
    InStep d policy (.serving d .carryOn []) (.serving d.cut policy []) :=
  .waiting ((sameButPanics_cut d).report [.serviceBegan d.mailbox.identity])

/-- Both services are begun, or neither is. -/
theorem inStep_start (d : Desk α) (policy : PanicPolicy) :
    InStep d policy (.start d (.call (.serve .carryOn)))
      (.start d.cut (.call (.serve policy))) := by
  have hinbox : d.cut.mailbox.inbox = d.mailbox.inbox := rfl
  have hnext : d.cut.mailbox.next.isNone = d.mailbox.next.isNone := by
    rw [cut, Mailbox.next_map, Option.isNone_map]
  simp only [Machine.start, ask, hinbox, hnext]
  cases d.mailbox.inbox with
  | false => exact .ended (sameButPanics_cut d) .noInbox
  | true =>
      cases d.mailbox.next.isNone with
      | true => exact .ended (sameButPanics_cut d) .wouldWait
      | false => exact inStep_serving d policy

/-- A service that is asked for, and one of the desk with every job cut. -/
theorem perform_cut (d : Desk α) (policy : PanicPolicy) :
    ∃ a d' e', d.perform (.call (.serve .carryOn)) = (a, d') ∧
      d.cut.perform (.call (.serve policy)) = (a, e') ∧ SameButPanics d d' e' := by
  obtain ⟨hanswer, hdesk⟩ := (inStep_start d policy).run.alike
  exact ⟨_, _, _, rfl, congrArg (·, _) hanswer, hdesk⟩

variable {o : Outcome}

theorem Serves.cut (h : d.Serves .carryOn o d') (policy : PanicPolicy) :
    ∃ e', d.cut.Serves policy o e' ∧ SameButPanics d d' e' := by
  obtain ⟨n, hn, hnext⟩ := (inStep_serving d policy).reaches h
  cases hnext with
  | ended hsame => exact ⟨_, hn, hsame⟩

theorem Serves.of_cut (h : d.cut.Serves policy o e') :
    ∃ d', d.Serves .carryOn o d' ∧ SameButPanics d d' e' := by
  obtain ⟨m, hm, hnext⟩ := (inStep_serving d policy).reached h
  cases hnext with
  | ended hsame => exact ⟨_, hm, hsame⟩

/-- Where every job was cut, it is all one what the policy is. -/
theorem serves_cut_iff : d.cut.Serves .retire o e' ↔ d.cut.Serves .carryOn o e' := by
  have hchange : ∀ {policy} (policy'), d.cut.Serves policy o e' → d.cut.Serves policy' o e' := by
    intro policy policy' h
    obtain ⟨d', hserves, hsame⟩ := h.of_cut
    obtain ⟨e'', hcut, hsame'⟩ := hserves.cut policy'
    rwa [hsame.unique hsame']
  exact ⟨hchange .carryOn, hchange .retire⟩

theorem perform_cut_eq (d : Desk α) : d.cut.perform (.call (.serve .retire))
    = d.cut.perform (.call (.serve .carryOn)) := by
  obtain ⟨a, d', e, hd, he, hsame⟩ := perform_cut d .retire
  obtain ⟨a', d'', e', hd', he', hsame'⟩ := perform_cut d .carryOn
  rw [hd] at hd'
  cases hd'
  rw [he, he', hsame.unique hsame']

/-- **Where the policy is to carry on, panics are invisible but for what is told of them.**
The service answers the same and does the same as if every job were cut just before its
first panic.  And where no job holds a panic, it is all one what the policy is. -/
theorem carryOn_hides_panics (d : Desk α) :
    (∃ a d' e', d.perform (.call (.serve .carryOn)) = (a, d') ∧
      d.cut.perform (.call (.serve .carryOn)) = (a, e') ∧ SameButPanics d d' e') ∧
    (∀ o d', d.Serves .carryOn o d' → ∃ e', d.cut.Serves .carryOn o e' ∧ SameButPanics d d' e') ∧
    (∀ o e', d.cut.Serves .carryOn o e' → ∃ d', d.Serves .carryOn o d' ∧ SameButPanics d d' e') ∧
    ((∀ mail ∈ d.mailbox.queue, calm mail.job = true) →
      d.perform (.call (.serve .retire)) = d.perform (.call (.serve .carryOn)) ∧
      ∀ o d', d.Serves .retire o d' ↔ d.Serves .carryOn o d') := by
  refine ⟨perform_cut d .carryOn, fun _ _ h => h.cut .carryOn, fun _ _ h => h.of_cut, ?_⟩
  intro hcalm
  rw [← cut_of_calm hcalm]
  exact ⟨perform_cut_eq d, fun _ _ => serves_cut_iff⟩

/-- A desk with two jobs queued: one writes a value and sends another that does, too, and
the other leaves a notice. -/
def calmDesk : Desk Nat where
  mailbox := {
    identity := "pot"
    queue := [
      ⟨0, 0, .act (.log 1) (.send ⟨.prompt, 0⟩ (.act (.log 2) .done) .done)⟩,
      ⟨1, 0, .act (.call .giveNotice) .done⟩] }

/-- A desk with one job queued, that panics, and has sent another by then, that panics when it
has left a notice.  Each would have written a value more. -/
def fitfulDesk : Desk Nat where
  mailbox := {
    identity := "pot"
    queue := [
      ⟨0, 0, .act (.log 1) (.send ⟨.prompt, 0⟩
        (.act (.call .giveNotice) (.act (.panic (.built "inner")) (.act (.log 2) .done)))
        (.act (.panic (.built "outer")) (.act (.log 3) .done)))⟩] }

/-- No job of the first desk holds a panic, so that its service is the same under either
policy.  The service of the second tells of two panics; where the job and the one nested in it
are cut it tells of none, and there is no other difference. -/
theorem carryOn_hides_panics_calmDesk :
    ((∀ mail ∈ calmDesk.mailbox.queue, calm mail.job = true) ∧
      calmDesk.perform (.call (.serve .retire)) = calmDesk.perform (.call (.serve .carryOn))) ∧
    fitfulDesk.cut.mailbox.queue = [⟨0, 0, .act (.log 1)
      (.send ⟨.prompt, 0⟩ (.act (.call .giveNotice) .done) .done)⟩] ∧
    ∃ d' e', fitfulDesk.perform (.call (.serve .carryOn)) = (some (.served .orderly), d') ∧
      fitfulDesk.cut.perform (.call (.serve .carryOn)) = (some (.served .orderly), e') ∧
      SameButPanics fitfulDesk d' e' ∧
      d'.events = [.serviceBegan "pot", .jobBegan, .jobPanicked "pot" "outer" .carryOn, .jobBegan,
        .jobPanicked "pot" "inner" .carryOn, .serviceEnded "pot" 0] ∧
      e'.events = [.serviceBegan "pot", .jobBegan, .jobBegan, .serviceEnded "pot" 0] := by
  have hcalm : ∀ mail ∈ calmDesk.mailbox.queue, calm mail.job = true := by decide
  refine ⟨⟨hcalm, ((carryOn_hides_panics calmDesk).2.2.2 hcalm).1⟩, rfl, ?_⟩
  have hrun := (Machine.run_of_step_some (m := Machine.start fitfulDesk (.call (.serve .carryOn)))
    rfl).trans <| (Machine.run_of_step_some rfl).trans <| (Machine.run_of_step_some rfl).trans <|
    (Machine.run_of_step_some rfl).trans <| (Machine.run_of_step_some rfl).trans <|
    (Machine.run_of_step_some rfl).trans <| (Machine.run_of_step_some rfl).trans <|
    (Machine.run_of_step_some rfl).trans <| Machine.run_of_step_none rfl
  have hperform := congrArg (fun m : Machine Nat => (m.answer, m.desk)) hrun
  obtain ⟨a, d', e', hd, he, hsame⟩ := (carryOn_hides_panics fitfulDesk).1
  cases hd.symm.trans hperform
  obtain ⟨told, htold, htold'⟩ := hsame.events
  refine ⟨_, _, hperform, he, hsame, rfl, ?_⟩
  -- what is told of the cut desk is what is told of this one without the panics
  cases htold
  exact htold'

end Desk

end SerialWorkers
