import SerialWorkers.Proofs.Desk.Keeping

/-!
# Nobody is left

Once no handle is held, none ever is again: a copy of a handle that was let go of is as
dead as it is.  So nothing is sent any more, and what is queued then is all there will be.
And a wait is never said to have found nobody left as long as somebody is, or a job is
queued: not to the desk's user, not in the log of the jobs, not in the events of a service.

* `Machine.Unfolds.alone` — nobody comes back, and nothing is accepted.
* `Machine.noDisconnect_of_happens` — nobody is said to have gone too early.
-/

namespace SerialWorkers

namespace Mailbox

variable {ι : Type} {m box : Mailbox ι}

/-- Where no producer is left, no handle is held. -/
theorem holds_of_alone (h : m.hasProducer = false) (k : Nat) : m.holds k = false := by
  rw [holds, List.getD_eq_getElem?_getD]
  cases hk : m.handles[k]? with
  | none => rfl
  | some b =>
      rw [hasProducer, List.any_eq_false] at h
      simpa using h b (List.mem_of_getElem? hk)

/-- A copy of a dead handle is dead. -/
theorem hasProducer_cloneHandle (h : m.hasProducer = false) (k : Nat) :
    (m.cloneHandle k).hasProducer = false := by
  have hk := holds_of_alone h k
  simpa [hasProducer, cloneHandle, hk] using h

theorem hasProducer_dropHandle (h : m.hasProducer = false) (k : Nat) :
    (m.dropHandle k).hasProducer = false := by
  rw [hasProducer, List.any_eq_false] at h ⊢
  intro b hb
  rcases List.mem_or_eq_of_mem_set hb with hb | rfl
  · exact h b hb
  · simp

/-- A wait leaves the handles alone. -/
theorem Wakes.hasProducer {w : Wake ι} (h : m.Wakes w box) :
    box.hasProducer = m.hasProducer := by
  cases h <;> rfl

end Mailbox

namespace Desk

variable {α : Type} {d d' d₀ : Desk α}

/-! ## Nobody comes back -/

/-- Nobody is left at desk `d` who could send a job, and it has accepted what `d₀` had. -/
structure Alone (d₀ d : Desk α) : Prop where
  /-- No handle is held. -/
  deserted : d.mailbox.hasProducer = false
  /-- Nothing more was accepted. -/
  accepted : d.accepted = d₀.accepted

theorem Alone.withMailbox (h : Alone d₀ d) {box : Mailbox (Mail α)}
    (hb : d.mailbox.hasProducer = false → box.hasProducer = false) :
    Alone d₀ { d with mailbox := box } :=
  ⟨hb h.deserted, h.accepted⟩

theorem Alone.write (h : Alone d₀ d) (x : Entry α) : Alone d₀ (d.write x) :=
  ⟨h.deserted, h.accepted⟩

theorem Alone.report (h : Alone d₀ d) (es : List Event) : Alone d₀ (d.report es) :=
  ⟨h.deserted, h.accepted⟩

/-- A wait returns. -/
theorem Alone.woken (h : Alone d₀ d) {w : Wake (Mail α)} {box : Mailbox (Mail α)}
    (hw : d.mailbox.Wakes w box) : Alone d₀ { d with mailbox := box } :=
  h.withMailbox fun hd => hw.hasProducer.trans hd

theorem Alone.deliver (h : Alone d₀ d) {mail : Mail α} {box : Mailbox (Mail α)}
    (hw : d.mailbox.Wakes (.item mail) box) : Alone d₀ (d.deliver box mail) :=
  ⟨(h.woken hw).deserted, h.accepted⟩

theorem Alone.conclude (h : Alone d₀ d) (reason : Reason) : Alone d₀ (d.conclude reason) :=
  ⟨h.deserted, h.accepted⟩

/-- Whoever sends a job has no handle to send it by. -/
theorem Alone.send (h : Alone d₀ d) (route : Route) (job : Work α) :
    d.send route job = (.noHandle, d) := by
  simp [Desk.send, Mailbox.holds_of_alone h.deserted]

/-- **No request brings a producer back.** -/
theorem Alone.ask (h : Alone d₀ d) (lent : Bool) (c : Call) : Alone d₀ (d.ask lent c).2 := by
  cases c with
  | cloneHandle k => exact h.withMailbox fun hd => Mailbox.hasProducer_cloneHandle hd k
  | dropHandle k => exact h.withMailbox fun hd => Mailbox.hasProducer_dropHandle hd k
  | dropInbox =>
      simp only [Desk.ask]
      split
      · exact h.withMailbox id
      · exact h
  | giveNotice =>
      simp only [Desk.ask]
      split
      · refine h.withMailbox fun hd => ?_
        unfold Mailbox.giveNotice
        split
        · exact hd
        · split <;> exact hd
      · exact h
  | beginStop =>
      refine h.withMailbox fun hd => ?_
      unfold Mailbox.beginStop
      split <;> exact hd
  | wait =>
      simp only [Desk.ask]
      split
      · split
        · exact h
        · rename_i hn
          exact h.deliver (Mailbox.wakes_of_next hn)
        · rename_i hn
          exact h.woken (Mailbox.wakes_of_next hn)
        · rename_i hn
          exact h.woken (Mailbox.wakes_of_next hn)
      · exact h
  | serve policy =>
      simp only [Desk.ask]
      split
      · split
        · exact h
        · exact h.report _
      · exact h
  | dropCancelSender | setStatus | markEnded => exact h.withMailbox id
  | inspect | isOpen | identity | look => exact h

/-- Where nobody is left, nobody is left after whatever may be done. -/
theorem Alone.kept (h : Alone d₀ d) : Kept d (Alone d₀) fun _ => True where
  idle := h
  ask lent c := ⟨h.ask lent c, fun _ _ => trivial⟩
  send route job := by
    rw [h.send]
    exact ⟨h, trivial⟩
  deliver hw := h.deliver hw
  noticed hw := ⟨h.woken hw, trivial⟩
  deserted hw := ⟨h.woken hw, trivial⟩
  finished := trivial
  panicked _ := trivial
  served _ := trivial
  write ha _ := ha.write _
  report ha _ := ha.report _
  conclude reason ha _ := ha.conclude reason

namespace Machine

variable {m m' : Machine α}

/-- **Nothing that happens brings a producer back**, and what is sent finds no handle. -/
theorem alone_happens {ss : List (Sending α)} (h : Alone d₀ m.desk) (hs : Happens m ss m') :
    Alone d₀ m'.desk ∧ ∀ x ∈ ss, x.reply = .noHandle := by
  refine ⟨(h.kept.happens hs).1, fun x hx => ?_⟩
  obtain ⟨route, job, rfl⟩ := eq_sending_of_happens hs hx
  rw [sending, h.send]

/-- **Nobody comes back**, whatever happens. -/
theorem Unfolds.alone {told : List (Sending α)} (h : Unfolds m told m') (ha : Alone d₀ m.desk) :
    Alone d₀ m'.desk ∧ ∀ x ∈ told, x.reply = .noHandle := by
  induction h with
  | refl => exact ⟨ha, nofun⟩
  | tail _ last ih =>
      obtain ⟨ha, htold⟩ := ih
      obtain ⟨ha, hmore⟩ := alone_happens ha last
      exact ⟨ha, List.forall_mem_append.2 ⟨htold, hmore⟩⟩

end Machine

/-! ## What is said of a wait -/

/-- Somebody is left who could send a job, or a job is queued. -/
def Busy (d : Desk α) : Prop := d.mailbox.hasProducer = true ∨ d.mailbox.queue ≠ []

/-- Between `d` and `d'` nothing was written or reported of a wait that found nobody left. -/
structure NoDisconnect (d d' : Desk α) : Prop where
  /-- No job was told so. -/
  log : ∃ es, d'.log = d.log ++ es ∧ ∀ c, Entry.answered c (.woken .deserted) ∉ es
  /-- No service reported it. -/
  events : ∃ es, d'.events = d.events ++ es ∧ ∀ name, Event.deserted name ∉ es

/-- Where nobody is gone for good, or a job is queued, no wait finds that nobody is left. -/
theorem Busy.ne_deserted (h : d.Busy) {w : Wake (Mail α)} {box : Mailbox (Mail α)}
    (hw : d.mailbox.Wakes w box) : w ≠ .deserted := by
  rintro rfl
  cases hw with
  | deserted hn hq hp =>
      rcases h with hheld | hqueued
      · rw [hp] at hheld
        cases hheld
      · exact hqueued hq

theorem noDisconnect_of_eq (hlog : d'.log = d.log) (hevents : d'.events = d.events) :
    NoDisconnect d d' :=
  ⟨⟨[], by simp [hlog], by simp⟩, ⟨[], by simp [hevents], by simp⟩⟩

theorem NoDisconnect.write (h : NoDisconnect d d') {x : Entry α}
    (hx : ∀ c, x ≠ .answered c (.woken .deserted)) : NoDisconnect d (d'.write x) := by
  obtain ⟨es, hlog, hes⟩ := h.log
  refine ⟨⟨es ++ [x], ?_, fun c hc => ?_⟩, h.events⟩
  · rw [Desk.write, hlog, List.append_assoc]
  · rcases List.mem_append.1 hc with hc | hc
    · exact hes c hc
    · exact hx c (List.mem_singleton.1 hc).symm

theorem NoDisconnect.report (h : NoDisconnect d d') (es : List Event)
    (hes : ∀ name, Event.deserted name ∉ es) : NoDisconnect d (d'.report es) := by
  obtain ⟨es', hevents, hes'⟩ := h.events
  refine ⟨h.log, es' ++ es, ?_, fun name hname => ?_⟩
  · rw [Desk.report, hevents, List.append_assoc]
  · rcases List.mem_append.1 hname with hname | hname
    · exact hes' name hname
    · exact hes name hname

/-- A service that ends for another reason does not report this one. -/
theorem NoDisconnect.conclude (h : NoDisconnect d d') (reason : Reason) (hr : reason ≠ .deserted) :
    NoDisconnect d (d'.conclude reason) := by
  have hlast : ∀ name, Event.deserted name ∉ [d'.mailbox.exitEvent] := by
    simp [Mailbox.exitEvent]
  have hreason : ∀ name, Event.deserted name ∉ d'.mailbox.reasonEvents reason := by
    intro name hname
    cases reason with
    | deserted => exact hr rfl
    | panicked => cases hname
    | noticed =>
        simp only [Mailbox.reasonEvents] at hname
        split at hname
        · cases hname
        · cases List.mem_singleton.1 hname
  have htold := (h.report _ hreason).report _ hlast
  exact ⟨htold.log, htold.events⟩

/-- The sending of a job is answered with something else. -/
theorem noDisconnect_send (d : Desk α) (route : Route) (job : Work α) :
    NoDisconnect d (d.send route job).2 ∧ (d.send route job).1 ≠ .woken .deserted := by
  unfold send
  split
  · exact ⟨noDisconnect_of_eq rfl rfl, by simp⟩
  · simp only
    split <;> exact ⟨noDisconnect_of_eq rfl rfl, by simp⟩

/-- **What a request is answered at once.** -/
theorem Busy.ask (h : d.Busy) (lent : Bool) (c : Call) :
    NoDisconnect d (d.ask lent c).2 ∧ (d.ask lent c).1 ≠ .replied (.woken .deserted) := by
  cases c with
  | wait =>
      simp only [Desk.ask]
      split
      · split
        · exact ⟨noDisconnect_of_eq rfl rfl, by simp⟩
        · exact ⟨noDisconnect_of_eq rfl rfl, by simp⟩
        · exact ⟨noDisconnect_of_eq rfl rfl, by simp⟩
        · rename_i hn
          exact absurd rfl (h.ne_deserted (Mailbox.wakes_of_next hn))
      · exact ⟨noDisconnect_of_eq rfl rfl, by simp⟩
  | serve policy =>
      simp only [Desk.ask]
      split
      · split
        · exact ⟨noDisconnect_of_eq rfl rfl, by simp⟩
        · exact ⟨(noDisconnect_of_eq rfl rfl).report _ (by simp), by simp⟩
      · exact ⟨noDisconnect_of_eq rfl rfl, by simp⟩
  | dropInbox | giveNotice =>
      simp only [Desk.ask]
      split <;> exact ⟨noDisconnect_of_eq rfl rfl, by simp⟩
  | cloneHandle k | dropHandle k | inspect k =>
      refine ⟨noDisconnect_of_eq rfl rfl, ?_⟩
      simp only [Desk.ask]
      split <;> simp
  | dropCancelSender =>
      refine ⟨noDisconnect_of_eq rfl rfl, ?_⟩
      simp only [Desk.ask]
      split <;> simp
  | setStatus | beginStop | markEnded | isOpen | identity | look =>
      exact ⟨noDisconnect_of_eq rfl rfl, by simp [Desk.ask]⟩

/-- **Where somebody is left, or a job is queued, no wait is said to have found nobody left**,
whatever may be done. -/
theorem Busy.kept (h : d.Busy) : Kept d (NoDisconnect d) (· ≠ .woken .deserted) where
  idle := noDisconnect_of_eq rfl rfl
  ask lent c := by
    obtain ⟨hquiet, hr⟩ := h.ask lent c
    exact ⟨hquiet, fun r heq hd => hr (hd ▸ heq)⟩
  send := noDisconnect_send d
  deliver _ := noDisconnect_of_eq rfl rfl
  noticed _ := ⟨noDisconnect_of_eq rfl rfl, by simp⟩
  deserted hw := absurd rfl (h.ne_deserted hw)
  finished := by simp
  panicked _ := by simp
  served _ := by simp
  write hquiet hx := hquiet.write fun c hc => hx c _ hc rfl
  report hquiet hes := hquiet.report _ hes
  conclude reason hquiet hr := hquiet.conclude reason fun hd => hr hd rfl

namespace Machine

variable {m m' : Machine α}

/-- In a step from desk `d`, nobody was told that a wait found nobody left: it is not in the
log, not in the events, and not the answer. -/
def NoDisconnect (d : Desk α) (m : Machine α) : Prop :=
  Desk.NoDisconnect d m.desk ∧ m.answer ≠ some (.woken .deserted)

/-- **Nobody is said to have gone** while somebody is left who could send a job, or a job is
queued. -/
theorem noDisconnect_of_happens {ss : List (Sending α)} (h : m.desk.Busy) (hs : Happens m ss m') :
    NoDisconnect m.desk m' := by
  obtain ⟨hquiet, hr⟩ := h.kept.happens hs
  exact ⟨hquiet, fun hans => hr _ hans rfl⟩

end Machine

end Desk

end SerialWorkers
