import SerialWorkers.Proofs.Session.FailedHires
import SerialWorkers.Proofs.Session.Reached

/-!
# What becomes of a hire

Identity and prefix are whatever text the hirer likes, and nobody looks at them before the
thread is to be named.  A NUL in either makes the attempt panic, whatever the system would have
said to a thread, and that is so also where a failure to hire was to be told as a value.  Without
one the outcome is the system's: a worker at its wait, or a refusal that names who was to be
hired.

* `Settings.namesThread_iff` — which texts a thread can be named after.
* `Workshop.Gains` — what one more worker makes of a workshop.
* `Workshop.still_hire` — a worker that joins a workshop at rest sets nobody going.
* `HireComesTo` — all that can become of an attempt to hire somebody.
* `Session.hired_or_told_unless_unnameable` — and when each of it does.
* `Session.panics_over_a_name` — it is not always one of the two that the hirer expects.
-/

namespace SerialWorkers

open Workshop

variable {α : Type}

/-! ## Names of threads -/

/-- There is a NUL in an identity, or in what the name of its thread is to start with. -/
def Settings.HasNul (s : Settings) (identity : String) : Prop :=
  '\x00' ∈ s.threadPrefix.toList ∨ '\x00' ∈ identity.toList

/-- **A thread can be named after an identity unless there is a NUL in it or in the prefix.** -/
theorem Settings.namesThread_iff {s : Settings} {identity : String} :
    s.namesThread identity = true ↔ ¬ s.HasNul identity := by
  have hjoined : (s.threadName identity).toList
      = s.threadPrefix.toList ++ '-' :: identity.toList := by
    simp [threadName, String.toList_append]
  have hdash : '\x00' ≠ '-' := by decide
  simp only [namesThread, hjoined, HasNul, Bool.not_eq_true', List.contains_eq_mem,
    decide_eq_false_iff_not, List.mem_append, List.mem_cons, hdash, false_or]

/-- The usual prefix has no NUL in it. -/
theorem Settings.hasNul_usual_iff {identity : String} :
    Settings.HasNul {} identity ↔ '\x00' ∈ identity.toList :=
  or_iff_right (by decide)

/-! ## All that can become of a hire -/

/-- All that can become of an attempt to hire somebody on terms on which the mailbox can be laid
out: `panicked` if a text is in the way of it, or else what the hirer is `told` if the system
refuses the thread, or else a worker more, as `gains` says. -/
inductive HireComesTo {β : Type} (panicked : β) (told : Fault → β) (gains : β → Prop)
    (settings : Settings) (identity : String) : Option Fault → β → Prop
  /-- The thread cannot be named, and nobody asks the system for it. -/
  | panics {fault : Option Fault} (hnul : settings.HasNul identity) :
      HireComesTo panicked told gains settings identity fault panicked
  /-- The system refuses the thread. -/
  | refused {said : Fault} (hnul : ¬ settings.HasNul identity) :
      HireComesTo panicked told gains settings identity (some said) (told said)
  /-- There is one more worker. -/
  | hired {b : β} (hnul : ¬ settings.HasNul identity) (hgains : gains b) :
      HireComesTo panicked told gains settings identity none b

namespace HireComesTo

variable {β γ : Type} {panicked b : β} {told : Fault → β} {gains : β → Prop} {settings : Settings}
  {identity : String} {fault : Option Fault}

/-- Whoever can be named and is refused a thread is told so. -/
theorem eq_told {said : Fault}
    (h : HireComesTo panicked told gains settings identity (some said) b)
    (hnul : ¬ settings.HasNul identity) : b = told said := by
  cases h with
  | panics h => exact absurd h hnul
  | refused => rfl

theorem gains_of_none (h : HireComesTo panicked told gains settings identity none b)
    (hnul : ¬ settings.HasNul identity) : gains b := by
  cases h with
  | panics h => exact absurd h hnul
  | hired _ hgains => exact hgains

/-- What becomes of a hire, as somebody sees it who sees `f` of it. -/
theorem map {gains' : γ → Prop} (h : HireComesTo panicked told gains settings identity fault b)
    (f : β → γ) (hgains : ∀ b, gains b → gains' (f b)) :
    HireComesTo (f panicked) (fun said => f (told said)) gains' settings identity fault (f b) := by
  cases h with
  | panics hnul => exact .panics hnul
  | refused hnul => exact .refused hnul
  | hired hnul hb => exact .hired hnul (hgains _ hb)

end HireComesTo

namespace Workshop

variable {w w' : Workshop α} {settings : Settings} {identity : String} {fault : Option Fault}

/-! ## One more worker -/

/-- What one more worker makes of a workshop: everybody else is as before, and the new worker,
named after its identity, is in service with nothing queued, no status, and an owner. -/
structure Gains (w : Workshop α) (settings : Settings) (identity : String) (w' : Workshop α) :
    Prop where
  /-- There is one more worker, behind all others. -/
  workers : ∃ v, w'.workers = w.workers ++ [v] ∧ v.mailbox.identity = identity ∧
    v.view = ⟨.running, false, 0, 0⟩ ∧ v.owned = true ∧
    v.threadName = settings.threadPrefix ++ "-" ++ identity ∧ v.policy = settings.policy ∧
    v.mailbox.capacity = settings.capacity
  /-- The clients are as they were. -/
  clients : w'.clients = w.clients
  /-- The hire is reported. -/
  outside : w'.outside = w.outside ++ [.hired identity settings.capacity]

/-- A mailbox that can be laid out, a name and a thread from the system are all it takes. -/
theorem hire_of_none (hnul : ¬ settings.HasNul identity)
    (halloc : settings.Allocates) (w : Workshop α) :
    w.hire settings identity none
      = .hired ({ w with workers := w.workers ++ [Worker.hired settings identity] }.report .outside
          (.hired identity settings.capacity)) := by
  simp only [hire,
    Settings.objection?_eq_none_iff.2 ⟨halloc, Settings.namesThread_iff.2 hnul⟩]

/-- A thread that cannot be named is not asked for. -/
theorem hire_of_hasNul (hnul : settings.HasNul identity) (halloc : settings.Allocates)
    (fault : Option Fault) (w : Workshop α) :
    w.hire settings identity fault = .panicked .unnameable := by
  have hname : settings.namesThread identity ≠ true := fun h => Settings.namesThread_iff.1 h hnul
  have hobjection : settings.objection? identity = some .unnameable := by
    simp [Settings.objection?_of_allocates halloc, hname]
  simp only [hire, hobjection]

/-- What it takes to hire somebody. -/
theorem hire_eq_hired (h : w.hire settings identity fault = .hired w') :
    fault = none ∧
      w' = { w with workers := w.workers ++ [Worker.hired settings identity] }.report .outside
        (.hired identity settings.capacity) := by
  unfold hire at h
  split at h
  · cases h
  · cases h
  · cases h
    exact ⟨rfl, rfl⟩

/-- **Whoever is hired is one more worker.** -/
theorem gains_of_hire (h : w.hire settings identity fault = .hired w') :
    w.Gains settings identity w' := by
  obtain ⟨-, rfl⟩ := hire_eq_hired h
  exact ⟨⟨_, rfl, rfl, rfl, rfl, rfl, rfl, rfl⟩, rfl, rfl⟩

/-- Whoever waits for room waits for somebody who is there already, so that one more worker
is no help. -/
theorem noRoom_hire (hr : w.Reached) (h : w.hire settings identity fault = .hired w') {s : Sender}
    {manner : Manner} {t : Nat} {mail : Mail α} (hs : w.calling s = some (t, mail))
    (hroom : w.NoRoom manner t mail) : w'.NoRoom manner t mail := by
  obtain ⟨moves, hrun⟩ := hr
  obtain ⟨v, hv⟩ := exists_of_calling hrun hs
  obtain ⟨-, rfl⟩ := hire_eq_hired h
  intro u hu
  have ht : t < w.workers.length := (List.getElem?_eq_some_iff.1 hv).1
  refine hroom u ?_
  rw [← hu]
  exact (List.getElem?_append_left ht).symm

/-- A newly hired worker stands at its wait. -/
theorem halts_hired (w : Workshop α) (settings : Settings) (identity : String) :
    w.Halts (Worker.hired settings identity) :=
  .idle rfl (Mailbox.next_eq_none_iff.2 ⟨rfl, rfl, rfl, rfl⟩)

/-- **A worker that joins a workshop at rest sets nobody going**, and has nothing to do. -/
theorem still_hire (hr : w.Reached) (hstill : w.Still)
    (h : w.hire settings identity fault = .hired w') : w'.Still := by
  have hroom : ∀ {s : Sender} {manner : Manner} {t : Nat} {mail : Mail α},
      w.calling s = some (t, mail) → w.NoRoom manner t mail → w'.NoRoom manner t mail :=
    noRoom_hire hr h
  obtain ⟨-, hw'⟩ := hire_eq_hired h
  have hworkers : w'.workers = w.workers ++ [Worker.hired settings identity] := by
    rw [hw']
    rfl
  have hclients : w'.clients = w.clients := by
    rw [hw']
    rfl
  refine still_of_steps (fun k => ?_)
    fun c => resume_eq_none_of_room (hstill _ (.resume c)) hclients hroom
  rcases Nat.lt_trichotomy k w.workers.length with hk | hk | hk
  · refine work_eq_none_of_room (hstill _ (.work k)) ?_ hroom
    rw [hworkers, List.getElem?_append_left hk]
  · have hv : w'.workers[k]? = some (Worker.hired settings identity) := by
      rw [hworkers, hk]
      simp
    exact (work_eq_none_iff hv).2 (halts_hired w' settings identity)
  · have hnone : w'.workers[k]? = none := by
      rw [hworkers, List.getElem?_eq_none_iff, List.length_append, List.length_singleton]
      omega
    simp [work, hnone]

/-! ## What a workshop makes of an attempt -/

/-- Somebody is hired: the workshop gains a worker, who sets nobody going if all is at rest. -/
def Hires (w : Workshop α) (settings : Settings) (identity : String) (hiring : Hiring α) : Prop :=
  ∃ w', hiring = .hired w' ∧ w.Gains settings identity w' ∧ (w.Reached → w.Still → w'.Still)

/-- **What becomes of a hire on any terms depends on the texts and the system alone.** -/
theorem comes_hire (halloc : settings.Allocates) (identity : String) (fault : Option Fault)
    (w : Workshop α) :
    HireComesTo (.panicked .unnameable) (fun said => .refused ⟨identity, said⟩)
      (w.Hires settings identity) settings identity fault (w.hire settings identity fault) := by
  by_cases hnul : settings.HasNul identity
  · rw [hire_of_hasNul hnul halloc]
    exact .panics hnul
  · cases fault with
    | some said =>
        rw [hire_of_fault (Settings.namesThread_iff.2 hnul) halloc]
        exact .refused hnul
    | none =>
        have h := hire_of_none hnul halloc w
        exact .hired hnul ⟨_, h, gains_of_hire h, fun hr hstill => still_hire hr hstill h⟩

/-- What came of a hire, for somebody who took the worker for granted. -/
def Hiring.takenForGranted : Hiring α → Hiring α
  | .refused _ => .panicked .refused
  | other => other

theorem hireUsual_eq (w : Workshop α) (identity : String) (fault : Option Fault) :
    w.hireUsual identity fault = (w.hire {} identity fault).takenForGranted := by
  unfold hireUsual
  cases w.hire {} identity fault <;> rfl

/-- **Where a worker is taken for granted, a refusal is a panic**, and all else is as on any
terms. -/
theorem comes_hireUsual (identity : String) (fault : Option Fault) (w : Workshop α) :
    HireComesTo (.panicked .unnameable) (fun _ => .panicked .refused) (w.Hires {} identity) {}
      identity fault (w.hireUsual identity fault) := by
  have halloc : Settings.Allocates {} := by decide
  rw [hireUsual_eq]
  refine (comes_hire halloc identity fault w).map Hiring.takenForGranted fun hiring h => ?_
  obtain ⟨w', rfl, hgains⟩ := h
  exact ⟨w', rfl, hgains⟩

end Workshop

namespace Session

variable {s : Session α} {settings : Settings} {identity : String} {fault : Option Fault}

/-! ## What a session makes of it -/

/-- The answer is that there is one more worker, under the next number, and so there is. -/
def Hires (s : Session α) (settings : Settings) (identity : String) (after : Answer × Session α) :
    Prop :=
  after.1 = .hired s.shop.workers.length identity ∧
    s.shop.Gains settings identity after.2.shop

theorem hires_of_hires (hs : s.AtRest) {hiring : Hiring α}
    (h : s.shop.Hires settings identity hiring) :
    s.Hires settings identity
      (s.hiringAnswer identity hiring, s.restWith (s.shop.afterHiring hiring)) := by
  obtain ⟨w', rfl, hgains, hstill⟩ := h
  refine ⟨rfl, ?_⟩
  show s.shop.Gains settings identity w'.settle
  rw [settle_of_still (next?_of_still (hstill hs.reached (still_of_next? hs.resting.still)))]
  exact hgains

/-- **A session answers what became of a hire, and if that was nothing stays as it was.** -/
theorem AtRest.comes_of_hiring (hs : s.AtRest) {told : Fault → Hiring α}
    (htold : ∀ said, (told said).failed = true) {hiring : Hiring α}
    (h : HireComesTo (.panicked .unnameable) told (s.shop.Hires settings identity) settings identity
      fault hiring) :
    HireComesTo (.panicked .unnameable, s) (fun said => (s.hiringAnswer identity (told said), s))
      (s.Hires settings identity) settings identity fault
      (s.hiringAnswer identity hiring, s.restWith (s.shop.afterHiring hiring)) := by
  have hstays : ∀ hiring : Hiring α, hiring.failed = true →
      s.restWith (s.shop.afterHiring hiring) = s := by
    intro hiring hfailed
    rw [afterHiring_of_failed hfailed]
    exact hs.resting.restWith_shop
  have hcomes := h.map
    (fun hiring => (s.hiringAnswer identity hiring, s.restWith (s.shop.afterHiring hiring)))
    fun _ hhires => hires_of_hires hs hhires
  simp only [hstays (.panicked .unnameable) rfl, fun said => hstays (told said) (htold said)]
    at hcomes
  exact hcomes

/-- **Who panics over a hire**: whoever meets a NUL, or is refused and answers that with a
panic. -/
theorem panics_iff_of_comes {told : Fault → Answer × Session α} {after : Answer × Session α}
    (h : HireComesTo (.panicked .unnameable, s) told (s.Hires settings identity) settings identity
      fault after) :
    (∃ p, after.1 = .panicked p) ↔
      settings.HasNul identity ∨ ∃ said ∈ fault, ∃ p, (told said).1 = .panicked p := by
  cases h with
  | panics hnul => exact iff_of_true ⟨_, rfl⟩ (.inl hnul)
  | refused hnul => simp [hnul]
  | hired hnul hhires => simp [hnul, hhires.1]

/-- **Who is to be hired is hired, or the hirer is told why not, unless the name is in the way.**
On all terms on which the mailbox can be laid out and whatever the system says, in every workshop
and after any commands: a NUL in the prefix or in the identity makes the attempt panic, and
otherwise a refusal by the system is told as a value that names who was to be hired, or there is
one more worker of that identity, in service with nothing queued and no status.  Where a worker is
taken for granted the outcome is the same, except that a refusal by the system is a panic too. -/
theorem hired_or_told_unless_unnameable {settings : Settings} (halloc : settings.Allocates)
    (identity : String) (fault : Option Fault) :
    (∀ w : Workshop α,
      HireComesTo (.panicked .unnameable) (fun said => .refused ⟨identity, said⟩)
        (w.Hires settings identity) settings identity fault (w.hire settings identity fault) ∧
      HireComesTo (.panicked .unnameable) (fun _ => .panicked .refused) (w.Hires {} identity) {}
        identity fault (w.hireUsual identity fault)) ∧
    ∀ cs : List (Command α), let s := ({} : Session α).after cs
      HireComesTo (.panicked .unnameable, s) (fun said => (.hireRefused ⟨identity, said⟩, s))
        (s.Hires settings identity) settings identity fault
        (s.perform (.hire settings identity fault)) ∧
      HireComesTo (.panicked .unnameable, s) (fun _ => (.panicked .refused, s))
        (s.Hires {} identity) {} identity fault (s.perform (.hireUsual identity fault)) ∧
      ((∃ p, (s.perform (.hire settings identity fault)).1 = .panicked p) ↔
        '\x00' ∈ settings.threadPrefix.toList ∨ '\x00' ∈ identity.toList) ∧
      ((∃ p, (s.perform (.hireUsual identity fault)).1 = .panicked p) ↔
        '\x00' ∈ identity.toList ∨ fault ≠ none) := by
  refine ⟨fun w => ⟨comes_hire halloc identity fault w, comes_hireUsual identity fault w⟩, ?_⟩
  intro cs s
  have hs : s.AtRest := atRest_after cs
  have hhire := hs.comes_of_hiring (fun _ => rfl) (comes_hire halloc identity fault s.shop)
  have husual := hs.comes_of_hiring (fun _ => rfl) (comes_hireUsual identity fault s.shop)
  refine ⟨hhire, husual, (panics_iff_of_comes hhire).trans ?_,
    (panics_iff_of_comes husual).trans ?_⟩
  · show _ ↔ settings.HasNul identity
    simp [hiringAnswer]
  · rw [Settings.hasNul_usual_iff]
    simp [hiringAnswer, Option.ne_none_iff_exists']

/-- A worker is hired behind another one, or the refusal told, as there is no NUL in `lid`; on
terms with one in the prefix, the same name panics, whatever the system says. -/
theorem hired_or_told_unless_unnameable_lid :
    (let s := ({} : Session Nat).after [.hire {} "pot" none]
     (s.perform (.hire { capacity := some 2 } "lid" none)).1 = .hired 1 "lid" ∧
     s.perform (.hire { capacity := some 2 } "lid" (some (.numbered 11)))
       = (.hireRefused ⟨"lid", .numbered 11⟩, s)) ∧
    ∀ fault : Option Fault, ∃ p, (({} : Session Nat).perform
      (.hire { threadPrefix := "ki\x00tchen" } "lid" fault)).1 = .panicked p := by
  have halloc : Settings.Allocates { capacity := some 2 } := by decide
  have hnul : ¬ Settings.HasNul { capacity := some 2 } "lid" := by
    rw [← Settings.namesThread_iff]
    decide
  refine ⟨⟨?_, ?_⟩, fun fault => ?_⟩
  · have hnone := hired_or_told_unless_unnameable (α := Nat) halloc "lid" none
    have hnumber : (({} : Session Nat).after [.hire {} "pot" none]).shop.workers.length = 1 := by
      decide +kernel
    rw [((hnone.2 [.hire {} "pot" none]).1.gains_of_none hnul).1, hnumber]
  · have hsome := hired_or_told_unless_unnameable (α := Nat) halloc "lid" (some (.numbered 11))
    exact (hsome.2 [.hire {} "pot" none]).1.eq_told hnul
  · have hkitchen := @hired_or_told_unless_unnameable Nat { threadPrefix := "ki\x00tchen" }
      (by decide) "lid" fault
    exact (hkitchen.2 []).2.2.1.2 (.inl (by decide))

/-- **Not every attempt to hire comes to a worker or a refusal.**  The bound is none, and yet no
value tells of the failure: the hirer panics over the identity, also where the system had a
thread to give, and also where a worker is taken for granted. -/
theorem panics_over_a_name :
    ({} : Session Nat).perform (.hire {} "a\x00b" none) = (.panicked .unnameable, {}) ∧
    ({} : Session Nat).perform (.hire {} "a\x00b" (some (.numbered 22)))
      = (.panicked .unnameable, {}) ∧
    ({} : Session Nat).perform (.hireUsual "a\x00b" none) = (.panicked .unnameable, {}) := by
  decide +kernel

end Session

end SerialWorkers
