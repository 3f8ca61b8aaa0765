import SerialWorkers.Proofs.Session.Reached
import SerialWorkers.Proofs.Workshop.Endings
import SerialWorkers.Proofs.Workshop.Parting
import SerialWorkers.Session.Report

/-!
# Parting by command

Three commands make an owner part from its worker: to let it go, to wait for its end, and to
have somebody else wait.  Each of them does the same, to all that a session holds, as a request
to stop with status zero followed by the command; and if somebody has stopped the worker
before, nothing is to be seen of it.

* `Session.Command.Parts` — the commands.
* `Session.parting_stops` — what they come to.
-/

namespace SerialWorkers

open Workshop

variable {α : Type}

namespace Session

variable {s : Session α} {w w' left stopped halted rested : Workshop α} {whom : Address}
  {c : Command α} {k : Nat} {m : Move α} {v : Worker α}

/-- The commands with which the owner of a worker parts from it. -/
inductive Command.Parts (whom : Address) : Command α → Prop
  /-- It lets the worker go. -/
  | abandon : Parts whom (.abandon whom)
  /-- It waits for the worker's end. -/
  | await : Parts whom (.await whom)
  /-- It has somebody else wait. -/
  | awaitAside : Parts whom (.awaitAside whom)

/-! ## Whom a command means -/

theorem owns_of_resolveOwned (hr : s.resolveOwned whom = .ok k) : s.shop.owns k = true := by
  unfold resolveOwned at hr
  split at hr
  · cases hr
  · split at hr
    · cases hr
      assumption
    · cases hr

/-- An owner is still meant as long as it is there. -/
theorem resolveOwned_of_owns {s₁ : Session α} (hr : s.resolveOwned whom = .ok k)
    (hh : s₁.handles = s.handles) (ho : s₁.shop.owns k = true) :
    s₁.resolveOwned whom = .ok k := by
  cases whom with
  | worker j =>
      have hj : j = k := by
        unfold resolveOwned resolve reach at hr
        by_cases hlt : j < s.shop.workers.length <;> by_cases howns : s.shop.owns j = true <;>
          simp_all
      subst hj
      exact resolveOwned_worker ho
  | handle h =>
      unfold resolveOwned resolve reach at hr ⊢
      rw [hh]
      cases hn : s.handles[h]? with
      | none => simp [hn] at hr
      | some r =>
          simp only [hn] at hr ⊢
          split at hr
          · cases hr
            rw [if_pos ho]
          · cases hr

/-! ## The parting of a worker that is open -/

theorem settle_eq_of_comesTo (h : ∀ y, w.ComesTo y ↔ y = w') : w.settle = w' :=
  (h _).1 (comesTo_settle w)

/-- What is known of an errand is no news for the owner's going. -/
theorem known_of_parts {g : Worker α → Worker α} (hg : Move.Parts k m g)
    (hv : w.workers[k]? = some v) (e : Errand) : known (w.change k fun _ => g v) e = known w e := by
  unfold known
  rw [workers_change]
  split
  · rename_i hk
    rw [← hk, hv]
    simp only [Option.map_some, Option.any_some, hg.isOpen, Worker.held, (hg.samePlace v).phase]
    rfl
  · rfl

/-- Nothing is noted twice. -/
theorem restWith_restWith (h : ∀ e, known w.settle e = known w'.settle e) :
    (s.restWith w).restWith w' = s.restWith w' := by
  have hsettled : ∀ (e : Errand) (b : Bool), known w'.settle { e with settled := b }
      = known w'.settle e := fun _ _ => rfl
  simp only [restWith, note, List.map_map, Function.comp_def, h, hsettled, Bool.or_assoc,
    Bool.or_self]

/-- The owner goes at once, or after the rest. -/
theorem restWith_of_partsAlike (h : PartsAlike s.shop k m left stopped halted rested)
    {g : Worker α → Worker α} (hg : Move.Parts k m g) :
    (s.restWith stopped).restWith rested = s.restWith left := by
  obtain ⟨-, x, -, hx, hc, -⟩ := h.stays
  have hrested : rested = halted.change k fun _ => g x := by
    have hparts := h.parts
    have ho : x.owned = true := by simpa [owns, hx] using hg.owns_of_move hparts
    rw [hg.move_of_not_isOpen hx ho hc] at hparts
    exact (Option.some.inj hparts).symm
  have hrest : rested.settle = rested := by
    obtain ⟨-, -, -, hstill⟩ := (h.rests rested).2 rfl
    exact settle_eq_of_comesTo fun y => hstill.comesTo_iff
  rw [restWith_restWith]
  · simp only [restWith, hrest, settle_eq_of_comesTo h.rests]
  · intro e
    rw [hrest, settle_eq_of_comesTo h.halts, hrested, known_of_parts hg hx]

/-- The move that a command to part from worker `k` makes. -/
def Command.partingMove (k : Nat) : Command α → Move α
  | .abandon _ => .abandon k
  | _ => .leave k

/-- What a session writes down of a command to part from worker `k`. -/
def noting (s : Session α) (k : Nat) : Command α → Session α
  | .awaitAside _ => { s with waits := s.waits ++ [{ worker := k }] }
  | _ => s

/-- What a command to part from worker `k` is answered, which ends at rest as `w`. -/
def partingAnswer (s : Session α) (k : Nat) (w : Workshop α) : Command α → Answer
  | .await _ => endOf w k
  | .awaitAside _ => .wait s.waits.length
  | _ => .done

theorem parts_partingMove (c : Command α) (k : Nat) : ∃ g, Move.Parts k (c.partingMove k) g := by
  unfold Command.partingMove
  split
  · exact ⟨_, .abandon⟩
  · exact ⟨_, .leave⟩

theorem shop_noting (s : Session α) (k : Nat) (c : Command α) : (s.noting k c).shop = s.shop := by
  unfold noting
  split <;> rfl

theorem noting_restWith (s : Session α) (w : Workshop α) (k : Nat) (c : Command α) :
    (s.restWith w).noting k c = (s.noting k c).restWith w := by
  unfold noting
  split <;> rfl

/-- What a command to part does. -/
theorem perform_of_parts (hc : c.Parts whom) (hr : s.resolveOwned whom = .ok k)
    (hheld : c = .await whom → held s.shop k = false)
    (hm : s.shop.move (c.partingMove k) = some left) :
    s.perform c = (s.partingAnswer k left.settle c, (s.noting k c).restWith left) := by
  cases hc with
  | abandon =>
      simp only [perform, withOwned, hr]
      rw [show s.shop.abandon k = some left from hm]
      rfl
  | await =>
      simp only [perform, withOwned, hr, await, hheld rfl]
      rw [show s.shop.leave k = some left from hm]
      rfl
  | awaitAside =>
      simp only [perform, withOwned, hr]
      rw [show s.shop.leave k = some left from hm]
      rfl

/-- **To part by command is to request the stop and to part then.** -/
theorem perform_parts_of_partsAlike (hc : c.Parts whom) (hr : s.resolveOwned whom = .ok k)
    (hheld : c = .await whom → held s.shop k = false)
    (h : PartsAlike s.shop k (c.partingMove k) left stopped halted rested) :
    (s.perform (.stop whom 0)).2.perform c = s.perform c := by
  obtain ⟨g, hg⟩ := parts_partingMove c k
  have hstop : (s.perform (.stop whom 0)).2 = s.restWith stopped := by
    simp only [perform, withOwned, hr]
    rw [show s.shop.stop k 0 = some stopped from h.stops]
    rfl
  have hshop : (s.restWith stopped).shop = halted := settle_eq_of_comesTo h.halts
  have hr₁ : (s.restWith stopped).resolveOwned whom = .ok k :=
    resolveOwned_of_owns hr rfl (hshop ▸ hg.owns_of_move h.parts)
  have hheld₁ : c = .await whom → held (s.restWith stopped).shop k = false := by
    intro hawait
    obtain ⟨v, x, hv, hx, -, hsame⟩ := h.stays
    have hk := hheld hawait
    rw [hshop]
    simp only [held, hv, hx, Option.any_some] at hk ⊢
    rw [hsame, hk]
  have hrest : rested.settle = left.settle := by
    obtain ⟨-, -, -, hstill⟩ := (h.rests rested).2 rfl
    rw [settle_eq_of_comesTo h.rests, settle_eq_of_comesTo fun y => hstill.comesTo_iff]
  rw [hstop, perform_of_parts hc hr₁ hheld₁ (hshop.symm ▸ h.parts),
    perform_of_parts hc hr hheld h.leaves, noting_restWith, hrest]
  refine Prod.ext rfl ?_
  exact restWith_of_partsAlike (s := s.noting k c) ((shop_noting s k c).symm ▸ h) hg

/-! ## The parting of a worker that is closed -/

/-- There is no news in what was known. -/
theorem newsByNumber_self {β : Type} (l : List (List β)) : newsByNumber l l = [] := by
  refine List.filter_eq_nil_iff.2 fun p hp => ?_
  obtain ⟨⟨entries, n⟩, hn, rfl⟩ := List.mem_map.1 hp
  have hentries := List.mem_zipIdx_iff_getElem?.1 hn
  simp only [hentries]
  simp

/-- **There is nothing to report** of workshops that are seen alike. -/
theorem report_of_seenAlike {s₁ : Session α} (h : SeenAlike s.shop s₁.shop) :
    report s s₁ = ⟨s.shop.workers.map Worker.view, [], []⟩ := by
  simp only [report, newEntries, newEvents, h.views, h.logs, h.events, h.outside,
    newsByNumber_self, List.drop_length, List.isEmpty_nil, if_true, List.map_nil,
    List.append_nil]

theorem seenAlike_refl (w : Workshop α) : SeenAlike w w := ⟨rfl, rfl, rfl, rfl⟩

/-- **To part by command from a worker that was stopped before is just that.** -/
theorem report_perform_of_parts (hs : s.AtRest) (hc : c.Parts whom)
    (hr : s.resolveOwned whom = .ok k) (hv : s.shop.workers[k]? = some v)
    (hclosed : v.mailbox.isOpen = false) :
    report s (s.perform c).2 = ⟨s.shop.workers.map Worker.view, [], []⟩ := by
  by_cases hheld : c = .await whom → held s.shop k = false
  · obtain ⟨g, hg⟩ := parts_partingMove c k
    obtain ⟨left, hm⟩ := hg.exists_move (owns_of_resolveOwned hr)
    obtain ⟨moves, hrun⟩ := hs.reached
    have hstill := still_of_parts (still_of_next? hs.resting.still) hv (sound_of_run hrun hv)
      hclosed hg hm
    rw [perform_of_parts hc hr hheld hm]
    refine report_of_seenAlike ?_
    show SeenAlike s.shop left.settle
    rw [settle_of_still (next?_of_still hstill)]
    exact seenAlike_of_parts hv hclosed hg hm
  · -- nobody waits for whoever stands at a gate
    obtain ⟨rfl, hk⟩ := Classical.not_imp.1 hheld
    have hidle : (s.perform (.await whom)).2 = s := by
      simp only [perform, withOwned, hr, await]
      rw [if_pos (by simpa using hk)]
    rw [hidle]
    exact report_of_seenAlike (seenAlike_refl _)

/-- **To part is to stop with status zero and to part then.**  In a session at rest, let a
command mean worker `k` and its owner be there.  If the worker is open, then for its owner to go
comes to the same rest, whatever order everybody goes on in, as to request the stop, any rest
that comes to, and for the owner to go then; and any command to part does the same as after a
request to stop with status zero, but for a wait while the worker stands at a gate, which is not
begun.  If the worker is closed, nothing comes of the parting, and nothing is to be seen of it;
that it is not seen holds at all times, at rest or not. -/
theorem parting_stops (hs : s.AtRest) (hr : s.resolveOwned whom = .ok k)
    (hv : s.shop.workers[k]? = some v) :
    (v.mailbox.isOpen = true →
      (∀ m : Move α, m = .leave k ∨ m = .abandon k → ∃ left stopped halted rested,
        PartsAlike s.shop k m left stopped halted rested) ∧
      ∀ c : Command α, c.Parts whom → (c = .await whom → held s.shop k = false) →
        (s.perform (.stop whom 0)).2.perform c = s.perform c) ∧
    (v.mailbox.isOpen = false →
      (∀ m : Move α, m = .leave k ∨ m = .abandon k → ∃ left, s.shop.move m = some left ∧
        ∀ y, left.ComesTo y ↔ y = left) ∧
      ∀ c : Command α, c.Parts whom →
        report s (s.perform c).2 = ⟨s.shop.workers.map Worker.view, [], []⟩) ∧
    ∀ {w w' : Workshop α} {j : Nat} {u : Worker α} {m : Move α}, w.workers[j]? = some u →
      u.mailbox.isOpen = false → m = .leave j ∨ m = .abandon j → w.move m = some w' →
      SeenAlike w w' := by
  have hparts : ∀ {j : Nat} {m : Move α}, m = .leave j ∨ m = .abandon j →
      ∃ g, Move.Parts j m g := by
    rintro j m (rfl | rfl)
    · exact ⟨_, .leave⟩
    · exact ⟨_, .abandon⟩
  have howns := owns_of_resolveOwned hr
  have ho : v.owned = true := by simpa [owns, hv] using howns
  have hstill := still_of_next? hs.resting.still
  obtain ⟨moves, hrun⟩ := hs.reached
  have hsound := sound_of_run hrun hv
  refine ⟨fun hopen => ?_, fun hclosed => ⟨fun m hm => ?_, fun c hc =>
    report_perform_of_parts hs hc hr hv hclosed⟩, fun hu hclosed hm h => ?_⟩
  · have halike : ∀ {m : Move α} {g}, Move.Parts k m g → ∃ left stopped halted rested,
        PartsAlike s.shop k m left stopped halted rested :=
      fun hg => partsAlike_of_isOpen hstill hv hsound ho hopen hg
    refine ⟨fun m hm => ?_, fun c hc hheld => ?_⟩
    · obtain ⟨g, hg⟩ := hparts hm
      exact halike hg
    · obtain ⟨g, hg⟩ := parts_partingMove c k
      obtain ⟨left, stopped, halted, rested, h⟩ := halike hg
      exact perform_parts_of_partsAlike hc hr hheld h
  · obtain ⟨g, hg⟩ := hparts hm
    obtain ⟨left, hleft⟩ := hg.exists_move howns
    exact ⟨left, hleft, fun y => (still_of_parts hstill hv hsound hclosed hg hleft).comesTo_iff⟩
  · obtain ⟨g, hg⟩ := hparts hm
    exact seenAlike_of_parts hu hclosed hg h

/-- A session with a worker at its wait, one at a gate, and one at a gate that was stopped. -/
def assortedSession : Session Nat := ({} : Session Nat).after
  [.hire {} "pot" none, .hire { capacity := some 1 } "kettle" none, .hire {} "jug" none,
    .send (.worker 1) .prompt (.act .gate .done), .send (.worker 1) .prompt (.act (.log 1) .done),
    .send (.worker 2) .prompt (.act .gate .done), .stop (.worker 2) 3]

/-- The first may be waited for and the second let go of, stopped or not, and of the third
nothing is to be seen then. -/
theorem parting_stops_assortedSession :
    (assortedSession.perform (.await (.worker 0))).1 = .ended .orderly ∧
    (assortedSession.perform (.stop (.worker 0) 0)).2.perform (.await (.worker 0))
      = assortedSession.perform (.await (.worker 0)) ∧
    (assortedSession.perform (.stop (.worker 1) 0)).2.perform (.abandon (.worker 1))
      = assortedSession.perform (.abandon (.worker 1)) ∧
    report assortedSession (assortedSession.perform (.awaitAside (.worker 2))).2
      = ⟨[⟨.running, false, 0, 0⟩, ⟨.running, false, 0, 1⟩, ⟨.stopping, true, 3, 0⟩], [], []⟩ := by
  have hviews : assortedSession.shop.workers.map Worker.view
      = [⟨.running, false, 0, 0⟩, ⟨.running, false, 0, 1⟩, ⟨.stopping, true, 3, 0⟩] := by
    decide +kernel
  have howns : ∀ k < 3, assortedSession.shop.owns k = true := by decide +kernel
  have hr : ∀ k < 3, assortedSession.resolveOwned (.worker k) = .ok k :=
    fun k hk => resolveOwned_worker (howns k hk)
  have hrest : assortedSession.AtRest := atRest_after _
  have hopen : ∀ {k : Nat} {b : Bool},
      (assortedSession.shop.workers[k]?).map (·.mailbox.isOpen) = some b →
      ∃ v, assortedSession.shop.workers[k]? = some v ∧ v.mailbox.isOpen = b :=
    fun h => Option.map_eq_some_iff.1 h
  obtain ⟨pot, hpot, ho⟩ := hopen (k := 0) (b := true) (by decide +kernel)
  obtain ⟨kettle, hkettle, ho₁⟩ := hopen (k := 1) (b := true) (by decide +kernel)
  obtain ⟨jug, hjug, hc⟩ := hopen (k := 2) (b := false) (by decide +kernel)
  refine ⟨by decide +kernel, ?_, ?_, ?_⟩
  · exact ((parting_stops hrest (hr 0 (by decide)) hpot).1 ho).2 _ .await fun _ => by
      decide +kernel
  · exact ((parting_stops hrest (hr 1 (by decide)) hkettle).1 ho₁).2 _ .abandon fun hawait => by
      cases hawait
  · rw [← hviews]
    exact ((parting_stops hrest (hr 2 (by decide)) hjug).2.1 hc).2 _ .awaitAside

end Session

end SerialWorkers
