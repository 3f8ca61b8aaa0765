import SerialWorkers.Workshop.Basic

/-!
# Runs of a workshop

A run is a list of moves, made one after the other, each by one participant.
Nothing is said about who moves when, so the lists are all the orders there are.

* `Workshop.run` — the workshop a run leads to.
* `Workshop.trace` — what is told of a run, move by move.
* `Workshop.trace_invariant` — what every move keeps, every run keeps, be it said
  of the workshop alone or of the workshop together with its trace so far.
* `Workshop.exists_turn` — what comes to be true in a run comes to be so in one of
  its moves.
* `Workshop.exists_move_of_mem_trace` — what is told of a run is told of one of its
  moves.
-/

namespace SerialWorkers.Workshop

variable {α β : Type}

/-- The workshop after `moves`; `none` as soon as one of them cannot be made. -/
def run (w : Workshop α) : List (Move α) → Option (Workshop α)
  | [] => some w
  | m :: moves =>
      match w.move m with
      | none => none
      | some w' => w'.run moves

/-- What `tell` says of each move of a run, in order. -/
def trace (tell : Workshop α → Move α → List β) (w : Workshop α) : List (Move α) → List β
  | [] => []
  | m :: moves =>
      match w.move m with
      | none => []
      | some w' => tell w m ++ trace tell w' moves

variable {tell : Workshop α → Move α → List β}

@[simp] theorem run_nil (w : Workshop α) : w.run [] = some w := rfl

@[simp] theorem trace_nil (w : Workshop α) : w.trace tell [] = [] := rfl

theorem run_cons (w : Workshop α) (m : Move α) (moves : List (Move α)) :
    w.run (m :: moves) = (w.move m).bind (·.run moves) := by
  rw [run]
  cases w.move m <;> rfl

theorem trace_cons {w w' : Workshop α} {m : Move α} (h : w.move m = some w')
    (moves : List (Move α)) : w.trace tell (m :: moves) = tell w m ++ w'.trace tell moves := by
  rw [trace, h]

/-- A run that goes on is a run from where the first part led. -/
theorem run_append (w : Workshop α) (first rest : List (Move α)) :
    w.run (first ++ rest) = (w.run first).bind (·.run rest) := by
  induction first generalizing w with
  | nil => rfl
  | cons m first ih =>
      rw [List.cons_append, run_cons, run_cons]
      cases w.move m with
      | none => rfl
      | some w' => exact ih w'

theorem run_append_of_run {w w' : Workshop α} {first : List (Move α)}
    (h : w.run first = some w') (rest : List (Move α)) : w.run (first ++ rest) = w'.run rest := by
  rw [run_append, h]
  rfl

/-- The trace of a run that goes on. -/
theorem trace_append {w w' : Workshop α} {first : List (Move α)} (h : w.run first = some w')
    (rest : List (Move α)) :
    w.trace tell (first ++ rest) = w.trace tell first ++ w'.trace tell rest := by
  induction first generalizing w with
  | nil =>
      cases h
      rfl
  | cons m first ih =>
      rw [run_cons] at h
      obtain ⟨u, hu, h⟩ := Option.bind_eq_some_iff.1 h
      rw [List.cons_append, trace_cons hu, trace_cons hu, ih h, List.append_assoc]

/-- **What every move keeps, every run keeps.**  The property may speak of the
trace so far as well. -/
theorem trace_invariant (tell : Workshop α → Move α → List β) (told : List β)
    {P : List β → Workshop α → Prop} (step : ∀ {told : List β} {w w' : Workshop α} {m : Move α},
      P told w → w.move m = some w' → P (told ++ tell w m) w')
    {w w' : Workshop α} {moves : List (Move α)} (hw : P told w)
    (h : w.run moves = some w') : P (told ++ w.trace tell moves) w' := by
  induction moves generalizing told w with
  | nil =>
      cases h
      simpa using hw
  | cons m moves ih =>
      rw [run_cons] at h
      obtain ⟨u, hu, h⟩ := Option.bind_eq_some_iff.1 h
      rw [trace_cons hu, ← List.append_assoc]
      exact ih _ (step hw hu) h

/-- What every move keeps, every run keeps. -/
theorem run_invariant {P : Workshop α → Prop}
    (step : ∀ {w w' : Workshop α} {m : Move α}, P w → w.move m = some w' → P w')
    {w w' : Workshop α} {moves : List (Move α)} (hw : P w) (h : w.run moves = some w') : P w' :=
  trace_invariant (fun _ _ => ([] : List Unit)) [] (P := fun _ => P) (fun hw hm => step hw hm) hw h

/-- **What comes to be true in a run comes to be so in one of its moves.** -/
theorem exists_turn {Q : Workshop α → Prop} {w w' : Workshop α} {moves : List (Move α)}
    (hw : ¬ Q w) (hw' : Q w') (h : w.run moves = some w') :
    ∃ before m after w₁ w₂, moves = before ++ m :: after ∧ w.run before = some w₁ ∧ ¬ Q w₁ ∧
      w₁.move m = some w₂ ∧ Q w₂ ∧ w₂.run after = some w' := by
  induction moves generalizing w with
  | nil =>
      cases h
      exact absurd hw' hw
  | cons m moves ih =>
      rw [run_cons] at h
      obtain ⟨u, hu, h⟩ := Option.bind_eq_some_iff.1 h
      by_cases hq : Q u
      · exact ⟨[], m, moves, w, u, rfl, rfl, hw, hu, hq, h⟩
      · obtain ⟨before, m', after, w₁, w₂, rfl, hrun, hrest⟩ := ih hq h
        refine ⟨m :: before, m', after, w₁, w₂, rfl, ?_, hrest⟩
        rw [run_cons, hu]
        exact hrun

/-- **What is told of a run is told of one of its moves.** -/
theorem exists_move_of_mem_trace {x : β} {w w' : Workshop α} {moves : List (Move α)}
    (h : w.run moves = some w') (hx : x ∈ w.trace tell moves) :
    ∃ before m after w₁ w₂, moves = before ++ m :: after ∧ w.run before = some w₁ ∧
      w₁.move m = some w₂ ∧ w₂.run after = some w' ∧ x ∈ tell w₁ m := by
  induction moves generalizing w with
  | nil => cases hx
  | cons m moves ih =>
      rw [run_cons] at h
      obtain ⟨u, hu, h⟩ := Option.bind_eq_some_iff.1 h
      rw [trace_cons hu] at hx
      rcases List.mem_append.1 hx with hx | hx
      · exact ⟨[], m, moves, w, u, rfl, rfl, hu, h, hx⟩
      · obtain ⟨before, m', after, w₁, w₂, rfl, hrun, hrest⟩ := ih h hx
        refine ⟨m :: before, m', after, w₁, w₂, rfl, ?_, hrest⟩
        rw [run_cons, hu]
        exact hrun

end SerialWorkers.Workshop
