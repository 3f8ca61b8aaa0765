import SerialWorkers.Proofs.Isolation.Transcripts
import SerialWorkers.Proofs.Workshop.Runs
import SerialWorkers.Session.Report

/-!
# Hires that come to nothing

Somebody is to be hired and the operating system refuses the thread, or the terms are such that
the attempt panics.  A refusal names the worker that was to be hired and what the system said.
Neither leaves anything behind: with all failed attempts taken out, a session gives the same
answers and reports to everything else, under the same numbers, and a run goes the same way.

* `Session.Account`, `Session.accounts` — all there is to say of the commands of a session.
* `Session.withoutFailedHires`, `Workshop.moveBut` — commands and moves without failed hires.
* `Session.failed_hires_leave_nothing` — they are not missed.
* `Session.not_refused_when_unnumbered` — who asks for too much is not told of a refusal.
-/

namespace SerialWorkers

open Workshop

variable {α : Type}

namespace Workshop

variable {w w' : Workshop α} {m : Move α} {moves : List (Move α)}

/-! ## Failed hires among moves -/

/-- Whether nobody is hired. -/
def Hiring.failed : Hiring α → Bool
  | .hired _ => false
  | _ => true

/-- Whether a move is an attempt to hire somebody that fails. -/
def failsToHire (w : Workshop α) : Move α → Bool
  | .hire settings identity fault => (w.hire settings identity fault).failed
  | _ => false

/-- A move, unless it is an attempt to hire somebody that fails. -/
def moveBut (w : Workshop α) (m : Move α) : List (Move α) := if w.failsToHire m then [] else [m]

theorem afterHiring_of_failed {hiring : Hiring α} (h : hiring.failed = true) :
    w.afterHiring hiring = w := by
  cases hiring with
  | hired => cases h
  | refused | panicked => rfl

/-- **A hire that fails changes nothing.** -/
theorem move_of_failsToHire (h : w.failsToHire m = true) : w.move m = some w := by
  cases m with
  | hire settings identity fault => exact congrArg some (afterHiring_of_failed h)
  | _ => cases h

/-- **A run goes the same way without its failed hires**, and the same is told of it by whoever
has nothing to tell of them. -/
theorem run_trace_moveBut (h : w.run moves = some w') :
    w.run (w.trace moveBut moves) = some w' ∧
      ∀ {β : Type} (tell : Workshop α → Move α → List β),
        (∀ w m, w.failsToHire m = true → tell w m = []) →
        w.trace tell (w.trace moveBut moves) = w.trace tell moves := by
  induction moves generalizing w with
  | nil => exact ⟨h, fun _ _ => rfl⟩
  | cons m moves ih =>
      rw [run_cons] at h
      obtain ⟨u, hu, h⟩ := Option.bind_eq_some_iff.1 h
      obtain ⟨hrun, htrace⟩ := ih h
      rw [trace_cons hu, moveBut]
      cases hf : w.failsToHire m with
      | true =>
          have hsame := hu
          rw [move_of_failsToHire hf] at hsame
          cases hsame
          refine ⟨hrun, fun {β} tell hsilent => ?_⟩
          rw [trace_cons hu, hsilent w m hf]
          exact htrace tell hsilent
      | false =>
          refine ⟨?_, fun {β} tell hsilent => ?_⟩
          · show w.run (m :: u.trace moveBut moves) = some w'
            rw [run_cons, hu]
            exact hrun
          · show w.trace tell (m :: u.trace moveBut moves) = w.trace tell (m :: moves)
            rw [trace_cons hu, trace_cons hu, htrace tell hsilent]

/-- **Whom the system refuses a thread, is told so**, and with whose thread it was and what the
system said, if the terms were such that it came to be asked. -/
theorem hire_of_fault {settings : Settings} {identity : String}
    (hname : settings.namesThread identity = true) (halloc : settings.Allocates) (fault : Fault)
    (w : Workshop α) : w.hire settings identity (some fault) = .refused ⟨identity, fault⟩ := by
  simp only [hire, Settings.objection?_eq_none_iff.2 ⟨halloc, hname⟩]

end Workshop

namespace Session

variable {s : Session α} {c : Command α}

/-! ## Failed hires among commands -/

/-- All there is to say of a command: whom it was addressed to, its answer, and what is to be
seen of it. -/
structure Account (α : Type) extends Turn α where
  /-- What it brought about. -/
  report : Report α
  deriving Repr, DecidableEq

/-- What there is to say of each of some commands. -/
def accounts (s : Session α) : List (Command α) → List (Account α)
  | [] => []
  | c :: cs =>
      ⟨⟨s.target c, c, (s.perform c).1⟩, report s (s.perform c).2⟩ :: accounts (s.perform c).2 cs

/-- Whether an answer says that nobody could be hired. -/
def Answer.failsToHire : Answer → Bool
  | .hireRefused _ | .panicked _ => true
  | _ => false

/-- Whether somebody was to be hired, and the answer was a refusal or a panic. -/
def Turn.isFailedHire (turn : Turn α) : Bool :=
  match turn.command with
  | .hire .. | .hireUsual .. => turn.answer.failsToHire
  | _ => false

/-- The commands without the failed attempts to hire somebody. -/
def withoutFailedHires (s : Session α) (cs : List (Command α)) : List (Command α) :=
  ((s.transcript cs).filter fun turn => !turn.isFailedHire).map (·.command)

theorem failsToHire_hiringAnswer (identity : String) (hiring : Hiring α) :
    (s.hiringAnswer identity hiring).failsToHire = hiring.failed := by
  cases hiring <;> rfl

/-- **A failed hire leaves a session as it is.** -/
theorem perform_of_isFailedHire (hr : s.Resting)
    (h : (⟨s.target c, c, (s.perform c).1⟩ : Turn α).isFailedHire = true) :
    (s.perform c).2 = s := by
  have hsame : ∀ {identity : String} {hiring : Hiring α},
      (s.hiringAnswer identity hiring).failsToHire = true →
      s.restWith (s.shop.afterHiring hiring) = s := by
    intro identity hiring hfailed
    rw [failsToHire_hiringAnswer] at hfailed
    rw [afterHiring_of_failed hfailed]
    exact hr.restWith_shop
  cases c with
  | hire | hireUsual => exact hsame h
  | _ => cases h

/-- **Failed hires are not missed.** -/
theorem accounts_withoutFailedHires (hr : s.Resting) (cs : List (Command α)) :
    s.accounts (s.withoutFailedHires cs)
        = (s.accounts cs).filter (fun a => !a.toTurn.isFailedHire) ∧
      s.after (s.withoutFailedHires cs) = s.after cs := by
  induction cs generalizing s with
  | nil => exact ⟨rfl, rfl⟩
  | cons c cs ih =>
      obtain ⟨haccounts, hafter⟩ := ih (hr.perform c)
      simp only [withoutFailedHires] at haccounts hafter
      simp only [withoutFailedHires, transcript, accounts, after, List.filter_cons]
      cases hf : (⟨s.target c, c, (s.perform c).1⟩ : Turn α).isFailedHire with
      | true =>
          -- The command is left out, and those after it find the session as it was.
          rw [perform_of_isFailedHire hr hf] at haccounts hafter ⊢
          exact ⟨haccounts, hafter⟩
      | false => exact ⟨congrArg (_ :: ·) haccounts, hafter⟩

/-! ## No trace -/

/-- **A hire that fails leaves no trace.**  Whoever is to be hired where the thread can be named
and the mailbox laid out, and is refused the thread, is reported by name with what the system
said.  A session without its failed hires, whatever they failed by, leads to the same end, and all
there is to say of its other commands is the same; so it is with a run and whatever is told of its
other moves. -/
theorem failed_hires_leave_nothing :
    (∀ (settings : Settings) (identity : String), settings.namesThread identity = true →
      settings.Allocates → ∀ fault : Fault,
      (∀ w : Workshop α, w.hire settings identity (some fault) = .refused ⟨identity, fault⟩) ∧
      ∀ s : Session α,
        (s.perform (.hire settings identity (some fault))).1 = .hireRefused ⟨identity, fault⟩) ∧
    (∀ cs : List (Command α),
      let kept := ({} : Session α).withoutFailedHires cs
      ({} : Session α).accounts kept
          = (({} : Session α).accounts cs).filter (fun a => !a.toTurn.isFailedHire) ∧
        ({} : Session α).after kept = ({} : Session α).after cs) ∧
    ∀ (moves : List (Move α)) (w : Workshop α), ({} : Workshop α).run moves = some w →
      let kept := ({} : Workshop α).trace moveBut moves
      ({} : Workshop α).run kept = some w ∧
        ∀ {β : Type} (tell : Workshop α → Move α → List β),
          (∀ w m, w.failsToHire m = true → tell w m = []) →
          ({} : Workshop α).trace tell kept = ({} : Workshop α).trace tell moves := by
  refine ⟨fun settings identity hname halloc fault => ?_,
    fun cs => accounts_withoutFailedHires resting_empty cs, fun moves w h => ?_⟩
  · have hrefused := hire_of_fault hname halloc fault (α := α)
    refine ⟨hrefused, fun s => ?_⟩
    show s.hiringAnswer identity (s.shop.hire settings identity (some fault)) = _
    rw [hrefused]
    rfl
  · exact run_trace_moveBut h

/-- Terms with more places for jobs than a channel can number, and what is said to that. -/
def vastTerms : Settings where
  capacity := some 0x4000_0000_0000_0000
  allocationPanic := some "bounded channel capacity is too large"

/-- Three attempts that fail, between two hires; and a job for whom was hired last. -/
def staffing : List (Command Nat) :=
  [.hire {} "pot" none, .hire { capacity := some 1 } "lid" (some (.numbered 11)),
    .hireUsual "cup" (some (.described "no threads")),
    .hire vastTerms "jug" none, .hire {} "kettle" none,
    .send (.worker 1) .prompt (.act (.log 1) .done)]

/-- Whom the first attempt was to hire is told of, and the later worker is number 1 with the
attempts and without. -/
theorem failed_hires_leave_nothing_staffing :
    (∀ s : Session Nat, (s.perform (.hire { capacity := some 1 } "lid" (some (.numbered 11)))).1
      = .hireRefused ⟨"lid", .numbered 11⟩) ∧
    (({} : Session Nat).accounts [.hire {} "pot" none, .hire {} "kettle" none,
        .send (.worker 1) .prompt (.act (.log 1) .done)]
      = (({} : Session Nat).accounts staffing).filter (fun a => !a.toTurn.isFailedHire)) ∧
    ∃ w : Workshop Nat,
      ({} : Workshop Nat).run [.hire {} "pot" none, .hire {} "lid" (some (.numbered 11)),
        .hire {} "kettle" none] = some w ∧
      ({} : Workshop Nat).run [.hire {} "pot" none, .hire {} "kettle" none] = some w := by
  obtain ⟨hrefused, hsessions, hruns⟩ := @failed_hires_leave_nothing Nat
  have hkept : ({} : Session Nat).withoutFailedHires staffing
      = [.hire {} "pot" none, .hire {} "kettle" none,
        .send (.worker 1) .prompt (.act (.log 1) .done)] := by decide +kernel
  refine ⟨(hrefused _ "lid" (by decide) (by decide) _).2, ?_, _, rfl, ?_⟩
  · rw [← hkept]
    exact (hsessions staffing).1
  · exact (hruns [.hire {} "pot" none, .hire {} "lid" (some (.numbered 11)),
      .hire {} "kettle" none] _ rfl).1

/-- **Not everybody whom the system would refuse a thread is told so.**  Here the name of the
thread is all right, but the mailbox is to have more places than a channel can number, and the
attempt panics before a thread is asked for. -/
theorem not_refused_when_unnumbered :
    vastTerms.namesThread "o" = true ∧
    (({} : Session Nat).perform (.hire vastTerms "o" (some (.numbered 11)))).1
      = .panicked (.unallocated "bounded channel capacity is too large") := by
  decide +kernel

end Session

end SerialWorkers
