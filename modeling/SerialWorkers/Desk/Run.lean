import SerialWorkers.Desk.Machine

/-!
# Running the desk's machine to the end

Jobs send jobs, so the length of the queue bounds nothing.  What does is the
weight of everything still to be run, queued jobs with all that nests in them
included.

* `Machine.weight_step` — every step makes the weight smaller.
* `Machine.run` — all steps, to the end.
* `Desk.perform` — a request, with everything it sets off.
-/

namespace SerialWorkers.Desk

variable {α : Type}

namespace Machine

/-! ## The weight of what is still to be run -/

/-- What is left of one thing under way. -/
def frameWeight : Frame α → Nat
  | .job .waiting rest => rest.weight + 1
  | .job (.serving _) rest => rest.weight + 2
  | .service _ => 1

/-- What a stack has left. -/
def stackWeight : List (Frame α) → Nat
  | [] => 0
  | f :: stack => frameWeight f + stackWeight stack

/-- All that is still to be run. -/
def weight (m : Machine α) : Nat := queueWeight m.desk.mailbox.queue + stackWeight m.stack

@[simp] theorem stackWeight_nil : stackWeight ([] : List (Frame α)) = 0 := rfl

@[simp] theorem stackWeight_cons (f : Frame α) (stack : List (Frame α)) :
    stackWeight (f :: stack) = frameWeight f + stackWeight stack := rfl

@[simp] theorem weight_answerTo (d : Desk α) (c : Call) (r : Reply) (below : List (Frame α)) :
    (answerTo d c r below).weight = queueWeight d.mailbox.queue + stackWeight below := by
  cases below <;> rfl

@[simp] theorem weight_endService (d : Desk α) (policy : PanicPolicy) (reason : Reason)
    (below : List (Frame α)) :
    (endService d policy reason below).weight
      = queueWeight d.mailbox.queue + stackWeight below := by
  rw [endService, weight_answerTo]
  rfl

theorem weight_panic_le (d : Desk α) (p : Payload) (below : List (Frame α)) (via : Via) :
    (panic d p below via).weight ≤ queueWeight d.mailbox.queue + stackWeight below + 1 := by
  cases via with
  | waiting => simp [panic]
  | serving policy =>
      cases policy with
      | retire => simp [panic, Desk.report]
      | carryOn => simp [panic, weight, frameWeight, Desk.report]; omega

theorem weight_finish_lt (d : Desk α) (below : List (Frame α)) (via : Via) :
    (finish d below via).weight
      < queueWeight d.mailbox.queue + frameWeight (.job via (.done : Work α))
        + stackWeight below := by
  cases via with
  | waiting => simp [finish, frameWeight]
  | serving policy => simp [finish, weight, frameWeight]; omega

/-- A desk's queue gets no heavier by a request, and lighter by what a wait
delivers. -/
theorem queueWeight_ask (d : Desk α) (lent : Bool) (c : Call) :
    queueWeight (d.ask lent c).2.mailbox.queue
        + (match (d.ask lent c).1 with | .delivered mail => mail.job.weight + 2 | _ => 0)
      ≤ queueWeight d.mailbox.queue := by
  cases c <;> simp only [ask]
  case wait =>
    split
    · split
      · simp
      · rename_i h
        rw [(Mailbox.next_eq_item h).2.2.1]
        simp only [deliver, queueWeight_cons]
        omega
      · rename_i h
        simp [Mailbox.queue_next h]
      · rename_i h
        simp [Mailbox.queue_next h]
    · simp
  case serve =>
    split
    · split <;> simp [Desk.report]
    · simp
  case dropInbox =>
    split
    · simp only [Mailbox.freeInbox]
      split <;> simp
    · simp
  case giveNotice => split <;> simp
  all_goals simp [Mailbox.cloneHandle, Mailbox.dropHandle, Mailbox.dropCancelSender,
    Mailbox.setStatus, Mailbox.markEnded]

/-- A request leaves less to be run than the job that makes it was worth. -/
theorem weight_request_lt (d : Desk α) (c : Call) (via : Via) (rest : Work α)
    (below : List (Frame α)) :
    (request d c via rest below).weight
      < queueWeight d.mailbox.queue + (frameWeight (.job via rest) + 2) + stackWeight below := by
  have key := queueWeight_ask d (lent (.job via rest :: below)) c
  unfold request
  split <;> rename_i h <;> rw [h] at key <;>
    simp only [weight, stackWeight_cons, Desk.write, frameWeight] at key ⊢ <;> omega

theorem queueWeight_send_le (d : Desk α) (route : Route) (job : Work α) :
    queueWeight (d.send route job).2.mailbox.queue
      ≤ queueWeight d.mailbox.queue + job.weight + 2 := by
  unfold Desk.send
  split
  · simp only []; omega
  · simp only []
    split
    · simp only [Mailbox.post, Mailbox.put, Mailbox.push]
      split
      · split
        · simp only []; omega
        · split
          · simp only []; omega
          · simp only [queueWeight_append, queueWeight_cons, queueWeight_nil]
            omega
      · simp only []; omega
    · simp only []; omega
    · simp only []; omega

/-- **Every step makes the work smaller.** -/
theorem weight_step {m m' : Machine α} (h : m.step = some m') : m'.weight < m.weight := by
  obtain ⟨d, stack, answer⟩ := m
  unfold step at h
  split at h <;> rename_i hs <;> simp only at hs <;> subst hs
  · cases h
  · split at h
    · cases h
    · rename_i hn
      cases h
      have hq := (Mailbox.next_eq_item hn).2.2.1
      simp only at hq
      simp only [weight, stackWeight_cons, frameWeight, Desk.report, Desk.deliver, hq,
        queueWeight_cons]
      omega
    · rename_i hn
      cases h
      have hq := Mailbox.queue_next hn (by intro x; simp)
      simp only at hq
      rw [weight_endService, hq]
      simp only [weight, stackWeight_cons, frameWeight]
      omega
    · rename_i hn
      cases h
      have hq := Mailbox.queue_next hn (by intro x; simp)
      simp only at hq
      rw [weight_endService, hq]
      simp only [weight, stackWeight_cons, frameWeight]
      omega
  · rename_i via below
    cases h
    have := weight_finish_lt d below via
    simp only [weight, stackWeight_cons] at this ⊢
    omega
  · rename_i via v rest below
    cases h
    cases via <;> simp only [weight, stackWeight_cons, frameWeight, Job.weight_act, Desk.write] <;>
      omega
  · rename_i via p rest below
    cases h
    have := weight_panic_le d p below via
    cases via <;> simp only [weight, stackWeight_cons, frameWeight, Job.weight_act] at this ⊢ <;>
      omega
  · rename_i via c rest below
    cases h
    have := weight_request_lt d c via rest below
    cases via <;> simp only [weight, stackWeight_cons, frameWeight, Job.weight_act] at this ⊢ <;>
      omega
  · rename_i via route job rest below
    cases h
    have := queueWeight_send_le d route job
    cases via <;>
      simp only [weight, stackWeight_cons, frameWeight, Job.weight_send, Desk.write] at this ⊢ <;>
      omega

/-! ## All steps -/

/-- Takes all steps there are. -/
def run (m : Machine α) : Machine α :=
  match _h : m.step with
  | none => m
  | some m' => run m'
termination_by m.weight
decreasing_by exact weight_step _h

/-- Where no step is left, a run is over. -/
theorem run_of_step_none {m : Machine α} (h : m.step = none) : m.run = m := by
  rw [run]
  split <;> simp_all

/-- A run takes the next step and goes on from there. -/
theorem run_of_step_some {m m' : Machine α} (h : m.step = some m') : m.run = m'.run := by
  rw [run]
  split <;> simp_all

/-- A run ends where no step is left. -/
theorem step_run (m : Machine α) : m.run.step = none := by
  fun_induction run m with
  | case1 m h => exact h
  | case2 m m' h ih => exact ih

end Machine

/-- Makes the request `r` of the desk, with everything it sets off.  There is
no answer if a service it began stands at a wait that nothing can end. -/
def perform (d : Desk α) (r : Request α) : Option Reply × Desk α :=
  let m := (Machine.start d r).run
  (m.answer, m.desk)

end SerialWorkers.Desk
