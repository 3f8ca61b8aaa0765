import SerialWorkers.Proofs.Desk.Rounds

/-!
# How many jobs there are

A queue can grow while it is worked off, since jobs send jobs.  What does not grow is the number
of jobs that occur in it with everything that is sent in their acts: whatever a job sends was
counted in it before.  So each round of a service leaves fewer of them, also a round whose job
panics, and no more jobs are run than occurred in the queue at first.

* `Job.count`, `Desk.jobsIn` — the jobs that occur in a job, and in a queue.
* `Desk.jobsIn_after` — a job leaves behind what occurs in it, less itself.
* `Desk.WorksOff` — what a desk has run, out of what occurred in its queue.
* `Desk.Rounds.worksOff`, `Desk.Closes.worksOff` — so it is with the rounds of a service and
  its close.
-/

namespace SerialWorkers

/-- How many jobs occur in a job: itself, and all that occur in what it sends. -/
def Job.count {α β : Type} : Job α β → Nat
  | .done => 1
  | .act _ rest => rest.count
  | .send _ job rest => job.count + rest.count

theorem Job.count_pos {α β : Type} (job : Job α β) : 0 < job.count := by
  induction job with
  | done => exact Nat.one_pos
  | act _ _ ih => exact ih
  | send _ _ _ _ ih => exact Nat.lt_of_lt_of_le ih (Nat.le_add_left _ _)

namespace Desk

variable {α : Type} {d d' d₁ : Desk α} {policy : PanicPolicy} {ran last : List (Mail α)}
  {mail : Mail α} {box : Mailbox (Mail α)}

/-- How many jobs occur in a queue. -/
def jobsIn : List (Mail α) → Nat
  | [] => 0
  | mail :: queue => mail.job.count + jobsIn queue

@[simp] theorem jobsIn_nil : jobsIn ([] : List (Mail α)) = 0 := rfl

@[simp] theorem jobsIn_cons (mail : Mail α) (queue : List (Mail α)) :
    jobsIn (mail :: queue) = mail.job.count + jobsIn queue := rfl

@[simp] theorem jobsIn_append (first second : List (Mail α)) :
    jobsIn (first ++ second) = jobsIn first + jobsIn second := by
  induction first with
  | nil => simp
  | cons mail first ih =>
      simp only [List.cons_append, jobsIn_cons, ih]
      omega

/-! ## What a job leaves in the queue -/

/-- A request of a job under service leaves the queue alone. -/
theorem queue_respond (d : Desk α) (c : Call) :
    (d.respond c).mailbox.queue = d.mailbox.queue := by
  obtain ⟨r, hbooks⟩ := books_respond d c
  simpa using hbooks.queue.symm

/-- A job that is sent is queued behind all others, or it is not queued. -/
theorem queue_dispatch (d : Desk α) (route : Route) (job : Work α) :
    (d.dispatch route job).mailbox.queue = d.mailbox.queue ∨
      (d.dispatch route job).mailbox.queue
        = d.mailbox.queue ++ [⟨d.attempts, route.handle, job⟩] := by
  unfold dispatch send
  split
  · exact .inl rfl
  · simp only
    split
    · rename_i haccepted
      rw [post_eq_push haccepted]
      exact .inr rfl
    · exact .inl rfl
    · exact .inl rfl

theorem jobsIn_dispatch_le (d : Desk α) (route : Route) (job : Work α) :
    jobsIn (d.dispatch route job).mailbox.queue ≤ jobsIn d.mailbox.queue + job.count := by
  rcases queue_dispatch d route job with h | h
  · rw [h]
    exact Nat.le_add_right _ _
  · rw [h, jobsIn_append, jobsIn_cons, jobsIn_nil]
    exact Nat.le_refl _

/-- **A job leaves behind what occurs in it, less itself**, whether it comes to its end or
panics. -/
theorem jobsIn_after (d : Desk α) (job : Work α) :
    jobsIn (d.after job).mailbox.queue + 1 ≤ jobsIn d.mailbox.queue + job.count := by
  induction job generalizing d with
  | done => exact Nat.le_refl _
  | send route job rest _ ih =>
      have hrest := ih (d.dispatch route job)
      have hsent := jobsIn_dispatch_le d route job
      show jobsIn ((d.dispatch route job).after rest).mailbox.queue + 1
        ≤ jobsIn d.mailbox.queue + (job.count + rest.count)
      omega
  | act a rest ih =>
      cases a with
      | log v => exact ih (d.write (.value v))
      | panic p =>
          -- what the job would have sent later is counted, and not sent
          have hpos := rest.count_pos
          show jobsIn d.mailbox.queue + 1 ≤ jobsIn d.mailbox.queue + rest.count
          omega
      | call c =>
          have hrest := ih (d.respond c)
          rw [queue_respond] at hrest
          exact hrest

/-- **A round has one job less to go on with.** -/
theorem jobsIn_round (hw : d.mailbox.Wakes (.item mail) box) (policy : PanicPolicy) :
    jobsIn (d.round policy box mail).mailbox.queue + 1 ≤ jobsIn d.mailbox.queue := by
  have hafter : jobsIn ((d.takeUp box mail).after mail.job).mailbox.queue + 1
      ≤ jobsIn box.queue + mail.job.count := jobsIn_after _ _
  have hqueue : d.mailbox.queue = mail :: box.queue := by
    cases hw with
    | item hn hq => exact hq
  rw [Desk.round, mailbox_tellPanic, hqueue, jobsIn_cons]
  omega

/-! ## What is worked off -/

/-- Desk `d` has come to be `d'` and run `ran`: what it ran was queued at first or accepted
since, and is no more than occurred in the queue at first, less what occurs in it now. -/
structure WorksOff (d : Desk α) (ran : List (Mail α)) (d' : Desk α) : Prop where
  /-- What passed through the desk. -/
  passes : ∃ sent, Passes d ran sent d'
  /-- How many were run. -/
  few : ran.length + jobsIn d'.mailbox.queue ≤ jobsIn d.mailbox.queue

/-- The rounds of a service work jobs off. -/
theorem Rounds.worksOff (h : Rounds policy d ran d₁) : WorksOff d ran d₁ where
  passes := by
    obtain ⟨sent, es, hbooks⟩ := h.books
    exact ⟨sent, hbooks.passes⟩
  few := by
    induction h with
    | start => simp
    | more _ hw _ ih =>
        have hround := jobsIn_round hw policy
        rw [List.length_append, List.length_singleton]
        omega

/-- So does the close, if it takes up a job. -/
theorem Closes.worksOff {o : Outcome} (h : Closes policy d last o d') : WorksOff d last d' where
  passes := h.passes
  few := by
    cases h with
    | noticed hw => cases hw <;> simp [conclude, Mailbox.markEnded]
    | deserted hw => cases hw; simp [conclude, Mailbox.markEnded]
    | panicked hw hpolicy hp =>
        have hround := jobsIn_round hw policy
        show 1 + jobsIn (d.round policy _ _).mailbox.queue ≤ jobsIn d.mailbox.queue
        omega

/-- Jobs are worked off one part after the other. -/
theorem WorksOff.trans (h : WorksOff d ran d₁) (h' : WorksOff d₁ last d') :
    WorksOff d (ran ++ last) d' where
  passes := by
    obtain ⟨sent, hpasses⟩ := h.passes
    obtain ⟨sent', hpasses'⟩ := h'.passes
    exact ⟨sent ++ sent', hpasses.trans hpasses'⟩
  few := by
    have hfirst := h.few
    have hsecond := h'.few
    rw [List.length_append]
    omega

/-- What was reported at first is nothing to what is worked off. -/
theorem WorksOff.of_report {es : List Event} (h : WorksOff (d.report es) ran d') :
    WorksOff d ran d' where
  passes := by
    obtain ⟨sent, hpasses⟩ := h.passes
    exact ⟨sent, hpasses.delivered, hpasses.accepted, hpasses.queue, hpasses.identity⟩
  few := h.few

/-- A job that is taken up now is one of those that occurred in the queue at first. -/
theorem WorksOff.takeUp (h : WorksOff d ran d₁) (hw : d₁.mailbox.Wakes (.item mail) box) :
    (d₁.takeUp box mail).delivered = d.delivered ++ (ran ++ [mail]) ∧
      (ran ++ [mail]).length ≤ jobsIn d.mailbox.queue := by
  obtain ⟨sent, hpasses⟩ := h.passes
  refine ⟨?_, ?_⟩
  · show d₁.delivered ++ [mail] = _
    rw [hpasses.delivered, List.append_assoc]
  · have hfew := h.few
    have hround := jobsIn_round hw .carryOn
    rw [List.length_append, List.length_singleton]
    omega

end Desk

end SerialWorkers
