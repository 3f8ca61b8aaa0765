import SerialWorkers.Workshop.Basic

/-!
# How a workshop comes to rest

Left to themselves, the threads of workers and the clients in calls go on
until none can.  Jobs send jobs, also to each other's mailboxes, so what
bounds this is the weight of everything still to be run anywhere, nested jobs
included.

* `Workshop.weight_work`, `Workshop.weight_resume` — each such step makes the
  weight smaller.
* `Workshop.settle` — the workshop at rest.
-/

namespace SerialWorkers.Workshop

variable {α : Type}

/-! ## Weights -/

/-- What a thread has left where it stands. -/
def Phase.weight : Phase α → Nat
  | .waiting => 3
  | .running rest => rest.weight + 4
  | .sending _ _ mail rest => mail.job.weight + rest.weight + 7
  | .retiring _ => 2
  | .leaving _ => 1
  | .ended _ => 0

/-- What is still to be run at a worker. -/
def workerWeight (v : Worker α) : Nat := v.phase.weight + queueWeight v.mailbox.queue

/-- What a client in a call will bring. -/
def clientWeight (client : Client α) : Nat :=
  match client.sending with
  | none => 0
  | some (_, mail) => mail.job.weight + 3

/-- All that is still to be run. -/
def weight (w : Workshop α) : Nat :=
  w.workers.foldr (fun v n => workerWeight v + n) 0
    + w.clients.foldr (fun client n => clientWeight client + n) 0

/-- Changing one element of a list changes a sum over the list by that element's
share. -/
theorem foldr_add_modify {β : Type} (g : β → Nat) (f : β → β) :
    ∀ {l : List β} {i : Nat} {a : β}, l[i]? = some a →
      (l.modify i f).foldr (fun b n => g b + n) 0 + g a
        = l.foldr (fun b n => g b + n) 0 + g (f a) := by
  intro l
  induction l with
  | nil => intro i a h; simp at h
  | cons b l ih =>
    intro i a h
    cases i with
    | zero =>
      simp only [List.getElem?_cons_zero, Option.some.injEq] at h
      subst h
      simp
      omega
    | succ i =>
      simp only [List.getElem?_cons_succ] at h
      have := ih h
      simp only [List.modify_succ_cons, List.foldr_cons]
      omega

theorem weight_change (w : Workshop α) {k : Nat} {v : Worker α} (f : Worker α → Worker α)
    (h : w.workers[k]? = some v) :
    (w.change k f).weight + workerWeight v = w.weight + workerWeight (f v) := by
  have := foldr_add_modify workerWeight f h
  simp only [weight, change]
  omega

/-- A change that leaves a worker's weight alone leaves the workshop's alone. -/
theorem weight_change_of_eq (w : Workshop α) (k : Nat) {f : Worker α → Worker α}
    (hf : ∀ v, workerWeight (f v) = workerWeight v) : (w.change k f).weight = w.weight := by
  cases h : w.workers[k]? with
  | some v =>
      have := w.weight_change f h
      have := hf v
      omega
  | none =>
      have hm : w.workers.modify k f = w.workers :=
        List.modify_eq_self (List.getElem?_eq_none_iff.1 h)
      simp only [weight, change, hm]

theorem workers_change (w : Workshop α) (k t : Nat) (f : Worker α → Worker α) :
    (w.change k f).workers[t]? = if k = t then (w.workers[t]?).map f else w.workers[t]? := by
  simp only [change, List.getElem?_modify]
  split <;> simp

theorem weight_changeClient (w : Workshop α) {c : Nat} {client : Client α}
    (f : Client α → Client α) (h : w.clients[c]? = some client) :
    (w.changeClient c f).weight + clientWeight client = w.weight + clientWeight (f client) := by
  have := foldr_add_modify clientWeight f h
  simp only [weight, changeClient]
  omega

/-! ## What one worker's steps do to its weight -/

theorem workerWeight_retire (v : Worker α) (reason : Reason) :
    workerWeight (v.retire reason) = 2 + queueWeight v.mailbox.queue := rfl

theorem workerWeight_panic_le (v : Worker α) (payload : Payload) :
    workerWeight (v.panic payload) ≤ 3 + queueWeight v.mailbox.queue := by
  unfold Worker.panic
  split
  · rw [workerWeight_retire]
    simp [Worker.report]
  · simp [workerWeight, Phase.weight, Worker.report]

theorem workerWeight_begin (v : Worker α) (mail : Mail α) :
    workerWeight (v.begin mail) = mail.job.weight + 4 + queueWeight v.mailbox.queue := rfl

/-- A thread's own step leaves its worker less to do. -/
theorem workerWeight_advance {v v' : Worker α} (h : v.advance = some v') :
    workerWeight v' < workerWeight v := by
  unfold Worker.advance at h
  split at h <;> rename_i hp
  · split at h
    · cases h
    · rename_i hn
      cases h
      have hq := (Mailbox.next_eq_item hn).2.2.1
      rw [workerWeight_begin, workerWeight, hp, Phase.weight, hq, queueWeight_cons]
      simp only []
      omega
    · rename_i hn
      cases h
      have hq := Mailbox.queue_next hn (by intro x; simp)
      rw [workerWeight_retire, workerWeight, hp, Phase.weight]
      simp only [hq]
      omega
    · rename_i hn
      cases h
      have hq := Mailbox.queue_next hn (by intro x; simp)
      rw [workerWeight_retire, workerWeight, hp, Phase.weight]
      simp only [hq]
      omega
  · cases h
    simp [workerWeight, hp, Phase.weight]
  · cases h
    simp only [workerWeight, Worker.resume, Worker.write, hp, Phase.weight, Job.weight_act]
    omega
  · cases h
    simp only [workerWeight, Worker.resume, Worker.write, hp, Phase.weight, Job.weight_act]
    omega
  · rename_i payload rest
    cases h
    have := workerWeight_panic_le v payload
    rw [workerWeight.eq_def v, hp, Phase.weight, Job.weight_act]
    omega
  · cases h
  · cases h
  · cases h
  · cases h
  · cases h
  · cases h
    simp [workerWeight, Mailbox.markEnded, hp, Phase.weight]
  · cases h
    simp only [workerWeight, Mailbox.freeInbox, hp, Phase.weight]
    split
    · simp only [queueWeight_nil]
      omega
    · omega
  · cases h

/-- What a job that is handed in adds to a worker's weight. -/
theorem workerWeight_put_le (v : Worker α) (mail : Mail α) :
    workerWeight (v.put mail).2 ≤ workerWeight v + mail.job.weight + 2 := by
  unfold Worker.put
  split
  · simp only []; omega
  · simp only []
    split
    · simp only [workerWeight, Mailbox.push, queueWeight_append, queueWeight_cons,
        queueWeight_nil]
      omega
    · split
      · rename_i hc
        have hw : v.phase = .waiting := by
          have := hc.2
          unfold Worker.idle at this
          cases hv : v.phase <;> simp_all
        rw [workerWeight_begin, workerWeight, hw, Phase.weight]
        simp only []
        omega
      · simp only []; omega

/-- A job that has to wait leaves the worker as it is. -/
theorem put_of_waits {v : Worker α} {mail : Mail α} (h : (v.put mail).1 = .waits) :
    (v.put mail).2 = v := by
  unfold Worker.put at h ⊢
  split at h
  · cases h
  · rename_i hi
    simp only [hi] at h ⊢
    split at h
    · cases h
    · rename_i hf
      simp only [hf] at h ⊢
      split at h
      · cases h
      · rename_i hc
        simp [hc]

/-- A sender is told to wait only past the look at an open mailbox, and all that is
noted of it is that it tried. -/
theorem post_of_waits {v : Worker α} {sender : Sender} {job : Work α}
    (h : (v.post sender job).1 = .waits) :
    v.mailbox.isOpen = true ∧ (v.post sender job).2 = v.counted := by
  unfold Worker.post at h ⊢
  split at h
  · rename_i ho
    refine ⟨ho, ?_⟩
    rw [if_pos ho]
    exact put_of_waits h
  · cases h

theorem workerWeight_post_le (v : Worker α) (sender : Sender) (job : Work α) :
    workerWeight (v.post sender job).2 ≤ workerWeight v + job.weight + 2 := by
  unfold Worker.post
  split
  · exact workerWeight_put_le v.counted _
  · show workerWeight v ≤ _
    omega

theorem workerWeight_post_of_waits {v : Worker α} {sender : Sender} {job : Work α}
    (h : (v.post sender job).1 = .waits) :
    workerWeight (v.post sender job).2 = workerWeight v := by
  rw [(post_of_waits h).2]
  rfl

theorem workerWeight_stop (v : Worker α) (status : Int) :
    workerWeight (v.stop status).2 = workerWeight v := by
  simp [Worker.stop, workerWeight]

/-! ## What a step does to the workshop's weight -/

theorem weight_report (w : Workshop α) (thread : Thread) (e : Event) :
    (w.report thread e).weight = w.weight := by
  cases thread with
  | outside => rfl
  | worker k => exact w.weight_change_of_eq k fun _ => rfl

theorem weight_stopBy (w : Workshop α) (thread : Thread) (k : Nat) (status : Int) :
    (w.stopBy thread k status).weight = w.weight := by
  unfold stopBy
  split
  · rfl
  · simp only []
    split
    · rw [weight_report]
      exact w.weight_change_of_eq k fun v => workerWeight_stop v status
    · exact w.weight_change_of_eq k fun v => workerWeight_stop v status

/-- The phase of a worker is its own, whoever else is stopped. -/
theorem phase_stopBy (w : Workshop α) (thread : Thread) (k t : Nat) (status : Int) :
    ((w.stopBy thread t status).workers[k]?).map Worker.phase
      = (w.workers[k]?).map Worker.phase := by
  unfold stopBy
  split
  · rfl
  · simp only []
    split
    · cases thread with
      | outside =>
          simp only [report, workers_change]
          split <;> simp [Worker.stop, Function.comp_def]
      | worker j =>
          simp only [report, workers_change]
          split <;> split <;> simp [Worker.stop, Worker.report, Function.comp_def]
    · rw [workers_change]
      split <;> simp [Worker.stop, Function.comp_def]

theorem phase_of_stopBy {w : Workshop α} {k t : Nat} {u x : Worker α} {thread : Thread}
    {status : Int} (hu : w.workers[k]? = some u)
    (hx : (w.stopBy thread t status).workers[k]? = some x) : x.phase = u.phase := by
  have hsame := w.phase_stopBy thread k t status
  rw [hx, hu] at hsame
  exact Option.some.inj hsame

/-- What a change of phase does to the weight of a workshop. -/
theorem weight_change_phase (w : Workshop α) {k : Nat} {p : Phase α}
    (hp : (w.workers[k]?).map Worker.phase = some p) {f : Worker α → Worker α} {n : Nat}
    (hf : ∀ v, workerWeight (f v) = n + queueWeight v.mailbox.queue) :
    (w.change k f).weight + p.weight = w.weight + n := by
  obtain ⟨v, hv, rfl⟩ := Option.map_eq_some_iff.1 hp
  have := w.weight_change f hv
  have := hf v
  simp only [workerWeight] at *
  omega

theorem workerWeight_resume (v : Worker α) (e : Entry α) (rest : Work α) :
    workerWeight ((v.write e).resume rest) = rest.weight + 4 + queueWeight v.mailbox.queue := rfl

/-- A worker that hands in a job at a worker still stands where it stood, unless
that is itself. -/
theorem phase_put (v : Worker α) (mail : Mail α) (h : v.phase ≠ .waiting) :
    (v.put mail).2.phase = v.phase := by
  unfold Worker.put
  split
  · rfl
  · simp only []
    split
    · rfl
    · split
      · rename_i hc
        have := hc.2
        unfold Worker.idle at this
        cases hv : v.phase <;> simp_all
      · rfl

theorem phase_post (v : Worker α) (sender : Sender) (job : Work α) (h : v.phase ≠ .waiting) :
    (v.post sender job).2.phase = v.phase := by
  unfold Worker.post
  split
  · exact phase_put _ _ h
  · rfl

/-- A step of sending, in general: worker `t` becomes `x`, and then worker `k`,
which stood at `p`, goes on as `f` says. -/
theorem weight_send {w : Workshop α} {k t : Nat} {u v x : Worker α}
    (hu : w.workers[k]? = some u) (hv : w.workers[t]? = some v)
    (hk : u.phase ≠ .waiting) (hsame : v.phase ≠ .waiting → x.phase = v.phase)
    {f : Worker α → Worker α} {n : Nat}
    (hf : ∀ y, workerWeight (f y) = n + queueWeight y.mailbox.queue) :
    ((w.change t fun _ => x).change k f).weight + u.phase.weight + workerWeight v
      = w.weight + n + workerWeight x := by
  have h1 := w.weight_change (fun _ => x) hv
  have h2 : ((w.change t fun _ => x).workers[k]?).map Worker.phase = some u.phase := by
    rw [workers_change]
    split
    · rename_i h
      subst h
      rw [hu] at hv
      cases hv
      simp [hu, hsame hk]
    · simp [hu]
  have h3 := (w.change t fun _ => x).weight_change_phase h2 hf
  omega

theorem weight_sendTo (w : Workshop α) {k : Nat} {u : Worker α} {route : Route}
    {job rest : Work α} (hu : w.workers[k]? = some u)
    (hp : u.phase = .running (.send route job rest)) (t : Nat) (manner : Manner) :
    (w.sendTo k t manner job rest).weight < w.weight := by
  have hphase : (w.workers[k]?).map Worker.phase = some (.running (.send route job rest)) := by
    simp [hu, hp]
  have hk : u.phase ≠ .waiting := by simp [hp]
  unfold sendTo
  split
  · have := w.weight_change_phase hphase
      (f := fun v => (v.write (.sent manner (.refused .closed))).resume rest)
      (fun v => workerWeight_resume v _ rest)
    simp only [Phase.weight, Job.weight_send] at this
    omega
  · rename_i v hv
    simp only []
    split
    · rename_i hr
      have hw : (v.post (.worker k) job).1 = .waits := by
        cases hm : (v.post (.worker k) job).1 <;> cases manner <;>
          simp_all [Receipt.inManner]
      have h1 := workerWeight_post_of_waits hw
      have h2 := weight_send hu hv hk (phase_post v (.worker k) job)
        (f := fun u => { u with phase := .sending manner t (v.mailFrom (.worker k) job) rest })
        (n := job.weight + rest.weight + 7) (fun x => rfl)
      simp only [hp, Phase.weight, Job.weight_send] at h2
      omega
    · rename_i r hr
      have h1 := workerWeight_post_le v (.worker k) job
      have h2 := weight_send hu hv hk (phase_post v (.worker k) job)
        (f := fun u => (u.write (.sent manner
          ((v.post (.worker k) job).1.inManner manner))).resume rest)
        (fun x => workerWeight_resume x _ rest)
      simp only [hp, Phase.weight, Job.weight_send] at h2
      omega

theorem weight_sendFrom (w : Workshop α) {k : Nat} {u : Worker α} {route : Route}
    {job rest : Work α} (hu : w.workers[k]? = some u)
    (hp : u.phase = .running (.send route job rest)) (t : Nat) (manner : Manner) :
    (w.sendFrom k t manner job rest).weight < w.weight := by
  unfold sendFrom
  split
  · have := w.weight_change_phase
      (show (w.workers[k]?).map Worker.phase = some (.running (.send route job rest)) by
        simp [hu, hp])
      (f := fun v => (v.write (.sent manner .waits)).resume rest)
      (fun v => workerWeight_resume v _ rest)
    simp only [Phase.weight, Job.weight_send] at this
    omega
  · exact w.weight_sendTo hu hp t manner

theorem weight_sendOn {w w' : Workshop α} {k t : Nat} {u : Worker α} {manner : Manner}
    {mail : Mail α} {rest : Work α} (hu : w.workers[k]? = some u)
    (hp : u.phase = .sending manner t mail rest) (h : w.sendOn k t manner mail rest = some w') :
    w'.weight < w.weight := by
  unfold sendOn at h
  split at h
  · cases h
  · rename_i v hv
    simp only [] at h
    split at h
    · cases h
    · cases h
      have h1 := workerWeight_put_le v mail
      have h2 := weight_send hu hv (by simp [hp]) (phase_put v mail)
        (f := fun u => (u.write (.sent manner ((v.put mail).1.inManner manner))).resume rest)
        (fun x => workerWeight_resume x _ rest)
      simp only [hp, Phase.weight] at h2
      omega

/-- **A step of a worker's thread leaves less to be run.** -/
theorem weight_work {w w' : Workshop α} {k : Nat} (h : w.work k = some w') :
    w'.weight < w.weight := by
  unfold work at h
  split at h
  · cases h
  · rename_i u hu
    have hphase : (w.workers[k]?).map Worker.phase = some u.phase := by simp [hu]
    split at h <;> rename_i hp
    · rename_i whom rest
      cases h
      rw [hp] at hphase
      have h0 := w.weight_change_phase hphase (f := (·.resume rest))
        (n := rest.weight + 4) (fun v => rfl)
      have h1 : ∀ e, _ := fun e => w.weight_change_phase hphase
        (f := fun u => (u.write e).resume rest) (fun v => workerWeight_resume v e rest)
      unfold viewFrom
      simp only [Phase.weight, Job.weight_act] at h0 h1
      split
      · omega
      · rename_i v _
        have := h1 (.view v.view)
        omega
    · rename_i status whom rest
      cases h
      rw [hp] at hphase
      unfold stopFrom
      split
      · have h1 := w.weight_stopBy (.worker k) (whom.getD k) status
        rw [← w.phase_stopBy (.worker k) k (whom.getD k) status] at hphase
        have h2 := weight_change_phase _ hphase (f := (·.resume rest))
          (n := rest.weight + 4) (fun v => rfl)
        simp only [Phase.weight, Job.weight_act] at h2
        omega
      · have := w.weight_change_phase hphase
          (f := fun u => (u.write .ownerGone).resume rest) (fun v => workerWeight_resume v _ rest)
        simp only [Phase.weight, Job.weight_act] at this
        omega
    · cases h
      exact w.weight_sendFrom hu hp _ _
    · exact weight_sendOn hu hp h
    · obtain ⟨v', hv', rfl⟩ := Option.map_eq_some_iff.1 h
      have := w.weight_change (fun _ => v') hu
      have := workerWeight_advance hv'
      omega

/-- What it is that a client gets on. -/
theorem resume_eq_some {w w' : Workshop α} {c : Nat} (h : w.resume c = some w') :
    ∃ client k mail v r, w.clients[c]? = some client ∧ client.sending = some (k, mail) ∧
      w.workers[k]? = some v ∧ (v.put mail).1.inManner client.manner = r ∧ r ≠ .waits ∧
      w' = (w.change k fun _ => (v.put mail).2).changeClient c (·.told r) := by
  unfold resume at h
  split at h
  · cases h
  · rename_i client hc
    split at h
    · cases h
    · rename_i k mail hs
      split at h
      · cases h
      · rename_i v hv
        simp only at h
        split at h
        · cases h
        · rename_i hr
          cases h
          exact ⟨client, k, mail, v, _, hc, hs, hv, rfl, hr, rfl⟩

/-- **A client that gets on leaves less to be run.** -/
theorem weight_resume {w w' : Workshop α} {c : Nat} (h : w.resume c = some w') :
    w'.weight < w.weight := by
  obtain ⟨client, k, mail, v, r, hc, hs, hv, -, -, rfl⟩ := resume_eq_some h
  have h1 := w.weight_change (fun _ => (v.put mail).2) hv
  have h2 := workerWeight_put_le v mail
  have h3 := (w.change k fun _ => (v.put mail).2).weight_changeClient (·.told r) hc
  simp only [clientWeight, Client.sending_told, hs] at h3
  omega

/-! ## Rest -/

/-- The next step that somebody can take unasked: clients in a call come
first, then the workers, by number. -/
def next? (w : Workshop α) : Option (Workshop α) :=
  (List.range w.clients.length).findSome? w.resume
    <|> (List.range w.workers.length).findSome? w.work

theorem weight_next? {w w' : Workshop α} (h : w.next? = some w') : w'.weight < w.weight := by
  unfold next? at h
  cases hc : (List.range w.clients.length).findSome? w.resume with
  | some x =>
      rw [hc] at h
      cases h
      obtain ⟨c, -, hc⟩ := List.exists_of_findSome?_eq_some hc
      exact weight_resume hc
  | none =>
      rw [hc] at h
      obtain ⟨k, -, hk⟩ := List.exists_of_findSome?_eq_some
        (show (List.range w.workers.length).findSome? w.work = some w' from h)
      exact weight_work hk

/-- The workshop at rest: everybody has gone on until nobody can. -/
def settle (w : Workshop α) : Workshop α :=
  match _h : w.next? with
  | none => w
  | some w' => settle w'
termination_by w.weight
decreasing_by exact weight_next? _h

/-- At rest nobody can take a step unasked. -/
theorem next?_settle (w : Workshop α) : w.settle.next? = none := by
  fun_induction settle w with
  | case1 w h => exact h
  | case2 w w' h ih => exact ih

end SerialWorkers.Workshop
