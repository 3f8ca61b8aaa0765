import SerialWorkers.Proofs.Isolation.Transcripts
import SerialWorkers.Proofs.Workshop.Muting

/-!
# No status has a say in what is done

Two sessions whose requests to stop differ in nothing but their statuses go side by side:
after every command the workers of one are where those of the other are, with the same jobs
accepted and started, and whoever sends a job is told the same.  What may differ is what
shows a status, and whether an end on request is called abnormal.

* `Session.perform_mute` — a command with its statuses blotted out does the same.
* `Session.never_steered` — two runs of moves go side by side, and so do two sessions.
-/

namespace SerialWorkers

namespace Workshop

variable {α : Type} (w : Workshop α)

/-! ## Rest -/

theorem next?_mute : w.mute.next? = w.next?.map mute := by
  have hclients : (List.range w.clients.length).findSome? w.mute.resume
      = ((List.range w.clients.length).findSome? w.resume).map mute := by
    rw [List.map_findSome?]
    exact congrArg (List.findSome? · _) (funext w.resume_mute)
  have hworkers : (List.range w.workers.length).findSome? w.mute.work
      = ((List.range w.workers.length).findSome? w.work).map mute := by
    rw [List.map_findSome?]
    exact congrArg (List.findSome? · _) (funext w.work_mute)
  have hlength : w.mute.clients.length = w.clients.length ∧
      w.mute.workers.length = w.workers.length := by simp [mute]
  unfold next?
  rw [hlength.1, hlength.2, hclients, hworkers]
  cases (List.range w.clients.length).findSome? w.resume <;> rfl

/-- **A workshop comes to the same rest**, whatever the statuses. -/
theorem settle_mute : w.mute.settle = w.settle.mute := by
  fun_induction settle w with
  | case1 w hstill => exact settle_of_still (by rw [next?_mute, hstill]; rfl)
  | case2 w w' hnext ih =>
      have hnext' : w.mute.next? = some w'.mute := by
        rw [next?_mute, hnext]
        rfl
      rw [settle_of_next? hnext']
      exact ih

theorem welcome_mute : w.mute.welcome = w.welcome.mute := by
  simp [welcome, mute, Client.mute]

end Workshop

namespace Session

open Workshop

variable {α : Type}

/-! ## Commands and answers -/

/-- A command without the statuses in it. -/
def Command.mute : Command α → Command α
  | .send whom manner job => .send whom manner (muteJob job)
  | .sendAll whom jobs => .sendAll whom (jobs.map muteJob)
  | .sendAside whom job => .sendAside whom (muteJob job)
  | .stop whom _ => .stop whom 0
  | c => c

/-- An answer, if nobody had looked at a status. -/
def Answer.mute : Answer → Answer
  | .ended o => .ended o.mute
  | a => a

variable (s : Session α) (w : Workshop α)

/-- A session with every status blotted out. -/
def mute : Session α := { s with shop := s.shop.mute }

@[simp] theorem shop_mute : s.mute.shop = s.shop.mute := rfl

/-- An answer and a session, with every status blotted out. -/
def muteBoth (p : Answer × Session α) : Answer × Session α := (p.1.mute, p.2.mute)

/-! ## Whom a command means -/

@[simp] theorem reach_mute (whom : Address) : s.mute.reach whom = s.reach whom := by
  cases whom with
  | worker k => simp [reach, mute, Workshop.mute]
  | handle h => rfl

@[simp] theorem resolve_mute (whom : Address) : s.mute.resolve whom = s.resolve whom := by
  simp only [resolve, reach_mute, shop_mute, owns_mute]

@[simp] theorem resolveOwned_mute (whom : Address) :
    s.mute.resolveOwned whom = s.resolveOwned whom := by
  simp only [resolveOwned, resolve_mute, shop_mute, owns_mute]

variable {s}

/-- Why nobody is meant has nothing to do with statuses. -/
theorem mute_of_reach {whom : Address} {a : Answer} (h : s.reach whom = .error a) :
    a.mute = a := by
  unfold reach at h
  split at h <;> split at h <;> cases h <;> rfl

theorem mute_of_resolve {whom : Address} {a : Answer} (h : s.resolve whom = .error a) :
    a.mute = a := by
  unfold resolve at h
  split at h
  · split at h <;> cases h
    rfl
  · exact mute_of_reach h

theorem mute_of_resolveOwned {whom : Address} {a : Answer}
    (h : s.resolveOwned whom = .error a) : a.mute = a := by
  unfold resolveOwned at h
  split at h
  · rename_i hresolve
    cases h
    exact mute_of_resolve hresolve
  · split at h <;> cases h
    rfl

theorem withWorker_mute {f g : Nat → Nat → Answer × Session α}
    (h : ∀ k n, g k n = muteBoth (f k n)) (whom : Address) :
    s.mute.withWorker whom g = muteBoth (s.withWorker whom f) := by
  unfold withWorker
  rw [resolve_mute]
  cases hr : s.resolve whom with
  | error a => exact Prod.ext (mute_of_resolve hr).symm rfl
  | ok p => exact h p.1 p.2

theorem withOwned_mute {f g : Nat → Answer × Session α} (h : ∀ k, g k = muteBoth (f k))
    (whom : Address) : s.mute.withOwned whom g = muteBoth (s.withOwned whom f) := by
  unfold withOwned
  rw [resolveOwned_mute]
  cases hr : s.resolveOwned whom with
  | error a => exact Prod.ext (mute_of_resolveOwned hr).symm rfl
  | ok k => exact h k

variable (s)

/-! ## Rest and receipts -/

theorem known_mute (e : Errand) : known w.mute e = known w e := by
  simp only [known, getElem?_clients_mute, getElem?_workers_mute, Option.any_map,
    Client.isNone_sending_mute, Worker.isOpen_mute, Worker.held_mute]

theorem restWith_mute : s.mute.restWith w.mute = (s.restWith w).mute := by
  simp only [restWith, note, mute, settle_mute, known_mute]

theorem lastReceipt_mute (c : Nat) : lastReceipt w.mute c = lastReceipt w c := by
  unfold lastReceipt
  rw [getElem?_clients_mute]
  cases w.clients[c]? with
  | none => rfl
  | some client =>
      simp only [Option.map_some, Option.bind_some, client.isSome_sending_mute]
      rfl

theorem mute_ofReceipt (r : Receipt) : (Answer.ofReceipt r).mute = .ofReceipt r := by
  cases r <;> rfl

theorem getD_mute (w? : Option (Workshop α)) :
    (w?.map Workshop.mute).getD w.mute = (w?.getD w).mute := by
  cases w? <;> rfl

/-! ## Sending -/

theorem callBy_mute (manner : Manner) (c k : Nat) (job : Work α) :
    callBy w.mute manner c k (muteJob job) = (callBy w manner c k job).mute := by
  unfold callBy
  rw [call_mute, getD_mute]

@[simp] theorem wouldWait_mute (k : Nat) : wouldWait w.mute k = wouldWait w k := by
  simp only [wouldWait, getElem?_workers_mute, Option.any_map, Worker.held_mute,
    Worker.isOpen_mute, Worker.isFull_mute]

theorem length_clients_mute : w.mute.clients.length = w.clients.length := List.length_map ..

/-- **Whoever sends a job is told the same.** -/
theorem send_mute (k : Nat) (manner : Manner) (job : Work α) :
    s.mute.send k manner (muteJob job) = muteBoth (s.send k manner job) := by
  unfold send
  rw [shop_mute, wouldWait_mute, length_clients_mute]
  split
  · rfl
  · simp only [welcome_mute, callBy_mute, restWith_mute]
    refine Prod.ext ?_ rfl
    rw [muteBoth, mute_ofReceipt]
    exact congrArg Answer.ofReceipt (lastReceipt_mute _ _)

theorem sendAll_mute (c k : Nat) (jobs : List (Work α)) :
    sendAll c k (jobs.map muteJob) w.mute
      = ((sendAll c k jobs w).1, (sendAll c k jobs w).2.mute) := by
  induction jobs generalizing w with
  | nil => rfl
  | cons job jobs ih => simp only [List.map_cons, sendAll, callBy_mute, ih, lastReceipt_mute]

theorem sendAside_mute (k : Nat) (job : Work α) :
    s.mute.sendAside k (muteJob job) = muteBoth (s.sendAside k job) := by
  refine Prod.ext rfl ?_
  simp only [sendAside, shop_mute, length_clients_mute, welcome_mute, callBy_mute]
  exact restWith_mute { s with errands := s.errands ++ [⟨s.shop.clients.length, k, false⟩] } _

/-! ## A rush -/

theorem rushWith_mute (manner : Manner) (k : Nat) (calls : List Nat) :
    rushWith manner k calls w.mute = (rushWith manner k calls w).mute := by
  induction calls generalizing w with
  | nil => rfl
  | cons c calls ih =>
      have hcall : callBy w.mute manner c k .done = (callBy w manner c k .done).mute :=
        callBy_mute w manner c k .done
      simp only [rushWith, List.foldl_cons, hcall, settle_mute]
      exact ih _

theorem startedTickets_mute (v : Worker α) (c : Nat) :
    startedTickets v.mute c = startedTickets v c := by
  have hstarted : v.mute.started = v.started.map muteMail := rfl
  rw [startedTickets, hstarted, List.filter_map, List.map_map]
  rfl

theorem tally_mute (v : Worker α) (first threads : Nat) :
    tally w.mute v.mute first threads = tally w v first threads := by
  have hreceipts : (w.mute.clients.drop first).flatMap Client.receipts
      = (w.clients.drop first).flatMap Client.receipts := by
    rw [Workshop.mute, ← List.map_drop, List.flatMap_map]
    rfl
  simp only [tally, hreceipts, funext (startedTickets_mute v), Worker.peak_mute]

theorem rush_mute (k : Nat) (manner : Manner) (threads jobs : Nat) :
    s.mute.rush k manner threads jobs = muteBoth (s.rush k manner threads jobs) := by
  have hheld : (s.shop.mute.workers[k]?).any (fun v => v.held && v.mailbox.capacity.isSome)
      = (s.shop.workers[k]?).any fun v => v.held && v.mailbox.capacity.isSome := by
    simp only [getElem?_workers_mute, Option.any_map, Worker.held_mute]
    rfl
  have hnewcomers : (⟨s.shop.mute.workers,
        s.shop.mute.clients ++ List.replicate threads ({} : Client α),
        s.shop.mute.outside⟩ : Workshop α)
      = Workshop.mute { s.shop with clients := s.shop.clients ++ List.replicate threads {} } := by
    simp [Workshop.mute, Client.mute]
  rw [Session.rush, Session.rush]
  simp only [shop_mute, hheld, length_clients_mute, hnewcomers, rushWith_mute, restWith_mute]
  split
  · rfl
  · rw [getElem?_workers_mute]
    split
    · rename_i hn
      rw [Option.map_eq_none_iff] at hn
      rw [hn]
      rfl
    · rename_i v hv
      obtain ⟨v, hv', rfl⟩ := Option.map_eq_some_iff.1 hv
      rw [hv']
      exact Prod.ext (congrArg Answer.tally (tally_mute _ v _ threads)) rfl

/-! ## The end of a worker -/

/-- **What is told of a worker's end** is the same but for the status. -/
theorem endOf_mute (k : Nat) : endOf w.mute k = (endOf w k).mute := by
  unfold endOf
  rw [getElem?_workers_mute]
  cases w.workers[k]? with
  | none => rfl
  | some v =>
      simp only [Option.map_some, Option.bind_some, Worker.verdict_mute]
      cases v.verdict <;> rfl

theorem await_mute (k : Nat) : s.mute.await k = muteBoth (s.await k) := by
  have hheld : held s.shop.mute k = held s.shop k := by
    simp only [held, getElem?_workers_mute, Option.any_map, Worker.held_mute]
  unfold await
  rw [shop_mute, hheld, leave_mute, getD_mute]
  split
  · rfl
  · simp only [restWith_mute]
    exact Prod.ext (endOf_mute _ k) rfl

theorem awaited_mute (n : Nat) : s.mute.awaited n = muteBoth (s.awaited n) := by
  have hwaits : s.mute.waits = s.waits := rfl
  have hend : ∀ k, endOf s.mute.shop k = (endOf s.shop k).mute := endOf_mute s.shop
  unfold awaited
  rw [hwaits]
  split
  · rename_i k _
    rw [hend]
    cases endOf s.shop k <;> rfl
  · rfl

/-! ## All commands -/

theorem hireUsual_mute (identity : String) (fault : Option Fault) :
    w.mute.hireUsual identity fault = (w.hireUsual identity fault).mute := by
  unfold hireUsual
  rw [hire_mute]
  cases w.hire {} identity fault <;> rfl

/-- **A hire is answered the same.** -/
theorem hiringAnswer_mute (identity : String) (hiring : Hiring α) :
    s.mute.hiringAnswer identity hiring.mute = (s.hiringAnswer identity hiring).mute := by
  cases hiring with
  | hired w => exact congrArg (Answer.hired · identity) (List.length_map ..)
  | refused | panicked => rfl

/-- **Every command does the same**, whatever the statuses. -/
theorem perform_mute (c : Command α) : s.mute.perform c.mute = muteBoth (s.perform c) := by
  cases c with
  | hire settings identity fault =>
      simp only [perform, Command.mute, shop_mute, hire_mute, hiringAnswer_mute, afterHiring_mute,
        restWith_mute]
      rfl
  | hireUsual identity fault =>
      simp only [perform, Command.mute, shop_mute, hireUsual_mute, hiringAnswer_mute,
        afterHiring_mute, restWith_mute]
      rfl
  | send whom manner job => exact withWorker_mute (fun k _ => send_mute s k manner job) whom
  | sendAll whom jobs =>
      refine withWorker_mute (fun k _ => ?_) whom
      simp only [shop_mute, length_clients_mute, welcome_mute, sendAll_mute, restWith_mute]
      rfl
  | sendAside whom job => exact withWorker_mute (fun k _ => sendAside_mute s k job) whom
  | collect n =>
      have herrands : s.mute.errands = s.errands := rfl
      simp only [perform, Command.mute, herrands]
      split
      · rfl
      · refine Prod.ext ?_ rfl
        simp only [shop_mute, lastReceipt_mute, muteBoth]
        split
        · exact (mute_ofReceipt _).symm
        · rfl
  | stop whom status =>
      refine withOwned_mute (fun k => ?_) whom
      simp only [shop_mute, stop_mute s.shop k status, getD_mute, restWith_mute]
      rfl
  | abandon whom =>
      refine withOwned_mute (fun k => ?_) whom
      simp only [shop_mute, abandon_mute, getD_mute, restWith_mute]
      rfl
  | release whom =>
      simp only [perform, Command.mute, reach_mute, shop_mute]
      cases hr : s.reach whom with
      | error a => exact Prod.ext (mute_of_reach hr).symm rfl
      | ok p =>
          simp only [release_mute]
          cases s.shop.release p.1 with
          | none => rfl
          | some w => exact Prod.ext rfl (restWith_mute s w)
  | await whom => exact withOwned_mute (fun k => await_mute s k) whom
  | awaitAside whom =>
      refine withOwned_mute (fun k => ?_) whom
      refine Prod.ext rfl ?_
      simp only [shop_mute, leave_mute, getD_mute]
      exact restWith_mute { s with waits := s.waits ++ [⟨k, false⟩] } _
  | awaited n => exact awaited_mute s n
  | handle whom =>
      refine withWorker_mute (fun k n => ?_) whom
      have hgiven : ((s.shop.mute.workers[k]?).map fun v => v.mailbox.handles.length)
          = (s.shop.workers[k]?).map fun v => v.mailbox.handles.length := by
        rw [getElem?_workers_mute, Option.map_map]
        rfl
      have hclone : s.shop.mute.cloneHandle k n = (s.shop.cloneHandle k n).mute :=
        change_mute (fun _ => by rfl) k
      simp only [shop_mute, hgiven, hclone]
      exact Prod.ext rfl (restWith_mute { s with handles := s.handles ++ [(k, _)] } _)
  | inspect whom =>
      refine withWorker_mute (fun k _ => ?_) whom
      simp only [shop_mute, getElem?_workers_mute]
      cases whom with
      | worker => rfl
      | handle h =>
          cases s.shop.workers[k]? with
          | none => rfl
          | some v =>
              exact Prod.ext (congrArg (Answer.shown _ _) (Mailbox.pending_mute ..)) rfl
  | identity whom =>
      refine withWorker_mute (fun k _ => ?_) whom
      simp only [shop_mute, getElem?_workers_mute]
      cases s.shop.workers[k]? <;> rfl
  | rush whom manner threads jobs =>
      exact withWorker_mute (fun k _ => rush_mute s k manner threads jobs) whom

theorem after_mute (cs : List (Command α)) :
    s.mute.after (cs.map Command.mute) = (s.after cs).mute := by
  induction cs generalizing s with
  | nil => rfl
  | cons c cs ih =>
      rw [List.map_cons, after, perform_mute]
      exact ih _

/-- **All commands are answered the same**, whatever the statuses. -/
theorem answers_mute (cs : List (Command α)) :
    (s.mute.transcript (cs.map Command.mute)).map (·.answer)
      = (s.transcript cs).map (·.answer.mute) := by
  induction cs generalizing s with
  | nil => rfl
  | cons c cs ih =>
      simp only [List.map_cons, transcript, perform_mute]
      exact congrArg _ (ih _)

variable {s}

/-! ## Side by side -/

/-- Two answers that differ in a status at most. -/
inductive Answer.Parallel : Answer → Answer → Prop
  /-- They are the same. -/
  | same (a : Answer) : Parallel a a
  /-- They tell of two ends, which may be called differently. -/
  | ended {o o' : Outcome} (h : o.Parallel o') : Parallel (.ended o) (.ended o')

theorem Answer.parallel_of_mute {a a' : Answer} (h : a.mute = a'.mute) : a.Parallel a' := by
  cases a with
  | ended o =>
      cases a' with
      | ended o' => exact .ended (Outcome.parallel_of_mute (Answer.ended.inj h))
      | _ => cases h
  | _ =>
      cases a' <;> cases h
      exact .same _

/-- **No status has a say in what is done.**  Two runs that differ in nothing but the statuses
of requests to stop, made by owners or by jobs, go side by side at every step.  So do two
sessions, and whatever is asked in them is answered the same, but for how an end is called. -/
theorem never_steered :
    (∀ {moves moves' : List (Move α)}, moves.map Move.mute = moves'.map Move.mute → ∀ n,
      Option.Rel Workshop.Parallel (run {} (moves.take n)) (run {} (moves'.take n))) ∧
    ∀ {cs cs' : List (Command α)}, cs.map Command.mute = cs'.map Command.mute → ∀ n,
      (({} : Session α).after (cs.take n)).shop.Parallel
        (({} : Session α).after (cs'.take n)).shop ∧
      Option.Rel (fun turn turn' : Turn α => turn.answer.Parallel turn'.answer)
        (({} : Session α).transcript cs)[n]? (({} : Session α).transcript cs')[n]? := by
  refine ⟨fun h n => run_parallel rfl h n, ?_⟩
  intro cs cs' h n
  have hafter : (({} : Session α).after (cs.take n)).mute
      = (({} : Session α).after (cs'.take n)).mute := by
    rw [← after_mute, ← after_mute, List.map_take, List.map_take, h]
  have hanswers : (({} : Session α).transcript cs).map (·.answer.mute)
      = (({} : Session α).transcript cs').map (·.answer.mute) := by
    rw [← answers_mute, ← answers_mute, h]
  have hanswer := congrArg (·[n]?) hanswers
  simp only [List.getElem?_map] at hanswer
  exact ⟨parallel_of_mute (congrArg shop hafter),
    rel_of_map_eq hanswer fun _ _ => Answer.parallel_of_mute⟩

/-- A run in which a job has its own worker stopped with this status, and the worker ends. -/
def stoppedWith (status : Int) : List (Move Nat) :=
  [ .hire {} "pot" none, .welcome, .call .patient 0 0 (.act (.stop status none) .done),
    .work 0, .work 0, .work 0, .work 0, .work 0, .work 0 ]

/-- A worker is asked for by a session that has it stopped with this status. -/
def askedToStop (status : Int) : List (Command Nat) :=
  [ .hire {} "pot" none, .sendAside (.worker 0) .done, .stop (.worker 0) status,
    .await (.worker 0) ]

/-- One worker ends in good order and one abnormally, and that is all the difference; and the
two sessions go side by side. -/
theorem never_steered_stoppedWith :
    (∃ w w' : Workshop Nat, run {} (stoppedWith 0) = some w ∧
      run {} (stoppedWith 7) = some w' ∧ w.Parallel w' ∧
      (w.workers[0]?).bind Worker.verdict = some ⟨.noticed, .orderly⟩ ∧
      (w'.workers[0]?).bind Worker.verdict = some ⟨.noticed, .broken (.abnormal 7)⟩) ∧
    ∀ n, (({} : Session Nat).after ((askedToStop 0).take n)).shop.Parallel
      (({} : Session Nat).after ((askedToStop 7).take n)).shop := by
  have hmoves : (stoppedWith 0).map Move.mute = (stoppedWith 7).map Move.mute := rfl
  have hcommands : (askedToStop 0).map Command.mute = (askedToStop 7).map Command.mute := rfl
  refine ⟨?_, fun n => (never_steered.2 hcommands n).1⟩
  have h : Option.Rel Workshop.Parallel (some _) (some _) := never_steered.1 hmoves 9
  cases h with
  | some h => exact ⟨_, _, rfl, rfl, h, rfl, rfl⟩

end Session

end SerialWorkers
