import SerialWorkers.Proofs.Session.Reached
import SerialWorkers.Proofs.Workshop.Reception

/-!
# What a handle shows, and what sending comes to

A handle shows whether a worker is closed.  Whoever sends the worker a job at rest finds
that this is so: a closed worker refuses the job, whatever room there is, and an open one
never does for good.  One that is held up in a job with no room left has no answer for a
patient sender and sends a prompt one away; any other takes the job in from both.

A job that is refused has happened to nobody: only the attempt is counted.

* `Session.Agrees` — how handles and both manners of sending agree.
* `Session.sending_agrees` — they do, in every session at rest;
  `Session.full_and_not_held_waitingSession` shows one where no gate holds the worker up.
-/

namespace SerialWorkers

open Workshop

variable {α : Type}

namespace Session

variable {s : Session α} {whom : Address} {k h : Nat} {v : Worker α} {job : Work α}
  {client : Client α} {manner : Manner}

/-! ## Calls in vain -/

/-- A call in vain settles no errand. -/
theorem known_visited {e : Errand} (he : e.client < s.shop.clients.length) :
    known (s.shop.visited k client) e = known s.shop e := by
  have hclient : (s.shop.visited k client).clients[e.client]? = s.shop.clients[e.client]? :=
    List.getElem?_append_left he
  unfold known
  rw [hclient, getElem?_visited]
  cases s.shop.workers[e.worker]? with
  | none => rfl
  | some u =>
      by_cases hk : k = e.worker
      · simp only [hk, if_true]
        rfl
      · simp only [hk, if_false]
        rfl

/-- After a call in vain all is at rest already. -/
theorem restWith_visited (hs : s.AtRest) (k : Nat)
    (hc : ∀ t mail, client.sending = some (t, mail) → s.shop.NoRoom client.manner t mail) :
    s.restWith (s.shop.visited k client) = { s with shop := s.shop.visited k client } := by
  have hstill := (still_of_next? hs.resting.still).visited k _ hc
  have hnoted : ∀ e ∈ s.errands, ({ e with
      settled := e.settled || known (s.shop.visited k client) e } : Errand) = e := by
    intro e he
    rw [known_visited (hs.errands e he)]
    cases hk : known s.shop e with
    | false => simp
    | true => simp [← hs.resting.noted e he hk]
  have herrands := List.map_congr_left hnoted
  rw [List.map_id'] at herrands
  simp only [restWith, note, settle_of_still (next?_of_still hstill), herrands]

/-- A new client was told what its one call came to. -/
theorem lastReceipt_of_newcomer {w : Workshop α} {c : Nat} {mail : Mail α} {r : Receipt}
    (hc : w.clients[c]? = some (newcomer k mail r)) : lastReceipt w c = r := by
  unfold lastReceipt
  rw [hc]
  cases r <;> rfl

/-- Sending is a call by a new client, and rest. -/
theorem send_of_call {w : Workshop α} (hw : ¬ (manner = .patient ∧ wouldWait s.shop k = true))
    (hcall : s.shop.welcome.call manner s.shop.clients.length k job = some w) :
    s.send k manner job
      = (.ofReceipt (lastReceipt w.settle s.shop.clients.length), s.restWith w) := by
  unfold send callBy
  rw [if_neg hw]
  simp only [hcall]
  rfl

/-- **A job that is not taken in**: its sender is told, and all is as it was. -/
theorem send_in_vain (hs : s.AtRest) (hv : s.shop.workers[k]? = some v) {r : Receipt}
    (hpost : v.post (.client s.shop.clients.length) job = (r, v.counted))
    (hroom : r = .waits →
      s.shop.NoRoom .patient k (v.mailFrom (.client s.shop.clients.length) job))
    (hw : ¬ (manner = .patient ∧ wouldWait s.shop k = true)) :
    s.send k manner job = (.ofReceipt (r.inManner manner), { s with
      shop := s.shop.visited k (newcomer k (v.mailFrom (.client s.shop.clients.length) job)
        (r.inManner manner)) }) := by
  have hc : ∀ t mail, (newcomer k (v.mailFrom (.client s.shop.clients.length) job)
      (r.inManner manner)).sending = some (t, mail) →
      s.shop.NoRoom (newcomer k (v.mailFrom (.client s.shop.clients.length) job)
        (r.inManner manner)).manner t mail := by
    intro t mail hcall
    cases hr : r.inManner manner with
    | waits =>
        rw [hr] at hcall
        cases hcall
        exact hroom (Receipt.inManner_eq_waits_iff.1 hr).1
    | accepted | refused =>
        rw [hr] at hcall
        cases hcall
  have hstill := (still_of_next? hs.resting.still).visited k _ hc
  rw [send_of_call hw (call_in_vain hv hpost manner), restWith_visited hs k hc,
    settle_of_still (next?_of_still hstill),
    lastReceipt_of_newcomer (k := k) (r := r.inManner manner) (by simp [visited]; rfl)]

/-- **A job that is taken in**: it is all one in which manner it was sent. -/
theorem send_accepted (hv : s.shop.workers[k]? = some v)
    (hpost : (v.post (.client s.shop.clients.length) job).1 = .accepted)
    (hw : wouldWait s.shop k = false) :
    ∃ s', ∀ manner, s.send k manner job = (.done, s') := by
  obtain ⟨w, hcall, hclient⟩ := call_accepted hv hpost
  refine ⟨s.restWith w, fun manner => ?_⟩
  -- the new client was told at once, and nothing happens to it while all comes to rest
  rw [send_of_call (by simp [hw]) (hcall manner), lastReceipt, client_settle hclient rfl]
  rfl

/-! ## How handles and senders agree -/

/-- The session after a job was refused by worker `k`: the attempt is counted, and there is
a client that knows. -/
def refusing (s : Session α) (k : Nat) (r : Refusal) : Session α :=
  { s with
    shop := { s.shop with
      workers := s.shop.workers.modify k fun u => { u with attempts := u.attempts + 1 }
      clients := s.shop.clients ++ [{ receipts := [.refused r] }] } }

/-- What a handle of worker `v`, of number `k`, shows and what it comes to to send `v` a job
by it agree. -/
structure Agrees (s : Session α) (whom : Address) (k : Nat) (v : Worker α) (job : Work α) :
    Prop where
  /-- A handle shows whether the worker is closed. -/
  shown : ∀ n, whom = .handle n → s.perform (.inspect whom)
    = (.shown v.mailbox.identity v.mailbox.isClosed v.mailbox.pending, s)
  /-- It is if a patient sender is refused, and only then. -/
  closed_iff_patient : v.mailbox.isClosed = true ↔
    (s.perform (.send whom .patient job)).1 = .refused .closed
  /-- It is if a prompt sender is refused for that reason, and only then. -/
  closed_iff_prompt : v.mailbox.isClosed = true ↔
    (s.perform (.send whom .prompt job)).1 = .refused .closed
  /-- A prompt sender of an open worker is sent away if the worker is held up in a job and
  no room is left, and only then. -/
  full_iff : (s.perform (.send whom .prompt job)).1 = .refused .full ↔
    v.mailbox.isClosed = false ∧ v.Crowded
  /-- There is no answer for a patient one then, and only then. -/
  waits_iff : (s.perform (.send whom .patient job)).1 = .wouldWait ↔
    v.mailbox.isClosed = false ∧ v.Crowded
  /-- Its call would never return, however all others go on. -/
  blocks_iff : s.shop.Blocks k job ↔ v.mailbox.isClosed = false ∧ v.Crowded
  /-- Where nobody waits for room elsewhere, a worker is held up in a job at a gate. -/
  held_of_rests : Rests v →
    (v.Crowded ↔ v.held = true ∧ v.mailbox.capacity = some v.mailbox.pending)
  /-- Otherwise the job is taken in from both, and all comes to the same. -/
  otherwise : v.mailbox.isClosed = false → ¬ v.Crowded →
    (s.perform (.send whom .patient job)).1 = .done ∧
      s.perform (.send whom .prompt job) = s.perform (.send whom .patient job)
  /-- A job that is refused has happened to nobody. -/
  refused : ∀ manner r, (s.perform (.send whom manner job)).1 = .refused r →
    (s.perform (.send whom manner job)).2 = s.refusing k r

/-- Sending is sending to whom the command means. -/
theorem perform_send (hr : s.resolve whom = .ok (k, h)) (manner : Manner) (job : Work α) :
    s.perform (.send whom manner job) = s.send k manner job := by
  simp only [perform, withWorker, hr]

/-- Whether a patient sender would wait for somebody at a gate. -/
theorem wouldWait_eq (hv : s.shop.workers[k]? = some v) : wouldWait s.shop k
    = (v.held && v.mailbox.isOpen && v.mailbox.isFull) := by
  simp only [wouldWait, hv, Option.any_some]

/-- **What it comes to to send worker `v` a job**, in three cases. -/
theorem send_cases (hs : s.AtRest) (hv : s.shop.workers[k]? = some v) (job : Work α) :
    (v.mailbox.isClosed = true ∧
      ∀ manner, s.send k manner job = (.refused .closed, s.refusing k .closed)) ∨
    (v.mailbox.isClosed = false ∧ v.Crowded ∧
      s.send k .prompt job = (.refused .full, s.refusing k .full) ∧
      (s.send k .patient job).1 = .wouldWait) ∨
    (v.mailbox.isClosed = false ∧ ¬ v.Crowded ∧
      ∃ s', ∀ manner, s.send k manner job = (.done, s')) := by
  obtain ⟨moves, hrun⟩ := hs.reached
  have hsound := sound_of_run hrun hv
  have hhalts := (work_eq_none_iff hv).1 (still_of_next? hs.resting.still _ (.work k))
  cases Worker.receives_of_halts hsound hhalts (.client s.shop.clients.length) job with
  | closed ho h =>
      refine .inl ⟨by simp [Mailbox.isClosed, ho], fun manner => ?_⟩
      exact send_in_vain hs hv h (by simp) (by simp [wouldWait_eq hv, ho])
  | waits ho hc h =>
      have hroom := noRoom_of_waits hv ho (congrArg Prod.fst h)
      refine .inr (.inl ⟨by simp [Mailbox.isClosed, ho], hc, ?_, ?_⟩)
      · exact send_in_vain hs hv h (fun _ => hroom) (by simp)
      · by_cases hw : wouldWait s.shop k = true
        · simp [send, hw]
        · rw [send_in_vain hs hv h (fun _ => hroom) (by simp [hw])]
          rfl
  | accepts ho hc h =>
      refine .inr (.inr ⟨by simp [Mailbox.isClosed, ho], hc, send_accepted hv h ?_⟩)
      -- who would wait for somebody at a gate finds a crowded worker
      refine Bool.eq_false_iff.2 fun hw => hc ?_
      rw [wouldWait_eq hv] at hw
      simp only [Bool.and_eq_true] at hw
      exact ⟨by simp [Worker.detained, hw.1.1], (Worker.isFull_iff_of_sound hsound).1 hw.2⟩

/-- **Handles and senders agree**, in every session at rest, for every worker and whoever
means it. -/
theorem sending_agrees (hs : s.AtRest) (hr : s.resolve whom = .ok (k, h))
    (hv : s.shop.workers[k]? = some v) (job : Work α) : Agrees s whom k v job := by
  obtain ⟨moves, hrun⟩ := hs.reached
  have hstill := still_of_next? hs.resting.still
  have hreceives := Worker.receives_of_halts (sound_of_run hrun hv)
    ((work_eq_none_iff hv).1 (hstill _ (.work k))) (.client s.shop.clients.length) job
  have hshown : ∀ n, whom = .handle n → s.perform (.inspect whom)
      = (.shown v.mailbox.identity v.mailbox.isClosed v.mailbox.pending, s) := by
    rintro n rfl
    simp only [perform, withWorker, hr, hv]
  have hblocks : s.shop.Blocks k job ↔ v.mailbox.isClosed = false ∧ v.Crowded := by
    rw [blocks_iff hstill hv hreceives]
    simp only [Mailbox.isClosed, Bool.not_eq_false']
  have hrests : Rests v →
      (v.Crowded ↔ v.held = true ∧ v.mailbox.capacity = some v.mailbox.pending) := by
    intro h
    rw [Worker.Crowded, Worker.detained_of_rests h]
  have hcases := send_cases hs hv job
  simp only [← perform_send hr] at hcases
  rcases hcases with ⟨hc, h⟩ | ⟨hc, hcrowded, hprompt, hpatient⟩ | ⟨hc, hcrowded, s', h⟩
  · exact {
      shown := hshown
      closed_iff_patient := by simp [hc, h]
      closed_iff_prompt := by simp [hc, h]
      full_iff := by simp [hc, h]
      waits_iff := by simp [hc, h]
      blocks_iff := hblocks
      held_of_rests := hrests
      otherwise := by simp [hc]
      refused := by
        intro manner r hrefused
        rw [h] at hrefused ⊢
        cases hrefused
        rfl }
  · exact {
      shown := hshown
      closed_iff_patient := by simp [hc, hpatient]
      closed_iff_prompt := by simp [hc, hprompt]
      full_iff := by simp [hc, hcrowded, hprompt]
      waits_iff := by simp [hc, hcrowded, hpatient]
      blocks_iff := hblocks
      held_of_rests := hrests
      otherwise := fun _ hn => absurd hcrowded hn
      refused := by
        intro manner r hrefused
        cases manner with
        | prompt =>
            rw [hprompt] at hrefused ⊢
            cases hrefused
            rfl
        | patient =>
            rw [hpatient] at hrefused
            cases hrefused }
  · exact {
      shown := hshown
      closed_iff_patient := by simp [hc, h]
      closed_iff_prompt := by simp [hc, h]
      full_iff := by simp [hcrowded, h]
      waits_iff := by simp [hcrowded, h]
      blocks_iff := hblocks
      held_of_rests := hrests
      otherwise := by simp [h]
      refused := by
        intro manner r hrefused
        rw [h] at hrefused
        cases hrefused }

/-- A session in which one worker has a job at a gate, no room left, and a handle. -/
def crowdedSession : Session Nat := ({} : Session Nat).after
  [.hire { capacity := some 1 } "pot" none, .handle (.worker 0),
    .send (.worker 0) .prompt (.act .gate .done), .send (.worker 0) .prompt .done]

/-- There a prompt sender is sent away and a patient one has no answer; and once the worker
is stopped both are refused, though it is still full. -/
theorem sending_agrees_crowdedSession :
    (∃ v, crowdedSession.shop.workers[0]? = some v ∧
      Agrees crowdedSession (.handle 0) 0 v (.act (.log 1) .done)) ∧
    (crowdedSession.perform (.send (.handle 0) .prompt (.act (.log 1) .done))).1
      = .refused .full ∧
    (crowdedSession.perform (.send (.handle 0) .patient (.act (.log 1) .done))).1 = .wouldWait ∧
    ((crowdedSession.perform (.stop (.worker 0) 0)).2.perform
      (.send (.handle 0) .prompt (.act (.log 1) .done))).1 = .refused .closed := by
  have hhandle : crowdedSession.handles[0]? = some (0, 1) := by decide +kernel
  have hresolve : crowdedSession.resolve (.handle 0) = .ok (0, 1) := by
    simp only [resolve, reach, hhandle]
  have hlength : 0 < crowdedSession.shop.workers.length := by decide +kernel
  refine ⟨⟨_, List.getElem?_eq_getElem hlength, sending_agrees (atRest_after _) hresolve
    (List.getElem?_eq_getElem hlength) _⟩, ?_, ?_, ?_⟩ <;> decide +kernel

/-- A session in which a job of worker 0 has filled the mailbox it came from and waits for room
at worker 1, which stands at a gate. -/
def waitingSession : Session Nat := ({} : Session Nat).after
  [.hire { capacity := some 1 } "pot" none, .hire { capacity := some 1 } "lid" none,
    .send (.worker 0) .prompt (.send ⟨.prompt, none⟩ .done
      (.send ⟨.patient, some 1⟩ (.act (.log 1) (.act .gate .done))
        (.send ⟨.patient, some 1⟩ .done (.send ⟨.patient, some 1⟩ .done .done))))]

/-- **A worker need not stand at a gate to turn senders away at rest.**  Here it is in a call:
its mailbox is full, a prompt sender is sent away and a patient one has no answer. -/
theorem full_and_not_held_waitingSession :
    waitingSession.AtRest ∧ ∃ v, waitingSession.shop.workers[0]? = some v ∧
      v.mailbox.isClosed = false ∧ v.mailbox.capacity = some v.mailbox.pending ∧
      v.held = false ∧
      (waitingSession.perform (.send (.worker 0) .prompt .done)).1 = .refused .full ∧
      (waitingSession.perform (.send (.worker 0) .patient .done)).1 = .wouldWait := by
  refine ⟨atRest_after _, _, List.getElem?_eq_getElem (by decide +kernel), ?_⟩
  decide +kernel

end Session

end SerialWorkers
