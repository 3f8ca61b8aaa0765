import SerialWorkers.Proofs.Workshop.Closing
import SerialWorkers.Proofs.Workshop.Customs
import SerialWorkers.Proofs.Workshop.Unasked

/-!
# A workshop at rest

Left to themselves threads and clients in calls go on, in whatever order, only so many
times, and then nobody can.  If no job waits for room in a mailbox, there are three
places for a worker to be then: at a gate, at the wait with nothing queued, or gone.

* `Workshop.Unhindered` — no job that is left will wait for room.
* `Workshop.Resting` — what there is at rest.
* `Workshop.comes_to_rest` — everything comes to rest, and to such a rest.
-/

namespace SerialWorkers.Workshop

variable {α : Type}

/-! ## Jobs that do not wait for room -/

/-- A job of worker `k`, and every job sent in it, sends patiently only to workers that
are `roomy`. -/
def SendsFreely (roomy : Nat → Prop) : Nat → Work α → Prop
  | _, .done => True
  | k, .act _ rest => SendsFreely roomy k rest
  | k, .send route job rest =>
      (route.manner = .patient → roomy (route.whom.getD k)) ∧
        SendsFreely roomy (route.whom.getD k) job ∧ SendsFreely roomy k rest

/-- Jobs hand it down to send freely. -/
def freely (roomy : Nat → Prop) : Custom α where
  mail k mail := SendsFreely roomy k mail.job
  rest := SendsFreely roomy
  started _ _ := True
  calls manner _ t := manner = .patient → roomy t
  begins h := ⟨h, trivial⟩
  goesOn {k job left} h hr := by
    cases job with
    | done => cases hr
    | act a rest =>
        cases hr
        exact h
    | send route job rest =>
        cases hr
        exact h.2.2
  sends _ h := h.2.1
  addresses h := h.1

variable {w w' : Workshop α} {m : Move α} {k : Nat} {v : Worker α}

/-- There is always room at worker `t`, if there is one. -/
def Roomy (w : Workshop α) (t : Nat) : Prop :=
  ∀ v, w.workers[t]? = some v → v.mailbox.capacity = none

/-- No job that is left will wait for room, wherever it is. -/
def Unhindered (w : Workshop α) : Prop := w.Keeps (freely w.Roomy)

@[simp] theorem length_change (w : Workshop α) (k : Nat) (f : Worker α → Worker α) :
    (w.change k f).workers.length = w.workers.length := List.length_modify ..

@[simp] theorem length_stopBy (w : Workshop α) (thread : Thread) (k : Nat) (status : Int) :
    (w.stopBy thread k status).workers.length = w.workers.length := by
  unfold stopBy
  split
  · rfl
  · simp only
    split
    · cases thread <;> simp [report]
    · simp

/-- Nobody is hired unasked. -/
theorem length_of_unasked (hm : m.Unasked) (h : w.move m = some w') :
    w'.workers.length = w.workers.length := by
  obtain ⟨rs, h⟩ : ∃ rs, Moved w m rs w' := ⟨_, moved_of_move h⟩
  cases h with
  | hire | hireFails | welcome | called | stops | leaves | abandons | clones | drops => cases hm
  | enters hcalls => cases hcalls <;> cases hm
  | resumed => exact length_change _ _ _
  | goesOn | advances => exact length_change _ _ _
  | stopsFrom => simp
  | sends | sendEnters | sendsOn => simp

/-- Nobody's bound changes, and nobody is hired. -/
theorem roomy_of_unasked (hm : m.Unasked) (h : w.move m = some w') : w'.Roomy = w.Roomy := by
  funext t
  refine propext ⟨fun hr v hv => ?_, fun hr v' hv' => ?_⟩
  · obtain ⟨v', hv', hc⟩ := (follows_of_move h).course hv
    rw [← hc.capacity]
    exact hr v' hv'
  · have ht : t < w.workers.length := by
      rw [← length_of_unasked hm h]
      exact (List.getElem?_eq_some_iff.1 hv').1
    obtain ⟨u, hu, hc⟩ := (follows_of_move h).course (List.getElem?_eq_getElem ht)
    rw [hv'] at hu
    cases hu
    rw [hc.capacity]
    exact hr _ (List.getElem?_eq_getElem ht)

theorem Unhindered.move (h : w.Unhindered) (hm : m.Unasked) (hmove : w.move m = some w') :
    w'.Unhindered := by
  unfold Unhindered
  rw [roomy_of_unasked hm hmove]
  refine Keeps.move h (fun manner n k job hcalls => ?_) hmove
  cases hcalls <;> cases hm

theorem Unhindered.run {moves : List (Move α)} (h : w.Unhindered) (hm : ∀ m ∈ moves, m.Unasked)
    (hrun : w.run moves = some w') : w'.Unhindered := by
  induction moves generalizing w with
  | nil =>
      cases hrun
      exact h
  | cons m moves ih =>
      rw [run_cons] at hrun
      obtain ⟨u, hu, hrun⟩ := Option.bind_eq_some_iff.1 hrun
      exact ih (h.move (hm m List.mem_cons_self) hu)
        (fun m' hm' => hm m' (List.mem_cons_of_mem _ hm')) hrun

/-! ## Where workers are at rest -/

/-- Where a worker may be at rest. -/
inductive Rests (v : Worker α) : Prop
  /-- At a gate, in a job. -/
  | held (h : v.held = true)
  /-- At the wait, in service, with nothing queued. -/
  | idle (hp : v.phase = .waiting) (hl : v.mailbox.lifecycle = .running)
      (hq : v.mailbox.pending = 0)
  /-- Gone, and its inbox freed. -/
  | gone {d : Verdict} (hp : v.phase = .ended d) (hl : v.mailbox.lifecycle = .ended)
      (hi : v.mailbox.inbox = false)

/-- What a workshop is like at rest, after it was told `ds k` of each worker `k`. -/
structure Resting (ds : Nat → List (LoopEvent α)) (w : Workshop α) : Prop where
  /-- Where the workers are. -/
  workers : ∀ {k : Nat} {v : Worker α}, w.workers[k]? = some v → Rests v
  /-- A client that is in a call waits for room in a full mailbox, whose worker stands at a
  gate. -/
  clients : ∀ {c : Nat} {client : Client α}, w.clients[c]? = some client →
    ∀ {k : Nat} {mail : Mail α}, client.sending = some (k, mail) → ∃ v, w.workers[k]? = some v ∧
      v.held = true ∧ v.mailbox.capacity = some v.mailbox.pending
  /-- Only a worker at a gate is still stopping. -/
  stopping : ∀ {k : Nat} {v : Worker α}, w.workers[k]? = some v →
    v.mailbox.lifecycle = .stopping → v.held = true
  /-- A worker in service that does not stand at a gate has run all it accepted. -/
  served : ∀ {k : Nat} {v : Worker α}, w.workers[k]? = some v →
    v.mailbox.lifecycle = .running → v.held = false →
    v.started = v.accepted ∧ (ds k).countP LoopEvent.endsJob = v.accepted.length

/-- Nobody can do anything unasked. -/
def Still (w : Workshop α) : Prop := ∀ m : Move α, m.Unasked → w.move m = none

/-- A worker stands at a gate in a job. -/
theorem phase_of_held (h : v.held = true) : ∃ rest, v.phase = .running (.act .gate rest) := by
  unfold Worker.held at h
  split at h
  · exact ⟨_, ‹_›⟩
  · cases h

/-- Whoever puts in a job waits for room, unless there is some or the job is passed straight
to the thread. -/
theorem put_waits_iff {mail : Mail α} : (v.put mail).1 = .waits ↔
    v.mailbox.inbox = true ∧ v.mailbox.isFull = true ∧
      ¬ (v.mailbox.capacity = some 0 ∧ v.idle = true) := by
  unfold Worker.put
  cases v.mailbox.inbox with
  | false => simp
  | true =>
      cases v.mailbox.isFull with
      | false => simp
      | true => by_cases hpass : v.mailbox.capacity = some 0 ∧ v.idle = true <;> simp [hpass]

/-- A sender with a job for worker `t` can only wait, if that is there. -/
def NoRoom (w : Workshop α) (manner : Manner) (t : Nat) (mail : Mail α) : Prop :=
  ∀ u, w.workers[t]? = some u → (u.put mail).1.inManner manner = .waits

/-- Nobody waits for a worker whose mailbox has no bound. -/
theorem not_noRoom_of_roomy {t : Nat} {u : Worker α} (hu : w.workers[t]? = some u)
    (hroomy : w.Roomy t) {manner : Manner} {mail : Mail α} : ¬ w.NoRoom manner t mail := by
  intro hnoroom
  obtain ⟨-, n, hn⟩ :=
    Worker.bounded_of_put_waits (Receipt.inManner_eq_waits_iff.1 (hnoroom u hu)).1
  rw [hroomy u hu] at hn
  cases hn

/-- Where a worker may be that can take no step. -/
inductive Halts (w : Workshop α) (v : Worker α) : Prop
  /-- At a gate, in a job. -/
  | held (h : v.held = true)
  /-- At a wait that nothing can end. -/
  | idle (hp : v.phase = .waiting) (hn : v.mailbox.next = none)
  /-- In a job that waits for room. -/
  | sending {manner : Manner} {t : Nat} {mail : Mail α} {rest : Work α}
      (hp : v.phase = .sending manner t mail rest) (hw : w.NoRoom manner t mail)
  /-- Gone. -/
  | gone {d : Verdict} (hp : v.phase = .ended d)

/-- **A worker can take no step where it halts**, and only there. -/
theorem work_eq_none_iff (hv : w.workers[k]? = some v) : w.work k = none ↔ w.Halts v := by
  constructor
  · intro hwork
    cases hp : v.phase with
    | waiting =>
        refine .idle hp ?_
        simp only [work, hv, hp, Option.map_eq_none_iff, Worker.advance] at hwork
        cases hn : v.mailbox.next with
        | none => rfl
        | some p =>
            obtain ⟨wake, box⟩ := p
            rw [hn] at hwork
            cases wake <;> cases hwork
    | running job =>
        cases job with
        | done => simp [work, hv, hp, Worker.advance] at hwork
        | send route job rest => simp [work, hv, hp] at hwork
        | act a rest =>
            cases a with
            | gate => exact .held (by rw [Worker.held, hp])
            | log | threadName | panic | view | stop =>
                simp [work, hv, hp, Worker.advance] at hwork
    | sending manner t mail rest =>
        refine .sending hp fun u hu => ?_
        simpa [work, hv, hp, sendOn, hu] using hwork
    | retiring d => simp [work, hv, hp, Worker.advance] at hwork
    | leaving d => simp [work, hv, hp, Worker.advance] at hwork
    | ended d => exact .gone hp
  · intro h
    cases h with
    | held h =>
        obtain ⟨rest, hp⟩ := phase_of_held h
        simp [work, hv, hp, Worker.advance]
    | idle hp hn => simp [work, hv, hp, Worker.advance, hn]
    | gone hp => simp [work, hv, hp, Worker.advance]
    | @sending manner t mail rest hp hw =>
        simp only [work, hv, hp, sendOn]
        cases hu : w.workers[t]? with
        | none => rfl
        | some u => simp [hw u hu]

/-- A client cannot get on where it can only wait. -/
theorem resume_eq_none_iff {c : Nat} {client : Client α} (hc : w.clients[c]? = some client) :
    w.resume c = none ↔
      ∀ t mail, client.sending = some (t, mail) → w.NoRoom client.manner t mail := by
  simp only [resume, hc]
  cases hs : client.sending with
  | none => simp
  | some p =>
      obtain ⟨t, mail⟩ := p
      simp only [NoRoom, Option.some.injEq, Prod.mk.injEq, and_imp]
      cases hu : w.workers[t]? with
      | none => simp_all
      | some u => simp_all

/-- A thread that could not go on still cannot, where the room it waits for is not there
either. -/
theorem work_eq_none_of_room {j : Nat} (h : w.work j = none)
    (hj : w'.workers[j]? = w.workers[j]?)
    (hroom : ∀ {manner t mail}, w.calling (.worker j) = some (t, mail) →
      w.NoRoom manner t mail → w'.NoRoom manner t mail) : w'.work j = none := by
  cases hv : w'.workers[j]? with
  | none => simp only [work, hv]
  | some v =>
      rw [work_eq_none_iff (hj ▸ hv)] at h
      rw [work_eq_none_iff hv]
      cases h with
      | held h => exact .held h
      | idle hp hn => exact .idle hp hn
      | sending hp h =>
          refine .sending hp (hroom ?_ h)
          simp [calling, ← hj, hv, hp, Phase.calling]
      | gone hp => exact .gone hp

/-- Nor can a client. -/
theorem resume_eq_none_of_room {c : Nat} (h : w.resume c = none) (hc : w'.clients = w.clients)
    (hroom : ∀ {manner t mail}, w.calling (.client c) = some (t, mail) →
      w.NoRoom manner t mail → w'.NoRoom manner t mail) : w'.resume c = none := by
  cases hclient : w.clients[c]? with
  | none => simp [resume, hc, hclient]
  | some client =>
      rw [resume_eq_none_iff hclient] at h
      rw [resume_eq_none_iff (hc ▸ hclient)]
      intro t mail hs
      refine hroom ?_ (h t mail hs)
      simp [calling, hclient, hs]

/-- No job waits for ever where none waits for room. -/
theorem Unhindered.not_noRoom {moves : List (Move α)} (h : w.Unhindered)
    (hrun : Workshop.run {} moves = some w) (hv : w.workers[k]? = some v) {manner : Manner}
    {t : Nat} {mail : Mail α} {rest : Work α} (hp : v.phase = .sending manner t mail rest) :
    ¬ w.NoRoom manner t mail := by
  intro hnoroom
  have hcalling : w.calling (.worker k) = some (t, mail) := by
    simp [calling, hv, hp, Phase.calling]
  obtain ⟨u, hu⟩ := exists_of_calling hrun hcalling
  have hpatient : manner = .patient := (Receipt.inManner_eq_waits_iff.1 (hnoroom u hu)).2
  exact not_noRoom_of_roomy hu (((h.workers hv).sending _ _ _ _ hp).1 hpatient) hnoroom

/-- **Where a worker is that can do nothing unasked.** -/
theorem rests_of_still {moves : List (Move α)} (hrun : run {} moves = some w) (hstill : w.Still)
    (hfree : w.Unhindered) (hv : w.workers[k]? = some v) : Rests v := by
  have hsound := sound_of_run hrun hv
  cases (work_eq_none_iff hv).1 (hstill _ (.work k)) with
  | held h => exact .held h
  | sending hp hw => exact absurd hw (hfree.not_noRoom hrun hv hp)
  | gone hp => exact .gone hp (hsound.out.2 (by rw [hp]; rfl)) (hsound.gone.2 (by rw [hp]; rfl))
  | idle hp hn =>
      obtain ⟨hnotice, -, hq, -⟩ := Mailbox.next_eq_none_iff.1 hn
      refine .idle hp ?_ (by rw [Mailbox.pending, hq]; rfl)
      -- a worker that was stopped would be woken
      cases ho : v.mailbox.isOpen with
      | true => simpa [Mailbox.isOpen] using ho
      | false =>
          rw [hsound.notice_of_waiting hp ho] at hnotice
          cases hnotice

/-- **Where a client is that can do nothing unasked.** -/
theorem full_of_still {moves : List (Move α)} (hrun : run {} moves = some w) (hstill : w.Still)
    (hfree : w.Unhindered) {c : Nat} {client : Client α} (hc : w.clients[c]? = some client)
    {mail : Mail α} (hs : client.sending = some (k, mail)) : ∃ v, w.workers[k]? = some v ∧
      v.held = true ∧ v.mailbox.capacity = some v.mailbox.pending := by
  have hcalling : w.calling (.client c) = some (k, mail) := by
    simp [calling, hc, hs]
  obtain ⟨v, hv⟩ := exists_of_calling hrun hcalling
  have hwait : (v.put mail).1 = .waits :=
    (Receipt.inManner_eq_waits_iff.1
      ((resume_eq_none_iff hc).1 (hstill _ (.resume c)) k mail hs v hv)).1
  obtain ⟨hinbox, hisfull, hpass⟩ := put_waits_iff.1 hwait
  obtain ⟨n, hn⟩ := (Worker.bounded_of_put_waits hwait).2
  have hpending : v.mailbox.pending = n := by
    have hle := (sound_of_run hrun hv).within n hn
    simp only [Mailbox.isFull, hn, decide_eq_true_eq] at hisfull
    exact Nat.le_antisymm hle hisfull
  refine ⟨v, hv, ?_, by rw [hpending, hn]⟩
  cases (work_eq_none_iff hv).1 (hstill _ (.work k)) with
  | held h => exact h
  | sending hp hw => exact absurd hw (hfree.not_noRoom hrun hv hp)
  | idle hp hnext =>
      -- a waiting worker without any room has the job passed to it
      refine absurd ⟨?_, ?_⟩ hpass
      · rw [hn, ← hpending, Mailbox.pending, (Mailbox.next_eq_none_iff.1 hnext).2.2.1]
        rfl
      · simp [Worker.idle, hp, hnext]
  | gone hp =>
      rw [(sound_of_run hrun hv).gone.2 (by rw [hp]; rfl)] at hinbox
      cases hinbox

/-- What there is when nobody can do anything unasked. -/
theorem resting_of_still {moves : List (Move α)} (hrun : run {} moves = some w) (hstill : w.Still)
    (hfree : w.Unhindered) : Resting (fun k => trace (loopEvents k) {} moves) w where
  workers hv := rests_of_still hrun hstill hfree hv
  clients hc _ _ hs := full_of_still hrun hstill hfree hc hs
  stopping hv hl := by
    cases rests_of_still hrun hstill hfree hv with
    | held h => exact h
    | idle hp hl' =>
        rw [hl] at hl'
        cases hl'
    | gone hp hl' =>
        rw [hl] at hl'
        cases hl'
  served {k v} hv hl hn := by
    cases rests_of_still hrun hstill hfree hv with
    | held h =>
        rw [h] at hn
        cases hn
    | gone hp hl' =>
        rw [hl] at hl'
        cases hl'
    | idle hp hl' hq =>
        have hcustody := custody_of_run hrun hv
        have hinbox : v.mailbox.inbox = true := by
          cases hi : v.mailbox.inbox with
          | true => rfl
          | false =>
              obtain ⟨d, hd⟩ := hcustody.gone hi
              rw [hd] at hp
              cases hp
        have hempty : v.mailbox.queue = [] := List.length_eq_zero_iff.1 hq
        have haccepted : v.accepted = v.started := by
          rw [(hcustody.kept hinbox).1, hempty, List.append_nil]
        refine ⟨haccepted.symm, ?_⟩
        have hserial := hcustody.serial
        rw [hp] at hserial
        rw [haccepted, hserial]
        rfl

/-- A job that could not insist on sending another one has none to send, and looks at nobody's
lifecycle. -/
theorem enterFrom_eq_none_of_insist (h : w.insist k = none) : w.enterFrom k = none := by
  unfold insist at h
  unfold enterFrom
  split
  · rename_i hphase
    rw [hphase] at h
    cases h
  · rfl

/-- Only the steps of workers and of clients in calls have to be looked at. -/
theorem still_of_steps (hwork : ∀ k, w.work k = none) (hresume : ∀ c, w.resume c = none) :
    w.Still := by
  -- a job that can insist on sending can also send
  have hinsist : ∀ k, w.insist k = none := by
    intro k
    have := hwork k
    unfold insist
    split
    · rename_i route job rest hphase
      obtain ⟨u, hu, hp⟩ := Option.map_eq_some_iff.1 hphase
      simp [work, hu, hp] at this
    · rfl
  intro m hm
  cases hm with
  | work k => exact hwork k
  | resume c => exact hresume c
  | insist k => exact hinsist k
  | enter k => exact enterFrom_eq_none_of_insist (hinsist k)

theorem still_of_next? (h : w.next? = none) : w.Still := by
  simp only [next?, Option.orElse_eq_orElse, Option.orElse_eq_or, Option.or_eq_none_iff,
    List.findSome?_eq_none_iff, List.mem_range] at h
  obtain ⟨hclients, hworkers⟩ := h
  refine still_of_steps (fun k => ?_) (fun c => ?_)
  · rcases Nat.lt_or_ge k w.workers.length with hk | hk
    · exact hworkers k hk
    · simp [work, List.getElem?_eq_none_iff.2 hk]
  · rcases Nat.lt_or_ge c w.clients.length with hc | hc
    · exact hclients c hc
    · simp [resume, List.getElem?_eq_none_iff.2 hc]

theorem next?_of_still (h : w.Still) : w.next? = none := by
  simp only [next?, Option.orElse_eq_orElse, Option.orElse_eq_or, Option.or_eq_none_iff,
    List.findSome?_eq_none_iff]
  exact ⟨fun c _ => h _ (.resume c), fun k _ => h _ (.work k)⟩

/-- **Everything comes to rest, and to a rest as it is meant.**  From any workshop that
a run led to and in which no job is left that will wait for room, nobody can go on
unasked more often than the weight says, in whatever order they go; from wherever that
leads rest can be reached; and at rest workers and clients are where they may be. -/
theorem comes_to_rest {first : List (Move α)} (hfirst : run {} first = some w)
    (hfree : w.Unhindered) {moves : List (Move α)} (hm : ∀ m ∈ moves, m.Unasked)
    (h : w.run moves = some w') :
    moves.length + w'.weight ≤ w.weight ∧
    (∃ more w'', (∀ m ∈ more, m.Unasked) ∧ w'.run more = some w'' ∧ w''.Still) ∧
    (w'.Still → Resting (fun k => trace (loopEvents k) {} (first ++ moves)) w') := by
  refine ⟨length_add_weight_le hm h, ?_, fun hstill => ?_⟩
  · obtain ⟨more, hmore, hrun⟩ := run_settle w'
    exact ⟨more, _, hmore, hrun, still_of_next? (next?_settle w')⟩
  · exact resting_of_still (by rw [run_append_of_run hfirst, h]) hstill (hfree.run hm h)

/-- A run after which a job stands at a gate, a client waits in a call to its worker,
and another worker has a job to take up that sends jobs to both. -/
def pausedRun : List (Move Nat) :=
  [ .hire {} "pot" none, .hire { capacity := some 1 } "kettle" none, .welcome, .welcome,
    .call .prompt 0 1 (.act .gate .done), .work 1, .call .prompt 0 1 .done,
    .call .patient 1 1 .done,
    .call .prompt 0 0
      (.send ⟨.patient, none⟩ (.act (.log 7) .done) (.send ⟨.prompt, some 1⟩ .done .done)) ]

/-- No job that is left after the run will wait for room. -/
theorem unhindered_of_pausedRun {w : Workshop Nat} (h : run {} pausedRun = some w) :
    w.Unhindered := by
  obtain rfl : _ = w := Option.some.inj h
  refine ⟨fun {k v} hv => ?_, fun {n client} hc k mail hs => ?_⟩
  · match k, hv with
    | 0, hv =>
        cases hv
        refine ⟨fun mail hmail => ?_, nofun, nofun, nofun⟩
        rw [List.mem_singleton.1 hmail]
        exact ⟨fun _ v hv => by cases hv; rfl, trivial, nofun, trivial, trivial⟩
    | 1, hv =>
        cases hv
        refine ⟨fun mail hmail => ?_, fun _ _ => trivial, fun rest hrest => ?_, nofun⟩
        · rw [List.mem_singleton.1 hmail]
          trivial
        · cases hrest
          trivial
    | k + 2, hv => cases hv
  · match n, hc with
    | 0, hc => cases hc; cases hs
    | 1, hc => cases hc; cases hs; trivial
    | n + 2, hc => cases hc

/-- From there nobody can go on for ever, and where rest is reached, the worker with jobs
left to take up has run them all. -/
theorem comes_to_rest_paused : ∃ w w', run {} pausedRun = some w ∧
    w.run [.work 0, .work 0, .work 0, .work 0, .work 0, .work 0, .work 0] = some w' ∧ w'.Still ∧
    w'.workers.map Worker.held = [false, true] ∧
    Resting (fun k => trace (loopEvents k) {}
      (pausedRun ++ [.work 0, .work 0, .work 0, .work 0, .work 0, .work 0, .work 0])) w' := by
  obtain ⟨w, hw⟩ : ∃ w, run {} pausedRun = some w := ⟨_, rfl⟩
  have hm : ∀ m ∈ List.replicate 7 (Move.work 0 : Move Nat), m.Unasked := by
    intro m hm
    rw [List.eq_of_mem_replicate hm]
    exact .work 0
  obtain ⟨w', hw'⟩ : ∃ w', w.run (List.replicate 7 (.work 0)) = some w' := by
    cases hw
    exact ⟨_, rfl⟩
  have hstill : w'.Still := by
    cases hw
    cases hw'
    exact still_of_next? rfl
  have hrest := (comes_to_rest hw (unhindered_of_pausedRun hw) hm hw').2.2 hstill
  refine ⟨w, w', hw, hw', hstill, ?_, hrest⟩
  cases hw
  cases hw'
  rfl

end SerialWorkers.Workshop
