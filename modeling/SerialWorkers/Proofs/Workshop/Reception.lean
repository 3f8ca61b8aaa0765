import SerialWorkers.Proofs.Workshop.Resting

/-!
# Sending to a worker at rest

Where nobody can go on unasked, a worker answers whoever sends it a job in one of three
ways.  It refuses the job if it was stopped, whatever room there is.  It has the sender
wait if it is held up in a job and there is no room left.  And otherwise it takes the job
in: no third thing can keep it from that, for the inbox is only freed after the mailbox
was marked as ended.

* `Worker.Crowded` — held up in a job, with no room left.
* `Worker.Receives` — how a worker receives a job; `Worker.receives_of_halts`.
* `Workshop.Still.visited` — a sender in vain leaves everybody where they are.
* `Workshop.blocks_iff` — which workers a patient sender waits for without end.
-/

namespace SerialWorkers

open Workshop

variable {α : Type}

namespace Worker

variable {v : Worker α} {sender : Sender} {job : Work α}

/-! ## One worker -/

/-- Whether the thread of a worker is held up in a job: at a gate, or in a call that waits
for room elsewhere. -/
def detained (v : Worker α) : Bool :=
  v.held || v.phase matches .sending ..

/-- Where nobody waits for room elsewhere, it is held up at a gate. -/
theorem detained_of_rests (h : Rests v) : v.detained = v.held := by
  cases h with
  | held h => simp [detained, h]
  | idle hp | gone hp => simp [detained, hp]

/-- A worker is held up in a job, and there is no room left in its mailbox. -/
def Crowded (v : Worker α) : Prop :=
  v.detained = true ∧ v.mailbox.capacity = some v.mailbox.pending

/-- How a worker receives a job. -/
inductive Receives (v : Worker α) (sender : Sender) (job : Work α) : Prop
  /-- It was stopped, and refuses the job. -/
  | closed (ho : v.mailbox.isOpen = false)
      (h : v.post sender job = (.refused .closed, v.counted))
  /-- It has the sender wait. -/
  | waits (ho : v.mailbox.isOpen = true) (hc : v.Crowded)
      (h : v.post sender job = (.waits, v.counted))
  /-- It takes the job in. -/
  | accepts (ho : v.mailbox.isOpen = true) (hc : ¬ v.Crowded)
      (h : (v.post sender job).1 = .accepted)

/-- A mailbox is full when all the room it ever has is taken. -/
theorem isFull_iff_of_sound (h : Sound false v) :
    v.mailbox.isFull = true ↔ v.mailbox.capacity = some v.mailbox.pending := by
  cases hc : v.mailbox.capacity with
  | none => simp [Mailbox.isFull, hc]
  | some n =>
      have hle := h.within n hc
      simp only [Mailbox.isFull, hc, decide_eq_true_eq, Option.some.injEq]
      omega

/-- A worker that is held up in a job stands nowhere else. -/
theorem ne_waiting_of_detained (h : v.detained = true) : v.phase ≠ .waiting := by
  intro hp
  simp [detained, held, hp] at h

theorem phase_of_idle (h : v.idle = true) : v.phase = .waiting := by
  unfold idle at h
  cases hp : v.phase <;> simp_all

/-- An open mailbox refuses nobody. -/
theorem post_of_ne_waits (hs : Sound false v) (ho : v.mailbox.isOpen = true)
    (hw : (v.post sender job).1 ≠ .waits) : (v.post sender job).1 = .accepted := by
  have hinbox := hs.inbox_of_isOpen ho
  rw [post_of_isOpen ho] at hw ⊢
  have hh := handed_put v.counted (v.mailFrom sender job)
  generalize v.counted.put (v.mailFrom sender job) = put at hw hh
  cases hh with
  | refused hi => exact absurd (hi.symm.trans hinbox) (by simp)
  | queued | passed => rfl
  | waits => exact absurd rfl hw

/-- **A worker that can take no step has a sender wait if it is crowded**, and only then. -/
theorem post_waits_iff {w : Workshop α} (hs : Sound false v) (hh : w.Halts v)
    (ho : v.mailbox.isOpen = true) : (v.post sender job).1 = .waits ↔ v.Crowded := by
  have hinbox := hs.inbox_of_isOpen ho
  have hwaits : (v.post sender job).1 = .waits ↔ v.mailbox.isFull = true ∧
      ¬ (v.mailbox.capacity = some 0 ∧ v.idle = true) := by
    rw [post_of_isOpen ho, put_waits_iff]
    exact and_iff_right hinbox
  rw [hwaits, isFull_iff_of_sound hs, Crowded, and_comm]
  refine and_congr_left fun hc => ⟨fun hpass => ?_, fun hd hpass => ?_⟩
  · cases hh with
    | held h => simp [detained, h]
    | sending hp => simp [detained, hp]
    | idle hp hn =>
        -- a waiting worker without any room has the job passed to it
        refine absurd ⟨?_, by simp [idle, hp, hn]⟩ hpass
        rw [hc, Mailbox.pending, (Mailbox.next_eq_none_iff.1 hn).2.2.1]
        rfl
    | gone hp =>
        rw [Mailbox.isOpen, hs.out.2 (by rw [hp]; rfl)] at ho
        cases ho
  · exact ne_waiting_of_detained hd (phase_of_idle hpass.2)

/-- **A worker that can take no step receives a job in one of three ways.** -/
theorem receives_of_halts {w : Workshop α} (hs : Sound false v) (hh : w.Halts v)
    (sender : Sender) (job : Work α) : Receives v sender job := by
  cases ho : v.mailbox.isOpen with
  | false => exact .closed ho (by simp [post, ho, counted])
  | true =>
      by_cases hw : (v.post sender job).1 = .waits
      · refine .waits ho ((post_waits_iff hs hh ho).1 hw) ?_
        rw [post_of_isOpen ho] at hw ⊢
        exact Prod.ext hw (put_of_waits hw)
      · exact .accepts ho (mt (post_waits_iff hs hh ho).2 hw) (post_of_ne_waits hs ho hw)

/-- How often somebody tried is nothing to a sender that puts its job in. -/
theorem put_counted_waits_iff {mail : Mail α} :
    (v.counted.put mail).1 = .waits ↔ (v.put mail).1 = .waits := by
  rw [put_waits_iff, put_waits_iff]
  rfl

end Worker

namespace Workshop

variable {w w' : Workshop α} {k : Nat} {v : Worker α} {m : Move α} {client : Client α}

/-! ## A new client calls -/

/-- The workshop after a new client has called worker `k` in vain, and this is what there
is of the client. -/
def visited (w : Workshop α) (k : Nat) (client : Client α) : Workshop α :=
  { w with workers := w.workers.modify k Worker.counted, clients := w.clients ++ [client] }

/-- What there is of a new client that sent worker `k` a job, by what it was told; one that
was told to wait is patient. -/
def newcomer (k : Nat) (mail : Mail α) : Receipt → Client α
  | .waits => { sending := some (k, mail) }
  | r => { receipts := [r] }

/-- Changing the last of a list. -/
theorem modify_length_append {β : Type} (f : β → β) (l : List β) (b : β) :
    (l ++ [b]).modify l.length f = l ++ [f b] := by
  induction l with
  | nil => rfl
  | cons a l ih => exact congrArg (a :: ·) ih

/-- **A new client calls a worker**, which receives its job as it does. -/
theorem call_welcome (hv : w.workers[k]? = some v) (manner : Manner) (job : Work α) :
    w.welcome.call manner w.clients.length k job = some
      { w with
        workers := w.workers.modify k fun _ => (v.post (.client w.clients.length) job).2
        clients := w.clients ++ [newcomer k (v.mailFrom (.client w.clients.length) job)
          ((v.post (.client w.clients.length) job).1.inManner manner)] } := by
  have hclient : w.welcome.clients[w.clients.length]? = some {} := by simp [welcome]
  have hworker : w.welcome.workers[k]? = some v := hv
  simp only [call, hclient, hworker, Option.isSome_none, Bool.false_eq_true, if_false]
  cases hr : (v.post (.client w.clients.length) job).1.inManner manner with
  | waits =>
      obtain rfl := (Receipt.inManner_eq_waits_iff.1 hr).2
      simp [newcomer, welcome, change, changeClient, modify_length_append]
  | accepted | refused =>
      simp [newcomer, Client.told, welcome, change, changeClient, modify_length_append]

/-- One that takes it in does so in whatever manner it is sent. -/
theorem call_accepted (hv : w.workers[k]? = some v) {job : Work α}
    (h : (v.post (.client w.clients.length) job).1 = .accepted) :
    ∃ w₁, (∀ manner, w.welcome.call manner w.clients.length k job = some w₁) ∧
      w₁.clients[w.clients.length]? = some { receipts := [.accepted] } := by
  refine ⟨{ w with
    workers := w.workers.modify k fun _ => (v.post (.client w.clients.length) job).2
    clients := w.clients ++ [{ receipts := [.accepted] }] }, fun manner => ?_, by simp⟩
  rw [call_welcome hv, h]
  cases manner <;> rfl

/-- One that does not take the job in only counts the attempt. -/
theorem call_in_vain {r : Receipt} (hv : w.workers[k]? = some v) {job : Work α}
    (h : v.post (.client w.clients.length) job = (r, v.counted)) (manner : Manner) :
    w.welcome.call manner w.clients.length k job = some (w.visited k
      (newcomer k (v.mailFrom (.client w.clients.length) job) (r.inManner manner))) := by
  have hcounted : w.workers.modify k (fun _ => v.counted) = w.workers.modify k Worker.counted := by
    refine List.ext_getElem? fun t => ?_
    rw [List.getElem?_modify, List.getElem?_modify]
    split
    · rename_i ht
      rw [← ht, hv]
      rfl
    · rfl
  rw [call_welcome hv, h, hcounted]
  rfl

theorem getElem?_visited (t : Nat) : (w.visited k client).workers[t]?
    = (w.workers[t]?).map fun u => if k = t then u.counted else u := by
  simp only [visited, List.getElem?_modify]
  rfl

/-- It makes no room. -/
theorem NoRoom.visited {manner : Manner} {t : Nat} {mail : Mail α} (h : w.NoRoom manner t mail) :
    (w.visited k client).NoRoom manner t mail := by
  intro u hu
  rw [getElem?_visited] at hu
  obtain ⟨u', hu', rfl⟩ := Option.map_eq_some_iff.1 hu
  split
  · obtain ⟨hwaits, hpatient⟩ := Receipt.inManner_eq_waits_iff.1 (h u' hu')
    exact Receipt.inManner_eq_waits_iff.2 ⟨Worker.put_counted_waits_iff.2 hwaits, hpatient⟩
  · exact h u' hu'

/-- And who can take no step can take none after it. -/
theorem Halts.visited (h : w.Halts v) (k : Nat) (client : Client α) :
    (w.visited k client).Halts v ∧ (w.visited k client).Halts v.counted := by
  cases h with
  | held h => exact ⟨.held h, .held h⟩
  | idle hp hn => exact ⟨.idle hp hn, .idle hp hn⟩
  | sending hp hw => exact ⟨.sending hp hw.visited, .sending hp hw.visited⟩
  | gone hp => exact ⟨.gone hp, .gone hp⟩

/-- **A call in vain leaves everybody where they are**, be the client done with it or
waiting for room that there is not. -/
theorem Still.visited (h : w.Still) (k : Nat) (client : Client α)
    (hc : ∀ t mail, client.sending = some (t, mail) → w.NoRoom client.manner t mail) :
    (w.visited k client).Still := by
  refine still_of_steps (fun t => ?_) (fun c => ?_)
  · cases hu : w.workers[t]? with
    | none => simp [work, getElem?_visited, hu]
    | some u =>
        have hhalts := ((work_eq_none_iff hu).1 (h _ (.work t))).visited k client
        have hget : (w.visited k client).workers[t]? = some (if k = t then u.counted else u) := by
          rw [getElem?_visited, hu]
          rfl
        rw [work_eq_none_iff hget]
        split
        · exact hhalts.2
        · exact hhalts.1
  · rcases Nat.lt_trichotomy c w.clients.length with hlt | rfl | hgt
    · have hget : (w.visited k client).clients[c]? = some w.clients[c] := by
        simp [Workshop.visited, List.getElem?_append_left hlt]
      rw [resume_eq_none_iff hget]
      intro t mail hs
      exact ((resume_eq_none_iff (List.getElem?_eq_getElem hlt)).1 (h _ (.resume c)) t mail
        hs).visited
    · have hget : (w.visited k client).clients[w.clients.length]? = some client := by
        simp [Workshop.visited]
      rw [resume_eq_none_iff hget]
      exact fun t mail hs => (hc t mail hs).visited
    · have hget : (w.visited k client).clients[c]? = none := by
        simp [Workshop.visited]
        omega
      simp [resume, hget]

/-! ## Clients that are done -/

/-- Nobody does anything unasked to a client that is in no call. -/
theorem client_of_unasked {c : Nat} (hm : m.Unasked) (h : w.move m = some w')
    (hc : w.clients[c]? = some client) (hs : client.sending = none) :
    w'.clients[c]? = some client := by
  obtain ⟨rs, h⟩ : ∃ rs, Moved w m rs w' := ⟨_, moved_of_move h⟩
  cases h with
  | hire | hireFails | welcome | called | stops | leaves | abandons | clones | drops => cases hm
  | enters hcalls => cases hcalls <;> cases hm
  | goesOn | advances | sends | sendEnters | sendsOn => exact hc
  | stopsFrom => exact (congrArg (·[c]?) (clients_stopBy w _ _ _)).trans hc
  | @resumed c' t client' mail u r hc' hs' =>
      have hne : c' ≠ c := by
        rintro rfl
        rw [hc] at hc'
        cases hc'
        rw [hs] at hs'
        cases hs'
      simp [changeClient, change, hne, hc]

theorem client_of_run {c : Nat} {moves : List (Move α)} (hm : ∀ m ∈ moves, m.Unasked)
    (h : w.run moves = some w') (hc : w.clients[c]? = some client) (hs : client.sending = none) :
    w'.clients[c]? = some client := by
  induction moves generalizing w with
  | nil =>
      cases h
      exact hc
  | cons m moves ih =>
      rw [run_cons] at h
      obtain ⟨u, hu, h⟩ := Option.bind_eq_some_iff.1 h
      exact ih (fun m' hm' => hm m' (List.mem_cons_of_mem _ hm')) h
        (client_of_unasked (hm m List.mem_cons_self) hu hc hs)

theorem client_settle {c : Nat} (hc : w.clients[c]? = some client) (hs : client.sending = none) :
    w.settle.clients[c]? = some client := by
  obtain ⟨moves, hm, hrun⟩ := run_settle w
  exact client_of_run hm hrun hc hs

/-! ## Calls without end -/

/-- A new client that sends worker `k` a job patiently is in the call then, and stays in it
whatever happens unasked. -/
def Blocks (w : Workshop α) (k : Nat) (job : Work α) : Prop :=
  ∃ w₁, w.welcome.call .patient w.clients.length k job = some w₁ ∧
    ∀ moves w₂, (∀ m ∈ moves, m.Unasked) → w₁.run moves = some w₂ →
      ((w₂.clients[w.clients.length]?).bind Client.sending).isSome = true

theorem run_of_still {moves : List (Move α)} (h : w.Still) (hm : ∀ m ∈ moves, m.Unasked)
    (hrun : w.run moves = some w') : w' = w := by
  cases moves with
  | nil =>
      cases hrun
      rfl
  | cons m moves =>
      rw [run_cons, h m (hm m List.mem_cons_self)] at hrun
      cases hrun

/-- Who was told to wait finds no room later. -/
theorem noRoom_of_waits (hv : w.workers[k]? = some v) (ho : v.mailbox.isOpen = true)
    {sender : Sender} {job : Work α} (h : (v.post sender job).1 = .waits) :
    w.NoRoom .patient k (v.mailFrom sender job) := by
  intro u hu
  rw [hv] at hu
  cases hu
  rw [Worker.post_of_isOpen ho] at h
  exact Receipt.inManner_eq_waits_iff.2 ⟨Worker.put_counted_waits_iff.1 h, rfl⟩

/-- **At rest a patient client stays in its call to a crowded worker**, and to no other. -/
theorem blocks_iff (hstill : w.Still) (hv : w.workers[k]? = some v) {job : Work α}
    (hr : v.Receives (.client w.clients.length) job) :
    w.Blocks k job ↔ v.mailbox.isOpen = true ∧ v.Crowded := by
  constructor
  · rintro ⟨w₁, hcall, hstays⟩
    have hnow := hstays [] w₁ (by simp) rfl
    rw [call_welcome hv] at hcall
    cases hcall
    cases hr with
    | closed ho h => simp [h, newcomer, Receipt.inManner] at hnow
    | waits ho hc => exact ⟨ho, hc⟩
    | accepts ho hc h => simp [h, newcomer, Receipt.inManner] at hnow
  · rintro ⟨ho, hc⟩
    cases hr with
    | closed ho' => simp [ho] at ho'
    | accepts _ hc' => exact absurd hc hc'
    | waits _ _ h =>
        refine ⟨_, call_in_vain hv h .patient, fun moves w₂ hm hrun => ?_⟩
        have hroom := noRoom_of_waits hv ho (congrArg Prod.fst h)
        have hrest := hstill.visited k (newcomer k (v.mailFrom (.client w.clients.length) job)
          (Receipt.waits.inManner .patient)) (by
            intro t mail hs
            cases hs
            exact hroom)
        rw [run_of_still hrest hm hrun]
        simp [Workshop.visited, newcomer, Receipt.inManner]

end Workshop

end SerialWorkers
