import Mathlib.Data.List.Pairwise
import SerialWorkers.Proofs.Workshop.Ledger

/-!
# Jobs are served in order, one at a time

Whatever the clients, the workers and their jobs do, and in whatever order, a
worker starts the jobs it accepted in the order it accepted them, and it starts
none before the one before has ended.

* `Workshop.ServesInOrder` — what that says, worker by worker.
* `Workshop.serves_in_order` — it holds of every worker at all times.
-/

namespace SerialWorkers.Workshop

variable {α : Type} {told : List (SubmitResult α)} {w : Workshop α}

/-! ## What the ledger says of one worker -/

/-- The jobs a worker accepted go by the order of sending, sender by sender. -/
theorem Ledger.pairwise_acceptedBy (h : Ledger told w) (k : Nat) :
    (acceptedBy k told).Pairwise Precedes := by
  rw [acceptedBy, List.pairwise_map]
  refine (h.ordered.filter _).imp_of_mem fun ha hb hab => hab ?_
  have hka := (List.mem_filter.1 ha).2
  have hkb := (List.mem_filter.1 hb).2
  simp only [decide_eq_true_eq] at hka hkb
  rw [hka.1, hkb.1]

/-- A job whose sender was told otherwise has no ticket of an accepted job. -/
theorem Ledger.ticket_notMem_acceptedBy (h : Ledger told w) {r : SubmitResult α} (hr : r ∈ told)
    (hn : r.receipt ≠ .accepted) :
    r.mail.ticket ∉ (acceptedBy r.worker told).map Parcel.ticket := by
  intro hmem
  obtain ⟨mail, hmail, htick⟩ := List.mem_map.1 hmem
  obtain ⟨r', hr', rfl⟩ := List.mem_map.1 hmail
  obtain ⟨hr', hacc⟩ := List.mem_filter.1 hr'
  simp only [decide_eq_true_eq] at hacc
  -- any two results of sending a job to one worker have different tickets
  have hdiff : told.Pairwise fun a b => a.worker = b.worker → a.mail.ticket ≠ b.mail.ticket :=
    h.ordered.imp fun hab hk => (hab hk).1
  have hsymm : Std.Symm fun a b : SubmitResult α =>
      a.worker = b.worker → a.mail.ticket ≠ b.mail.ticket :=
    ⟨fun a b hab hk => (hab hk.symm).symm⟩
  have hne : r' ≠ r := by
    rintro rfl
    exact hn hacc.2
  exact hdiff.forall hr' hr hne hacc.1 htick

/-! ## In order, one at a time -/

/-- Worker `k`, found as `v` after its senders were `told` and after `ds` was told
of its thread, serves in order. -/
structure ServesInOrder (told : List (SubmitResult α)) (ds : List (LoopEvent α)) (k : Nat)
    (v : Worker α) : Prop where
  /-- The jobs accepted are those whose senders were told so, in that order. -/
  accepted : v.accepted = acceptedBy k told
  /-- They are the jobs started, in that order, and behind those what is queued or,
  once the thread is gone, what it left behind. -/
  conserved : v.accepted = v.started ++
    if v.mailbox.inbox = true then v.mailbox.queue else ds.flatMap LoopEvent.leftBehind
  /-- No job is accepted twice. -/
  distinct : (v.accepted.map Parcel.ticket).Nodup
  /-- A job whose sender was told that it was refused is not among them. -/
  refused : ∀ r ∈ told, r.worker = k → r.receipt ≠ .accepted →
    r.mail.ticket ∉ v.accepted.map Parcel.ticket
  /-- All jobs started have ended, but for the one the thread is in. -/
  serial : v.started.length = ds.countP LoopEvent.endsJob + if v.phase.inJob = true then 1 else 0
  /-- The jobs of one sender are accepted and started in the order it sent them. -/
  inOrder : ∀ s : Sender,
    ((v.accepted.filter fun mail => mail.sender = s).map Parcel.ticket).Pairwise (· < ·) ∧
      (v.started.filter fun mail => mail.sender = s) <+:
        v.accepted.filter fun mail => mail.sender = s

/-- **Every worker serves in order, one job at a time.**  This holds after any
number of hires, with any bounds and policies, and any moves of clients, workers
and owners in any order; what clients were told is what they remember. -/
theorem serves_in_order {moves : List (Move α)} (h : run {} moves = some w) :
    (∀ {k : Nat} {v : Worker α}, w.workers[k]? = some v →
      ServesInOrder (trace submitResults {} moves) (trace (loopEvents k) {} moves) k v) ∧
    ∀ {c : Nat} {client : Client α}, w.clients[c]? = some client →
      client.receipts = toldTo (.client c) (trace submitResults {} moves) := by
  refine ⟨fun {k v} hv => ?_, fun {c client} hc => ?_⟩
  · have hl := ledger_of_run h
    have hcust := custody_of_run h hv
    have hacc : v.accepted = acceptedBy k (trace submitResults {} moves) :=
      hl.accepted (intake_of_getElem? hv)
    have hpair := hl.pairwise_acceptedBy k
    have hcons : v.accepted = v.started ++ if v.mailbox.inbox = true then v.mailbox.queue
        else (trace (loopEvents k) {} moves).flatMap LoopEvent.leftBehind := by
      split
      · rename_i hi
        exact (hcust.kept hi).1
      · rename_i hi
        exact hcust.left (by simpa using hi)
    refine ⟨hacc, hcons, ?_, ?_, hcust.serial, fun s => ⟨?_, ?_⟩⟩
    · rw [hacc]
      exact List.pairwise_map.2 (hpair.imp And.left)
    · rintro r hr rfl hn
      rw [hacc]
      exact hl.ticket_notMem_acceptedBy hr hn
    · rw [hacc, List.pairwise_map]
      refine (hpair.filter _).imp_of_mem fun ha hb hab => hab.2 ?_
      have hsa := (List.mem_filter.1 ha).2
      have hsb := (List.mem_filter.1 hb).2
      simp only [decide_eq_true_eq] at hsa hsb
      rw [hsa, hsb]
    · rw [hcons, List.filter_append]
      exact List.prefix_append _ _
  · rw [remembered_of_run h c, hc]
    rfl

/-- A run in which a client waits in a call, one is refused, and a job panics
with another one queued behind it. -/
def crowdedRun : List (Move Nat) :=
  [ .hire { capacity := some 1 } "pot" none, .welcome, .welcome,
    .call .patient 0 0 (.act .gate .done), .work 0,
    .call .patient 0 0 (.act (.panic .other) .done), .call .patient 1 0 .done,
    .call .prompt 0 0 .done, .release 0, .work 0, .work 0, .resume 1, .work 0, .work 0, .work 0 ]

/-- In the crowded run two of the three jobs accepted are started, in order, and
the last one is left behind. -/
theorem serves_in_order_crowded :
    ∃ w v, run {} crowdedRun = some w ∧ w.workers[0]? = some v ∧
      v.accepted.map Parcel.ticket = [0, 1, 2] ∧ v.started.map Parcel.ticket = [0, 1] ∧
      ServesInOrder (trace submitResults {} crowdedRun) (trace (loopEvents 0) {} crowdedRun) 0 v :=
  ⟨_, _, rfl, rfl, rfl, rfl, (@serves_in_order Nat _ crowdedRun rfl).1 rfl⟩

end SerialWorkers.Workshop
