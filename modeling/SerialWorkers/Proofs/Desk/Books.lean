import SerialWorkers.Desk.Run

/-!
# The books of a desk

Whatever a job under service asks of the desk is answered at once, and what it
does to the desk can be read off the answers in the log.  The books say how a
desk came out of another: what was delivered and accepted in between, what was
logged, and what that comes to for the queue, the status and the notice.

* `Desk.Books` — the books; `Books.trans` puts two of them together.
* `Desk.books_ask`, `Desk.books_send` — the books of one request.
* `Work.firstPanic` — how a job will end.
-/

namespace SerialWorkers

namespace Desk

variable {α : Type}

/-! ## What a job will do -/

/-- The payload an act panics with, if it does. -/
def Act.payload? : Act α → Option Payload
  | .panic p => some p
  | _ => none

/-- The payload a job panics with, if it does: acts are done in order, and none of
them but a panic can end the job. -/
def firstPanic (job : Work α) : Option Payload := job.findSome? Act.payload?

/-- The payloads that jobs panicked with, in order. -/
def panics (jobs : List (Mail α)) : List Payload := jobs.filterMap fun mail => firstPanic mail.job

/-! ## What the log says -/

/-- The status that an entry says was recorded. -/
def Entry.recorded : Entry α → Option Int
  | .answered (.setStatus status) _ => some status
  | _ => none

/-- Whether an entry says that a notice was left. -/
def Entry.leavesNotice : Entry α → Bool
  | .answered .giveNotice (.notice .left) => true
  | _ => false

/-- The status last recorded, after `status` was and `es` was logged. -/
def lastStatus (status : Int) (es : List (Entry α)) : Int :=
  (es.filterMap Entry.recorded).getLast?.getD status

/-- How many notices were left, by what was logged. -/
def noticesLeft (es : List (Entry α)) : Nat := es.countP Entry.leavesNotice

@[simp] theorem lastStatus_nil (status : Int) : lastStatus status ([] : List (Entry α)) = status :=
  rfl

@[simp] theorem noticesLeft_nil : noticesLeft ([] : List (Entry α)) = 0 := rfl

theorem lastStatus_singleton (status : Int) (e : Entry α) :
    lastStatus status [e] = e.recorded.getD status := by
  rw [lastStatus, List.filterMap_cons]
  cases e.recorded <;> rfl

theorem lastStatus_append (status : Int) (es es' : List (Entry α)) :
    lastStatus status (es ++ es') = lastStatus (lastStatus status es) es' := by
  rw [lastStatus, lastStatus, lastStatus, List.filterMap_append, List.getLast?_append]
  cases (es'.filterMap Entry.recorded).getLast? <;> rfl

theorem noticesLeft_append (es es' : List (Entry α)) :
    noticesLeft (es ++ es') = noticesLeft es + noticesLeft es' :=
  List.countP_append

theorem panics_append (jobs jobs' : List (Mail α)) :
    panics (jobs ++ jobs') = panics jobs ++ panics jobs' :=
  List.filterMap_append

/-! ## The books -/

/-- Desk `d` has come to be `d'`: it delivered `ran`, accepted `sent` and logged `es`. -/
structure Books (d : Desk α) (ran sent : List (Mail α)) (es : List (Entry α)) (d' : Desk α) :
    Prop where
  /-- What was delivered. -/
  delivered : d'.delivered = d.delivered ++ ran
  /-- What was accepted. -/
  accepted : d'.accepted = d.accepted ++ sent
  /-- What was queued or accepted was delivered, in order, or is queued. -/
  queue : d.mailbox.queue ++ sent = ran ++ d'.mailbox.queue
  /-- What was logged. -/
  log : d'.log = d.log ++ es
  /-- The status is the one last recorded. -/
  status : d'.mailbox.status = lastStatus d.mailbox.status es
  /-- The notices left are in the slot. -/
  notices : d.mailbox.notice.toNat + noticesLeft es = d'.mailbox.notice.toNat
  /-- It is the same mailbox. -/
  identity : d'.mailbox.identity = d.mailbox.identity

variable {d d' d'' : Desk α} {ran sent ran' sent' : List (Mail α)} {es es' : List (Entry α)}

theorem books_refl (d : Desk α) : Books d [] [] [] d where
  delivered := (List.append_nil _).symm
  accepted := (List.append_nil _).symm
  queue := List.append_nil _
  log := (List.append_nil _).symm
  status := rfl
  notices := rfl
  identity := rfl

/-- **Books that follow each other are put together.** -/
theorem Books.trans (h : Books d ran sent es d') (h' : Books d' ran' sent' es' d'') :
    Books d (ran ++ ran') (sent ++ sent') (es ++ es') d'' where
  delivered := by rw [h'.delivered, h.delivered, List.append_assoc]
  accepted := by rw [h'.accepted, h.accepted, List.append_assoc]
  queue := by
    calc d.mailbox.queue ++ (sent ++ sent') = (ran ++ d'.mailbox.queue) ++ sent' := by
          rw [← h.queue, List.append_assoc]
      _ = ran ++ (ran' ++ d''.mailbox.queue) := by rw [List.append_assoc, h'.queue]
      _ = (ran ++ ran') ++ d''.mailbox.queue := (List.append_assoc _ _ _).symm
  log := by rw [h'.log, h.log, List.append_assoc]
  status := by rw [h'.status, h.status, lastStatus_append]
  notices := by
    rw [noticesLeft_append, ← h'.notices, ← h.notices, Nat.add_assoc]
  identity := h'.identity.trans h.identity

/-- Something that happens at the desk and delivers nothing. -/
theorem Books.quiet (h : Books d ran sent es d') (h' : Books d' [] sent' es' d'') :
    Books d ran (sent ++ sent') (es ++ es') d'' := by
  have := h.trans h'
  rwa [List.append_nil] at this

/-- What the services reported is not in the books. -/
theorem Books.report (h : Books d ran sent es d') (events : List Event) :
    Books d ran sent es (d'.report events) :=
  ⟨h.delivered, h.accepted, h.queue, h.log, h.status, h.notices, h.identity⟩

/-- The next job in the queue is delivered. -/
theorem books_deliver {mail : Mail α} {rest : List (Mail α)}
    (hq : d.mailbox.queue = mail :: rest) :
    Books d [mail] [] [] (d.deliver { d.mailbox with queue := rest } mail) where
  delivered := rfl
  accepted := (List.append_nil _).symm
  queue := by rw [hq, List.append_nil]; rfl
  log := (List.append_nil _).symm
  status := rfl
  notices := rfl
  identity := rfl

/-- A job writes a value. -/
theorem books_write_value (d : Desk α) (v : α) : Books d [] [] [.value v] (d.write (.value v)) where
  delivered := (List.append_nil _).symm
  accepted := (List.append_nil _).symm
  queue := List.append_nil _
  log := rfl
  status := rfl
  notices := rfl
  identity := rfl

/-! ## Requests of a job under service -/

/-- What an answered request may do to a desk: all but what the answer says, and
what is nobody's business here, stays as it was. -/
structure Answered (d : Desk α) (c : Call) (r : Reply) (d' : Desk α) : Prop where
  /-- Nothing is delivered, accepted, logged or reported. -/
  records : d'.delivered = d.delivered ∧ d'.accepted = d.accepted ∧ d'.log = d.log ∧
    d'.events = d.events
  /-- The queue is left alone. -/
  queue : d'.mailbox.queue = d.mailbox.queue
  /-- So is the name. -/
  identity : d'.mailbox.identity = d.mailbox.identity
  /-- A status is recorded if that was the request. -/
  status : d'.mailbox.status
    = ((Entry.answered c r : Entry α).recorded).getD d.mailbox.status
  /-- A notice is left if the answer says so. -/
  notice : d'.mailbox.notice.toNat
    = d.mailbox.notice.toNat + ((Entry.answered c r : Entry α).leavesNotice).toNat

/-- **A job under service has every request answered at once**: the inbox is not at
hand, so there is nothing to wait for. -/
theorem answered_ask (d : Desk α) (c : Call) :
    ∃ r d', d.ask true c = (.replied r, d') ∧ Answered d c r d' := by
  cases c with
  | giveNotice =>
      unfold ask
      cases hw : d.mailbox.cancelSender with
      | false => exact ⟨_, _, rfl, ⟨rfl, rfl, rfl, rfl⟩, rfl, rfl, rfl, rfl⟩
      | true =>
          refine ⟨_, _, rfl, ⟨rfl, rfl, rfl, rfl⟩, Mailbox.queue_giveNotice _, ?_, ?_, ?_⟩
          all_goals
            simp only [Mailbox.giveNotice]
            split
            · rfl
            · split <;> simp_all [Entry.recorded, Entry.leavesNotice]
  | beginStop =>
      refine ⟨_, _, rfl, ⟨rfl, rfl, rfl, rfl⟩, Mailbox.queue_beginStop _, ?_, ?_, ?_⟩
      all_goals
        simp only [Mailbox.beginStop]
        split <;> rfl
  | dropInbox | wait | serve =>
      simp only [ask, Bool.not_true, Bool.and_false, Bool.false_eq_true, if_false]
      exact ⟨_, _, rfl, ⟨rfl, rfl, rfl, rfl⟩, rfl, rfl, rfl, rfl⟩
  | cloneHandle | dropHandle | inspect | dropCancelSender | setStatus | markEnded | isOpen
  | identity | look => exact ⟨_, _, rfl, ⟨rfl, rfl, rfl, rfl⟩, rfl, rfl, rfl, rfl⟩

/-- The books of an answered request, with the answer logged. -/
theorem Answered.books {c : Call} {r : Reply} (h : Answered d c r d') :
    Books d [] [] [.answered c r] (d'.write (.answered c r)) := by
  obtain ⟨hdel, hacc, hlog, -⟩ := h.records
  refine ⟨?_, ?_, ?_, ?_, ?_, ?_, h.identity⟩
  · rw [List.append_nil]
    exact hdel
  · rw [List.append_nil]
    exact hacc
  · rw [List.append_nil]
    exact h.queue.symm
  · simp only [write, hlog]
  · rw [lastStatus_singleton]
    exact h.status
  · refine Eq.trans ?_ h.notice.symm
    rw [noticesLeft, List.countP_singleton]
    cases (Entry.answered c r : Entry α).leavesNotice <;> rfl

/-- A producer is told that its job is queued only if it is. -/
theorem post_eq_push {ι : Type} {m : Mailbox ι} {x : ι} {manner : Manner}
    (h : (m.post x).1.inManner manner = .accepted) : (m.post x).2 = m.push x := by
  have haccepted := Receipt.inManner_eq_accepted_iff.1 h
  unfold Mailbox.post Mailbox.put at haccepted ⊢
  split at haccepted
  · rename_i ho
    rw [if_pos ho]
    split at haccepted
    · cases haccepted
    · rename_i hi
      rw [if_neg hi]
      split at haccepted
      · cases haccepted
      · rename_i hf
        rw [if_neg hf]
  · cases haccepted

/-- **The books of sending a job**, with the answer logged. -/
theorem books_send (d : Desk α) (route : Route) (job : Work α) :
    ∃ sent, Books d [] sent [.sent route.manner (d.send route job).1]
      ((d.send route job).2.write (.sent route.manner (d.send route job).1)) := by
  have hrefused : ∀ (n : Nat) (r : Reply), Books d [] [] [.sent route.manner r]
      (write { d with attempts := n } (.sent route.manner r)) := fun _ _ =>
    ⟨(List.append_nil _).symm, (List.append_nil _).symm, List.append_nil _, rfl, rfl, rfl, rfl⟩
  unfold send
  split
  · exact ⟨[], hrefused d.attempts _⟩
  · simp only
    split
    · -- the job is queued behind all others
      rename_i haccepted
      refine ⟨[⟨d.attempts, route.handle, job⟩], ?_⟩
      rw [post_eq_push haccepted]
      exact ⟨(List.append_nil _).symm, rfl, rfl, rfl, rfl, rfl, rfl⟩
    · exact ⟨[], hrefused _ _⟩
    · exact ⟨[], hrefused d.attempts _⟩

end Desk

end SerialWorkers
