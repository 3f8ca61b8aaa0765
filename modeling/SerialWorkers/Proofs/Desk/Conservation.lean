import SerialWorkers.Proofs.Desk.Service

/-!
# No job is lost or made up at a desk

A desk's user makes one request after the other, and the jobs that are delivered
meanwhile make requests of their own, so that what happens is best looked at step by
step.  At each of these steps the jobs accepted so far are the jobs delivered so
far and those queued, in one order; once the inbox is freed nothing is accepted or
delivered any more.

Where a wait could return for two reasons, because nobody is left who could leave a
notice and a job is queued all the same, it may return for either.

* `Machine.Happens`, `Machine.Unfolds` — all that can happen at a desk.
* `Stock.Turns` — what a step does to the jobs of a desk; `turns_of_happens` finds it.
* `Desk.jobs_conserved` — no job is lost or made up.
-/

namespace SerialWorkers

namespace Desk

variable {α : Type}

/-! ## All that can happen -/

/-- A job somebody tried to send, and the answer. -/
structure Sending (α : Type) where
  /-- The job, with the ticket it would have. -/
  mail : Mail α
  /-- What the sender is told. -/
  reply : Reply
  deriving Repr, DecidableEq

/-- What comes of sending a job. -/
def sending (d : Desk α) (route : Route) (job : Work α) : Sending α :=
  ⟨⟨d.attempts, route.handle, job⟩, (d.send route job).1⟩

/-- What is sent in a request. -/
def sendings (d : Desk α) : Request α → List (Sending α)
  | .send route job => [d.sending route job]
  | .call _ => []

namespace Machine

/-- What is sent in the next step. -/
def sendings (m : Machine α) : List (Sending α) :=
  match m.stack with
  | .job _ (.send route job _) :: _ => [m.desk.sending route job]
  | _ => []

/-- A wait, asked for by what is first of `below`, that returned with `w` and left the
mailbox as `box`. -/
def awake (d : Desk α) (below : List (Frame α)) : Wake (Mail α) → Mailbox (Mail α) → Machine α
  | .item mail, box => { desk := d.deliver box mail, stack := .job .waiting mail.job :: below }
  | .noticed, box => answerTo { d with mailbox := box } .wait (.woken .noticed) below
  | .deserted, box => answerTo { d with mailbox := box } .wait (.woken .deserted) below

/-- What can happen next at a desk, and what is sent in it. -/
inductive Happens : Machine α → List (Sending α) → Machine α → Prop
  /-- Nothing is under way, and the desk's user makes a request. -/
  | asked (d : Desk α) (a : Option Reply) (r : Request α) :
      Happens { desk := d, stack := [], answer := a } (d.sendings r) (start d r)
  /-- The user waits, and the wait returns. -/
  | wakes {d : Desk α} {a : Option Reply} {w : Wake (Mail α)} {box : Mailbox (Mail α)}
      (hi : d.mailbox.inbox = true) (h : d.mailbox.Wakes w box) :
      Happens { desk := d, stack := [], answer := a } [] (awake d [] w box)
  /-- A job waits, and the wait returns. -/
  | wakesJob {d : Desk α} {via : Via} {rest : Work α} {below : List (Frame α)}
      {a : Option Reply} {w : Wake (Mail α)} {box : Mailbox (Mail α)}
      (hi : d.mailbox.inbox = true) (hl : lent (.job via rest :: below) = false)
      (h : d.mailbox.Wakes w box) :
      Happens { desk := d, stack := .job via (.act (.call .wait) rest) :: below, answer := a } []
        (awake d (.job via rest :: below) w box)
  /-- What is under way goes on. -/
  | goes {m m' : Machine α} (h : m.Goes m') : Happens m m.sendings m'

/-- What can come of a desk, and what is sent until then. -/
inductive Unfolds : Machine α → List (Sending α) → Machine α → Prop
  /-- Nothing happens. -/
  | refl (m : Machine α) : Unfolds m [] m
  /-- One more thing happens. -/
  | tail {m m' m'' : Machine α} {told more : List (Sending α)} (first : Unfolds m told m')
      (last : Happens m' more m'') : Unfolds m (told ++ more) m''

theorem Unfolds.trans {m m' m'' : Machine α} {told more : List (Sending α)}
    (h : Unfolds m told m') (h' : Unfolds m' more m'') : Unfolds m (told ++ more) m'' := by
  induction h' with
  | refl => simpa using h
  | tail _ last ih =>
      rw [← List.append_assoc]
      exact ih.tail last

/-- What a machine does by itself is part of all that can happen. -/
theorem exists_unfolds_of_reaches {m m' : Machine α} (h : Reaches m m') :
    ∃ told, Unfolds m told m' := by
  induction h with
  | refl => exact ⟨[], .refl _⟩
  | tail _ last ih =>
      obtain ⟨told, ih⟩ := ih
      exact ⟨_, ih.tail (.goes last)⟩

/-- And so is every request with all that it sets off. -/
theorem exists_unfolds_of_perform (d : Desk α) (a : Option Reply) (r : Request α) :
    ∃ told, Unfolds { desk := d, stack := [], answer := a } told (start d r).run := by
  obtain ⟨told, h⟩ := exists_unfolds_of_reaches (reaches_run (start d r))
  exact ⟨_, ((Unfolds.refl _).tail (.asked d a r)).trans h⟩

end Machine

/-! ## The jobs of a desk -/

/-- The jobs of a desk, and what decides about more of them. -/
structure Stock (α : Type) where
  /-- The jobs accepted so far. -/
  accepted : List (Mail α)
  /-- The jobs delivered so far. -/
  delivered : List (Mail α)
  /-- The jobs queued. -/
  queue : List (Mail α)
  /-- Whether the reader still holds the inbox. -/
  inbox : Bool
  /-- How many jobs somebody tried to send. -/
  attempts : Nat

/-- The jobs of a desk. -/
def stock (d : Desk α) : Stock α :=
  ⟨d.accepted, d.delivered, d.mailbox.queue, d.mailbox.inbox, d.attempts⟩

/-- What one step can do to the jobs of a desk, with what is sent in it. -/
inductive Stock.Turns (s : Stock α) : List (Sending α) → Stock α → Prop
  /-- Nothing. -/
  | stays : Turns s [] s
  /-- A job is accepted and queued. -/
  | accepts {mail : Mail α} (hi : s.inbox = true) (ht : mail.ticket = s.attempts) :
      Turns s [⟨mail, .done⟩]
        { s with
          accepted := s.accepted ++ [mail], queue := s.queue ++ [mail], attempts := s.attempts + 1 }
  /-- A job is refused. -/
  | refuses {mail : Mail α} {r : Refusal} (ht : mail.ticket = s.attempts) :
      Turns s [⟨mail, .refused r⟩] { s with attempts := s.attempts + 1 }
  /-- A job is not sent at all. -/
  | declines {mail : Mail α} {r : Reply} (hr : r ≠ .done) (hr' : ∀ why, r ≠ .refused why) :
      Turns s [⟨mail, r⟩] s
  /-- The next job is delivered. -/
  | delivers {mail : Mail α} {rest : List (Mail α)} (hi : s.inbox = true)
      (hq : s.queue = mail :: rest) :
      Turns s [] { s with delivered := s.delivered ++ [mail], queue := rest }
  /-- The inbox is freed. -/
  | frees (queue : List (Mail α)) : Turns s [] { s with inbox := false, queue := queue }

variable {d d' : Desk α}

@[simp] theorem stock_write (d : Desk α) (e : Entry α) : (d.write e).stock = d.stock := rfl

@[simp] theorem stock_report (d : Desk α) (es : List Event) : (d.report es).stock = d.stock := rfl

@[simp] theorem stock_conclude (d : Desk α) (reason : Reason) :
    (d.conclude reason).stock = d.stock := rfl

/-- Only what has an inbox takes in a job. -/
theorem inbox_of_post {ι : Type} {m : Mailbox ι} {x : ι} {manner : Manner}
    (h : (m.post x).1.inManner manner = .accepted) : m.inbox = true := by
  cases hi : m.inbox with
  | true => rfl
  | false =>
      unfold Mailbox.post Mailbox.put at h
      simp only [hi, Bool.not_false, if_true] at h
      split at h <;> cases manner <;> cases h

/-- What sending a job does. -/
theorem turns_send (d : Desk α) (route : Route) (job : Work α) :
    d.stock.Turns [d.sending route job] (d.send route job).2.stock := by
  unfold sending send
  split
  · exact .declines (by simp) (by simp)
  · simp only
    split
    · rename_i haccepted
      rw [post_eq_push haccepted]
      exact .accepts (inbox_of_post haccepted) rfl
    · exact .refuses rfl
    · exact .declines (by simp) (by simp)

/-- It leaves the inbox where it is. -/
theorem inbox_send (d : Desk α) (route : Route) (job : Work α) :
    (d.send route job).2.mailbox.inbox = d.mailbox.inbox := by
  unfold send
  split
  · rfl
  · simp only
    split
    · rename_i haccepted
      rw [post_eq_push haccepted]
      rfl
    · rfl
    · rfl

/-- What a wait that returns does. -/
theorem stock_of_wakes {w : Wake (Mail α)} {box : Mailbox (Mail α)} (h : d.mailbox.Wakes w box)
    (hw : ∀ mail, w ≠ .item mail) : stock { d with mailbox := box } = d.stock := by
  cases h with
  | item => exact absurd rfl (hw _)
  | notice | ownerGone | deserted => rfl

theorem turns_deliver {mail : Mail α} {box : Mailbox (Mail α)} (hi : d.mailbox.inbox = true)
    (h : d.mailbox.Wakes (.item mail) box) : d.stock.Turns [] (d.deliver box mail).stock := by
  cases h with
  | item hn hq => exact .delivers hi hq

/-- A notice left, or none, is nothing to the jobs. -/
theorem stock_giveNotice (d : Desk α) :
    stock { d with mailbox := d.mailbox.giveNotice.2 } = d.stock := by
  unfold Mailbox.giveNotice
  split
  · rfl
  · split <;> rfl

/-- Nor is it to them that a stop was requested. -/
theorem stock_beginStop (d : Desk α) :
    stock { d with mailbox := d.mailbox.beginStop.2 } = d.stock := by
  unfold Mailbox.beginStop
  split <;> rfl

/-- **What any other request does to the jobs.** -/
theorem turns_ask (d : Desk α) (lent : Bool) (c : Call) :
    d.stock.Turns [] (d.ask lent c).2.stock := by
  cases c with
  | dropInbox =>
      simp only [ask]
      split
      · exact .frees _
      · exact .stays
  | wait =>
      simp only [ask]
      split
      · rename_i h
        simp only [Bool.and_eq_true, Bool.not_eq_true'] at h
        split
        · exact .stays
        · rename_i hn
          exact turns_deliver h.1 (Mailbox.wakes_of_next hn)
        · rename_i hn
          rw [stock_of_wakes (Mailbox.wakes_of_next hn) (by simp)]
          exact .stays
        · rename_i hn
          rw [stock_of_wakes (Mailbox.wakes_of_next hn) (by simp)]
          exact .stays
      · exact .stays
  | serve policy =>
      simp only [ask]
      split
      · split <;> exact .stays
      · exact .stays
  | giveNotice =>
      simp only [ask]
      split
      · rw [stock_giveNotice]
        exact .stays
      · exact .stays
  | beginStop =>
      simp only [ask]
      rw [stock_beginStop]
      exact .stays
  | cloneHandle | dropHandle | inspect | dropCancelSender | setStatus | markEnded | isOpen
  | identity | look => exact .stays

/-- An inbox that is with a service stays there. -/
theorem inbox_ask (d : Desk α) (c : Call) :
    (d.ask true c).2.mailbox.inbox = d.mailbox.inbox := by
  cases c with
  | dropInbox | wait | serve => simp [ask]
  | giveNotice =>
      simp only [ask]
      split
      · exact congrArg Stock.inbox (stock_giveNotice d)
      · rfl
  | beginStop => exact congrArg Stock.inbox (stock_beginStop d)
  | cloneHandle | dropHandle | inspect | dropCancelSender | setStatus | markEnded | isOpen
  | identity | look => rfl

/-- A service begins with an inbox. -/
theorem inbox_of_serving {lent : Bool} {c : Call} {policy : PanicPolicy}
    (h : d.ask lent c = (.serving policy, d')) : d'.mailbox.inbox = true := by
  cases c with
  | serve =>
      simp only [ask] at h
      split at h
      · rename_i hi
        simp only [Bool.and_eq_true] at hi
        split at h
        · cases h
        · cases h
          exact hi.1
      · cases h
  | wait =>
      simp only [ask] at h
      split at h
      · split at h <;> cases h
      · cases h
  | dropInbox | giveNotice =>
      simp only [ask] at h
      split at h <;> cases h
  | cloneHandle | dropHandle | inspect | dropCancelSender | setStatus | beginStop | markEnded
  | isOpen | identity | look => cases h

/-! ## What a machine does to them -/

namespace Machine

/-- A service has its inbox. -/
def Attended (m : Machine α) : Prop := lent m.stack = true → m.desk.mailbox.inbox = true

variable {m m' : Machine α} {below : List (Frame α)}

@[simp] theorem stock_answerTo (d : Desk α) (c : Call) (r : Reply)
    (below : List (Frame α)) : (answerTo d c r below).desk.stock = d.stock := by
  cases below <;> rfl

@[simp] theorem stack_answerTo (d : Desk α) (c : Call) (r : Reply) (below : List (Frame α)) :
    (answerTo d c r below).stack = below := by
  cases below <;> rfl

@[simp] theorem lent_nil : lent ([] : List (Frame α)) = false := rfl

@[simp] theorem lent_cons (f : Frame α) (stack : List (Frame α)) :
    lent (f :: stack) = (f.holdsInbox || lent stack) := rfl

/-- Whether a job is under service does not depend on what is left of it. -/
theorem lent_job (via : Via) (rest rest' : Work α) (below : List (Frame α)) :
    lent (.job via rest :: below) = lent (.job via rest' :: below) := by
  cases via <;> rfl

/-- Where nothing is under way no service wants an inbox. -/
theorem attended_of_stack_eq_nil (h : m.stack = []) : m.Attended := by
  intro hl
  rw [h] at hl
  cases hl

/-- What a machine does to the jobs of its desk, and that it keeps services attended. -/
def TurnsTo (d : Desk α) (ss : List (Sending α)) (m : Machine α) : Prop :=
  d.stock.Turns ss m.desk.stock ∧ m.Attended

/-- A wait or a service is over, and its answer is given. -/
theorem turnsTo_answerTo (hs : d'.stock = d.stock) (below : List (Frame α))
    (hb : lent below = true → d.stock.inbox = true) (c : Call) (r : Reply) :
    TurnsTo d [] (answerTo d' c r below) := by
  refine ⟨?_, fun hl => ?_⟩
  · rw [stock_answerTo, hs]
    exact .stays
  · rw [stack_answerTo] at hl
    have : (answerTo d' c r below).desk.stock.inbox = d.stock.inbox := by
      rw [stock_answerTo, hs]
    exact this.trans (hb hl)

/-- The wait of a job or of the user returns. -/
theorem turnsTo_awake {w : Wake (Mail α)} {box : Mailbox (Mail α)}
    (hi : d.mailbox.inbox = true) (h : d.mailbox.Wakes w box) :
    TurnsTo d [] (awake d below w box) := by
  cases w with
  | item mail =>
      refine ⟨turns_deliver hi h, fun _ => ?_⟩
      cases h with
      | item => exact hi
  | noticed => exact turnsTo_answerTo (stock_of_wakes h (by simp)) below (fun _ => hi) _ _
  | deserted => exact turnsTo_answerTo (stock_of_wakes h (by simp)) below (fun _ => hi) _ _

/-- The wait of a service returns. -/
theorem turnsTo_woken {policy : PanicPolicy} {w : Wake (Mail α)} {box : Mailbox (Mail α)}
    (hi : d.mailbox.inbox = true) (h : d.mailbox.Wakes w box) :
    TurnsTo d [] (woken d policy below w box) := by
  cases w with
  | item mail =>
      refine ⟨turns_deliver hi h, fun _ => ?_⟩
      cases h with
      | item => exact hi
  | noticed =>
      have hs := (stock_conclude { d with mailbox := box } .noticed).trans
        (stock_of_wakes h (by simp))
      exact turnsTo_answerTo hs below (fun _ => hi) _ _
  | deserted =>
      have hs := (stock_conclude { d with mailbox := box } .deserted).trans
        (stock_of_wakes h (by simp))
      exact turnsTo_answerTo hs below (fun _ => hi) _ _

/-- A job makes a request. -/
theorem turnsTo_request {c : Call} {via : Via} {rest : Work α}
    (ha : lent (.job via rest :: below) = true → d.mailbox.inbox = true) :
    TurnsTo d [] (request d c via rest below) := by
  have hturns := turns_ask d (lent (.job via rest :: below)) c
  have hkept : lent (.job via rest :: below) = true →
      (d.ask (lent (.job via rest :: below)) c).2.mailbox.inbox = true := by
    intro hl
    rw [hl, inbox_ask]
    exact ha hl
  unfold request
  split <;> rename_i heq <;> rw [heq] at hturns hkept
  · exact ⟨hturns, hkept⟩
  · exact ⟨hturns, hkept⟩
  · exact ⟨hturns, fun _ => inbox_of_serving heq⟩

/-- A job ends. -/
theorem turnsTo_finish {via : Via}
    (ha : lent (.job via (.done : Work α) :: below) = true → d.mailbox.inbox = true) :
    TurnsTo d [] (finish d below via) := by
  cases via with
  | waiting => exact turnsTo_answerTo rfl below ha _ _
  | serving policy => exact ⟨.stays, fun _ => ha rfl⟩

/-- A job panics. -/
theorem turnsTo_panic {p : Payload} {via : Via} {rest : Work α}
    (ha : lent (.job via rest :: below) = true → d.mailbox.inbox = true) :
    TurnsTo d [] (panic d p below via) := by
  cases via with
  | waiting => exact turnsTo_answerTo rfl below ha _ _
  | serving policy =>
      cases policy with
      | retire => exact turnsTo_answerTo (by rfl) below (fun _ => ha rfl) _ _
      | carryOn => exact ⟨.stays, fun _ => ha rfl⟩

/-- The user makes a request. -/
theorem turnsTo_start (d : Desk α) (r : Request α) : TurnsTo d (d.sendings r) (start d r) := by
  cases r with
  | send route job => exact ⟨turns_send d route job, attended_of_stack_eq_nil rfl⟩
  | call c =>
      have hturns := turns_ask d false c
      unfold start
      simp only
      split <;> rename_i heq <;> rw [heq] at hturns
      · exact ⟨hturns, attended_of_stack_eq_nil rfl⟩
      · exact ⟨hturns, fun hl => by cases hl⟩
      · exact ⟨hturns, fun _ => inbox_of_serving heq⟩

/-- What is under way takes its next step. -/
theorem turnsTo_step (ha : m.Attended) (h : m.step = some m') :
    TurnsTo m.desk m.sendings m' := by
  obtain ⟨d, stack, a⟩ := m
  cases stack with
  | nil => cases h
  | cons f below =>
      cases f with
      | service policy =>
          obtain ⟨w, box, hw, rfl⟩ := goes_service (.step h)
          exact turnsTo_woken (ha rfl) hw
      | job via job =>
          cases job with
          | done =>
              cases h
              exact turnsTo_finish ha
          | send route job rest =>
              cases h
              refine ⟨turns_send d route job, fun hl => ?_⟩
              rw [lent_job via rest (.send route job rest)] at hl
              exact (inbox_send d route job).trans (ha hl)
          | act a rest =>
              cases a with
              | log v =>
                  cases h
                  refine ⟨.stays, fun hl => ?_⟩
                  rw [lent_job via rest (.act (.log v) rest)] at hl
                  exact ha hl
              | panic p =>
                  cases h
                  exact turnsTo_panic ha
              | call c =>
                  cases h
                  refine turnsTo_request fun hl => ?_
                  rw [lent_job via rest (.act (.call c) rest)] at hl
                  exact ha hl

/-- **All that can happen does one of these things to the jobs of a desk.** -/
theorem turns_of_happens {ss : List (Sending α)} (ha : m.Attended) (h : Happens m ss m') :
    TurnsTo m.desk ss m' := by
  cases h with
  | asked d a r => exact turnsTo_start d r
  | wakes hi hw => exact turnsTo_awake hi hw
  | wakesJob hi hl hw => exact turnsTo_awake hi hw
  | goes h =>
      cases h with
      | wakes hw => exact turnsTo_woken (ha rfl) hw
      | step h => exact turnsTo_step ha h

end Machine

/-! ## The balance -/

/-- The jobs whose senders were told that they are accepted. -/
def acceptedOf (told : List (Sending α)) : List (Mail α) :=
  (told.filter fun x => x.reply = .done).map Sending.mail

/-- The jobs of a desk are in balance with what senders were `told`. -/
structure Balance (told : List (Sending α)) (s : Stock α) : Prop where
  /-- What was accepted is what senders were told is. -/
  accepted : s.accepted = acceptedOf told
  /-- While there is an inbox, what was accepted was delivered or is queued. -/
  kept : s.inbox = true → s.accepted = s.delivered ++ s.queue
  /-- What was delivered was accepted, in order. -/
  delivered : s.delivered <+: s.accepted
  /-- Jobs accepted bear tickets given out before. -/
  numbered : ∀ mail ∈ s.accepted, mail.ticket < s.attempts
  /-- Jobs refused bear other ones, also given out before. -/
  refused : ∀ x ∈ told, ∀ r, x.reply = .refused r →
    x.mail.ticket < s.attempts ∧ ∀ mail ∈ s.accepted, mail.ticket ≠ x.mail.ticket

theorem balance_fresh (identity : String) (capacity : Option Nat) :
    Balance [] (fresh identity capacity : Desk α).stock where
  accepted := rfl
  kept _ := rfl
  delivered := List.prefix_rfl
  numbered := nofun
  refused := nofun

variable {s s' : Stock α} {told ss : List (Sending α)}

/-- What is told of nothing accepted or refused. -/
theorem Balance.of_quiet (h : Balance told s) (ha : s'.accepted = s.accepted)
    (hk : s'.inbox = true → s.accepted = s'.delivered ++ s'.queue)
    (hd : s'.delivered <+: s.accepted) (hn : s'.attempts = s.attempts)
    (hs : ∀ x ∈ ss, x.reply ≠ .done ∧ ∀ r, x.reply ≠ .refused r) : Balance (told ++ ss) s' where
  accepted := by
    have hnone : ss.filter (fun x => x.reply = .done) = [] :=
      List.filter_eq_nil_iff.2 fun x hx => by simpa using (hs x hx).1
    rw [ha, h.accepted, acceptedOf, acceptedOf, List.filter_append, hnone, List.append_nil]
  kept hi := by rw [ha, hk hi]
  delivered := by rw [ha]; exact hd
  numbered := by rw [ha, hn]; exact h.numbered
  refused x hx r hr := by
    rw [ha, hn]
    rcases List.mem_append.1 hx with hx | hx
    · exact h.refused x hx r hr
    · exact absurd hr ((hs x hx).2 r)

/-- **Every step keeps the balance.** -/
theorem Balance.turns (h : Balance told s) (ht : s.Turns ss s') : Balance (told ++ ss) s' := by
  cases ht with
  | stays => exact h.of_quiet rfl h.kept h.delivered rfl nofun
  | declines hr hr' =>
      refine h.of_quiet rfl h.kept h.delivered rfl fun x hx => ?_
      rw [List.mem_singleton.1 hx]
      exact ⟨hr, hr'⟩
  | @delivers mail rest hi hq =>
      have hkept : s.accepted = (s.delivered ++ [mail]) ++ rest := by
        rw [h.kept hi, hq, List.append_assoc]
        rfl
      exact h.of_quiet rfl (fun _ => hkept) ⟨rest, hkept.symm⟩ rfl nofun
  | frees queue => exact h.of_quiet rfl nofun h.delivered rfl nofun
  | @accepts mail hi ht =>
      refine ⟨?_, fun _ => ?_, h.delivered.trans (List.prefix_append _ _), fun x hx => ?_,
        fun x hx r hr => ?_⟩
      · rw [h.accepted, acceptedOf, acceptedOf, List.filter_append, List.map_append]
        rfl
      · simp only [h.kept hi, List.append_assoc]
      · rcases List.mem_append.1 hx with hx | hx
        · exact Nat.lt_succ_of_lt (h.numbered x hx)
        · rw [List.mem_singleton.1 hx, ht]
          exact Nat.lt_succ_self _
      · rcases List.mem_append.1 hx with hx | hx
        · obtain ⟨hlt, hne⟩ := h.refused x hx r hr
          refine ⟨Nat.lt_succ_of_lt hlt, fun y hy => ?_⟩
          rcases List.mem_append.1 hy with hy | hy
          · exact hne y hy
          · rw [List.mem_singleton.1 hy, ht]
            exact Nat.ne_of_gt hlt
        · rw [List.mem_singleton.1 hx] at hr
          cases hr
  | @refuses mail why ht =>
      refine ⟨?_, h.kept, h.delivered, fun x hx => Nat.lt_succ_of_lt (h.numbered x hx),
        fun x hx r hr => ?_⟩
      · rw [h.accepted, acceptedOf, acceptedOf, List.filter_append, List.map_append]
        exact (List.append_nil _).symm
      · rcases List.mem_append.1 hx with hx | hx
        · obtain ⟨hlt, hne⟩ := h.refused x hx r hr
          exact ⟨Nat.lt_succ_of_lt hlt, hne⟩
        · -- the ticket is a fresh one
          rw [List.mem_singleton.1 hx]
          simp only [ht]
          exact ⟨Nat.lt_succ_self _, fun y hy => Nat.ne_of_lt (h.numbered y hy)⟩

/-- Once the inbox is freed, nothing is accepted or delivered. -/
theorem Stock.Turns.frozen (ht : s.Turns ss s') (hi : s.inbox = false) :
    s'.inbox = false ∧ s'.accepted = s.accepted ∧ s'.delivered = s.delivered := by
  cases ht with
  | stays | declines => exact ⟨hi, rfl, rfl⟩
  | refuses => exact ⟨hi, rfl, rfl⟩
  | frees => exact ⟨rfl, rfl, rfl⟩
  | accepts h =>
      rw [hi] at h
      cases h
  | delivers h =>
      rw [hi] at h
      cases h

/-! ## All steps -/

namespace Machine

variable {m m' : Machine α}

/-- The balance, kept through all that can come of a desk. -/
theorem Unfolds.balance {first : List (Sending α)} (h : Unfolds m told m') (ha : m.Attended)
    (hb : Balance first m.desk.stock) : m'.Attended ∧ Balance (first ++ told) m'.desk.stock := by
  induction h with
  | refl => exact ⟨ha, by simpa using hb⟩
  | tail _ last ih =>
      obtain ⟨ha, hb⟩ := ih
      obtain ⟨hturns, hattended⟩ := turns_of_happens ha last
      rw [← List.append_assoc]
      exact ⟨hattended, hb.turns hturns⟩

/-- What is frozen stays so through all that can come of a desk. -/
theorem Unfolds.frozen (h : Unfolds m told m') (ha : m.Attended)
    (hi : m.desk.mailbox.inbox = false) : m'.Attended ∧ m'.desk.mailbox.inbox = false ∧
      m'.desk.accepted = m.desk.accepted ∧ m'.desk.delivered = m.desk.delivered := by
  induction h with
  | refl => exact ⟨ha, hi, rfl, rfl⟩
  | tail _ last ih =>
      obtain ⟨ha, hi, haccepted, hdelivered⟩ := ih
      obtain ⟨hturns, hattended⟩ := turns_of_happens ha last
      obtain ⟨hi', haccepted', hdelivered'⟩ := hturns.frozen hi
      exact ⟨hattended, hi', haccepted'.trans haccepted, hdelivered'.trans hdelivered⟩

end Machine

/-- The jobs of a desk are conserved, where senders were `told` what became of theirs. -/
structure JobsConserved (told : List (Sending α)) (m : Machine α) : Prop where
  /-- The jobs accepted are those whose senders were told so, in that order. -/
  accepted : m.desk.accepted = acceptedOf told
  /-- While there is an inbox, they are those delivered and then those queued. -/
  kept : m.desk.mailbox.inbox = true →
    m.desk.accepted = m.desk.delivered ++ m.desk.mailbox.queue
  /-- What every handle shows as queued is what the inbox shows, and is what was accepted and
  not delivered. -/
  shown : m.desk.mailbox.inbox = true → ∀ h, m.desk.mailbox.holds h = true → ∃ n,
    (m.desk.ask (Machine.lent m.stack) (.inspect h)).1
      = .replied (.handle m.desk.mailbox.identity m.desk.mailbox.isClosed n) ∧
    (m.desk.view false).pending = some n ∧
    m.desk.accepted.length = m.desk.delivered.length + n
  /-- A job that was refused is not delivered. -/
  refused : ∀ x ∈ told, ∀ r, x.reply = .refused r → x.mail ∉ m.desk.delivered

/-- **No job is lost or made up at a desk.**  This holds after every single step of
whatever is requested of a desk and of whatever its jobs request, nested as they may
be.  And once the inbox is freed nothing is accepted or delivered any more. -/
theorem jobs_conserved (identity : String) (capacity : Option Nat) {told : List (Sending α)}
    {m : Machine α}
    (h : Machine.Unfolds { desk := fresh identity capacity, stack := [] } told m) :
    JobsConserved told m ∧
    (m.desk.mailbox.inbox = false → ∀ more m', Machine.Unfolds m more m' →
      m'.desk.mailbox.inbox = false ∧ m'.desk.accepted = m.desk.accepted ∧
      m'.desk.delivered = m.desk.delivered) := by
  obtain ⟨ha, hb⟩ :=
    h.balance (Machine.attended_of_stack_eq_nil rfl) (balance_fresh identity capacity)
  rw [List.nil_append] at hb
  refine ⟨⟨hb.accepted, hb.kept, fun hi k hk => ?_, fun x hx r hr hmem => ?_⟩,
    fun hi more m' h' => (h'.frozen ha hi).2⟩
  · refine ⟨m.desk.mailbox.pending, ?_, ?_, ?_⟩
    · simp [ask, hk]
    · simp [view, hi]
    · have hkept : m.desk.accepted = m.desk.delivered ++ m.desk.mailbox.queue := hb.kept hi
      rw [hkept, List.length_append]
      rfl
  · have hacc : x.mail ∈ m.desk.accepted := hb.delivered.subset hmem
    exact (hb.refused x hx r hr).2 _ hacc rfl

/-- At a desk with room for one job, a job that a wait delivered sends another one and
waits for it, after a third one was refused. -/
theorem jobs_conserved_nested : ∃ (told : List (Sending Nat)) (m : Machine Nat),
    told.map Sending.reply = [.done, .refused .full, .done] ∧
    m.desk.delivered.map Parcel.ticket = [0, 2] ∧ m.stack.length = 2 ∧ JobsConserved told m := by
  let job : Work Nat := .send ⟨.prompt, 0⟩ (.act (.log 7) .done) (.act (.call .wait) .done)
  have h := ((((Machine.Unfolds.refl { desk := fresh "pot" (some 1), stack := [] }).tail
    (.asked _ _ (.send ⟨.prompt, 0⟩ job))).tail
    (.asked _ _ (.send ⟨.prompt, 0⟩ .done))).tail
    (.asked _ _ (.call .wait))).tail (.goes (.step rfl)) |>.tail (.goes (.step rfl))
  exact ⟨_, _, rfl, rfl, rfl, (jobs_conserved "pot" (some 1) h).1⟩

end Desk

end SerialWorkers
