import SerialWorkers.Proofs.Workshop.Custody

/-!
# Customs that jobs keep

Jobs come into a workshop with the calls of clients, and every other job there is was
sent by one of them.  So what all jobs are like that clients send, and what is handed
down from a job to those it sends, is true of all jobs at all times, wherever they
are: queued, under way, or held by somebody in a call.

* `Custom` — something that is handed down so.
* `Workshop.Keeps` — all jobs are like that; `Keeps.move` says that they stay so.
-/

namespace SerialWorkers

open Workshop

variable {α : Type}

/-- Something that is true of jobs and handed down to the jobs they send. -/
structure Custom (α : Type) where
  /-- What a job on its way to worker `k`, or queued there, is like. -/
  mail : Nat → Mail α → Prop
  /-- What is left of a job that worker `k` runs is like. -/
  rest : Nat → Work α → Prop
  /-- What a job is like that worker `k` has started. -/
  started : Nat → Mail α → Prop
  /-- Whom a job that worker `k` runs may be in a call to, by whether it waits there. -/
  calls : Manner → Nat → Nat → Prop
  /-- A job that is started is as it was in the queue. -/
  begins : ∀ {k : Nat} {m : Mail α}, mail k m → rest k m.job ∧ started k m
  /-- It stays so as it gets on. -/
  goesOn : ∀ {k : Nat} {job left : Work α}, rest k job → job.rest? = some left → rest k left
  /-- And hands it down. -/
  sends : ∀ {k : Nat} {route : Route} {job left : Work α} (ticket : Nat),
    rest k (.send route job left) → mail (route.whom.getD k) ⟨ticket, .worker k, job⟩
  /-- It calls only whom it may. -/
  addresses : ∀ {k : Nat} {route : Route} {job left : Work α}, rest k (.send route job left) →
    calls route.manner k (route.whom.getD k)

namespace Worker

variable {c : Custom α} {k : Nat} {v v' : Worker α}

/-! ## At one worker -/

/-- All jobs at worker `v`, by number `k`, keep a custom. -/
structure Keeps (c : Custom α) (k : Nat) (v : Worker α) : Prop where
  /-- Those queued. -/
  queued : ∀ mail ∈ v.mailbox.queue, c.mail k mail
  /-- Those started. -/
  started : ∀ mail ∈ v.started, c.started k mail
  /-- What is left of the one running. -/
  running : ∀ rest, v.phase = .running rest → c.rest k rest
  /-- What is left of the one in a call, and the job it sends, and whom it calls. -/
  sending : ∀ manner t mail rest, v.phase = .sending manner t mail rest →
    c.calls manner k t ∧ c.mail t mail ∧ c.rest k rest

theorem keeps_hired (settings : Settings) (identity : String) :
    (hired settings identity : Worker α).Keeps c k :=
  ⟨nofun, nofun, nofun, nofun⟩

/-- What leaves queue, jobs and thread alone. -/
theorem Keeps.congr (h : v.Keeps c k) (hq : v'.mailbox.queue = v.mailbox.queue)
    (hs : v'.started = v.started) (hp : v'.phase = v.phase) : v'.Keeps c k := by
  refine ⟨?_, ?_, ?_, ?_⟩
  · rw [hq]
    exact h.queued
  · rw [hs]
    exact h.started
  · rw [hp]
    exact h.running
  · rw [hp]
    exact h.sending

/-- A thread that goes where no job is. -/
theorem Keeps.of_phase (h : v.Keeps c k) (hq : ∀ mail ∈ v'.mailbox.queue, mail ∈ v.mailbox.queue)
    (hs : v'.started = v.started) (hp : v'.phase.inJob = false) : v'.Keeps c k := by
  refine ⟨fun mail hmail => h.queued mail (hq mail hmail), ?_, ?_, ?_⟩
  · rw [hs]
    exact h.started
  · intro rest hr
    rw [hr] at hp
    cases hp
  · intro manner t mail rest hr
    rw [hr] at hp
    cases hp

/-- A job that goes on with what is left of it. -/
theorem Keeps.of_running (h : v.Keeps c k) {rest : Work α} (hq : v'.mailbox.queue = v.mailbox.queue)
    (hs : v'.started = v.started) (hp : v'.phase = .running rest) (hr : c.rest k rest) :
    v'.Keeps c k := by
  refine ⟨?_, ?_, ?_, ?_⟩
  · rw [hq]
    exact h.queued
  · rw [hs]
    exact h.started
  · intro rest' hrest
    rw [hp] at hrest
    cases hrest
    exact hr
  · intro manner t mail rest' hrest
    rw [hp] at hrest
    cases hrest

/-- A worker takes up a job. -/
theorem Keeps.begin {mail : Mail α} (h : v.Keeps c k) (hm : c.mail k mail) :
    (v.begin mail).Keeps c k := by
  obtain ⟨hrest, hstarted⟩ := c.begins hm
  refine ⟨h.queued, fun x hx => ?_, fun rest hr => ?_, nofun⟩
  · rcases List.mem_append.1 hx with hx | hx
    · exact h.started x hx
    · rw [List.mem_singleton.1 hx]
      exact hstarted
  · cases hr
    exact hrest

theorem Keeps.put {mail : Mail α} (h : v.Keeps c k) (hm : c.mail k mail) :
    (v.put mail).2.Keeps c k := by
  have hh := handed_put v mail
  generalize v.put mail = put at hh ⊢
  cases hh with
  | refused | waits => exact h
  | queued =>
      refine ⟨fun x hx => ?_, h.started, h.running, h.sending⟩
      rcases List.mem_append.1 hx with hx | hx
      · exact h.queued x hx
      · rw [List.mem_singleton.1 hx]
        exact hm
  | passed =>
      have hnoted : ({ v with accepted := v.accepted ++ [mail] } : Worker α).Keeps c k :=
        h.congr rfl rfl rfl
      exact hnoted.begin hm

theorem Keeps.counted (h : v.Keeps c k) : v.counted.Keeps c k := h.congr rfl rfl rfl

theorem Keeps.post {sender : Sender} {job : Work α} (h : v.Keeps c k)
    (hm : c.mail k (v.mailFrom sender job)) : (v.post sender job).2.Keeps c k := by
  have hcounted : v.counted.Keeps c k := h.counted
  unfold Worker.post
  split
  · exact hcounted.put hm
  · exact hcounted

theorem Keeps.stop (h : v.Keeps c k) (status : Int) : (v.stop status).2.Keeps c k :=
  h.congr (Mailbox.queue_stop _ _) rfl rfl

theorem Keeps.advance (h : v.Keeps c k) (ha : v.advance = some v') : v'.Keeps c k := by
  cases advanced_of_advance ha with
  | @begins mail box hp hn =>
      obtain ⟨-, -, hq, -⟩ := Mailbox.next_eq_item hn
      have hwaiting : ({ v with mailbox := box } : Worker α).Keeps c k :=
        h.of_phase (fun x hx => by rw [hq]; exact List.mem_cons_of_mem _ hx) rfl (by simp [hp]; rfl)
      exact hwaiting.begin (h.queued mail (by rw [hq]; exact List.mem_cons_self))
  | heeds hp hn =>
      refine h.of_phase (fun x hx => ?_) rfl rfl
      rw [(Mailbox.next_eq_noticed hn).2] at hx
      exact hx
  | despairs hp hn =>
      refine h.of_phase (fun x hx => ?_) rfl rfl
      rw [(Mailbox.next_eq_deserted hn).2.2.2.2] at hx
      exact hx
  | finishes | marks => exact h.of_phase (fun _ hx => hx) rfl rfl
  | writes e hp hd hr => exact h.of_running rfl rfl rfl (c.goesOn (h.running _ hp) hr)
  | panics hp =>
      unfold Worker.panic
      simp only
      split <;> exact h.of_phase (fun _ hx => hx) rfl rfl
  | goes =>
      refine h.of_phase (fun x hx => ?_) rfl rfl
      simp only [Mailbox.freeInbox] at hx
      split at hx
      · cases hx
      · exact hx

end Worker

namespace Workshop

variable {c : Custom α} {w w' : Workshop α} {k : Nat}

/-! ## In a workshop -/

/-- All jobs in a workshop keep a custom. -/
structure Keeps (c : Custom α) (w : Workshop α) : Prop where
  /-- Those at workers. -/
  workers : ∀ {k : Nat} {v : Worker α}, w.workers[k]? = some v → v.Keeps c k
  /-- Those held by clients in calls. -/
  clients : ∀ {n : Nat} {client : Client α}, w.clients[n]? = some client →
    ∀ {k : Nat} {mail : Mail α}, client.sending = some (k, mail) → c.mail k mail

theorem keeps_empty (c : Custom α) : ({} : Workshop α).Keeps c := ⟨by simp, by simp⟩

/-- A change of one worker. -/
theorem Keeps.change (h : w.Keeps c) {f : Worker α → Worker α}
    (hf : ∀ v, w.workers[k]? = some v → v.Keeps c k → (f v).Keeps c k) :
    (w.change k f).Keeps c where
  workers {j v} hv := by
    rw [workers_change] at hv
    split at hv
    · rename_i hk
      subst hk
      obtain ⟨u, hu, rfl⟩ := Option.map_eq_some_iff.1 hv
      exact hf u hu (h.workers hu)
    · exact h.workers hv
  clients := h.clients

/-- A change of one client. -/
theorem Keeps.changeClient (h : w.Keeps c) {n : Nat} {f : Client α → Client α}
    (hf : ∀ client, w.clients[n]? = some client →
      ∀ {k mail}, (f client).sending = some (k, mail) → c.mail k mail) :
    (w.changeClient n f).Keeps c where
  workers := h.workers
  clients {i client} hc := by
    rw [Workshop.changeClient, List.getElem?_modify] at hc
    obtain ⟨client', hc', rfl⟩ := Option.map_eq_some_iff.1 hc
    split
    · rename_i hi
      subst hi
      exact hf client' hc'
    · exact h.clients hc'

/-- What leaves jobs and threads alone, done to one worker. -/
theorem Keeps.change_congr (h : w.Keeps c) {f : Worker α → Worker α}
    (hf : ∀ v, (f v).mailbox.queue = v.mailbox.queue ∧ (f v).started = v.started ∧
      (f v).phase = v.phase) : (w.change k f).Keeps c :=
  h.change fun v _ hv => hv.congr (hf v).1 (hf v).2.1 (hf v).2.2

theorem Keeps.stopBy (h : w.Keeps c) (thread : Thread) (status : Int) :
    (w.stopBy thread k status).Keeps c := by
  have hstop := h.change (k := k) (f := fun v => (v.stop status).2) fun _ _ hv => hv.stop status
  unfold Workshop.stopBy
  split
  · exact h
  · simp only
    split
    · cases thread with
      | outside => exact ⟨hstop.workers, hstop.clients⟩
      | worker j => exact hstop.change_congr fun _ => by exact ⟨rfl, rfl, rfl⟩
    · exact hstop

theorem Keeps.stopUnlessStopped (h : w.Keeps c) : (w.stopUnlessStopped k).Keeps c := by
  unfold Workshop.stopUnlessStopped
  split
  · exact h
  · split
    · exact h.stopBy _ _
    · exact h

/-- A worker that takes in a job. -/
theorem Keeps.intake (h : w.Keeps c) {v v' : Worker α} (hv : w.workers[k]? = some v)
    (hv' : v.Keeps c k → v'.Keeps c k) : (w.change k fun _ => v').Keeps c := by
  refine h.change fun x hx hk => ?_
  rw [hv] at hx
  cases hx
  exact hv' hk

/-- **What all jobs are like stays so**, if what clients send is like that. -/
theorem Keeps.move {m : Move α} (h : w.Keeps c)
    (hcall : ∀ manner n k job, m.OfCall manner n k job →
      ∀ ticket, c.mail k ⟨ticket, .client n, job⟩)
    (hm : w.move m = some w') : w'.Keeps c := by
  obtain ⟨rs, hmoved⟩ : ∃ rs, Moved w m rs w' := ⟨_, moved_of_move hm⟩
  cases hmoved with
  | hire =>
      refine ⟨fun {j v} hv => ?_, h.clients⟩
      rcases Nat.lt_or_ge j w.workers.length with hj | hj
      · rw [List.getElem?_append_left hj] at hv
        exact h.workers hv
      · rw [List.getElem?_append_right hj, List.getElem?_singleton] at hv
        split at hv
        · cases hv
          exact Worker.keeps_hired _ _
        · cases hv
  | hireFails => exact h
  | welcome =>
      refine ⟨h.workers, fun {n client} hc => ?_⟩
      rcases Nat.lt_or_ge n w.clients.length with hn | hn
      · rw [welcome, List.getElem?_append_left hn] at hc
        exact h.clients hc
      · rw [welcome, List.getElem?_append_right hn, List.getElem?_singleton] at hc
        split at hc
        · cases hc
          exact nofun
        · cases hc
  | called hc hs hv hr hw =>
      have hpost := h.intake hv fun hk => hk.post (hcall _ _ _ _ .call _)
      exact hpost.changeClient fun client _ => by exact nofun
  | enters hcalls hc hs hv ho =>
      have hcounted := h.intake hv fun hk => hk.counted
      refine hcounted.changeClient fun client _ k mail hcalling => ?_
      cases hcalling
      exact hcall _ _ _ _ hcalls _
  | resumed hc hs hv hr hw =>
      have hput := h.intake hv fun hk => hk.put (h.clients hc hs)
      exact hput.changeClient fun client _ => by exact nofun
  | @goesOn _ k u job f rest es hj hu hp hd hf hr =>
      refine h.change fun x hx hk => ?_
      rw [hu] at hx
      cases hx
      rw [hf]
      exact hk.of_running rfl rfl rfl (c.goesOn (hk.running _ hp) hr)
  | @stopsFrom k t u status whom rest hu hp ht ho =>
      have hrest : c.rest k rest := c.goesOn ((h.workers hu).running _ hp) rfl
      exact (h.stopBy _ _).change fun x _ hk => hk.of_running rfl rfl rfl hrest
  | @sends _ k t u v route job rest r hj hu hp hv hr hw ht =>
      subst ht
      have hrun := (h.workers hu).running _ hp
      have hpost := h.intake hv fun hk => hk.post (c.sends _ hrun)
      exact hpost.change fun x _ hk => hk.of_running rfl rfl rfl (c.goesOn hrun rfl)
  | @sendEnters _ k t u v route job rest hj hu hp hv ho ht =>
      subst ht
      have hrun := (h.workers hu).running _ hp
      have hcounted := h.intake hv fun hk => hk.counted
      refine hcounted.change fun x _ hk =>
        ⟨hk.queued, hk.started, nofun, fun manner t' mail' rest' heq => ?_⟩
      cases heq
      exact ⟨c.addresses hrun, c.sends _ hrun, c.goesOn hrun rfl⟩
  | sendsOn hu hp hv hr hw =>
      obtain ⟨-, hmail, hrest⟩ := (h.workers hu).sending _ _ _ _ hp
      have hput := h.intake hv fun hk => hk.put hmail
      exact hput.change fun x _ hk => hk.of_running rfl rfl rfl hrest
  | advances hu ha => exact h.intake hu fun hk => hk.advance ha
  | stops => exact h.stopBy _ _
  | leaves => exact h.stopUnlessStopped.change_congr fun _ => by exact ⟨rfl, rfl, rfl⟩
  | abandons => exact h.stopUnlessStopped.change_congr fun _ => by exact ⟨rfl, rfl, rfl⟩
  | clones => exact h.change_congr fun _ => by exact ⟨rfl, rfl, rfl⟩
  | drops => exact h.change_congr fun _ => by exact ⟨rfl, rfl, rfl⟩

end Workshop

end SerialWorkers
