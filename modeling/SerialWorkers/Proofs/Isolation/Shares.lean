import SerialWorkers.Proofs.Isolation.Selection
import SerialWorkers.Proofs.Workshop.Customs
import SerialWorkers.Proofs.Workshop.Resting

/-!
# A share of a workshop

Some workers with their clients are a share of the workshop, and the others are the
rest.  The two have nothing to do with each other if no job that runs at a worker of
one side names a worker of the other.  A number that is nobody's is no matter.

* `names` — whom a job names.
* `Share` — who belongs to the share.
* `Share.Apart` — share and rest have nothing to do with each other;
  `Share.Apart.move` says that it stays so.
-/

namespace SerialWorkers.Workshop

variable {α : Type}

/-! ## Whom jobs name -/

/-- Whom an act names, in a job that worker `k` runs. -/
def Act.names (k : Nat) : Act α → List Nat
  | .view whom => [whom.getD k]
  | .stop _ whom => [whom.getD k]
  | _ => []

/-- Whom a job that worker `k` runs names, and whom the jobs name that are sent in it,
which run elsewhere. -/
def names (k : Nat) : Work α → List Nat
  | .done => []
  | .act a rest => a.names k ++ names k rest
  | .send route job rest =>
      route.whom.getD k :: (names (route.whom.getD k) job ++ names k rest)

/-- What is left of a job names nobody else. -/
theorem names_rest? {k : Nat} {job rest : Work α} (h : job.rest? = some rest) :
    ∀ t ∈ names k rest, t ∈ names k job := by
  intro t ht
  cases job with
  | done => cases h
  | act a rest' =>
      cases h
      exact List.mem_append_right _ ht
  | send route nested rest' =>
      cases h
      exact List.mem_cons_of_mem _ (List.mem_append_right _ ht)

/-- Nor does a job that is sent. -/
theorem names_nested {k : Nat} {route : Route} {job rest : Work α} :
    ∀ t ∈ route.whom.getD k :: names (route.whom.getD k) job,
      t ∈ names k (.send route job rest) := by
  intro t ht
  rcases List.mem_cons.1 ht with rfl | ht
  · exact List.mem_cons_self
  · exact List.mem_cons_of_mem _ (List.mem_append_left _ ht)

/-! ## Shares -/

/-- A share of a workshop. -/
structure Share where
  /-- Which workers belong to it. -/
  worker : Nat → Bool
  /-- Which clients do. -/
  client : Nat → Bool
  /-- How many workers there are ever. -/
  count : Nat

namespace Share

/-- The rest of the workshop. -/
def rest (p : Share) : Share := ⟨fun k => !p.worker k, fun c => !p.client c, p.count⟩

/-- Two workers are on the same side, if there are such workers. -/
def Near (p : Share) (k t : Nat) : Prop := k < p.count → t < p.count → p.worker k = p.worker t

/-- A job that worker `k` runs, and whom it names, are on one side. -/
def Within (p : Share) (k : Nat) (job : Work α) : Prop :=
  ∀ t ∈ k :: names k job, ∀ u ∈ k :: names k job, p.Near t u

/-- A job on its way to worker `k` comes from its side. -/
def Sent (p : Share) (k : Nat) (mail : Mail α) : Prop :=
  ∀ c, mail.sender = .client c → p.client c = p.worker k

theorem Within.mono {p : Share} {k t : Nat} {job nested : Work α} (h : p.Within k job)
    (hsub : t :: names t nested ⊆ k :: names k job) : p.Within t nested :=
  fun u hu v hv => h u (hsub hu) v (hsub hv)

/-- An empty job names nobody. -/
theorem within_done (p : Share) (k : Nat) : p.Within k (.done : Work α) := by
  intro t ht u hu _ _
  rw [List.mem_singleton.1 ht, List.mem_singleton.1 hu]

/-- Jobs hand it down to name across no border. -/
def custom (p : Share) : Custom α where
  mail k mail := p.Within k mail.job ∧ p.Sent k mail
  rest := p.Within
  started := p.Sent
  calls _ := p.Near
  begins h := h
  goesOn h hr := h.mono (List.cons_subset_cons _ (names_rest? hr))
  sends _ h :=
    ⟨h.mono fun t ht => List.mem_cons_of_mem _ (names_nested t ht), fun _ hc => by cases hc⟩
  addresses h := h _ List.mem_cons_self _ (List.mem_cons_of_mem _ List.mem_cons_self)

/-- Share and rest have nothing to do with each other. -/
structure Apart (p : Share) (w : Workshop α) : Prop where
  /-- There are no more workers than counted. -/
  count : w.workers.length ≤ p.count
  /-- No job names across the border. -/
  keeps : w.Keeps p.custom
  /-- No client is in a call across the border. -/
  sending : ∀ {c : Nat} {client : Client α} {k : Nat} {mail : Mail α}, w.clients[c]? = some client →
    client.sending = some (k, mail) → p.client c = p.worker k

variable {p : Share} {w w' : Workshop α}

theorem near_rest : p.rest.Near = p.Near := by
  funext k t
  simp [Near, rest]

/-- The custom of the rest is that of the share. -/
theorem custom_rest : (p.rest.custom : Custom α) = p.custom := by
  have hwithin : (p.rest.Within : Nat → Work α → Prop) = p.Within := by
    funext k job
    simp only [Within, near_rest]
  have hsent : (p.rest.Sent : Nat → Mail α → Prop) = p.Sent := by
    funext k mail
    simp [Sent, rest]
  simp only [custom, hwithin, hsent, near_rest]

theorem Apart.rest (h : p.Apart w) : p.rest.Apart w where
  count := h.count
  keeps := by
    rw [custom_rest]
    exact h.keeps
  sending hc hs := by simp [Share.rest, h.sending hc hs]

theorem apart_empty (p : Share) : p.Apart ({} : Workshop α) where
  count := Nat.zero_le _
  keeps := keeps_empty _
  sending hc := by simp at hc

/-- Who stays in a call stays on its side. -/
theorem sending_of_modify {cs : List (Client α)} {n : Nat} {f : Client α → Client α}
    (h : ∀ {c : Nat} {client : Client α} {k : Nat} {mail : Mail α}, cs[c]? = some client →
      client.sending = some (k, mail) → p.client c = p.worker k)
    (hf : ∀ client, cs[n]? = some client → ∀ k mail, (f client).sending = some (k, mail) →
      p.client n = p.worker k)
    {c : Nat} {client : Client α} {k : Nat} {mail : Mail α}
    (hc : (cs.modify n f)[c]? = some client) (hs : client.sending = some (k, mail)) :
    p.client c = p.worker k := by
  rw [List.getElem?_modify] at hc
  obtain ⟨client', hc', rfl⟩ := Option.map_eq_some_iff.1 hc
  by_cases hn : n = c
  · subst hn
    rw [if_pos rfl] at hs
    exact hf client' hc' k mail hs
  · rw [if_neg hn] at hs
    exact h hc' hs

/-- **Share and rest stay apart**, if clients send jobs to their side only and these name
across no border. -/
theorem Apart.move {m : Move α} (h : p.Apart w) (hm : w.move m = some w')
    (hcount : w'.workers.length ≤ p.count)
    (hcall : ∀ manner c k job, m.OfCall manner c k job →
      p.client c = p.worker k ∧ p.Within k job) : p.Apart w' where
  count := hcount
  keeps := by
    refine h.keeps.move (fun manner c k job hcalls ticket => ?_) hm
    obtain ⟨hside, hwithin⟩ := hcall manner c k job hcalls
    refine ⟨hwithin, fun c' hc' => ?_⟩
    cases hc'
    exact hside
  sending := by
    obtain ⟨rs, hm⟩ : ∃ rs, Moved w m rs w' := ⟨_, moved_of_move hm⟩
    cases hm with
    | welcome =>
        intro c client k mail hc hs
        rcases Nat.lt_or_ge c w.clients.length with hlt | hge
        · rw [welcome, List.getElem?_append_left hlt] at hc
          exact h.sending hc hs
        · rw [welcome, List.getElem?_append_right hge, List.getElem?_singleton] at hc
          split at hc
          · cases hc
            cases hs
          · cases hc
    | enters hcalls hc =>
        refine fun hc' hs' =>
          sending_of_modify h.sending (fun client hclient k mail hs => ?_) hc' hs'
        cases hs
        exact (hcall _ _ _ _ hcalls).1
    | called hc | resumed hc =>
        exact fun hc' hs' => sending_of_modify h.sending (fun _ _ _ _ hs => by cases hs) hc' hs'
    | stopsFrom | stops =>
        intro c client k mail hc hs
        simp only [change, clients_stopBy] at hc
        exact h.sending hc hs
    | leaves | abandons =>
        intro c client k mail hc hs
        simp only [change, clients_stopUnlessStopped] at hc
        exact h.sending hc hs
    | hire | hireFails | goesOn | sends | sendEnters | sendsOn | advances | clones | drops =>
        exact h.sending

/-- Nobody crosses the border unasked. -/
theorem Apart.unasked {m : Move α} (h : p.Apart w) (hu : m.Unasked) (hm : w.move m = some w') :
    p.Apart w' := by
  refine h.move hm ?_ fun manner c k job hcalls => ?_
  · rw [length_of_unasked hu hm]
    exact h.count
  · cases hcalls <;> cases hu

/-- They are apart at rest if they were before. -/
theorem Apart.settle (h : p.Apart w) : p.Apart w.settle := by
  fun_induction Workshop.settle w with
  | case1 w _ => exact h
  | case2 w w' hnext ih =>
      obtain ⟨m, hu, hm⟩ := exists_move_of_next? hnext
      exact ih (h.unasked hu hm)

end Share

end SerialWorkers.Workshop
