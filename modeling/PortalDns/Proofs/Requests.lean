-- The laws of requests that are made one at a time: which steps belong to them,
-- what those steps leave as it was, and what is sent in response.
import PortalDns.Listener.Schedule
import PortalDns.Proofs.Exchanges

namespace PortalDns

/-- What a listener is asked to do. -/
inductive Request where
  | start (interface : Interface)
  | stop
  /-- A peer sends a datagram to a server and waits for what comes back. -/
  | exchange (server peer : Endpoint) (datagram : Octets)
deriving DecidableEq, Repr

inductive Response where
  | started (result : StartResult)
  | stopped
  /-- All that was sent meanwhile, and to whom. -/
  | replied (replies : List (Endpoint × Octets))
deriving DecidableEq, Repr

/-! ## Requests of a listener -/

/-- Whether a task does something by itself that goes well: no datagram arrives, and the host can
tell the endpoint of a socket and can send. -/
def TaskEvent.isInner : TaskEvent → Bool
  | receive .. | loseEndpoint | failSend => false
  | _ => true

/-- Whether a step belongs to what was begun before: to no new request. -/
def Action.isInner : Action → Bool
  | start _ | stop | drop => false
  | task _ event => event.isInner
  | observe _ | conclude _ | announce _ | signal _ | join _ | release _ | occupy _ => true

theorem Action.isInner_of_task {a : Action} (ha : a.isInner = true) {n : Nat} (event : TaskEvent)
    (heq : a = .task n event) : event.isInner = true := by
  subst heq
  exact ha

/-- Only a datagram that arrives gives a task something to answer. -/
theorem Task.Step.isAnswering {t t' : Task} {event : TaskEvent} (h : t.Step event t')
    (hinner : event.isInner = true) (ht' : t'.isAnswering = true) : t.isAnswering = true := by
  cases h with
  | receive => cases hinner
  | handle hp => simp [Task.isAnswering, hp]
  | bind | failBind | retryBind | giveUp | loseEndpoint | publishServing | poll | heed | idle | send
  | failSend | close | publishStopped | exit => cases ht'

/-- What a stop call is after its next step. -/
def StopCall.advance : StopCall → StopCall
  | taken handle => announced handle
  | announced handle => signalled handle
  | signalled handle => joined handle
  | joined _ | returned => returned

namespace Listener

/-- The steps by which a request reaches a listener. A datagram reaches the task that holds a socket
at the endpoint it is sent to, if there is one. -/
def opening (l : Listener) : Request → List Action
  | .start interface => [.start interface]
  | .stop => [.stop]
  | .exchange server peer datagram =>
    match l.tasks.findIdx? fun t => t.socket? = some server with
    | some number => [.task number (.receive peer datagram)]
    | none => []

/-- All that is sent in the course of a run. -/
def sends (l : Listener) : List Action → List (Endpoint × Octets)
  | [] => []
  | a :: actions => (l.sent? a).toList ++ (l.step? a).elim [] fun l' => l'.sends actions

/-- The response to a request that was made of `l`, if there is one after these steps to `l'`. -/
def response? (l : Listener) (actions : List Action) (l' : Listener) : Request → Option Response
  | .start _ => (l'.startResult? l.starts.length).map .started
  | .stop => if l'.stops[l.stops.length]? = some .returned then some .stopped else none
  | .exchange .. => some (.replied (l.sends actions))

/-- A task is about to reply to a datagram. -/
def Answers (l : Listener) (n : Nat) : Prop :=
  ∃ t, l.tasks[n]? = some t ∧ t.isAnswering = true

/-- No call is under way. -/
def isQuiet (l : Listener) : Bool :=
  (∀ c ∈ l.starts, c.result?.isSome) ∧ ∀ c ∈ l.stops, c.handle? = none

/-- All calls have returned, and all datagrams are dealt with. -/
structure Settled (l : Listener) : Prop where
  calls : l.isQuiet = true
  tasks : ∀ n, ¬ l.Answers n

theorem settled_iff {l : Listener} :
    l.Settled ↔ l.isQuiet = true ∧ ∀ t ∈ l.tasks, t.isAnswering = false := by
  refine ⟨?_, ?_⟩
  · rintro ⟨hcalls, htasks⟩
    refine ⟨hcalls, ?_⟩
    intro t ht
    obtain ⟨n, hn⟩ := List.mem_iff_getElem?.mp ht
    rw [← Bool.not_eq_true]
    intro hanswers
    exact htasks n ⟨t, hn, hanswers⟩
  · rintro ⟨hcalls, htasks⟩
    refine ⟨hcalls, ?_⟩
    rintro n ⟨t, ht, hanswers⟩
    cases (htasks t (List.mem_of_getElem? ht)).symm.trans hanswers

instance (l : Listener) : Decidable l.Settled := decidable_of_iff _ settled_iff.symm

/-- The requests that were made of a new listener one at a time, with the responses to them, and
the listener then. Whatever can go on does so in any order, while a request is made and between
two of them. -/
inductive Performed (settings : Settings) : List (Request × Response) → Listener → Prop
  | new : Performed settings [] { settings }
  | wait {trace : List (Request × Response)} {l l' : Listener} {a : Action} :
      Performed settings trace l → a.isInner = true → l.step? a = some l' →
      Performed settings trace l'
  | request {trace : List (Request × Response)} {l l' : Listener} {response : Response}
      (request : Request) (actions : List Action) : Performed settings trace l →
      (∀ a ∈ actions, a.isInner = true) → l.run? (l.opening request ++ actions) = some l' →
      l'.Settled → l.response? (l.opening request ++ actions) l' request = some response →
      Performed settings (trace ++ [(request, response)]) l'

/-! ## Inner steps -/

section Inner

variable {l l' m : Listener} {a : Action} {actions : List Action} {n call : Nat}

/-- What stays as it is while no request begins. -/
structure Within (l l' : Listener) : Prop where
  settings : l'.settings = l.settings
  slot : l'.slot = l.slot
  dropped : l'.dropped = l.dropped
  tasks : l'.tasks.length = l.tasks.length
  starts : l'.starts.length = l.starts.length
  stops : l'.stops.length = l.stops.length

theorem Within.refl (l : Listener) : Within l l := ⟨rfl, rfl, rfl, rfl, rfl, rfl⟩

theorem Within.trans (h : Within l m) (h' : Within m l') : Within l l' where
  settings := h'.settings.trans h.settings
  slot := h'.slot.trans h.slot
  dropped := h'.dropped.trans h.dropped
  tasks := h'.tasks.trans h.tasks
  starts := h'.starts.trans h.starts
  stops := h'.stops.trans h.stops

theorem Step.within (h : Step l a l') (ha : a.isInner = true) : Within l l' := by
  cases h with
  | refuse | spawn | stopNothing | take | dropNothing | drop => cases ha
  | observe | conclude => exact ⟨rfl, rfl, rfl, rfl, List.length_set .., rfl⟩
  | announce | join | release => exact ⟨rfl, rfl, rfl, rfl, rfl, List.length_set ..⟩
  | signal => exact ⟨rfl, rfl, rfl, List.length_modify .., rfl, List.length_set ..⟩
  | task => exact ⟨rfl, rfl, rfl, List.length_set .., rfl, rfl⟩
  | occupy => exact ⟨rfl, rfl, rfl, rfl, rfl, rfl⟩

/-- A task that answers a datagram after a step did so before, unless the datagram has just
arrived. -/
theorem Step.answers (h : Step l a l') (ha : ∀ event, a = .task n event → event.isInner = true)
    (hn : l'.Answers n) : l.Answers n := by
  obtain ⟨t', ht', hanswers⟩ := hn
  cases h.taskOrigin ht' with
  | kept ht heq =>
    subst heq
    exact ⟨_, ht, hanswers⟩
  | spawned _ _ heq =>
    subst heq
    cases hanswers
  | stepped ht haction htask _ =>
    exact ⟨_, ht, htask.isAnswering (ha _ haction) hanswers⟩

/-- What every inner step keeps, a run of inner steps keeps. -/
theorem inner_run_keeps {p : Listener → Prop}
    (hstep : ∀ {l l' : Listener} {a : Action}, p l → a.isInner = true → l.step? a = some l' → p l')
    (hl : p l) (hinner : ∀ a ∈ actions, a.isInner = true) (hrun : l.run? actions = some l') :
    p l' := by
  induction actions generalizing l with
  | nil =>
    cases hrun
    exact hl
  | cons a actions ih =>
    rw [run?_cons, Option.bind_eq_some_iff] at hrun
    obtain ⟨m, hm, hrest⟩ := hrun
    rw [List.forall_mem_cons] at hinner
    exact ih (hstep hl hinner.1 hm) hinner.2 hrest

theorem run_within (hinner : ∀ a ∈ actions, a.isInner = true) (hrun : l.run? actions = some l') :
    Within l l' :=
  inner_run_keeps (p := Within l) (fun hl ha h => hl.trans ((step_of_step? h).within ha)) (.refl l)
    hinner hrun

/-! ## Calls that have returned -/

/-- The first start calls and the first stop calls have returned, so many of each. -/
structure Returned (l : Listener) (starts stops : Nat) : Prop where
  starts : ∀ call < starts, ∃ generation result,
    l.starts[call]? = some ⟨generation, .returned result⟩
  stops : ∀ call < stops, l.stops[call]? = some .returned

theorem isQuiet_iff : l.isQuiet = true ↔ l.Returned l.starts.length l.stops.length := by
  simp only [isQuiet, Bool.decide_and, Bool.and_eq_true, decide_eq_true_eq]
  refine ⟨?_, ?_⟩
  · rintro ⟨hstarts, hstops⟩
    refine ⟨?_, ?_⟩
    · intro call hcall
      have hc := List.getElem?_eq_getElem hcall
      obtain ⟨result, hresult⟩ := Option.isSome_iff_exists.mp (hstarts _ (List.getElem_mem hcall))
      obtain ⟨generation, hreturned⟩ :=
        startResult?_eq_some_iff.mp ((startResult?_of_start hc).trans hresult)
      exact ⟨generation, result, hreturned⟩
    · intro call hcall
      have hnone := hstops _ (List.getElem_mem hcall)
      rw [List.getElem?_eq_getElem hcall]
      cases hc : l.stops[call] with
      | returned => rfl
      | taken | announced | signalled | joined =>
        rw [hc] at hnone
        cases hnone
  · rintro ⟨hstarts, hstops⟩
    refine ⟨?_, ?_⟩
    · intro c hc
      obtain ⟨call, hcall⟩ := List.mem_iff_getElem?.mp hc
      obtain ⟨_, _, hreturned⟩ := hstarts call (List.getElem?_eq_some_iff.mp hcall).1
      cases hcall.symm.trans hreturned
      rfl
    · intro c hc
      obtain ⟨call, hcall⟩ := List.mem_iff_getElem?.mp hc
      cases hcall.symm.trans (hstops call (List.getElem?_eq_some_iff.mp hcall).1)
      rfl

theorem stops_setStop {number : Nat} {c c₀ c' : StopCall} (hnumber : l.stops[number]? = some c₀)
    (hc : l.stops[call]? = some c) :
    (l.setStop number c').stops[call]? = some c ∨
      call = number ∧ c = c₀ ∧ (l.setStop number c').stops[call]? = some c' := by
  by_cases hcall : number = call
  · subst hcall
    cases hnumber.symm.trans hc
    exact .inr ⟨rfl, rfl, List.getElem?_set_self (List.getElem?_eq_some_iff.mp hc).1⟩
  · exact .inl ((List.getElem?_set_ne hcall).trans hc)

/-- What a step does to a stop call: nothing, unless it is the call's next step. -/
theorem Step.stop_cases {c : StopCall} (h : Step l a l') (hc : l.stops[call]? = some c) :
    l'.stops[call]? = some c ∨ c.next? call = some a ∧ l'.stops[call]? = some c.advance := by
  cases h with
  | refuse | spawn | observe | conclude | dropNothing | drop | task | occupy => exact .inl hc
  | stopNothing | take =>
    have hlt := (List.getElem?_eq_some_iff.mp hc).1
    exact .inl ((List.getElem?_append_left hlt).trans hc)
  | announce hnumber =>
    rcases stops_setStop (l := l.publish _ _) hnumber hc with hkept | ⟨rfl, rfl, hset⟩
    · exact .inl hkept
    · exact .inr ⟨rfl, hset⟩
  | signal hnumber =>
    rcases stops_setStop (l := l.signalTask _ _) hnumber hc with hkept | ⟨rfl, rfl, hset⟩
    · exact .inl hkept
    · exact .inr ⟨rfl, hset⟩
  | join hnumber =>
    rcases stops_setStop hnumber hc with hkept | ⟨rfl, rfl, hset⟩
    · exact .inl hkept
    · exact .inr ⟨rfl, hset⟩
  | release hnumber =>
    rcases stops_setStop (l := l.publish _ _) hnumber hc with hkept | ⟨rfl, rfl, hset⟩
    · exact .inl hkept
    · exact .inr ⟨rfl, hset⟩

/-- A stop call whose next step is taken goes on. -/
theorem stops_of_next {c : StopCall} (hc : l.stops[call]? = some c) (hnext : c.next? call = some a)
    (h : l.step? a = some l') : l'.stops[call]? = some c.advance := by
  have hlt := (List.getElem?_eq_some_iff.mp hc).1
  cases c with
  | returned => cases hnext
  | taken | announced | signalled | joined =>
    cases hnext
    cases step_of_step? h with
    | _ hc' =>
      cases hc.symm.trans hc'
      exact List.getElem?_set_self hlt

/-- A stop call can take its next step, unless it waits for a task that runs. -/
theorem isSome_step?_of_next {c : StopCall} (hc : l.stops[call]? = some c)
    (hnext : c.next? call = some a)
    (hended : ∀ handle, c = .signalled handle → l.isRunning handle.task = false) :
    (l.step? a).isSome = true := by
  cases c with
  | returned => cases hnext
  | taken | announced | joined =>
    cases hnext
    simp [step?, hc]
  | signalled handle =>
    cases hnext
    simp [step?, hc, hended handle rfl]

theorem Returned.step {starts stops : Nat} (hl : l.Returned starts stops) (h : Step l a l') :
    l'.Returned starts stops := by
  refine ⟨?_, ?_⟩
  · intro call hcall
    obtain ⟨generation, result, hc⟩ := hl.starts call hcall
    exact ⟨generation, result, (h.of_returned hc).1⟩
  · intro call hcall
    rcases h.stop_cases (hl.stops call hcall) with hkept | ⟨hnext, _⟩
    · exact hkept
    · cases hnext

/-- One more start call has returned. -/
theorem Returned.start {starts stops : Nat} {generation : Option Nat} {result : StartResult}
    (hl : l.Returned starts stops)
    (hc : l.starts[starts]? = some ⟨generation, .returned result⟩) :
    l.Returned (starts + 1) stops := by
  refine ⟨?_, hl.stops⟩
  intro call hcall
  rcases Nat.lt_succ_iff_lt_or_eq.mp hcall with hlt | rfl
  · exact hl.starts call hlt
  · exact ⟨generation, result, hc⟩

/-- One more stop call has returned. -/
theorem Returned.stop {starts stops : Nat} (hl : l.Returned starts stops)
    (hc : l.stops[stops]? = some .returned) : l.Returned starts (stops + 1) := by
  refine ⟨hl.starts, ?_⟩
  intro call hcall
  rcases Nat.lt_succ_iff_lt_or_eq.mp hcall with hlt | rfl
  · exact hl.stops call hlt
  · exact hc

/-- Of a listener whose calls have all returned, only the slot owns a task. -/
theorem owner_eq_slot_of_isQuiet {o : Owner} (hl : l.isQuiet = true) (ho : l.Owns o n) :
    o = .slot := by
  obtain ⟨handle, hhandle, _⟩ := ho
  cases o with
  | slot => rfl
  | stopCall call =>
    obtain ⟨c, hc, hhandle⟩ := Option.bind_eq_some_iff.mp hhandle
    rw [(isQuiet_iff.mp hl).stops call (List.getElem?_eq_some_iff.mp hc).1] at hc
    cases hc
    cases hhandle

end Inner

/-! ## Datagrams that are dealt with -/

section Owed

variable {l l' : Listener} {a : Action} {actions : List Action} {n : Nat} {t : Task}

/-- The reply that a task has yet to send, if there is such a task. -/
def owed? (l : Listener) (n : Nat) : Option (Endpoint × Octets) := l.tasks[n]?.bind Task.owed?

theorem owed?_of_task (ht : l.tasks[n]? = some t) : l.owed? n = t.owed? := by
  rw [owed?, ht, Option.bind_some]

theorem Settled.owed?_eq_none (hl : l.Settled) (n : Nat) : l.owed? n = none := by
  rw [owed?, Option.bind_eq_none_iff]
  intro t ht
  apply Task.owed?_of_not_isAnswering
  rw [← Bool.not_eq_true]
  intro hanswers
  exact hl.tasks n ⟨t, ht, hanswers⟩

/-- What an inner step does to what a task has yet to send: nothing, unless the task sends it. -/
theorem Step.owed_cases (h : Step l a l') (ha : a.isInner = true) (n : Nat) :
    (∃ event, a = .task n event ∧ (l.sent? a).toList ++ (l'.owed? n).toList = (l.owed? n).toList) ∨
      (∀ event, a ≠ .task n event) ∧ l'.owed? n = l.owed? n := by
  cases ht : l.tasks[n]? with
  | none =>
    have hlen := (h.within ha).tasks
    have ht' : l'.tasks[n]? = none := by
      rw [List.getElem?_eq_none_iff] at ht ⊢
      omega
    refine .inr ⟨?_, by rw [owed?, owed?, ht, ht']⟩
    rintro event rfl
    cases h with
    | task hbefore => cases ht.symm.trans hbefore
  | some t =>
    obtain ⟨t', ht', ⟨event, rfl, htask⟩ | ⟨hother, signal, rfl, _⟩⟩ := h.task_cases ht
    · refine .inl ⟨event, rfl, ?_⟩
      rw [sent?, ht, Option.bind_some, owed?_of_task ht, owed?_of_task ht']
      exact htask.owed (by rintro peer d rfl; cases ha) (by rintro rfl; cases ha)
    · refine .inr ⟨hother, ?_⟩
      rw [owed?_of_task ht, owed?_of_task ht']
      rfl

/-- If one task only has something to send, that is what is sent. -/
theorem sends_append_owed (hothers : ∀ k, k ≠ n → l.owed? k = none)
    (hinner : ∀ a ∈ actions, a.isInner = true) (hrun : l.run? actions = some l') :
    l.sends actions ++ (l'.owed? n).toList = (l.owed? n).toList := by
  induction actions generalizing l with
  | nil =>
    cases hrun
    rfl
  | cons a actions ih =>
    rw [run?_cons, Option.bind_eq_some_iff] at hrun
    obtain ⟨m, hm, hrest⟩ := hrun
    rw [List.forall_mem_cons] at hinner
    have howed := (step_of_step? hm).owed_cases hinner.1
    have hothers' : ∀ k, k ≠ n → m.owed? k = none := by
      intro k hk
      rcases howed k with ⟨_, _, hsent⟩ | ⟨_, hsame⟩
      · rw [hothers k hk] at hsent
        exact Option.toList_eq_nil_iff.mp (List.append_eq_nil_iff.mp hsent).2
      · rw [hsame, hothers k hk]
    have hfirst : (l.sent? a).toList ++ (m.owed? n).toList = (l.owed? n).toList := by
      rcases howed n with ⟨_, _, hsent⟩ | ⟨hother, hsame⟩
      · exact hsent
      · have hnothing : l.sent? a = none := by
          cases a with
          | task k event =>
            have hk : k ≠ n := fun heq => hother event (heq ▸ rfl)
            rcases howed k with ⟨_, _, hsent⟩ | ⟨hnot, _⟩
            · rw [hothers k hk] at hsent
              exact Option.toList_eq_nil_iff.mp (List.append_eq_nil_iff.mp hsent).1
            · exact absurd rfl (hnot event)
          | _ => rfl
        rw [hnothing, hsame]
        rfl
    rw [sends, hm, Option.elim_some, List.append_assoc, ih hothers' hinner.2 hrest, hfirst]

end Owed

end Listener

end PortalDns
