-- The laws of switches: to those who make their requests one at a time, a listener
-- is a switch that is on or off. What its tasks do meanwhile, and what is left of
-- earlier requests, makes no difference.
import PortalDns.Proofs.Requests
import PortalDns.Proofs.Truths

namespace PortalDns

/-- A listener as it looks to those who wait for each of their requests. -/
inductive Switch where
  | neverStarted
  | on (interface : Interface) (endpoint : Endpoint)
  | off
deriving DecidableEq, Repr

namespace Switch

def status : Switch → Status
  | neverStarted => .idle
  | on _ e => .serving e
  | off => .stopped

def endpoint? : Switch → Option Endpoint
  | on _ e => some e
  | neverStarted | off => none

/-- What a switch responds to a request, and how it is set after it. -/
inductive Step (settings : Settings) : Switch → Request → Response → Switch → Prop
  | start {s : Switch} {i : Interface} {e : Endpoint} : s.endpoint? = none → settings.Allows e →
      Step settings s (.start i) (.started (.started e)) (on i e)
  | startAgain {i j : Interface} {e : Endpoint} :
      Step settings (on i e) (.start j) (.started (.failed .alreadyRunning)) (on i e)
  | stop {i : Interface} {e : Endpoint} : Step settings (on i e) .stop .stopped off
  | stopAgain {s : Switch} : s.endpoint? = none → Step settings s .stop .stopped s
  | exchange {i : Interface} {e peer : Endpoint} {d : Octets} :
      Step settings (on i e) (.exchange e peer d)
        (.replied ((Portal.replyTo i peer.address d).map (peer, ·)).toList) (on i e)
  | exchangeNothing {s : Switch} {server peer : Endpoint} {d : Octets} :
      s.endpoint? ≠ some server → Step settings s (.exchange server peer d) (.replied []) s

/-- The requests that were made of a switch, with the responses to them, and how it is set now. -/
inductive Runs (settings : Settings) : List (Request × Response) → Switch → Prop
  | new : Runs settings [] neverStarted
  | step {trace : List (Request × Response)} {request : Request} {response : Response}
      {s s' : Switch} : Runs settings trace s → Step settings s request response s' →
      Runs settings (trace ++ [(request, response)]) s'

end Switch

/-! ## The task in force -/

/-- A phase of a task that is not on its way to its end. -/
def Phase.Lasts : Phase → Prop
  | .binding | .waiting => True
  | .opened _ stage => stage ≠ .closing
  | .closed | .finishing | .ended => False

theorem Phase.Lasts.ne_ended {phase : Phase} (h : phase.Lasts) : phase ≠ .ended := by
  rintro rfl
  exact h

namespace Status

variable {s : Status} {e : Endpoint}

theorem not_stopping_serve (h : ¬ s.Stopping) (e : Endpoint) : ¬ (s.serve e).Stopping := by
  cases s with
  | binding => simp [serve, Stopping]
  | idle | serving | stopRequested | stopped => exact h

theorem Leads.eq_serving (h : (serving e).Leads s) (hs : ¬ s.Stopping) : s = serving e := by
  cases s with
  | serving e' => rw [h.eq_of_serving]
  | idle | binding => simp [Leads, rank] at h
  | stopRequested => exact absurd (.inl rfl) hs
  | stopped => exact absurd (.inr rfl) hs

end Status

namespace Task

variable {t t' : Task} {event : TaskEvent} {s : Status}

/-- A task goes on until it is signalled, if the host can tell the endpoint of its socket. -/
theorem Step.lasts (h : t.Step event t') (hsignal : t.signal = .none)
    (hfault : event ≠ .loseEndpoint) (ht : t.phase.Lasts) : t'.phase.Lasts := by
  cases h with
  | bind | publishServing | poll | idle | receive | send | failSend => simp [Phase.Lasts]
  | failBind | retryBind => trivial
  | giveUp _ hs | heed _ hs => exact absurd hsignal hs
  | loseEndpoint => exact absurd rfl hfault
  | @handle _ peer size =>
    unfold afterHandling
    split
    · simp [Phase.Lasts]
    · simp [Phase.Lasts]
  | close hp =>
    rw [hp] at ht
    exact absurd rfl ht
  | publishStopped hp | exit hp =>
    rw [hp] at ht
    exact ht.elim

theorem not_stopping_publication (ht : t.phase.Lasts) (hs : ¬ s.Stopping) (event : TaskEvent) :
    ¬ (t.publication event s).Stopping := by
  generalize hchange : t.publication event = change
  unfold publication at hchange
  split at hchange
  · subst hchange
    exact Status.not_stopping_serve hs _
  · rename_i hphase
    rw [hphase] at ht
    exact ht.elim
  · subst hchange
    exact hs

end Task

namespace Listener

/-- The task in force: its handle is in the slot, and nobody asks it to stop. -/
structure InForce (l : Listener) (n : Nat) (i : Interface) : Prop where
  slot : l.slot = some { generation := n + 1, task := n }
  newest : l.tasks.length = n + 1
  task : ∃ t, l.tasks[n]? = some t ∧ t.interface = i ∧ t.phase.Lasts
  status : ¬ l.status.Stopping

section InForce

variable {l l' : Listener} {a : Action} {n : Nat} {i : Interface} {e : Endpoint} {t : Task}

theorem inForce_spawn (hl : Numbered l) (i : Interface) :
    (l.spawn i).InForce l.tasks.length i where
  slot := by
    simp only [spawn, Publisher.begin]
    rw [hl.generation]
  newest := by simp [tasks_spawn]
  task := by
    refine ⟨{ generation := l.publisher.generation + 1, interface := i }, ?_, rfl, trivial⟩
    simp [tasks_spawn]
  status := by simp [status_spawn, Status.Stopping]

theorem InForce.isRunning (h : l.InForce n i) : l.isRunning n = true := by
  obtain ⟨t, ht, _, hlasts⟩ := h.task
  exact isRunning_iff.mpr ⟨t, ht, hlasts.ne_ended⟩

theorem InForce.owns (h : l.InForce n i) : l.Owns .slot n := ⟨_, h.slot, rfl⟩

theorem InForce.signal_eq (h : l.InForce n i) (hl : Reachable l) (ht : l.tasks[n]? = some t) :
    t.signal = .none :=
  hl.senders.unused .slot n t h.owns ht

/-- No stop call has the handle of the task in force. -/
theorem InForce.generation_ne {call : Nat} {handle : Handle} (h : l.InForce n i) (hl : Reachable l)
    (hhandle : l.stopHandle? call = some handle) :
    l.publisher.generation ≠ handle.generation := by
  intro hcurrent
  have hknows := hl.numbered.stops call handle hhandle
  have hn : handle.task = n := by
    have hgeneration := hl.numbered.generation
    have hnewest := h.newest
    have hnumber := hknows.1
    omega
  have howner : Owner.stopCall call = .slot := hl.unshared n _ _ ⟨handle, hhandle, hn⟩ h.owns
  cases howner

/-- Only a stop call makes the status one of stopping, or a task on its way to its end. -/
theorem InForce.not_stopping (h : l.InForce n i) (hl : Reachable l) (hstep : Step l a l')
    (hdrop : a ≠ .drop) : ¬ l'.status.Stopping := by
  cases hstep with
  | refuse | observe | conclude | stopNothing | take | signal | join | occupy => exact h.status
  | dropNothing | drop => exact absurd rfl hdrop
  | spawn => simp [status_spawn, Status.Stopping]
  | @announce call handle hc =>
    rcases l.status_publish handle.generation Status.requestStop with ⟨hown, _⟩ | ⟨_, hsame⟩
    · exact absurd hown (h.generation_ne hl (stopHandle?_of_stop hc))
    · exact hsame ▸ h.status
  | @release call handle hc =>
    change ¬ (l.publish handle.generation fun _ => .stopped).status.Stopping
    rcases l.status_publish handle.generation fun _ => .stopped with ⟨hown, _⟩ | ⟨_, hsame⟩
    · exact absurd hown (h.generation_ne hl (stopHandle?_of_stop hc))
    · exact hsame ▸ h.status
  | @task number event t t' ht =>
    change ¬ (l.publish t.generation (t.publication event)).status.Stopping
    rcases l.status_publish t.generation (t.publication event) with ⟨hown, hstatus⟩ | ⟨_, hsame⟩
    · have hn : number = n := by
        have hgeneration := hl.numbered.generation
        have hnewest := h.newest
        have hnumber := hl.numbered.tasks number t ht
        omega
      subst hn
      obtain ⟨_, ht', _, hlasts⟩ := h.task
      cases ht.symm.trans ht'
      exact hstatus ▸ Task.not_stopping_publication hlasts h.status event
    · exact hsame ▸ h.status

/-- The task in force stays in force until a stop call begins. -/
theorem InForce.step (h : l.InForce n i) (hl : Reachable l) (hstep : l.step? a = some l')
    (hstop : a ≠ .stop) (hdrop : a ≠ .drop) (hfault : a ≠ .task n .loseEndpoint) :
    l'.InForce n i := by
  have hstep := step_of_step? hstep
  obtain ⟨hslot, hlen, _⟩ := hstep.slot_of_running h.slot h.isRunning hstop hdrop
  refine ⟨hslot, hlen.trans h.newest, ?_, h.not_stopping hl hstep hdrop⟩
  have hnewest := h.newest
  obtain ⟨t, ht, hinterface, hlasts⟩ := h.task
  have ht' := List.getElem?_eq_getElem (l := l'.tasks) (i := n) (by omega)
  refine ⟨_, ht', ?_⟩
  cases hstep.taskOrigin ht' with
  | kept hbefore heq =>
    cases ht.symm.trans hbefore
    rw [heq]
    exact ⟨hinterface, hlasts⟩
  | spawned _ hnumber _ => omega
  | stepped hbefore haction htask _ =>
    cases ht.symm.trans hbefore
    rw [htask.interface_eq]
    exact ⟨hinterface, htask.lasts (h.signal_eq hl ht) (fun heq => hfault (heq ▸ haction)) hlasts⟩

theorem InForce.step_inner (h : l.InForce n i) (hl : Reachable l) (hstep : l.step? a = some l')
    (ha : a.isInner = true) : l'.InForce n i := by
  apply h.step hl hstep
  · rintro rfl
    cases ha
  · rintro rfl
    cases ha
  · rintro rfl
    cases ha

/-- What is served goes on being served until a stop call begins. -/
theorem InForce.serving_step (h : l.InForce n i) (hl : Reachable l) (hstep : l.step? a = some l')
    (hafter : l'.InForce n i) (hserving : l.status = .serving e) : l'.status = .serving e := by
  have hsame : l'.publisher.generation = l.publisher.generation := by
    rw [hl.numbered.generation, (hl.step hstep).numbered.generation, h.newest, hafter.newest]
  have hleads := ((step_of_step? hstep).follows hl.numbered).leads hsame
  rw [hserving] at hleads
  exact hleads.eq_serving hafter.status

theorem InForce.announces (h : l.InForce n i) (hl : Reachable l) (hkept : l.dropped = false)
    (ht : l.tasks[n]? = some t) : t.Announces l.status := by
  apply hl.truthful hkept n t ht
  rw [hl.numbered.tasks n t ht, hl.numbered.generation, h.newest]

/-- The task in force holds the socket that is served. -/
theorem InForce.holds (h : l.InForce n i) (hl : Reachable l) (hkept : l.dropped = false)
    (hserving : l.status = .serving e) : l.Holds n e := by
  obtain ⟨t, ht, _⟩ := h.task
  have hannounces := h.announces hl hkept ht
  rw [hserving] at hannounces
  exact ⟨t, ht, hannounces.socket_of_serving⟩

end InForce

/-! ## Listeners as switches -/

/-- A listener between two requests. -/
structure Rests (l : Listener) : Prop where
  reachable : Reachable l
  kept : l.dropped = false
  settled : l.Settled

/-- How a listener is set, as a switch. -/
def IsSet (l : Listener) : Switch → Prop
  | .neverStarted => l.tasks = []
  | .on i e => l.status = .serving e ∧ ∃ n, l.InForce n i
  | .off => l.slot = none ∧ l.tasks ≠ []

/-- What can be seen of a listener is what a switch shows: the status, and which endpoints others
can bind. -/
structure Shows (l : Listener) (s : Switch) : Prop where
  status : l.status = s.status
  free : ∀ e, l.isFree e = true ↔ e ∉ l.others ∧ s.endpoint? ≠ some e

section Rests

variable {l l' : Listener} {a : Action} {actions : List Action} {n : Nat} {i : Interface}
  {e : Endpoint} {s : Switch}

theorem isFree_iff : l.isFree e = true ↔ e ∉ l.others ∧ ∀ n, ¬ l.Holds n e := by
  simp only [isFree, decide_eq_true_eq]
  refine and_congr_right fun _ => ⟨?_, ?_⟩
  · rintro hfree n ⟨t, ht, hsocket⟩
    exact hfree t (List.mem_of_getElem? ht) hsocket
  · intro hfree t ht hsocket
    obtain ⟨n, hn⟩ := List.mem_iff_getElem?.mp ht
    exact hfree n ⟨t, hn, hsocket⟩

/-- Between two requests, a task that runs is the one whose handle is in the slot. -/
theorem Rests.owns_of_isRunning (hl : l.Rests) (hn : l.isRunning n = true) : l.Owns .slot n := by
  obtain ⟨o, ho⟩ := hl.reachable.exists_owner hl.kept hn
  exact owner_eq_slot_of_isQuiet hl.settled.calls ho ▸ ho

theorem IsSet.not_owns (hs : l.IsSet s) (hl : Numbered l) (hoff : s.endpoint? = none) :
    ¬ l.Owns .slot n := by
  rintro ⟨handle, hslot, _⟩
  cases s with
  | on => cases hoff
  | neverStarted =>
    have hlt := (hl.slot handle hslot).2
    rw [show l.tasks = [] from hs] at hlt
    exact absurd hlt (Nat.not_lt_zero _)
  | off => cases hs.1.symm.trans hslot

/-- Which sockets are held between two requests. -/
theorem Rests.holds_iff (hl : l.Rests) (hs : l.IsSet s) :
    (∃ n, l.Holds n e) ↔ s.endpoint? = some e := by
  cases hoff : s.endpoint? with
  | none =>
    simp only [reduceCtorEq, iff_false, not_exists]
    intro n he
    exact hs.not_owns hl.reachable.numbered hoff (hl.owns_of_isRunning he.isRunning)
  | some e' =>
    cases s with
    | neverStarted | off => cases hoff
    | on i =>
      cases hoff
      obtain ⟨hserving, n, hforce⟩ := hs
      have hholds := hforce.holds hl.reachable hl.kept hserving
      refine ⟨?_, ?_⟩
      · rintro ⟨k, t, ht, hsocket⟩
        have howns := hl.owns_of_isRunning (Holds.isRunning ⟨t, ht, hsocket⟩)
        obtain ⟨handle, hslot, rfl⟩ := howns
        cases hforce.slot.symm.trans hslot
        obtain ⟨t', ht', hsocket'⟩ := hholds
        cases ht.symm.trans ht'
        exact hsocket'.symm.trans hsocket
      · rintro ⟨⟩
        exact ⟨n, hholds⟩

theorem Rests.status_eq (hl : l.Rests) (hs : l.IsSet s) : l.status = s.status := by
  cases s with
  | neverStarted => exact hl.reachable.status_eq_idle_iff_tasks.mpr hs
  | on => exact hs.1
  | off =>
    obtain ⟨n, t, _, ht, hcurrent⟩ := exists_newest? hl.reachable.numbered hs.2
    refine hl.reachable.finished n t ht hcurrent (.inr ?_)
    by_contra hphase
    exact hs.not_owns hl.reachable.numbered rfl
      (hl.owns_of_isRunning (isRunning_iff.mpr ⟨t, ht, hphase⟩))

theorem Rests.shows (hl : l.Rests) (hs : l.IsSet s) : l.Shows s where
  status := hl.status_eq hs
  free e := by
    rw [isFree_iff, ← not_exists, hl.holds_iff hs]

/-- Inner steps leave a switch as it is set. -/
theorem IsSet.step (hs : l.IsSet s) (hl : Reachable l) (ha : a.isInner = true)
    (h : l.step? a = some l') : l'.IsSet s := by
  have hwithin := (step_of_step? h).within ha
  cases s with
  | neverStarted =>
    refine List.length_eq_zero_iff.mp ?_
    rw [hwithin.tasks, show l.tasks = [] from hs]
    rfl
  | on i e =>
    obtain ⟨hserving, n, hforce⟩ := hs
    have hafter := hforce.step_inner hl h ha
    exact ⟨hforce.serving_step hl h hafter hserving, n, hafter⟩
  | off =>
    refine ⟨hwithin.slot.trans hs.1, ?_⟩
    intro hnone
    have hlen := hwithin.tasks
    rw [hnone] at hlen
    exact hs.2 (List.length_eq_zero_iff.mp hlen.symm)

theorem IsSet.run (hs : l.IsSet s) (hl : Reachable l) (hinner : ∀ a ∈ actions, a.isInner = true)
    (hrun : l.run? actions = some l') : l'.IsSet s := by
  refine (inner_run_keeps (p := fun l => Reachable l ∧ l.IsSet s) ?_ ⟨hl, hs⟩ hinner hrun).2
  rintro l l' a ⟨hl, hs⟩ ha h
  exact ⟨hl.step h, hs.step hl ha h⟩

theorem Settled.step (hsettled : l.Settled) (ha : a.isInner = true) (h : l.step? a = some l') :
    l'.Settled := by
  have hstep := step_of_step? h
  have hwithin := hstep.within ha
  refine ⟨?_, fun n hn => hsettled.tasks n (hstep.answers (Action.isInner_of_task ha) hn)⟩
  rw [isQuiet_iff, hwithin.starts, hwithin.stops]
  exact (isQuiet_iff.mp hsettled.calls).step hstep

theorem Rests.step (hl : l.Rests) (ha : a.isInner = true) (h : l.step? a = some l') : l'.Rests where
  reachable := hl.reachable.step h
  kept := ((step_of_step? h).within ha).dropped.trans hl.kept
  settled := hl.settled.step ha h

/-- Between two requests, the task in force polls its socket, if it serves. -/
theorem Rests.phase_of_serving (hl : l.Rests) (hforce : l.InForce n i)
    (hserving : l.status = .serving e) :
    ∃ t, l.tasks[n]? = some t ∧
      (t.phase = .opened e .checking ∨ t.phase = .opened e .polling) := by
  obtain ⟨t, ht, _, hlasts⟩ := hforce.task
  refine ⟨t, ht, ?_⟩
  have hannounces := (hforce.announces hl.reachable hl.kept ht).phase
  have hanswers : t.isAnswering ≠ true := fun h => hl.settled.tasks n ⟨t, ht, h⟩
  rw [hserving] at hannounces
  cases hphase : t.phase with
  | binding | waiting | closed =>
    rw [hphase] at hannounces
    rcases hannounces with heq | heq
    · cases heq
    · cases heq
  | finishing | ended =>
    rw [hphase] at hannounces
    cases hannounces
  | opened socket stage =>
    rw [hphase] at hannounces
    cases stage with
    | closing => cases hannounces
    | handling | sending => exact absurd (by simp [Task.isAnswering, hphase]) hanswers
    | bound | checking | polling =>
      rcases hannounces with heq | heq
      · cases heq <;> simp
      · cases heq

end Rests

/-! ## Start requests -/

/-- A start call that began the generation of task `n`: it waits, or has seen what is served and
returns that. -/
def Starting (l : Listener) (call n : Nat) : Prop :=
  l.starts[call]? = some ⟨some (n + 1), .waiting⟩ ∨
    ∃ e, l.status = .serving e ∧
      (l.starts[call]? = some ⟨some (n + 1), .seen (.serving e)⟩ ∨
        l.starts[call]? = some ⟨some (n + 1), .returned (.started e)⟩)

section Start

variable {l l' : Listener} {a : Action} {actions : List Action} {call n : Nat} {i : Interface}
  {e : Endpoint} {s : Switch} {response : Response}

theorem InForce.isCurrent (h : l.InForce n i) (hl : Numbered l) : l.isCurrent (n + 1) = true := by
  simp only [Listener.isCurrent, decide_eq_true_eq]
  rw [hl.generation, h.newest]

theorem eq_serving_of_settled {s : Status} (hs : ¬ s.Stopping) (hsettled : s.settled = true) :
    ∃ e, s = .serving e := by
  cases s with
  | serving e => exact ⟨e, rfl⟩
  | stopped => exact absurd (.inr rfl) hs
  | idle | binding | stopRequested => cases hsettled

theorem Starting.step (hcall : l.Starting call n) (hforce : l.InForce n i) (hl : Reachable l)
    (h : l.step? a = some l') (hafter : l'.InForce n i) : l'.Starting call n := by
  have hstep := step_of_step? h
  have hcurrent := hforce.isCurrent hl.numbered
  rcases hcall with hwaiting | ⟨e, hserving, hcall⟩
  · rcases hstep.start_cases hwaiting with hkept | ⟨g, rfl, heq, hseen⟩ | ⟨_, _, _, heq, _⟩
    · exact .inl hkept
    · cases heq
      cases hstep with
      | observe hc hready =>
        cases hwaiting.symm.trans hc
        rw [hcurrent] at hready
        obtain ⟨e, hserving⟩ := eq_serving_of_settled hforce.status (hready.resolve_right (by simp))
        exact .inr ⟨e, hforce.serving_step hl h hafter hserving,
          .inl (hseen.trans (by rw [hserving]))⟩
    · cases heq
  · refine .inr ⟨e, hforce.serving_step hl h hafter hserving, ?_⟩
    rcases hcall with hseen | hreturned
    · rcases hstep.start_cases hseen with hkept | ⟨_, _, heq, _⟩ | ⟨g, s, rfl, heq, hreturned⟩
      · exact .inl hkept
      · cases heq
      · cases heq
        rw [startResult, if_pos hcurrent] at hreturned
        exact .inr hreturned
    · exact .inr (hstep.of_returned hreturned).1

/-- While a start request is made, its task is in force. -/
structure Begins (l : Listener) (call n : Nat) (i : Interface) : Prop where
  reachable : Reachable l
  force : l.InForce n i
  starting : l.Starting call n

theorem begins_spawn (hl : Reachable l) (h : l.step? (.start i) = some (l.spawn i)) :
    (l.spawn i).Begins l.starts.length l.tasks.length i where
  reachable := hl.step h
  force := inForce_spawn hl.numbered i
  starting := by
    refine .inl ?_
    simp [spawn, Publisher.begin, hl.numbered.generation]

theorem Begins.step (hl : l.Begins call n i) (ha : a.isInner = true) (h : l.step? a = some l') :
    l'.Begins call n i := by
  have hforce := hl.force.step_inner hl.reachable h ha
  exact ⟨hl.reachable.step h, hforce, hl.starting.step hl.force hl.reachable h hforce⟩

theorem Begins.started (hl : l.Begins call n i) (hkept : l.dropped = false) {result : StartResult}
    (hresult : l.startResult? call = some result) :
    ∃ e, result = .started e ∧ l.settings.Allows e ∧ l.IsSet (.on i e) := by
  rcases hl.starting with hwaiting | ⟨e, hserving, hseen | hreturned⟩
  · cases (startResult?_of_start hwaiting).symm.trans hresult
  · cases (startResult?_of_start hseen).symm.trans hresult
  · cases (startResult?_of_start hreturned).symm.trans hresult
    refine ⟨e, rfl, ?_, hserving, n, hl.force⟩
    exact hl.reachable.allows_of_holds (hl.force.holds hl.reachable hkept hserving)

/-- A start request is refused while the switch is on, and turns it on otherwise. -/
theorem Rests.step_of_start {m : Listener} (hl : l.Rests) (hs : l.IsSet s)
    (hm : l.step? (.start i) = some m) (hinner : ∀ a ∈ actions, a.isInner = true)
    (hrun : m.run? actions = some l') (hkept : l'.dropped = false)
    (hresponse : (l'.startResult? l.starts.length).map Response.started = some response) :
    ∃ s', s.Step l.settings (.start i) response s' ∧ l'.IsSet s' := by
  obtain ⟨result, hresult, rfl⟩ := Option.map_eq_some_iff.mp hresponse
  cases step_of_start hm with
  | refuse hdropped hslot hrunning =>
    cases s with
    | neverStarted | off => exact absurd ⟨_, hslot, rfl⟩ (hs.not_owns hl.reachable.numbered rfl)
    | on j e =>
      have hrefused : l.refuse.starts[l.starts.length]? =
          some ⟨none, .returned (.failed .alreadyRunning)⟩ := by
        simp [refuse]
      have hreturned := (run_of_returned hrefused hrun).1
      cases (startResult?_of_start hreturned).symm.trans hresult
      obtain ⟨hserving, n, hforce⟩ := hs
      have hon : l.refuse.IsSet (.on j e) :=
        ⟨hserving, n, hforce.slot, hforce.newest, hforce.task, hforce.status⟩
      exact ⟨_, .startAgain, hon.run (hl.reachable.step hm) hinner hrun⟩
  | spawn hdropped hended =>
    have hoff : s.endpoint? = none := by
      cases s with
      | neverStarted | off => rfl
      | on j e =>
        obtain ⟨_, n, hforce⟩ := hs
        cases (hended _ hforce.slot).symm.trans hforce.isRunning
    have hbegins := inner_run_keeps (p := fun l' => l'.Begins l.starts.length l.tasks.length i)
      Begins.step (begins_spawn hl.reachable hm) hinner hrun
    obtain ⟨e, rfl, hallows, hon⟩ := hbegins.started hkept hresult
    rw [(run_within hinner hrun).settings] at hallows
    exact ⟨_, .start hoff hallows, hon⟩

end Start

/-! ## Stop requests -/

section Stop

variable {l l' m : Listener} {actions : List Action} {s : Switch}

/-- A stop request turns the switch off if it is on. -/
theorem Rests.step_of_stop (hl : l.Rests) (hs : l.IsSet s) (hm : l.step? .stop = some m)
    (hinner : ∀ a ∈ actions, a.isInner = true) (hrun : m.run? actions = some l') :
    ∃ s', s.Step l.settings .stop .stopped s' ∧ l'.IsSet s' := by
  have hreachable := hl.reachable.step hm
  cases Listener.step_of_stop hm with
  | stopNothing hdropped hslot =>
    have hsame : IsSet { l with stops := l.stops ++ [.returned] } s ∧ s.endpoint? = none := by
      cases s with
      | neverStarted => exact ⟨hs, rfl⟩
      | off => exact ⟨hs, rfl⟩
      | on i e =>
        obtain ⟨_, n, hforce⟩ := hs
        cases hforce.slot.symm.trans hslot
    exact ⟨s, .stopAgain hsame.2, hsame.1.run hreachable hinner hrun⟩
  | @take handle hdropped hslot =>
    cases s with
    | neverStarted | off => exact absurd ⟨_, hslot, rfl⟩ (hs.not_owns hl.reachable.numbered rfl)
    | on i e =>
      obtain ⟨_, n, hforce⟩ := hs
      have hoff : IsSet { l with slot := none, stops := l.stops ++ [.taken handle] } .off := by
        refine ⟨rfl, ?_⟩
        intro hnone
        have hnewest := hforce.newest
        rw [show l.tasks = [] from hnone] at hnewest
        cases hnewest
      exact ⟨.off, .stop, hoff.run hreachable hinner hrun⟩

end Stop

/-! ## Exchanges -/

section Exchange

variable {l l' m : Listener} {actions : List Action} {n : Nat} {server peer : Endpoint} {d : Octets}
  {s : Switch}

/-- A datagram reaches the task that holds the server's socket, or there is none. -/
theorem opening_exchange (l : Listener) (server peer : Endpoint) (d : Octets) :
    (∃ n, l.Holds n server ∧ l.opening (.exchange server peer d) = [.task n (.receive peer d)]) ∨
      (∀ n, ¬ l.Holds n server) ∧ l.opening (.exchange server peer d) = [] := by
  simp only [opening]
  split
  · rename_i n hfound
    obtain ⟨hlt, hsocket, _⟩ := List.findIdx?_eq_some_iff_getElem.mp hfound
    exact .inl ⟨n, ⟨_, List.getElem?_eq_getElem hlt, by simpa using hsocket⟩, rfl⟩
  · rename_i hnone
    rw [List.findIdx?_eq_none_iff] at hnone
    refine .inr ⟨?_, rfl⟩
    rintro n ⟨t, ht, hsocket⟩
    simpa [hsocket] using hnone t (List.mem_of_getElem? ht)

/-- If nobody has something to send, nothing is sent. -/
theorem Settled.sends_eq_nil (hsettled : l.Settled) (hinner : ∀ a ∈ actions, a.isInner = true)
    (hrun : l.run? actions = some l') : l.sends actions = [] := by
  have hsent := sends_append_owed (n := 0) (fun k _ => hsettled.owed?_eq_none k) hinner hrun
  rw [hsettled.owed?_eq_none, Option.toList_none] at hsent
  exact (List.append_eq_nil_iff.mp hsent).1

/-- Once a datagram has reached the task in force, the task has to reply to it. -/
theorem owed?_of_arrival {i : Interface} (hforce : l.InForce n i) (hl : Reachable l)
    (hm : l.step? (.task n (.receive peer d)) = some m) :
    m.owed? n = (Portal.replyTo i peer.address d).map (peer, ·) := by
  obtain ⟨t, ht, rfl, _⟩ := hforce.task
  cases step_of_step? hm with
  | @task _ _ _ t' ht' htask _ =>
    cases ht.symm.trans ht'
    have hafter : (l.tasks.set n t')[n]? = some t' :=
      List.getElem?_set_self (List.getElem?_eq_some_iff.mp ht).1
    rw [owed?_of_task (l := (l.setTask n t').publish _ _) hafter]
    exact htask.owed_of_receive (hl.length_buffer ht)

theorem owed?_of_arrival_elsewhere {k : Nat} (hk : k ≠ n)
    (hm : l.step? (.task n (.receive peer d)) = some m) : m.owed? k = l.owed? k := by
  cases step_of_step? hm with
  | task => exact congrArg (Option.bind · Task.owed?) (List.getElem?_set_ne hk.symm)

/-- An exchange is answered by the portal if the switch is on, and its endpoint is asked. -/
theorem Rests.step_of_exchange (hl : l.Rests) (hs : l.IsSet s)
    (hinner : ∀ a ∈ actions, a.isInner = true)
    (hrun : l.run? (l.opening (.exchange server peer d) ++ actions) = some l')
    (hsettled : l'.Settled) :
    ∃ s', s.Step l.settings (.exchange server peer d)
      (.replied (l.sends (l.opening (.exchange server peer d) ++ actions))) s' ∧ l'.IsSet s' := by
  rcases l.opening_exchange server peer d with ⟨n, hholds, hopening⟩ | ⟨hnobody, hopening⟩
  · rw [hopening, List.singleton_append] at hrun ⊢
    rw [run?_cons, Option.bind_eq_some_iff] at hrun
    obtain ⟨m, hm, hrest⟩ := hrun
    have hendpoint := (hl.holds_iff hs).mp ⟨n, hholds⟩
    cases s with
    | neverStarted | off => cases hendpoint
    | on i e =>
      cases hendpoint
      obtain ⟨hserving, k, hforce⟩ := hs
      have hk : k = n :=
        hl.reachable.eq_of_holds (hforce.holds hl.reachable hl.kept hserving) hholds
      subst hk
      have hafter := hforce.step hl.reachable hm (by simp) (by simp) (by simp)
      have hon : m.IsSet (.on i server) :=
        ⟨hforce.serving_step hl.reachable hm hafter hserving, k, hafter⟩
      have hothers : ∀ j, j ≠ k → m.owed? j = none := fun j hj =>
        (owed?_of_arrival_elsewhere hj hm).trans (hl.settled.owed?_eq_none j)
      have hsent := sends_append_owed hothers hinner hrest
      rw [hsettled.owed?_eq_none, owed?_of_arrival hforce hl.reachable hm, Option.toList_none,
        List.append_nil] at hsent
      have hnothing : l.sent? (.task k (.receive peer d)) = none := by
        obtain ⟨t, ht, _⟩ := hholds
        simp [sent?, ht, Task.sent?]
      rw [sends, hm, hnothing, Option.toList_none, List.nil_append, Option.elim_some, hsent]
      exact ⟨_, .exchange, hon.run (hl.reachable.step hm) hinner hrest⟩
  · rw [hopening, List.nil_append] at hrun ⊢
    rw [hl.settled.sends_eq_nil hinner hrun]
    refine ⟨s, .exchangeNothing ?_, hs.run hl.reachable hinner hrun⟩
    intro hendpoint
    obtain ⟨n, hn⟩ := (hl.holds_iff hs).mpr hendpoint
    exact hnobody n hn

end Exchange

/-! ## Requests one after the other -/

section Performed

variable {settings : Settings} {trace : List (Request × Response)} {l l' m : Listener}
  {a : Action} {actions : List Action} {request : Request} {response : Response} {s : Switch}

theorem Step.dropped_eq (h : Step l a l') (ha : a ≠ .drop) : l'.dropped = l.dropped := by
  cases h with
  | dropNothing | drop => exact absurd rfl ha
  | refuse | spawn | observe | conclude | stopNothing | take | announce | signal | join | release
  | task | occupy => rfl

theorem opening_cases (l : Listener) (request : Request) :
    l.opening request = [] ∨ ∃ a, l.opening request = [a] ∧ a ≠ .drop := by
  cases request with
  | start i => exact .inr ⟨_, rfl, by simp⟩
  | stop => exact .inr ⟨_, rfl, by simp⟩
  | exchange server peer d =>
    rcases l.opening_exchange server peer d with ⟨n, _, hopening⟩ | ⟨_, hopening⟩
    · exact .inr ⟨_, hopening, by simp⟩
    · exact .inl hopening

theorem Rests.of_opening (hl : l.Rests) (hm : l.run? (l.opening request) = some m) :
    Reachable m ∧ m.dropped = false ∧ m.settings = l.settings := by
  rcases l.opening_cases request with hopening | ⟨a, hopening, ha⟩
  · rw [hopening] at hm
    cases hm
    exact ⟨hl.reachable, hl.kept, rfl⟩
  · rw [hopening, run?_cons, Option.bind_eq_some_iff] at hm
    obtain ⟨_, hstep, heq⟩ := hm
    cases heq
    have hkept := (step_of_step? hstep).dropped_eq ha
    exact ⟨hl.reachable.step hstep, hkept.trans hl.kept, (step_of_step? hstep).settings_eq⟩

/-- A request that is made of a listener gets the response of a switch. -/
theorem Rests.exists_step (hl : l.Rests) (hs : l.IsSet s)
    (hinner : ∀ a ∈ actions, a.isInner = true)
    (hrun : l.run? (l.opening request ++ actions) = some l') (hafter : l'.Rests)
    (hresponse : l.response? (l.opening request ++ actions) l' request = some response) :
    ∃ s', s.Step l.settings request response s' ∧ l'.IsSet s' := by
  cases request with
  | start i =>
    obtain ⟨m, hm, hrest⟩ := Option.bind_eq_some_iff.mp hrun
    exact hl.step_of_start hs hm hinner hrest hafter.kept hresponse
  | stop =>
    obtain ⟨m, hm, hrest⟩ := Option.bind_eq_some_iff.mp hrun
    obtain rfl : Response.stopped = response := by
      simp only [response?, Option.ite_none_right_eq_some, Option.some.injEq] at hresponse
      exact hresponse.2
    exact hl.step_of_stop hs hm hinner hrest
  | exchange server peer d =>
    cases hresponse
    exact hl.step_of_exchange hs hinner hrun hafter.settled

theorem Performed.rests (h : Performed settings trace l) : l.Rests ∧ l.settings = settings := by
  induction h with
  | new => exact ⟨⟨.new settings, rfl, rfl, by simp [Answers]⟩, rfl⟩
  | wait _ ha hstep ih =>
    obtain ⟨hl, hsettings⟩ := ih
    exact ⟨hl.step ha hstep, (step_of_step? hstep).settings_eq.trans hsettings⟩
  | request request actions _ hinner hrun hsettled _ ih =>
    obtain ⟨hl, hsettings⟩ := ih
    rw [run?_append, Option.bind_eq_some_iff] at hrun
    obtain ⟨m, hm, hrest⟩ := hrun
    obtain ⟨hreachable, hkept, hsame⟩ := hl.of_opening hm
    have hwithin := run_within hinner hrest
    exact ⟨⟨hreachable.run hrest, hwithin.dropped.trans hkept, hsettled⟩,
      (hwithin.settings.trans hsame).trans hsettings⟩

/-- The requests that were made of a listener are requests of a switch, with the same responses. -/
theorem Performed.exists_switch (h : Performed settings trace l) :
    ∃ s, Switch.Runs settings trace s ∧ l.IsSet s := by
  induction h with
  | new => exact ⟨.neverStarted, .new, rfl⟩
  | wait h ha hstep ih =>
    obtain ⟨s, hruns, hs⟩ := ih
    exact ⟨s, hruns, hs.step h.rests.1.reachable ha hstep⟩
  | request request actions h hinner hrun hsettled hresponse ih =>
    obtain ⟨s, hruns, hs⟩ := ih
    obtain ⟨hl, rfl⟩ := h.rests
    have hafter := (h.request request actions hinner hrun hsettled hresponse).rests.1
    obtain ⟨s', hstep, hs'⟩ := hl.exists_step hs hinner hrun hafter hresponse
    exact ⟨s', hruns.step hstep, hs'⟩

end Performed

end Listener

end PortalDns
