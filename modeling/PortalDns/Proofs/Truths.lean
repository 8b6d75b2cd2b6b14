-- The laws of what is published: the status tells what the newest task does with
-- its socket, and once the task has ended, no start call waits for it any more.
import PortalDns.Proofs.Owners

namespace PortalDns

namespace Status

/-- A stop is asked for, or done. -/
def Stopping (s : Status) : Prop := s = stopRequested ∨ s = stopped

theorem Leads.stopping {s s' : Status} (h : s.Leads s') (hs : s.Stopping) : s'.Stopping := by
  rcases hs with rfl | rfl
  · cases s' with
    | stopRequested | stopped => simp [Stopping]
    | idle | binding | serving => simp [Leads, rank] at h
  · cases s' with
    | stopRequested | stopped => simp [Stopping]
    | idle | binding | serving => simp [Leads, rank] at h

theorem Leads.eq_stopped {s : Status} (h : stopped.Leads s) : s = stopped := by
  cases s with
  | stopped => rfl
  | idle | binding | serving | stopRequested => simp [Leads, rank] at h

theorem stopping_requestStop (s : Status) : s.requestStop.Stopping := by
  unfold requestStop
  split
  · exact .inr rfl
  · exact .inl rfl

end Status

/-! ## What a task announces -/

/-- The statuses under which a task may be in a phase: what it has published itself, or that a stop
is asked for. A task that closes its socket has been asked to. Only one that could not tell its
endpoint has closed a socket without having published it. -/
def Phase.Announces : Phase → Status → Prop
  | .binding, s | .waiting, s | .opened _ .bound, s | .closed, s => s = .binding ∨ s = .stopRequested
  | .opened _ .closing, s => s = .stopRequested
  | .opened socket _, s => s = .serving socket ∨ s = .stopRequested
  | .finishing, s | .ended, s => s = .stopped

/-- A status that says what a task does, and whether it was signalled. -/
structure Task.Announces (t : Task) (s : Status) : Prop where
  phase : t.phase.Announces s
  signalled : t.signal ≠ .none → s.Stopping

theorem Phase.Announces.requestStop {phase : Phase} {s : Status} (h : phase.Announces s) :
    phase.Announces s.requestStop := by
  cases phase with
  | binding | waiting | closed =>
    rcases h with rfl | rfl
    · exact .inr rfl
    · exact .inr rfl
  | opened socket stage =>
    cases stage with
    | closing =>
      cases h
      rfl
    | bound | checking | polling | handling | sending =>
      rcases h with rfl | rfl
      · exact .inr rfl
      · exact .inr rfl
  | finishing | ended =>
    cases h
    rfl

namespace Task

variable {t t' : Task} {event : TaskEvent} {s : Status} {e : Endpoint}

theorem Announces.requestStop (h : t.Announces s) : t.Announces s.requestStop :=
  ⟨h.phase.requestStop, fun _ => s.stopping_requestStop⟩

/-- A task that takes a step, and publishes what it does, goes on telling the truth. -/
theorem Step.announces (h : t.Step event t') (hs : t.Announces s) :
    t'.Announces (t.publication event s) := by
  obtain ⟨hphase, hsignalled⟩ := hs
  cases h with
  | bind hp | failBind hp | retryBind hp | giveUp hp | loseEndpoint hp | poll hp | idle hp
  | receive hp | send hp | failSend hp | exit hp =>
    rw [hp] at hphase
    simp only [publication, hp]
    exact ⟨hphase, hsignalled⟩
  | publishServing hp =>
    rw [hp] at hphase
    simp only [publication, hp]
    rcases hphase with rfl | rfl
    · refine ⟨.inl rfl, ?_⟩
      intro hsignal
      rcases hsignalled hsignal with h | h <;> cases h
    · exact ⟨.inr rfl, fun _ => .inl rfl⟩
  | heed hp hsignal =>
    rw [hp] at hphase
    simp only [publication, hp]
    refine ⟨?_, hsignalled⟩
    rcases hphase with rfl | rfl
    · rcases hsignalled hsignal with h | h <;> cases h
    · rfl
  | handle hp =>
    rw [hp] at hphase
    simp only [publication, hp]
    refine ⟨?_, hsignalled⟩
    unfold afterHandling
    split
    · exact hphase
    · exact hphase
  | close hp =>
    rw [hp] at hphase
    simp only [publication, hp]
    exact ⟨.inr hphase, hsignalled⟩
  | publishStopped hp =>
    simp only [publication, hp]
    exact ⟨rfl, fun _ => .inr rfl⟩

theorem Announces.socket_of_serving (h : t.Announces (.serving e)) : t.socket? = some e := by
  have hphase := h.phase
  unfold Phase.Announces at hphase
  split at hphase <;> simp_all [socket?]

theorem Announces.socket_of_stopped (h : t.Announces .stopped) : t.socket? = none := by
  have hphase := h.phase
  unfold Phase.Announces at hphase
  split at hphase <;> simp_all [socket?]

end Task

/-- The handle of a stop call that has published that a stop is asked for. -/
def StopCall.announced? : StopCall → Option Handle
  | announced handle | signalled handle | joined handle => some handle
  | taken _ | returned => none

theorem StopCall.handle?_of_announced? {c : StopCall} {handle : Handle}
    (h : c.announced? = some handle) : c.handle? = some handle := by
  cases c with
  | announced | signalled | joined => exact h
  | taken | returned => cases h

namespace Listener

/-! ## What is published of the newest task -/

/-- Once a stop call has said so, the status of its generation tells that a stop is asked for. -/
def Heard (l : Listener) : Prop :=
  ∀ (call : Nat) (c : StopCall) (handle : Handle), l.stops[call]? = some c →
    c.announced? = some handle → handle.generation = l.publisher.generation → l.status.Stopping

/-- The newest task announces the status, as long as the owner has not let go of the listener. -/
def Truthful (l : Listener) : Prop :=
  l.dropped = false → ∀ (n : Nat) (t : Task), l.tasks[n]? = some t →
    t.generation = l.publisher.generation → t.Announces l.status

/-- The newest task has published that it has stopped before it ends. -/
def Finished (l : Listener) : Prop :=
  ∀ (n : Nat) (t : Task), l.tasks[n]? = some t → t.generation = l.publisher.generation →
    t.phase = .finishing ∨ t.phase = .ended → l.status = .stopped

section Publishing

variable {l l' : Listener} {a : Action} {n g call : Nat} {t t' : Task} {handle : Handle}

/-- What is published on behalf of a generation counts if it is the newest. -/
theorem status_publish (l : Listener) (g : Nat) (change : Status → Status) :
    l.publisher.generation = g ∧ (l.publish g change).status = change l.status ∨
      l.publisher.generation ≠ g ∧ (l.publish g change).status = l.status := by
  unfold publish status Publisher.update
  split
  · rename_i hcurrent
    exact .inl ⟨hcurrent, rfl⟩
  · rename_i hstale
    exact .inr ⟨hstale, rfl⟩

/-- A task that was there before a step is the newest after it only if it was so before. -/
theorem Step.generation_of_task (h : Step l a l') (hl : Numbered l) (ht : l.tasks[n]? = some t)
    (hcurrent : t.generation = l'.publisher.generation) :
    l'.publisher.generation = l.publisher.generation := by
  have hlt := (List.getElem?_eq_some_iff.mp ht).1
  have hgrows := (h.follows hl).generation
  have hnumber := hl.tasks n t ht
  have hcount := hl.generation
  omega

theorem Step.generation_of_knows (h : Step l a l') (hl : Numbered l) (hhandle : l.Knows handle)
    (hcurrent : handle.generation = l'.publisher.generation) :
    l'.publisher.generation = l.publisher.generation := by
  obtain ⟨hnumber, hlt⟩ := hhandle
  have hgrows := (h.follows hl).generation
  have hcount := hl.generation
  omega

theorem Heard.step (hl : Heard l) (hnumbered : Numbered l) (h : Step l a l') : Heard l' := by
  intro call c handle hc hsome hcurrent
  have hkept {c' : StopCall} (hc' : l.stops[call]? = some c') (hsome' : c'.announced? = some handle) :
      l'.status.Stopping := by
    have hhandle := (stopHandle?_of_stop hc').trans (StopCall.handle?_of_announced? hsome')
    have hsame := h.generation_of_knows hnumbered (hnumbered.stops call handle hhandle) hcurrent
    exact ((h.follows hnumbered).leads hsame).stopping
      (hl call c' handle hc' hsome' (hcurrent.trans hsame))
  cases h.stopOrigin hc with
  | kept hc' => exact hkept hc' hsome
  | nothing | taken | released => cases hsome
  | signalled _ hc' => exact hkept hc' hsome
  | joined _ hc' => exact hkept hc' hsome
  | announced haction hc' =>
    subst haction
    cases hsome
    cases h with
    | announce hnumber =>
      cases hnumber.symm.trans hc'
      rcases l.status_publish handle.generation Status.requestStop with ⟨_, hstatus⟩ | ⟨hstale, _⟩
      · exact hstatus ▸ l.status.stopping_requestStop
      · exact absurd (hcurrent.trans (Publisher.generation_update ..)).symm hstale

theorem phase_of_not_isRunning (ht : l.tasks[n]? = some t) (hn : l.isRunning n = false) :
    t.phase = .ended := by
  by_contra hphase
  rw [← Bool.not_eq_true, isRunning_iff] at hn
  exact hn ⟨t, ht, hphase⟩

theorem Truthful.step (hl : Truthful l) (hheard : Heard l) (hended : JoinedEnded l)
    (hnumbered : Numbered l) (h : Step l a l') : Truthful l' := by
  intro hkept n t' ht' hcurrent
  have hbefore {t : Task} (ht : l.tasks[n]? = some t) (hsame : t.generation = t'.generation) :
      t.generation = l.publisher.generation :=
    (hsame.trans hcurrent).trans (h.generation_of_task hnumbered ht (hsame.trans hcurrent))
  cases h with
  | refuse | observe | conclude | stopNothing | take | join | occupy =>
    exact hl hkept n t' ht' hcurrent
  | spawn =>
    rcases getElem?_snoc_cases ht' with ⟨_, rfl⟩ | ht
    · exact ⟨.inl rfl, fun hsignal => absurd rfl hsignal⟩
    · have hsame := hbefore ht rfl
      rw [hcurrent, generation_spawn] at hsame
      omega
  | @announce call handle hc =>
    have hannounces := hl hkept n t' ht' (hbefore ht' rfl)
    change t'.Announces (l.publish handle.generation Status.requestStop).status
    rcases l.status_publish handle.generation Status.requestStop with ⟨_, hstatus⟩ | ⟨_, hstatus⟩
    · exact hstatus ▸ hannounces.requestStop
    · exact hstatus ▸ hannounces
  | @signal call handle hc =>
    obtain ⟨t, ht, ⟨rfl, rfl⟩ | ⟨_, rfl⟩⟩ := of_signalTask ht'
    · refine ⟨(hl hkept _ t ht (hbefore ht rfl)).phase, fun _ => hheard call _ handle hc rfl ?_⟩
      have hnumber := (hnumbered.stops call handle (stopHandle?_of_stop hc)).1
      rw [hnumber, ← hnumbered.tasks _ t ht]
      exact hbefore ht rfl
    · exact hl hkept n _ ht (hbefore ht rfl)
  | @release call handle hc =>
    have hannounces := hl hkept n t' ht' (hbefore ht' rfl)
    change t'.Announces (l.publish handle.generation fun _ => .stopped).status
    rcases l.status_publish handle.generation (fun _ => .stopped) with ⟨hown, hstatus⟩ | ⟨_, hstatus⟩
    · have hnumber := (hnumbered.stops call handle (stopHandle?_of_stop hc)).1
      have hn : n = handle.task := by
        have hgeneration := hnumbered.tasks n t' ht'
        have := hbefore ht' rfl
        omega
      have hphase := phase_of_not_isRunning ht' (hn ▸ hended call handle hc)
      have hstopped := hannounces.phase
      rw [hphase] at hstopped
      rw [hstatus, ← hstopped]
      exact hannounces
    · exact hstatus ▸ hannounces
  | dropNothing | drop => cases hkept
  | @task number event t t'' ht hstep _ =>
    change t'.Announces (l.publish t.generation (t.publication event)).status
    by_cases hnumber : number = n
    · subst hnumber
      have hlt := (List.getElem?_eq_some_iff.mp ht).1
      cases (List.getElem?_set_self hlt).symm.trans ht'
      have hown := hbefore ht hstep.generation_eq.symm
      rcases l.status_publish t.generation (t.publication event) with ⟨_, hstatus⟩ | ⟨hstale, _⟩
      · exact hstatus ▸ hstep.announces (hl hkept _ t ht hown)
      · exact absurd hown.symm hstale
    · have ht₀ := (List.getElem?_set_ne hnumber).symm.trans ht'
      have hother := hbefore ht₀ rfl
      rcases l.status_publish t.generation (t.publication event) with ⟨hown, _⟩ | ⟨_, hstatus⟩
      · have hfirst := hnumbered.tasks _ t ht
        have hsecond := hnumbered.tasks n t' ht₀
        omega
      · exact hstatus ▸ hl hkept n t' ht₀ hother

theorem Finished.step (hl : Finished l) (hnumbered : Numbered l) (h : Step l a l') :
    Finished l' := by
  intro n t' ht' hcurrent hphase
  have hkept {t : Task} (ht : l.tasks[n]? = some t) (hsame : t.generation = t'.generation)
      (hbefore : t.phase = .finishing ∨ t.phase = .ended) : l'.status = .stopped := by
    have hgeneration := h.generation_of_task hnumbered ht (hsame.trans hcurrent)
    have hstopped := hl n t ht ((hsame.trans hcurrent).trans hgeneration) hbefore
    have hleads := (h.follows hnumbered).leads hgeneration
    rw [hstopped] at hleads
    exact hleads.eq_stopped
  cases h.taskOrigin ht' with
  | kept ht heq =>
    subst heq
    exact hkept ht rfl hphase
  | spawned _ _ heq =>
    subst heq
    rcases hphase with hphase | hphase <;> cases hphase
  | @stepped t event ht haction hstep _ =>
    cases hstep with
    | exit hp => exact hkept ht rfl (.inl hp)
    | publishStopped hp =>
      subst haction
      have hown := hcurrent.trans (h.generation_of_task hnumbered ht hcurrent)
      cases h with
      | task hnumber _ _ =>
        cases hnumber.symm.trans ht
        have hpublication : t.publication .publishStopped = fun _ => .stopped := by
          simp only [Task.publication, hp]
        change (l.publish t.generation (t.publication .publishStopped)).status = .stopped
        rcases l.status_publish t.generation (t.publication .publishStopped) with
          ⟨_, hstatus⟩ | ⟨hstale, _⟩
        · rw [hstatus, hpublication]
        · exact absurd hown.symm hstale
    | bind | failBind | retryBind | giveUp | loseEndpoint | publishServing | poll | heed | idle
    | receive | handle | send | failSend | close => simp at hphase

end Publishing

section Reachable

variable {l : Listener}

theorem Reachable.heard (hl : Reachable l) : Heard l := by
  induction hl with
  | new settings =>
    intro call c handle hc
    simp at hc
  | step hreachable h ih => exact ih.step hreachable.numbered (step_of_step? h)

theorem Reachable.truthful (hl : Reachable l) : Truthful l := by
  induction hl with
  | new settings =>
    intro _ n t ht
    simp at ht
  | step hreachable h ih =>
    exact ih.step hreachable.heard hreachable.joinedEnded hreachable.numbered (step_of_step? h)

theorem Reachable.finished (hl : Reachable l) : Finished l := by
  induction hl with
  | new settings =>
    intro n t ht
    simp at ht
  | step hreachable h ih => exact ih.step hreachable.numbered (step_of_step? h)

end Reachable

/-! ## The socket of the newest task -/

/-- The task of the newest generation. -/
def newest? (l : Listener) : Option Task := l.tasks.find? fun t => l.isCurrent t.generation

section Newest

variable {l : Listener} {n : Nat} {t : Task}

theorem exists_of_newest? (h : l.newest? = some t) :
    ∃ n : Nat, l.tasks[n]? = some t ∧ t.generation = l.publisher.generation := by
  obtain ⟨n, hn⟩ := List.mem_iff_getElem?.mp (List.mem_of_find?_eq_some h)
  have hcurrent := List.find?_some h
  simp only [isCurrent, decide_eq_true_eq] at hcurrent
  exact ⟨n, hn, hcurrent.symm⟩

/-- There is one task of the newest generation. -/
theorem newest?_of_task (hl : Numbered l) (ht : l.tasks[n]? = some t)
    (hcurrent : t.generation = l.publisher.generation) : l.newest? = some t := by
  have hsome : l.newest?.isSome = true := by
    rw [newest?, List.find?_isSome]
    exact ⟨t, List.mem_of_getElem? ht, by simp [isCurrent, hcurrent]⟩
  obtain ⟨t', ht'⟩ := Option.isSome_iff_exists.mp hsome
  obtain ⟨n', hn', hcurrent'⟩ := exists_of_newest? ht'
  have hn : n' = n := by
    have hfirst := hl.tasks n t ht
    have hsecond := hl.tasks n' t' hn'
    omega
  rw [ht', ← hn', hn, ht]

theorem exists_newest? (hl : Numbered l) (h : l.tasks ≠ []) :
    ∃ (n : Nat) (t : Task), l.newest? = some t ∧ l.tasks[n]? = some t ∧
      t.generation = l.publisher.generation := by
  have hpos := List.length_pos_iff.mpr h
  have ht := List.getElem?_eq_getElem (l := l.tasks) (i := l.tasks.length - 1) (by omega)
  have hcurrent : l.tasks[l.tasks.length - 1].generation = l.publisher.generation := by
    rw [hl.tasks _ _ ht, hl.generation]
    omega
  exact ⟨_, _, newest?_of_task hl ht hcurrent, ht, hcurrent⟩

theorem Reachable.status_eq_idle_iff_tasks (hl : Reachable l) : l.status = .idle ↔ l.tasks = [] := by
  rw [hl.status_eq_idle_iff, hl.numbered.generation, List.length_eq_zero_iff]

end Newest

/-- As long as the owner has not let go of the listener, the status tells the truth, whatever calls
and older tasks do: if it is that of serving an endpoint, the task of the newest generation holds a
socket that is bound to it; if it is that of having stopped, that task holds none; and if it is
idle, no task was ever spawned. -/
theorem the_status_tells_whether_the_socket_is_held {l : Listener} (hl : Reachable l)
    (hkept : l.dropped = false) :
    (∀ e, l.status = .serving e → ∃ t, l.newest? = some t ∧ t.socket? = some e) ∧
    (l.status = .stopped → ∃ t, l.newest? = some t ∧ t.socket? = none) ∧
    (l.status = .idle → l.tasks = []) := by
  have hnewest (hbegun : l.status ≠ .idle) : ∃ t, l.newest? = some t ∧ t.Announces l.status := by
    have hspawned : l.tasks ≠ [] := fun hnone => hbegun (hl.status_eq_idle_iff_tasks.mpr hnone)
    obtain ⟨n, t, hnewest, ht, hcurrent⟩ := exists_newest? hl.numbered hspawned
    exact ⟨t, hnewest, hl.truthful hkept n t ht hcurrent⟩
  refine ⟨?_, ?_, hl.status_eq_idle_iff_tasks.mp⟩
  · intro e hserving
    obtain ⟨t, ht, hannounces⟩ := hnewest (by simp [hserving])
    exact ⟨t, ht, (hserving ▸ hannounces).socket_of_serving⟩
  · intro hstopped
    obtain ⟨t, ht, hannounces⟩ := hnewest (by simp [hstopped])
    exact ⟨t, ht, (hstopped ▸ hannounces).socket_of_stopped⟩

/-- The task of the newest generation has stopped before it bound a socket, while an older one, for
which a stop call still waits, holds its own. -/
theorem the_status_is_that_of_the_newest_task :
    ∃ l, serving.run? [.stop, .start accessPoint, .stop, .announce 1, .signal 1, .task 1 .failBind,
        .task 1 .giveUp, .task 1 .publishStopped] = some l ∧
      (∃ t, serving.newest? = some t ∧ t.socket? = some port53) ∧
      l.Holds 0 port53 ∧ l.status = .stopped ∧ ∃ t, l.newest? = some t ∧ t.socket? = none := by
  obtain ⟨l, hrun, hkept, hstopped, hholds⟩ : ∃ l, serving.run? [.stop, .start accessPoint, .stop,
      .announce 1, .signal 1, .task 1 .failBind, .task 1 .giveUp, .task 1 .publishStopped] =
        some l ∧ l.dropped = false ∧ l.status = .stopped ∧ l.Holds 0 port53 :=
    ⟨_, rfl, rfl, rfl, _, rfl, rfl⟩
  obtain ⟨hserves, _⟩ := the_status_tells_whether_the_socket_is_held reachable_serving rfl
  obtain ⟨_, hstops, _⟩ :=
    the_status_tells_whether_the_socket_is_held (reachable_serving.run hrun) hkept
  exact ⟨l, hrun, hserves port53 rfl, hholds, hstopped, hstops hstopped⟩

/-! ## Start calls whose task has ended -/

/-- A generation that is over: a newer one has begun, or it has stopped. -/
structure Over (l : Listener) (g : Nat) : Prop where
  begun : g ≤ l.publisher.generation
  passed : l.publisher.generation ≠ g ∨ l.status = .stopped

/-- A status on which a start call of a generation returns no endpoint. -/
def Cancels (l : Listener) (g : Nat) (s : Status) : Prop :=
  ∀ e, s = .serving e → l.publisher.generation ≠ g

/-- A start call that waits for a generation that is over, or is about to be cancelled, or was
cancelled. -/
def Cancelled (l : Listener) (call g : Nat) : Prop :=
  ∃ phase, l.starts[call]? = some ⟨some g, phase⟩ ∧
    (phase = .waiting ∨ (∃ s, phase = .seen s ∧ l.Cancels g s) ∨
      phase = .returned (.failed .cancelled))

section Cancelled

variable {l l' m : Listener} {a : Action} {actions : List Action} {call n g : Nat} {t : Task}
  {s : Status}

theorem Reachable.over (hl : Reachable l) (ht : l.tasks[n]? = some t) (hended : t.hasEnded = true) :
    l.Over t.generation := by
  refine ⟨?_, ?_⟩
  · have hlt := (List.getElem?_eq_some_iff.mp ht).1
    rw [hl.numbered.tasks n t ht, hl.numbered.generation]
    omega
  · by_cases hcurrent : t.generation = l.publisher.generation
    · exact .inr (hl.finished n t ht hcurrent (.inr (by simpa [Task.hasEnded] using hended)))
    · exact .inl (Ne.symm hcurrent)

theorem Over.step (hover : l.Over g) (hl : Numbered l) (h : Step l a l') : l'.Over g := by
  have hfollows := h.follows hl
  have hgrows := hfollows.generation
  have hbegun := hover.begun
  refine ⟨by omega, ?_⟩
  by_cases hsame : l'.publisher.generation = l.publisher.generation
  · rcases hover.passed with hnewer | hstopped
    · exact .inl (hsame ▸ hnewer)
    · have hleads := hfollows.leads hsame
      rw [hstopped] at hleads
      exact .inr hleads.eq_stopped
  · exact .inl (by omega)

theorem Over.cancels (hover : l.Over g) : l.Cancels g l.status := by
  intro e hserving
  rcases hover.passed with hnewer | hstopped
  · exact hnewer
  · rw [hserving] at hstopped
    cases hstopped

theorem Cancels.step (hs : l.Cancels g s) (hover : l.Over g) (hl : Numbered l) (h : Step l a l') :
    l'.Cancels g s := by
  intro e hserving
  have hnewer := hs e hserving
  have hbegun := hover.begun
  have hgrows := (h.follows hl).generation
  omega

theorem Cancels.startResult_eq (hs : l.Cancels g s) : l.startResult g s = .failed .cancelled := by
  unfold startResult
  split
  · rename_i e
    have hnewer := hs e rfl
    simp [isCurrent, hnewer]
  · rfl

theorem Cancelled.step (hcall : l.Cancelled call g) (hover : l.Over g) (hl : Numbered l)
    (h : Step l a l') : l'.Cancelled call g := by
  obtain ⟨phase, hc, hphase⟩ := hcall
  rcases h.start_cases hc with hkept | ⟨_, _, heq, hseen⟩ | ⟨_, s, _, heq, hreturned⟩
  · refine ⟨phase, hkept, ?_⟩
    rcases hphase with rfl | ⟨s, rfl, hs⟩ | rfl
    · exact .inl rfl
    · exact .inr (.inl ⟨s, rfl, hs.step hover hl h⟩)
    · exact .inr (.inr rfl)
  · cases heq
    exact ⟨_, hseen, .inr (.inl ⟨_, rfl, hover.cancels.step hover hl h⟩)⟩
  · cases heq
    refine ⟨_, hreturned, .inr (.inr ?_)⟩
    rcases hphase with hp | ⟨_, hp, hs⟩ | hp
    · cases hp
    · cases hp
      rw [hs.startResult_eq]
    · cases hp

theorem Cancelled.run (hl : Reachable l) (hover : l.Over g) (hcall : l.Cancelled call g)
    (hrun : l.run? actions = some m) : m.Over g ∧ m.Cancelled call g := by
  refine (run_keeps (p := fun l => Reachable l ∧ l.Over g ∧ l.Cancelled call g) ?_
    ⟨hl, hover, hcall⟩ hrun).2
  rintro l l' a ⟨hl, hover, hcall⟩ h
  have hstep := step_of_step? h
  exact ⟨hl.step h, hover.step hl.numbered hstep, hcall.step hover hl.numbered hstep⟩

/-- What a start call waits for holds of a generation that is over. -/
theorem Over.settled_or_not_isCurrent (hover : l.Over g) :
    l.status.settled = true ∨ l.isCurrent g = false := by
  rcases hover.passed with hnewer | hstopped
  · exact .inr (by simpa [isCurrent] using hnewer)
  · exact .inl (by rw [hstopped]; rfl)

theorem Over.step?_observe (hover : l.Over g) (hc : l.starts[call]? = some ⟨some g, .waiting⟩) :
    l.step? (.observe call) = some (l.setStart call ⟨some g, .seen l.status⟩) := by
  simp [step?, hc, hover.settled_or_not_isCurrent]

theorem step?_conclude (hc : l.starts[call]? = some ⟨some g, .seen s⟩) :
    l.step? (.conclude call) = some (l.setStart call ⟨some g, .returned (l.startResult g s)⟩) := by
  simp [step?, hc]

/-- A call that waits for a generation that is over is cancelled by its next two steps. -/
theorem Over.run?_cancelled (hover : l.Over g) (hc : l.starts[call]? = some ⟨some g, .waiting⟩) :
    ∃ l', l.run? [.observe call, .conclude call] = some l' ∧
      l'.startResult? call = some (.failed .cancelled) := by
  have hlt := (List.getElem?_eq_some_iff.mp hc).1
  have hseen : (l.setStart call ⟨some g, .seen l.status⟩).starts[call]? =
      some ⟨some g, .seen l.status⟩ := List.getElem?_set_self hlt
  have hresult : (l.setStart call ⟨some g, .seen l.status⟩).startResult g l.status =
      .failed .cancelled := hover.cancels.startResult_eq
  have hrun : l.run? [.observe call, .conclude call] =
      some ((l.setStart call ⟨some g, .seen l.status⟩).setStart call
        ⟨some g, .returned (.failed .cancelled)⟩) := by
    rw [run?_cons, hover.step?_observe hc, Option.bind_some, run?_cons, step?_conclude hseen, hresult]
    rfl
  refine ⟨_, hrun, startResult?_eq_some_iff.mpr ⟨some g, List.getElem?_set_self ?_⟩⟩
  simpa [setStart] using hlt

end Cancelled

/-- Once a task has ended, its generation is not the newest, or the status is that of having stopped.
So a start call that waits for this generation can take its next step at any time, and what it
returns after that is that it was cancelled. -/
theorem no_start_call_waits_for_a_task_that_has_ended {l : Listener} (hl : Reachable l) {t : Task}
    (ht : t ∈ l.tasks) (hended : t.hasEnded = true) :
    (t.generation ≠ l.publisher.generation ∨ l.status = .stopped) ∧
    ∀ call, l.starts[call]? = some ⟨some t.generation, .waiting⟩ →
      (l.status.settled = true ∨ l.isCurrent t.generation = false) ∧
      (∃ l', l.run? [.observe call, .conclude call] = some l' ∧
        l'.startResult? call = some (.failed .cancelled)) ∧
      ∀ actions m, l.run? actions = some m →
        m.startResult? call = some (.failed .cancelled) ∨
          m.startResult? call = none ∧
            ((m.step? (.observe call)).isSome = true ∨ (m.step? (.conclude call)).isSome = true) := by
  obtain ⟨n, hn⟩ := List.mem_iff_getElem?.mp ht
  have hover := hl.over hn hended
  refine ⟨hover.passed.imp_left Ne.symm, ?_⟩
  intro call hc
  have hcancelled : l.Cancelled call t.generation := ⟨_, hc, .inl rfl⟩
  refine ⟨hover.settled_or_not_isCurrent, hover.run?_cancelled hc, ?_⟩
  intro actions m hrun
  obtain ⟨hover, phase, hc, hphase⟩ := hcancelled.run hl hover hrun
  rcases hphase with rfl | ⟨s, rfl, _⟩ | rfl
  · exact .inr ⟨startResult?_of_start hc, .inl (by rw [hover.step?_observe hc]; rfl)⟩
  · exact .inr ⟨startResult?_of_start hc, .inr (by rw [step?_conclude hc]; rfl)⟩
  · exact .inl (startResult?_of_start hc)

/-- A start call that has slept through its stop and the next start is cancelled, though the
listener serves. -/
theorem a_start_call_that_slept_is_cancelled :
    ∃ l, run? { settings := {} } [.start accessPoint, .task 0 .failBind, .stop, .announce 0,
        .signal 0, .task 0 .giveUp, .task 0 .publishStopped, .task 0 .exit, .start accessPoint,
        .task 1 (.bind port53), .task 1 .publishServing] = some l ∧
      l.status = .serving port53 ∧ l.starts[0]? = some ⟨some 1, .waiting⟩ ∧
      ∃ l', l.run? [.observe 0, .conclude 0] = some l' ∧
        l'.startResult? 0 = some (.failed .cancelled) := by
  obtain ⟨l, t, hrun, hserving, hc, ht, hended, hfirst⟩ : ∃ l t, run? { settings := {} }
      [.start accessPoint, .task 0 .failBind, .stop, .announce 0, .signal 0, .task 0 .giveUp,
        .task 0 .publishStopped, .task 0 .exit, .start accessPoint, .task 1 (.bind port53),
        .task 1 .publishServing] = some l ∧ l.status = .serving port53 ∧
      l.starts[0]? = some ⟨some 1, .waiting⟩ ∧ l.tasks[0]? = some t ∧ t.hasEnded = true ∧
      t.generation = 1 := ⟨_, _, rfl, rfl, rfl, rfl, rfl, rfl⟩
  obtain ⟨_, hcalls⟩ := no_start_call_waits_for_a_task_that_has_ended
    ((Reachable.new {}).run hrun) (List.mem_of_getElem? ht) hended
  obtain ⟨_, hreturns, _⟩ := hcalls 0 (hfirst ▸ hc)
  exact ⟨l, hrun, hserving, hc, hreturns⟩

end Listener

end PortalDns
