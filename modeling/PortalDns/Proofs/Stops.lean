-- The laws of stop calls: when one returns, which of the tasks that were there
-- before it may still hold a socket. Only those for which a stop call that came
-- earlier still waits, since it took the handle and left nothing to wait for.
import PortalDns.Proofs.Handles

namespace PortalDns

namespace Listener

section Ended

variable {l l' m : Listener} {a : Action} {actions more : List Action} {n : Nat}

/-- A task that has ended sends nothing. -/
theorem sent?_of_not_isRunning (hn : l.isRunning n = false) (event : TaskEvent) :
    l.sent? (.task n event) = none := by
  rw [sent?, Option.bind_eq_none_iff]
  intro t ht
  by_contra hsent
  rw [← Bool.not_eq_true, isRunning_iff] at hn
  refine hn ⟨t, ht, ?_⟩
  intro hphase
  simp [Task.sent?, hphase] at hsent

/-- A task that has ended stays so, holds no socket and sends nothing. -/
theorem quiet_of_not_isRunning (hlt : n < l.tasks.length) (hn : l.isRunning n = false)
    (hrun : l.run? more = some m) :
    (∀ e, ¬ m.Holds n e) ∧ ∀ event, m.sent? (.task n event) = none := by
  have hended : n < m.tasks.length ∧ m.isRunning n = false := by
    refine run_keeps (p := fun l => n < l.tasks.length ∧ l.isRunning n = false) ?_ ⟨hlt, hn⟩ hrun
    rintro l l' a ⟨hlt, hn⟩ h
    have hstep := step_of_step? h
    exact ⟨Nat.lt_of_lt_of_le hlt hstep.length_tasks, hstep.not_isRunning hlt hn⟩
  refine ⟨?_, sent?_of_not_isRunning hended.2⟩
  intro e he
  have hrunning := he.isRunning
  rw [hended.2] at hrunning
  cases hrunning

end Ended

/-! ## What a stop call leaves behind -/

/-- The first `base` tasks are there, and for each of them that runs one of the stop calls up to
`last` waits. -/
structure Awaited (base last : Nat) (l : Listener) : Prop where
  spawned : base ≤ l.tasks.length
  awaited : ∀ n < base, l.isRunning n = true → ∃ call ≤ last, l.Awaits call n

section Awaited

variable {l l' : Listener} {a : Action} {actions : List Action} {base last : Nat}

theorem Awaits.call_lt {call n : Nat} (h : l.Awaits call n) : call < l.stops.length := by
  obtain ⟨handle, hhandle, _⟩ := h
  obtain ⟨c, hc, _⟩ := Option.bind_eq_some_iff.mp hhandle
  exact (List.getElem?_eq_some_iff.mp hc).1

/-- Whoever waits goes on waiting when another stop call begins. -/
theorem Awaits.append {call n : Nat} (h : l.Awaits call n) {slot : Option Handle} (c : StopCall) :
    Awaits { l with slot, stops := l.stops ++ [c] } call n := by
  have hlt := h.call_lt
  obtain ⟨handle, hhandle, hnumber⟩ := h
  refine ⟨handle, ?_, hnumber⟩
  rw [stopHandle?, stopHandle?_append, if_neg (by omega)]
  exact hhandle

/-- When a stop call begins, every task that runs has someone waiting for it, if only this
call. -/
theorem awaited_of_stop (hl : Reachable l) (h : l.step? .stop = some l') :
    Awaited l.tasks.length l.stops.length l' := by
  cases step_of_stop h with
  | stopNothing hdropped hslot =>
    refine ⟨Nat.le_refl _, ?_⟩
    intro n _ hn
    rcases hl.held hdropped n hn with ⟨handle, hhandle, _⟩ | ⟨call, hawaits⟩
    · rw [hslot] at hhandle
      cases hhandle
    · exact ⟨call, Nat.le_of_lt hawaits.call_lt, hawaits.append _⟩
  | @take taken hdropped hslot =>
    refine ⟨Nat.le_refl _, ?_⟩
    intro n _ hn
    rcases hl.held hdropped n hn with ⟨handle, hhandle, hnumber⟩ | ⟨call, hawaits⟩
    · rw [hslot] at hhandle
      cases hhandle
      refine ⟨l.stops.length, Nat.le_refl _, taken, ?_, hnumber⟩
      rw [stopHandle?, stopHandle?_append, if_pos rfl]
      rfl
    · exact ⟨call, Nat.le_of_lt hawaits.call_lt, hawaits.append _⟩

theorem Awaited.step (hawaited : Awaited base last l) (hjoined : JoinedEnded l) (h : Step l a l') :
    Awaited base last l' := by
  refine ⟨Nat.le_trans hawaited.spawned h.length_tasks, ?_⟩
  intro n hn hrunning
  rcases h.isRunning_of_isRunning hrunning with hbefore | ⟨_, _, hlen⟩
  · obtain ⟨call, hcall, hawaits⟩ := hawaited.awaited n hn hbefore
    exact ⟨call, hcall, hawaits.step hjoined h hbefore⟩
  · have hspawned := hawaited.spawned
    omega

theorem Awaited.run (hl : Reachable l) (hawaited : Awaited base last l)
    (hrun : l.run? actions = some l') : Awaited base last l' := by
  refine (run_keeps (p := fun l => Reachable l ∧ Awaited base last l) ?_ ⟨hl, hawaited⟩ hrun).2
  rintro l l' a ⟨hl, hawaited⟩ h
  exact ⟨hl.step h, hawaited.step hl.joinedEnded (step_of_step? h)⟩

/-- A call that has returned waits for nothing. So when a stop call returns, all tasks that were
there before it have ended, except those for which an earlier call still waits. -/
theorem Awaited.not_isRunning {n : Nat} (hawaited : Awaited base last l)
    (hreturned : l.stops[last]? = some .returned) (hn : n < base)
    (hunawaited : ∀ call < last, ¬ l.Awaits call n) : l.isRunning n = false := by
  rw [← Bool.not_eq_true]
  intro hrunning
  obtain ⟨call, hcall, hawaits⟩ := hawaited.awaited n hn hrunning
  rcases Nat.lt_or_eq_of_le hcall with hlt | rfl
  · exact hunawaited call hlt hawaits
  · obtain ⟨handle, hhandle, _⟩ := hawaits
    rw [stopHandle?_of_stop hreturned] at hhandle
    cases hhandle

end Awaited

/-- When a stop call returns, the tasks that were spawned before it began hold no socket exactly if
that is so for those of them for which a call that began earlier still waits. All others hold no
socket and send nothing from then on. -/
theorem a_stop_call_closes_what_no_earlier_one_still_waits_for
    {l₀ l₁ l : Listener} {actions : List Action} (hl : Reachable l₀)
    (hstop : l₀.step? .stop = some l₁) (hrun : l₁.run? actions = some l)
    (hreturned : l.stops[l₀.stops.length]? = some .returned) :
    ((∀ n < l₀.tasks.length, ∀ e, ¬ l.Holds n e) ↔
      ∀ call < l₀.stops.length, ∀ n < l₀.tasks.length, l.Awaits call n → ∀ e, ¬ l.Holds n e) ∧
    ∀ n < l₀.tasks.length, (∀ call < l₀.stops.length, ¬ l.Awaits call n) →
      ∀ more m, l.run? more = some m →
        (∀ e, ¬ m.Holds n e) ∧ ∀ event, m.sent? (.task n event) = none := by
  have hawaited : Awaited l₀.tasks.length l₀.stops.length l :=
    (awaited_of_stop hl hstop).run (hl.step hstop) hrun
  have hquiet : ∀ n < l₀.tasks.length, (∀ call < l₀.stops.length, ¬ l.Awaits call n) →
      ∀ more m, l.run? more = some m →
        (∀ e, ¬ m.Holds n e) ∧ ∀ event, m.sent? (.task n event) = none :=
    fun n hn hunawaited more m hmore =>
      quiet_of_not_isRunning (Nat.lt_of_lt_of_le hn hawaited.spawned)
        (hawaited.not_isRunning hreturned hn hunawaited) hmore
  refine ⟨⟨?_, ?_⟩, hquiet⟩
  · intro hclosed _ _ n hn _
    exact hclosed n hn
  · intro hclosed n hn e he
    by_cases hawaits : ∃ call < l₀.stops.length, l.Awaits call n
    · obtain ⟨call, hcall, hwaits⟩ := hawaits
      exact hclosed call hcall n hn hwaits e he
    · have hunawaited : ∀ call < l₀.stops.length, ¬ l.Awaits call n :=
        fun call hcall hwaits => hawaits ⟨call, hcall, hwaits⟩
      exact (hquiet n hn hunawaited [] l (run?_nil l)).1 e he

/-- A stop call that is alone closes the socket. -/
theorem a_single_stop_call_closes_the_socket :
    ∃ l₁ l, serving.Holds 0 port53 ∧ serving.step? .stop = some l₁ ∧
      l₁.run? [.announce 0, .signal 0, .task 0 .check, .task 0 .close, .task 0 .publishStopped,
        .task 0 .exit, .join 0, .release 0] = some l ∧
      l.stops[0]? = some .returned ∧ (∀ e, ¬ l.Holds 0 e) ∧
      ∀ more m, l.run? more = some m → ∀ event, m.sent? (.task 0 event) = none := by
  obtain ⟨l₁, hstop⟩ : ∃ l₁, serving.step? .stop = some l₁ := ⟨_, rfl⟩
  obtain ⟨l, hrun, hreturned⟩ : ∃ l, l₁.run? [.announce 0, .signal 0, .task 0 .check,
      .task 0 .close, .task 0 .publishStopped, .task 0 .exit, .join 0, .release 0] = some l ∧
      l.stops[0]? = some .returned := by
    cases hstop
    exact ⟨_, rfl, rfl⟩
  obtain ⟨_, hquiet⟩ :=
    a_stop_call_closes_what_no_earlier_one_still_waits_for reachable_serving hstop hrun hreturned
  have hquiet := hquiet 0 (by decide) (fun call hcall => absurd hcall (Nat.not_lt_zero call))
  exact ⟨l₁, l, ⟨_, rfl, rfl⟩, hstop, hrun, hreturned, (hquiet [] l rfl).1,
    fun more m hmore => (hquiet more m hmore).2⟩

/-- While one stop call waits, another finds no handle and returns at once, with the socket open.
The task still answers a datagram after that. -/
theorem a_second_stop_call_does_not_wait :
    ∃ l₀ l₁, Reachable l₀ ∧ 0 < l₀.tasks.length ∧ l₀.step? .stop = some l₁ ∧
      l₁.stops[l₀.stops.length]? = some .returned ∧ l₁.Holds 0 port53 ∧
      (l₁.run? [.task 0 .check,
        .task 0 (.receive ⟨.v4 (.ofOctets 192 168 4 20), 5353⟩
          ([0, 1, 1, 0, 0, 1, 0, 0, 0, 0, 0, 0] ++ [1, 97, 0, 0, 1, 0, 1])),
        .task 0 .handle]).bind (·.sent? (.task 0 .send)) =
          some (⟨.v4 (.ofOctets 192 168 4 20), 5353⟩,
            [0, 1, 129, 0, 0, 1, 0, 1, 0, 0, 0, 0] ++ [1, 97, 0, 0, 1, 0, 1] ++
              [1, 97, 0, 0, 1, 0, 1, 0, 0, 0, 0, 0, 4, 192, 168, 4, 1]) := by
  have hfirst : serving.step? .stop =
      some { serving with slot := none, stops := [.taken { generation := 1, task := 0 }] } := rfl
  refine ⟨_, { serving with
    slot := none
    stops := [.taken { generation := 1, task := 0 }, .returned] },
    reachable_serving.step hfirst, by decide, rfl, rfl, ⟨_, rfl, rfl⟩, ?_⟩
  decide +kernel

end Listener

end PortalDns
