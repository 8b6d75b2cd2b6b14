-- The laws of handles: tasks are numbered by their generations, and the handle of
-- a task that runs is in the slot or with a stop call that waits for the task.
import PortalDns.Proofs.Steps

namespace PortalDns

namespace Listener

/-- The handle that a stop call holds. -/
def stopHandle? (l : Listener) (call : Nat) : Option Handle :=
  l.stops[call]?.bind StopCall.handle?

section Steps

variable {l l' : Listener} {a : Action} {call n : Nat} {handle : Handle} {c c' : StopCall}

theorem stopHandle?_of_stop (h : l.stops[call]? = some c) : l.stopHandle? call = c.handle? := by
  rw [stopHandle?, h, Option.bind_some]

theorem stopHandle?_setStop {number : Nat} (h : l.stops[number]? = some c) (call : Nat) :
    (l.setStop number c').stopHandle? call =
      if call = number then c'.handle? else l.stopHandle? call := by
  unfold stopHandle? setStop
  rw [List.getElem?_set]
  split
  · rename_i heq
    rw [if_pos (List.getElem?_eq_some_iff.mp h).1, if_pos heq.symm, Option.bind_some]
  · rename_i hne
    rw [if_neg (Ne.symm hne)]

/-- A stop call that goes on keeps its handle. -/
theorem stopHandle?_goOn (l : Listener) {number : Nat} (c' : StopCall)
    (h : l.stops[number]? = some c) (hsame : c'.handle? = c.handle?) (call : Nat) :
    (l.setStop number c').stopHandle? call = l.stopHandle? call := by
  rw [stopHandle?_setStop h]
  split
  · rename_i heq
    rw [heq, stopHandle?_of_stop h, hsame]
  · rfl

theorem stopHandle?_append (stops : List StopCall) (c : StopCall) (call : Nat) :
    (stops ++ [c])[call]?.bind StopCall.handle? =
      if call = stops.length then c.handle? else stops[call]?.bind StopCall.handle? := by
  rw [List.getElem?_append]
  split
  · rw [if_neg (by omega)]
  · split
    · rename_i heq
      subst heq
      simp
    · rw [List.getElem?_eq_none (by simp; omega), List.getElem?_eq_none (by omega)]

/-- What a step does to the handle of a stop call: nothing, unless the call takes the handle in
the slot, or returns now that its task has ended. -/
theorem Step.stopHandle_cases (h : Step l a l') (call : Nat) :
    l'.stopHandle? call = l.stopHandle? call ∨
      (∃ handle, l.slot = some handle ∧ l'.slot = none ∧ l.stopHandle? call = none ∧
        l'.stopHandle? call = some handle) ∨
      ∃ handle, l.stops[call]? = some (.joined handle) ∧ l'.stopHandle? call = none := by
  cases h with
  | refuse | observe | conclude | dropNothing | occupy | spawn | drop | task => exact .inl rfl
  | stopNothing =>
    refine .inl ?_
    rw [stopHandle?, stopHandle?_append]
    split
    · rename_i heq
      subst heq
      simp [stopHandle?, StopCall.handle?]
    · rfl
  | @take handle _ hslot =>
    rw [stopHandle?, stopHandle?_append]
    split
    · rename_i heq
      subst heq
      exact .inr (.inl ⟨handle, hslot, rfl, by simp [stopHandle?], rfl⟩)
    · exact .inl rfl
  | announce hc => exact .inl (stopHandle?_goOn (l.publish _ _) (.announced _) hc rfl call)
  | signal hc => exact .inl (stopHandle?_goOn (l.signalTask _ _) (.signalled _) hc rfl call)
  | join hc => exact .inl (stopHandle?_goOn l (.joined _) hc rfl call)
  | release hc =>
    rw [stopHandle?_setStop (l := l.publish _ _) hc]
    split
    · rename_i heq
      subst heq
      exact .inr (.inr ⟨_, hc, rfl⟩)
    · exact .inl rfl

/-- What a step does to the slot: nothing, unless it empties it, or spawns a task. -/
theorem Step.slot_cases (h : Step l a l') :
    l'.slot = l.slot ∨ l'.slot = none ∨ ∃ i, l' = l.spawn i := by
  cases h with
  | spawn => exact .inr (.inr ⟨_, rfl⟩)
  | take | drop => exact .inr (.inl rfl)
  | refuse | observe | conclude | stopNothing | announce | signal | join | release
  | dropNothing | task | occupy => exact .inl rfl

end Steps

/-! ## Numbers of tasks -/

/-- A handle is that of a task that was spawned, and names its generation. -/
def Knows (l : Listener) (handle : Handle) : Prop :=
  handle.generation = handle.task + 1 ∧ handle.task < l.tasks.length

/-- Every begin spawns a task, so that the generations number the tasks. -/
structure Numbered (l : Listener) : Prop where
  generation : l.publisher.generation = l.tasks.length
  tasks : ∀ n t, l.tasks[n]? = some t → t.generation = n + 1
  slot : ∀ handle, l.slot = some handle → l.Knows handle
  stops : ∀ call handle, l.stopHandle? call = some handle → l.Knows handle

section Numbers

variable {l l' : Listener} {a : Action} {i : Interface}

theorem Numbered.new (settings : Settings) : Numbered { settings } where
  generation := rfl
  tasks n t ht := by simp at ht
  slot handle h := by simp at h
  stops call handle h := by simp [stopHandle?] at h

theorem tasks_spawn (l : Listener) (i : Interface) :
    (l.spawn i).tasks =
      l.tasks ++ [{ generation := l.publisher.generation + 1, interface := i }] := rfl

theorem Knows.mono {handle : Handle} (h : l.Knows handle)
    (hle : l.tasks.length ≤ l'.tasks.length) : l'.Knows handle :=
  ⟨h.1, Nat.lt_of_lt_of_le h.2 hle⟩

theorem Numbered.step (hl : Numbered l) (h : Step l a l') : Numbered l' := by
  have hle := h.length_tasks
  have hslot : ∀ handle, l.slot = some handle → l'.Knows handle :=
    fun handle hhandle => (hl.slot handle hhandle).mono hle
  refine ⟨?_, ?_, ?_, ?_⟩
  · rcases h.counts with ⟨i, _, rfl⟩ | ⟨hgeneration, hlen⟩
    · rw [tasks_spawn, List.length_append, ← hl.generation]
      rfl
    · rw [hgeneration, hlen, hl.generation]
  · intro n t' ht'
    cases h.taskOrigin ht' with
    | @kept t signal ht heq =>
      subst heq
      exact hl.tasks n t ht
    | stepped ht _ hstep _ =>
      rw [hstep.generation_eq]
      exact hl.tasks n _ ht
    | spawned _ hlen heq =>
      subst heq
      rw [hlen, ← hl.generation]
  · intro handle hhandle
    rcases h.slot_cases with hsame | hnone | ⟨i, rfl⟩
    · exact hslot handle (hsame ▸ hhandle)
    · rw [hnone] at hhandle
      cases hhandle
    · cases hhandle
      refine ⟨?_, ?_⟩
      · rw [← hl.generation]
        rfl
      · simp [tasks_spawn]
  · intro call handle hhandle
    rcases h.stopHandle_cases call with hsame | ⟨taken, htaken, _, _, hafter⟩ | ⟨_, _, hnone⟩
    · exact (hl.stops call handle (hsame ▸ hhandle)).mono hle
    · rw [hhandle] at hafter
      cases hafter
      exact hslot handle htaken
    · rw [hnone] at hhandle
      cases hhandle

end Numbers

theorem Reachable.numbered {l : Listener} (hl : Reachable l) : Numbered l := by
  induction hl with
  | new settings => exact Numbered.new settings
  | step _ h ih => exact ih.step (step_of_step? h)

/-! ## Who waits for a task -/

/-- A stop call that was joined has seen its task end. -/
def JoinedEnded (l : Listener) : Prop :=
  ∀ (call : Nat) (handle : Handle), l.stops[call]? = some (.joined handle) →
    l.isRunning handle.task = false

/-- A stop call waits for a task: it took its handle, and has not returned. -/
def Awaits (l : Listener) (call n : Nat) : Prop :=
  ∃ handle, l.stopHandle? call = some handle ∧ handle.task = n

/-- As long as the owner has not let go of the listener, the handle of a task that runs is in the
slot or with a stop call. -/
def Held (l : Listener) : Prop :=
  l.dropped = false → ∀ n, l.isRunning n = true →
    (∃ handle, l.slot = some handle ∧ handle.task = n) ∨ ∃ call, l.Awaits call n

section Waiting

variable {l l' : Listener} {a : Action} {n call : Nat} {handle : Handle}

/-- A stop call that is joined after a step had its handle before, and its task had ended. -/
theorem Step.of_joined (h : Step l a l') (hl : JoinedEnded l)
    (hc : l'.stops[call]? = some (.joined handle)) :
    l.stopHandle? call = some handle ∧ l.isRunning handle.task = false := by
  have hkept (hc : l.stops[call]? = some (.joined handle)) :
      l.stopHandle? call = some handle ∧ l.isRunning handle.task = false :=
    ⟨stopHandle?_of_stop hc, hl call handle hc⟩
  cases h with
  | refuse | observe | conclude | dropNothing | occupy | spawn | drop | task => exact hkept hc
  | stopNothing | take =>
    rcases getElem?_snoc_cases hc with ⟨_, heq⟩ | hbefore
    · cases heq
    · exact hkept hbefore
  | announce | signal | release =>
    rcases getElem?_set_cases hc with ⟨_, heq⟩ | hbefore
    · cases heq
    · exact hkept hbefore
  | join hbefore hended =>
    rcases getElem?_set_cases hc with ⟨hcall, heq⟩ | hbefore
    · cases heq
      subst hcall
      exact ⟨stopHandle?_of_stop hbefore, hended⟩
    · exact hkept hbefore

theorem JoinedEnded.step (hl : JoinedEnded l) (hnumbered : Numbered l) (h : Step l a l') :
    JoinedEnded l' := by
  intro call handle hc
  obtain ⟨hhandle, hended⟩ := h.of_joined hl hc
  exact h.not_isRunning (hnumbered.stops call handle hhandle).2 hended

/-- The handle in the slot stays there, unless a stop call takes it, or its task has ended, or
the owner lets go of the listener. -/
theorem Step.slot_of_slot (h : Step l a l') (hslot : l.slot = some handle) :
    l'.slot = some handle ∨ (∃ call, l'.stopHandle? call = some handle) ∨
      l.isRunning handle.task = false ∨ l'.dropped = true := by
  cases h with
  | refuse | observe | conclude | stopNothing | announce | signal | join | release
  | task | occupy => exact .inl hslot
  | spawn _ hended => exact .inr (.inr (.inl (hended handle hslot)))
  | take _ hslot' =>
    rw [hslot] at hslot'
    cases hslot'
    refine .inr (.inl ⟨l.stops.length, ?_⟩)
    rw [stopHandle?, stopHandle?_append, if_pos rfl]
    rfl
  | dropNothing | drop => exact .inr (.inr (.inr rfl))

/-- A listener that was let go of is not taken up again. -/
theorem Step.not_dropped (h : Step l a l') (hdropped : l'.dropped = false) :
    l.dropped = false := by
  cases h with
  | dropNothing | drop => cases hdropped
  | refuse | observe | conclude | stopNothing | announce | signal | join | release | spawn | take
  | task | occupy => exact hdropped

/-- Whoever waits for a task that runs goes on waiting for it. -/
theorem Awaits.step (hawaits : l.Awaits call n) (hjoined : JoinedEnded l) (h : Step l a l')
    (hn : l.isRunning n = true) : l'.Awaits call n := by
  obtain ⟨handle, hhandle, rfl⟩ := hawaits
  rcases h.stopHandle_cases call with hsame | ⟨_, _, _, hnone, _⟩ | ⟨handle', hc, _⟩
  · exact ⟨handle, hsame.trans hhandle, rfl⟩
  · rw [hnone] at hhandle
    cases hhandle
  · rw [stopHandle?_of_stop hc] at hhandle
    cases hhandle
    rw [hjoined call handle hc] at hn
    cases hn

theorem Held.step (hl : Held l) (hjoined : JoinedEnded l) (h : Step l a l') : Held l' := by
  intro hdropped n hn
  rcases h.isRunning_of_isRunning hn with hbefore | ⟨i, rfl, hlen⟩
  · rcases hl (h.not_dropped hdropped) n hbefore with ⟨handle, hslot, rfl⟩ | ⟨call, hawaits⟩
    · rcases h.slot_of_slot hslot with hsame | ⟨call, hcall⟩ | hended | hdropped'
      · exact .inl ⟨handle, hsame, rfl⟩
      · exact .inr ⟨call, handle, hcall, rfl⟩
      · rw [hended] at hbefore
        cases hbefore
      · rw [hdropped'] at hdropped
        cases hdropped
    · exact .inr ⟨call, hawaits.step hjoined h hbefore⟩
  · exact .inl ⟨_, rfl, hlen.symm⟩

end Waiting

theorem Reachable.joinedEnded {l : Listener} (hl : Reachable l) : JoinedEnded l := by
  induction hl with
  | new settings =>
    intro call handle hc
    simp at hc
  | step hreachable h ih => exact ih.step hreachable.numbered (step_of_step? h)

theorem Reachable.held {l : Listener} (hl : Reachable l) : Held l := by
  induction hl with
  | new settings =>
    intro _ n hn
    simp [isRunning] at hn
  | step hreachable h ih => exact ih.step hreachable.joinedEnded (step_of_step? h)

end Listener

end PortalDns
