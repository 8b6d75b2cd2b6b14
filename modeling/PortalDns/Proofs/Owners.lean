-- The laws of ownership: the handle of a task that runs is held once, by the slot
-- or by one stop call, and only its holder signals the task. Handles change hands
-- when a stop call takes the one in the slot, and never come back.
import PortalDns.Proofs.Starts

namespace PortalDns

/-- Who can hold the handle of a task. -/
inductive Owner where
  | slot
  | stopCall (call : Nat)
deriving DecidableEq, Repr

theorem Task.Step.signal_eq {t t' : Task} {event : TaskEvent} (h : t.Step event t') :
    t'.signal = t.signal := by
  cases h <;> rfl

namespace Listener

def handleOf? (l : Listener) : Owner → Option Handle
  | .slot => l.slot
  | .stopCall call => l.stopHandle? call

def Owns (l : Listener) (o : Owner) (n : Nat) : Prop :=
  ∃ handle, l.handleOf? o = some handle ∧ handle.task = n

/-- The handle of an owner that has not used it to signal its task. -/
def sender? (l : Listener) : Owner → Option Handle
  | .slot => l.slot
  | .stopCall call =>
    match l.stops[call]? with
    | some (.taken handle) => some handle
    | some (.announced handle) => some handle
    | _ => none

/-- An owner can still signal a task. -/
def CanSignal (l : Listener) (o : Owner) (n : Nat) : Prop :=
  ∃ handle, l.sender? o = some handle ∧ handle.task = n

/-- A step that sends the stop signal to a task. -/
def Signals (l : Listener) (a : Action) (n : Nat) : Prop :=
  ∃ call handle, a = .signal call ∧ l.stops[call]? = some (.announced handle) ∧ handle.task = n

/-- No handle is held twice. -/
def Unshared (l : Listener) : Prop := ∀ n o o', l.Owns o n → l.Owns o' n → o = o'

/-! ## Stop calls and signals, step by step -/

/-- Where a stop call comes from that is there after a step, and what the step did for it. -/
inductive StopOrigin (l : Listener) (a : Action) (call : Nat) : StopCall → Prop
  | kept {c : StopCall} : l.stops[call]? = some c → StopOrigin l a call c
  | nothing : a = .stop → call = l.stops.length → StopOrigin l a call .returned
  | taken {h : Handle} : a = .stop → call = l.stops.length → l.slot = some h →
      StopOrigin l a call (.taken h)
  | announced {h : Handle} : a = .announce call → l.stops[call]? = some (.taken h) →
      StopOrigin l a call (.announced h)
  | signalled {h : Handle} : a = .signal call → l.stops[call]? = some (.announced h) →
      StopOrigin l a call (.signalled h)
  | joined {h : Handle} : a = .join call → l.stops[call]? = some (.signalled h) →
      l.isRunning h.task = false → StopOrigin l a call (.joined h)
  | released {h : Handle} : a = .release call → l.stops[call]? = some (.joined h) →
      StopOrigin l a call .returned

section Steps

variable {l l' : Listener} {a : Action} {n call : Nat} {t' : Task} {c : StopCall}

theorem Step.stopOrigin (h : Step l a l') (hc : l'.stops[call]? = some c) :
    StopOrigin l a call c := by
  cases h with
  | refuse | spawn | observe | conclude | dropNothing | drop | task | occupy => exact .kept hc
  | stopNothing =>
    rcases getElem?_snoc_cases hc with ⟨hlen, rfl⟩ | hbefore
    · exact .nothing rfl hlen
    · exact .kept hbefore
  | take _ hslot =>
    rcases getElem?_snoc_cases hc with ⟨hlen, rfl⟩ | hbefore
    · exact .taken rfl hlen hslot
    · exact .kept hbefore
  | announce hnumber =>
    rcases getElem?_set_cases hc with ⟨rfl, rfl⟩ | hbefore
    · exact .announced rfl hnumber
    · exact .kept hbefore
  | signal hnumber =>
    rcases getElem?_set_cases hc with ⟨rfl, rfl⟩ | hbefore
    · exact .signalled rfl hnumber
    · exact .kept hbefore
  | join hnumber hended =>
    rcases getElem?_set_cases hc with ⟨rfl, rfl⟩ | hbefore
    · exact .joined rfl hnumber hended
    · exact .kept hbefore
  | release hnumber =>
    rcases getElem?_set_cases hc with ⟨rfl, rfl⟩ | hbefore
    · exact .released rfl hnumber
    · exact .kept hbefore

theorem of_signalTask {task : Nat} {signal : Signal}
    (ht : (l.signalTask task signal).tasks[n]? = some t') :
    ∃ t, l.tasks[n]? = some t ∧
      (n = task ∧ t' = { t with signal } ∨ n ≠ task ∧ t' = t) := by
  rw [signalTask, List.getElem?_modify, Option.map_eq_map, Option.map_eq_some_iff] at ht
  obtain ⟨t, ht, rfl⟩ := ht
  refine ⟨t, ht, ?_⟩
  split
  · rename_i heq
    exact .inl ⟨heq.symm, rfl⟩
  · rename_i hne
    exact .inr ⟨Ne.symm hne, rfl⟩

/-- What a step does to the signal of a task: nothing, unless a stop call sends it, or the owner
lets go of the listener and with it of the handle in the slot. -/
theorem Step.signal_cases (h : Step l a l') (ht : l'.tasks[n]? = some t') :
    (n = l.tasks.length ∧ t'.signal = .none) ∨
      ∃ t, l.tasks[n]? = some t ∧
        (¬ l.Signals a n ∧ t'.signal = t.signal ∨ l.Signals a n ∧ t'.signal = .sent ∨
          a = .drop ∧ l.Owns .slot n) := by
  cases h with
  | refuse | observe | conclude | stopNothing | take | announce | join | release | dropNothing
  | occupy => exact .inr ⟨t', ht, .inl ⟨by rintro ⟨_, _, ⟨⟩, _⟩, rfl⟩⟩
  | spawn =>
    rcases getElem?_snoc_cases ht with ⟨hlen, rfl⟩ | hbefore
    · exact .inl ⟨hlen, rfl⟩
    · exact .inr ⟨t', hbefore, .inl ⟨by rintro ⟨_, _, ⟨⟩, _⟩, rfl⟩⟩
  | @signal call handle hc =>
    obtain ⟨t, hbefore, ⟨hn, heq⟩ | ⟨hn, heq⟩⟩ := of_signalTask ht
    · subst heq
      exact .inr ⟨t, hbefore, .inr (.inl ⟨⟨call, handle, rfl, hc, hn.symm⟩, rfl⟩)⟩
    · subst heq
      refine .inr ⟨t', hbefore, .inl ⟨?_, rfl⟩⟩
      rintro ⟨_, _, ⟨⟩, hc', rfl⟩
      rw [hc] at hc'
      cases hc'
      exact hn rfl
  | @drop handle _ hslot =>
    obtain ⟨t, hbefore, ⟨hn, _⟩ | ⟨hn, heq⟩⟩ := of_signalTask ht
    · exact .inr ⟨t, hbefore, .inr (.inr ⟨rfl, handle, hslot, hn.symm⟩)⟩
    · subst heq
      exact .inr ⟨t', hbefore, .inl ⟨by rintro ⟨_, _, ⟨⟩, _⟩, rfl⟩⟩
  | @task number event t t'' htask hstep _ =>
    have hnot : ¬ l.Signals (.task number event) n := by rintro ⟨_, _, ⟨⟩, _⟩
    rcases getElem?_set_cases ht with ⟨hn, heq⟩ | hbefore
    · subst hn heq
      exact .inr ⟨t, htask, .inl ⟨hnot, hstep.signal_eq⟩⟩
    · exact .inr ⟨t', hbefore, .inl ⟨hnot, rfl⟩⟩

end Steps

/-! ## Owners -/

section Owners

variable {l l' m : Listener} {a : Action} {actions : List Action} {n call : Nat} {o : Owner}

theorem Numbered.knows {handle : Handle} (hl : Numbered l) (h : l.handleOf? o = some handle) :
    l.Knows handle := by
  cases o with
  | slot => exact hl.slot handle h
  | stopCall call => exact hl.stops call handle h

theorem Numbered.lt_of_owns (hl : Numbered l) (h : l.Owns o n) : n < l.tasks.length := by
  obtain ⟨handle, hhandle, rfl⟩ := h
  exact (hl.knows hhandle).2

/-- The stop call that takes the handle in the slot is the one that begins. -/
theorem Step.call_of_taken {handle : Handle} (h : Step l a l') (hnone : l.stopHandle? call = none)
    (hafter : l'.stopHandle? call = some handle) : call = l.stops.length := by
  rcases h.stopHandle_cases call with hsame | ⟨taken, htaken, hslot, _⟩ | ⟨_, _, hnone'⟩
  · rw [hsame, hnone] at hafter
    cases hafter
  · cases h with
    | take =>
      rw [stopHandle?, stopHandle?_append] at hafter
      split at hafter
      · assumption
      · rw [stopHandle?] at hnone
        rw [hnone] at hafter
        cases hafter
    | drop => exact absurd (hnone.symm.trans hafter) (by simp)
    | refuse | observe | conclude | stopNothing | announce | signal | join | release | dropNothing
    | task | occupy => exact absurd (htaken.symm.trans hslot) (by simp)
    | spawn => cases hslot
  · rw [hnone'] at hafter
    cases hafter

/-- An owner had the handle before the step, or took it from the slot, or its task was spawned by
the step. -/
theorem Step.owns_cases (h : Step l a l') (ho : l'.Owns o n) :
    l.Owns o n ∨
      (o = .stopCall l.stops.length ∧ l.Owns .slot n ∧ l'.slot = none) ∨
      (o = .slot ∧ n = l.tasks.length ∧ ∃ i, l' = l.spawn i) := by
  obtain ⟨handle, hhandle, rfl⟩ := ho
  cases o with
  | slot =>
    rcases h.slot_cases with hsame | hnone | ⟨i, rfl⟩
    · exact .inl ⟨handle, hsame.symm.trans hhandle, rfl⟩
    · exact absurd (hnone.symm.trans hhandle) (by simp)
    · cases hhandle
      exact .inr (.inr ⟨rfl, rfl, i, rfl⟩)
  | stopCall call =>
    rcases h.stopHandle_cases call with hsame | ⟨taken, htaken, hslot, hnone, hafter⟩ | ⟨_, _, hnone⟩
    · exact .inl ⟨handle, hsame.symm.trans hhandle, rfl⟩
    · obtain rfl : taken = handle := Option.some.inj (hafter.symm.trans hhandle)
      rw [h.call_of_taken hnone hafter]
      exact .inr (.inl ⟨rfl, ⟨taken, htaken, rfl⟩, hslot⟩)
    · exact absurd (hnone.symm.trans hhandle) (by simp)

theorem Unshared.step (hl : Unshared l) (hnumbered : Numbered l) (h : Step l a l') :
    Unshared l' := by
  intro n o o' ho ho'
  rcases h.owns_cases ho with hold | ⟨rfl, hslot, hempty⟩ | ⟨rfl, rfl, _⟩
  · rcases h.owns_cases ho' with hold' | ⟨rfl, hslot, hempty⟩ | ⟨_, rfl, _⟩
    · exact hl n o o' hold hold'
    · obtain rfl := hl n o .slot hold hslot
      obtain ⟨handle, hhandle, _⟩ := ho
      exact absurd (hempty.symm.trans hhandle) (by simp)
    · exact absurd (hnumbered.lt_of_owns hold) (Nat.lt_irrefl _)
  · rcases h.owns_cases ho' with hold' | ⟨rfl, _, _⟩ | ⟨_, rfl, _⟩
    · obtain rfl := hl n o' .slot hold' hslot
      obtain ⟨handle, hhandle, _⟩ := ho'
      exact absurd (hempty.symm.trans hhandle) (by simp)
    · rfl
    · exact absurd (hnumbered.lt_of_owns hslot) (Nat.lt_irrefl _)
  · rcases h.owns_cases ho' with hold' | ⟨_, hslot, _⟩ | ⟨rfl, _, _⟩
    · exact absurd (hnumbered.lt_of_owns hold') (Nat.lt_irrefl _)
    · exact absurd (hnumbered.lt_of_owns hslot) (Nat.lt_irrefl _)
    · rfl

/-- When the owner lets go of the listener, nobody holds the handle any more that was in the
slot. -/
theorem Step.not_owns_of_drop (h : Step l a l') (hunshared : Unshared l) (hdrop : a = .drop)
    (hslot : l.Owns .slot n) : ¬ l'.Owns o n := by
  rintro ⟨handle, hhandle, hn⟩
  subst hdrop
  cases h with
  | dropNothing _ hempty =>
    obtain ⟨_, hheld, _⟩ := hslot
    cases hempty.symm.trans hheld
  | drop _ _ =>
    cases o with
    | slot => cases hhandle
    | stopCall call =>
      have hcall : l.Owns (.stopCall call) n := ⟨handle, hhandle, hn⟩
      cases hunshared n _ _ hslot hcall

theorem Reachable.unshared (hl : Reachable l) : Unshared l := by
  induction hl with
  | new settings =>
    rintro n o o' ⟨handle, hhandle, _⟩
    cases o with
    | slot => cases hhandle
    | stopCall => simp [handleOf?, stopHandle?] at hhandle
  | step hreachable h ih => exact ih.step hreachable.numbered (step_of_step? h)

end Owners

/-! ## Senders -/

/-- A task whose owner has not signalled it got no signal, and the others got theirs from the stop
call that waits for them. -/
structure Senders (l : Listener) : Prop where
  unused : ∀ o n t, l.CanSignal o n → l.tasks[n]? = some t → t.signal = .none
  used : ∀ (call : Nat) (handle : Handle) (t : Task), l.stops[call]? = some (.signalled handle) →
    l.tasks[handle.task]? = some t → t.signal = .sent

section Senders

variable {l l' : Listener} {a : Action} {n call : Nat} {o : Owner}

theorem canSignal_stopCall_iff : l.CanSignal (.stopCall call) n ↔
    ∃ handle, (l.stops[call]? = some (.taken handle) ∨ l.stops[call]? = some (.announced handle)) ∧
      handle.task = n := by
  simp only [CanSignal, sender?]
  split
  · simp [*]
  · simp [*]
  · rename_i htaken hannounced
    refine ⟨by simp, ?_⟩
    rintro ⟨handle, hc | hc, _⟩
    · exact absurd hc (htaken handle)
    · exact absurd hc (hannounced handle)

theorem CanSignal.owns (h : l.CanSignal o n) : l.Owns o n := by
  cases o with
  | slot => exact h
  | stopCall call =>
    obtain ⟨handle, hc | hc, hn⟩ := canSignal_stopCall_iff.mp h
    · exact ⟨handle, stopHandle?_of_stop hc, hn⟩
    · exact ⟨handle, stopHandle?_of_stop hc, hn⟩

theorem Signals.canSignal (h : l.Signals (.signal call) n) : l.CanSignal (.stopCall call) n := by
  obtain ⟨_, handle, hcall, hc, hn⟩ := h
  cases hcall
  exact canSignal_stopCall_iff.mpr ⟨handle, .inr hc, hn⟩

/-- A sender that is unused after a step was so before, unless its task was spawned. -/
theorem Step.canSignal_cases (h : Step l a l') (ho : l'.CanSignal o n) :
    (∃ o', l.CanSignal o' n) ∨ n = l.tasks.length := by
  cases o with
  | slot =>
    obtain ⟨handle, hhandle, rfl⟩ := ho
    rcases h.slot_cases with hsame | hnone | ⟨i, rfl⟩
    · exact .inl ⟨.slot, handle, hsame.symm.trans hhandle, rfl⟩
    · exact absurd (hnone.symm.trans hhandle) (by simp)
    · cases hhandle
      exact .inr rfl
  | stopCall call =>
    obtain ⟨handle, hc, rfl⟩ := canSignal_stopCall_iff.mp ho
    refine .inl ?_
    rcases hc with hc | hc
    · cases h.stopOrigin hc with
      | kept hbefore => exact ⟨_, canSignal_stopCall_iff.mpr ⟨handle, .inl hbefore, rfl⟩⟩
      | taken _ _ hslot => exact ⟨.slot, handle, hslot, rfl⟩
    · cases h.stopOrigin hc with
      | kept hbefore => exact ⟨_, canSignal_stopCall_iff.mpr ⟨handle, .inr hbefore, rfl⟩⟩
      | announced _ hbefore => exact ⟨_, canSignal_stopCall_iff.mpr ⟨handle, .inl hbefore, rfl⟩⟩

/-- Whoever signals a task has no sender for it any more. -/
theorem Step.not_canSignal (h : Step l a l') (hnumbered : Numbered l) (hunshared : Unshared l)
    (hsignals : l.Signals a n) : ¬ l'.CanSignal o n := by
  intro ho
  obtain ⟨call, handle, rfl, hc, rfl⟩ := hsignals
  have howner : l.Owns (.stopCall call) handle.task := ⟨handle, stopHandle?_of_stop hc, rfl⟩
  rcases h.owns_cases ho.owns with hold | ⟨_, hslot, _⟩ | ⟨_, hlen, _⟩
  · obtain rfl := hunshared _ _ _ hold howner
    obtain ⟨_, hafter, _⟩ := canSignal_stopCall_iff.mp ho
    cases h with
    | signal =>
      have hlt : call < l.stops.length := (List.getElem?_eq_some_iff.mp hc).1
      simp [setStop, signalTask, hlt] at hafter
  · exact absurd (hunshared _ _ _ hslot howner) (by simp)
  · exact absurd (hnumbered.lt_of_owns howner) (by omega)

theorem Senders.step (hl : Senders l) (hnumbered : Numbered l) (hunshared : Unshared l)
    (h : Step l a l') : Senders l' := by
  refine ⟨?_, ?_⟩
  · intro o n t' ho ht'
    rcases h.signal_cases ht' with ⟨_, hnone⟩ | ⟨t, ht, ⟨_, hsame⟩ | ⟨hsignals, _⟩ | ⟨hdrop, hslot⟩⟩
    · exact hnone
    · rcases h.canSignal_cases ho with ⟨o', hold⟩ | hlen
      · rw [hsame]
        exact hl.unused o' n t hold ht
      · have hlt := (List.getElem?_eq_some_iff.mp ht).1
        omega
    · exact absurd ho (h.not_canSignal hnumbered hunshared hsignals)
    · exact absurd ho.owns (h.not_owns_of_drop hunshared hdrop hslot)
  · intro call handle t' hc ht'
    cases h.stopOrigin hc with
    | kept hbefore =>
      have hhandle := stopHandle?_of_stop hbefore
      rcases h.signal_cases ht' with ⟨hlen, _⟩ | ⟨t, ht, ⟨_, hsame⟩ | ⟨_, hsent⟩ | ⟨hdrop, hslot⟩⟩
      · exact absurd (hnumbered.stops call handle hhandle).2 (by omega)
      · rw [hsame]
        exact hl.used call handle t hbefore ht
      · exact hsent
      · have howner : l.Owns (.stopCall call) handle.task := ⟨handle, hhandle, rfl⟩
        cases hunshared _ _ _ hslot howner
    | signalled haction hbefore =>
      subst haction
      have hsignals : l.Signals (.signal call) handle.task := ⟨call, handle, rfl, hbefore, rfl⟩
      rcases h.signal_cases ht' with ⟨hlen, _⟩ | ⟨t, ht, ⟨hnot, _⟩ | ⟨_, hsent⟩ | ⟨⟨⟩, _⟩⟩
      · exact absurd (hnumbered.lt_of_owns hsignals.canSignal.owns) (by omega)
      · exact absurd hsignals hnot
      · exact hsent

theorem Reachable.senders (hl : Reachable l) : Senders l := by
  induction hl with
  | new settings =>
    refine ⟨?_, ?_⟩
    · intro o n t _ ht
      simp at ht
    · intro call handle t hc
      simp at hc
  | step hreachable h ih => exact ih.step hreachable.numbered hreachable.unshared (step_of_step? h)

end Senders

/-! ## One owner -/

section Ownership

variable {l l' m : Listener} {a : Action} {actions : List Action} {n call : Nat} {o : Owner}
  {t : Task}

theorem Reachable.exists_owner (hl : Reachable l) (hkept : l.dropped = false)
    (hn : l.isRunning n = true) : ∃ o, l.Owns o n := by
  rcases hl.held hkept n hn with ⟨handle, hslot, hnumber⟩ | ⟨call, handle, hhandle, hnumber⟩
  · exact ⟨.slot, handle, hslot, hnumber⟩
  · exact ⟨.stopCall call, handle, hhandle, hnumber⟩

/-- A task that runs has got no signal exactly if its owner can still send one. -/
theorem Reachable.signal_eq_none_iff (hl : Reachable l) (hkept : l.dropped = false)
    (ht : l.tasks[n]? = some t) (hn : l.isRunning n = true) :
    t.signal = .none ↔ ∃ o, l.CanSignal o n := by
  refine ⟨?_, ?_⟩
  · intro hnone
    obtain ⟨o, handle, hhandle, rfl⟩ := hl.exists_owner hkept hn
    cases o with
    | slot => exact ⟨.slot, handle, hhandle, rfl⟩
    | stopCall call =>
      obtain ⟨c, hc, hholds⟩ := Option.bind_eq_some_iff.mp hhandle
      cases c with
      | taken => cases hholds; exact ⟨_, canSignal_stopCall_iff.mpr ⟨handle, .inl hc, rfl⟩⟩
      | announced => cases hholds; exact ⟨_, canSignal_stopCall_iff.mpr ⟨handle, .inr hc, rfl⟩⟩
      | signalled =>
        cases hholds
        have hsent := hl.senders.used call handle t hc ht
        rw [hnone] at hsent
        cases hsent
      | joined =>
        cases hholds
        have hended := hl.joinedEnded call handle hc
        rw [hn] at hended
        cases hended
      | returned => cases hholds
  · rintro ⟨o, ho⟩
    exact hl.senders.unused o n t ho ht

/-- A handle that a stop call has taken is never held by anyone else. -/
theorem Reachable.owns_later (hl : Reachable l) (hcall : l.Owns (.stopCall call) n)
    (hrun : l.run? actions = some m) (ho : m.Owns o n) : o = .stopCall call := by
  have hkept : Reachable m ∧ n < m.tasks.length ∧ ∀ o, m.Owns o n → o = .stopCall call := by
    refine run_keeps (p := fun l => Reachable l ∧ n < l.tasks.length ∧
      ∀ o, l.Owns o n → o = .stopCall call) ?_ ?_ hrun
    · rintro l l' a ⟨hl, hlt, honly⟩ h
      have hstep := step_of_step? h
      refine ⟨hl.step h, Nat.lt_of_lt_of_le hlt hstep.length_tasks, ?_⟩
      intro o ho
      rcases hstep.owns_cases ho with hold | ⟨_, hslot, _⟩ | ⟨_, hlen, _⟩
      · exact honly o hold
      · cases honly .slot hslot
      · omega
    · exact ⟨hl, hl.numbered.lt_of_owns hcall, fun o ho => hl.unshared n o _ ho hcall⟩
  exact hkept.2.2 o ho

/-- A task that was signalled is not signalled again. -/
theorem Reachable.not_signals_later (hl : Reachable l) (h : l.step? a = some l')
    (hsignals : l.Signals a n) (hrun : l'.run? actions = some m) (a' : Action) :
    ¬ m.Signals a' n := by
  have hstep := step_of_step? h
  have hspent : n < m.tasks.length ∧ ∀ o, ¬ m.CanSignal o n := by
    refine run_keeps (p := fun l => n < l.tasks.length ∧ ∀ o, ¬ l.CanSignal o n) ?_ ⟨?_, ?_⟩ hrun
    · rintro l l' a ⟨hlt, hnever⟩ h
      have hstep := step_of_step? h
      refine ⟨Nat.lt_of_lt_of_le hlt hstep.length_tasks, ?_⟩
      intro o ho
      rcases hstep.canSignal_cases ho with ⟨o', hold⟩ | hlen
      · exact hnever o' hold
      · omega
    · obtain ⟨call, handle, rfl, _⟩ := id hsignals
      exact Nat.lt_of_lt_of_le (hl.numbered.lt_of_owns hsignals.canSignal.owns) hstep.length_tasks
    · exact fun o => hstep.not_canSignal hl.numbered hl.unshared hsignals
  intro hagain
  obtain ⟨call, handle, rfl, _⟩ := id hagain
  exact hspent.2 _ hagain.canSignal

theorem Numbered.nodup_generations (hl : Numbered l) : (l.tasks.map (·.generation)).Nodup := by
  rw [List.Nodup, List.pairwise_map, List.pairwise_iff_getElem]
  intro i j hi hj hlt
  rw [hl.tasks i _ (List.getElem?_eq_getElem hi), hl.tasks j _ (List.getElem?_eq_getElem hj)]
  omega

/-- The handles that are held, the one in the slot first. -/
def heldHandles (l : Listener) : List Handle := l.slot.toList ++ l.stops.filterMap (·.handle?)

theorem mem_heldHandles_of_handleOf? {handle : Handle} (h : l.handleOf? o = some handle) :
    handle ∈ l.heldHandles := by
  cases o with
  | slot => exact List.mem_append_left _ (Option.mem_toList.mpr h)
  | stopCall call =>
    obtain ⟨c, hc, hhandle⟩ := Option.bind_eq_some_iff.mp h
    exact List.mem_append_right _
      (List.mem_filterMap.mpr ⟨c, List.mem_of_getElem? hc, hhandle⟩)

theorem length_heldHandles_le (l : Listener) :
    l.heldHandles.length ≤ l.stops.countP (·.handle?.isSome) + 1 := by
  have hslot : l.slot.toList.length ≤ 1 := by cases l.slot <;> simp
  rw [heldHandles, List.length_append, List.length_filterMap_eq_countP]
  omega

/-- The tasks that run are among those whose handles are held. -/
theorem Reachable.countP_running_le (hl : Reachable l) (hkept : l.dropped = false) :
    l.tasks.countP (! ·.hasEnded) ≤ l.stops.countP (·.handle?.isSome) + 1 := by
  have hnodup : ((l.tasks.filter (! ·.hasEnded)).map (·.generation)).Nodup :=
    hl.numbered.nodup_generations.sublist (List.filter_sublist.map _)
  have hheld : (l.tasks.filter (! ·.hasEnded)).map (·.generation) ⊆
      l.heldHandles.map (·.generation) := by
    intro g hg
    obtain ⟨t, ht, rfl⟩ := List.mem_map.mp hg
    obtain ⟨hmem, hrunning⟩ := List.mem_filter.mp ht
    obtain ⟨n, hn⟩ := List.mem_iff_getElem?.mp hmem
    obtain ⟨o, handle, hhandle, rfl⟩ :=
      hl.exists_owner hkept (isRunning_iff.mpr ⟨t, hn, by simpa [Task.hasEnded] using hrunning⟩)
    refine List.mem_map.mpr ⟨handle, mem_heldHandles_of_handleOf? hhandle, ?_⟩
    rw [hl.numbered.tasks _ t hn, (hl.numbered.knows hhandle).1]
  calc l.tasks.countP (! ·.hasEnded)
      = ((l.tasks.filter (! ·.hasEnded)).map (·.generation)).length := by
        rw [List.length_map, List.countP_eq_length_filter]
    _ ≤ (l.heldHandles.map (·.generation)).length := (hnodup.subperm hheld).length_le
    _ = l.heldHandles.length := List.length_map _
    _ ≤ l.stops.countP (·.handle?.isSome) + 1 := l.length_heldHandles_le

/-! ## Start calls beside a task that runs -/

theorem isRunning_of_run (hlt : n < l.tasks.length) (hrun : l.run? actions = some m)
    (hn : m.isRunning n = true) : l.isRunning n = true := by
  rw [← Bool.not_eq_false]
  intro hended
  have hlater : n < m.tasks.length ∧ m.isRunning n = false := by
    refine run_keeps (p := fun l => n < l.tasks.length ∧ l.isRunning n = false) ?_ ⟨hlt, hended⟩ hrun
    rintro l l' a ⟨hlt, hended⟩ h
    have hstep := step_of_step? h
    exact ⟨Nat.lt_of_lt_of_le hlt hstep.length_tasks, hstep.not_isRunning hlt hended⟩
  rw [hlater.2] at hn
  cases hn

/-- As long as its task runs, a handle stays in the slot until a stop call takes it, and no other
task is spawned. -/
theorem Step.slot_of_running {handle : Handle} (h : Step l a l') (hslot : l.slot = some handle)
    (hn : l.isRunning handle.task = true) (hstop : a ≠ .stop) (hdrop : a ≠ .drop) :
    l'.slot = some handle ∧ l'.tasks.length = l.tasks.length ∧ l'.dropped = l.dropped := by
  cases h with
  | refuse | observe | conclude | announce | join | release | occupy => exact ⟨hslot, rfl, rfl⟩
  | stopNothing | take => exact absurd rfl hstop
  | dropNothing | drop => exact absurd rfl hdrop
  | signal => exact ⟨hslot, List.length_modify .., rfl⟩
  | task => exact ⟨hslot, List.length_set .., rfl⟩
  | spawn _ hended =>
    have := hended handle hslot
    rw [hn] at this
    cases this

theorem run_slot_of_running {handle : Handle} (hslot : l.slot = some handle)
    (hlt : handle.task < l.tasks.length) (hrun : l.run? actions = some m)
    (hstop : .stop ∉ actions) (hdrop : .drop ∉ actions) (hn : m.isRunning handle.task = true) :
    m.slot = some handle ∧ m.tasks.length = l.tasks.length ∧ m.dropped = l.dropped := by
  induction actions generalizing l with
  | nil =>
    cases hrun
    exact ⟨hslot, rfl, rfl⟩
  | cons a actions ih =>
    simp only [List.mem_cons, not_or] at hstop hdrop
    have hrunning := isRunning_of_run hlt hrun hn
    rw [run?_cons, Option.bind_eq_some_iff] at hrun
    obtain ⟨l', hl', hrest⟩ := hrun
    obtain ⟨hkept, hlen, hdropped⟩ :=
      (step_of_step? hl').slot_of_running hslot hrunning (Ne.symm hstop.1) (Ne.symm hdrop.1)
    obtain ⟨hlast, hlen', hdropped'⟩ := ih hkept (hlen ▸ hlt) hrest hstop.2 hdrop.2
    exact ⟨hlast, hlen'.trans hlen, hdropped'.trans hdropped⟩

theorem step?_start_of_running {handle : Handle} (hslot : l.slot = some handle)
    (hn : l.isRunning handle.task = true) (hkept : l.dropped = false) (i : Interface) :
    l.step? (.start i) = some l.refuse := by
  simp [step?, hkept, hslot, hn]

end Ownership

/-- Whatever calls are under way: a task that has not ended has one owner, the slot or a stop call,
and has been signalled exactly if its owner's sender is used. A stop call that has taken a handle
stays the only owner of its task, and the only one to signal it, and signals it once. So there is at
most one task that runs more than there are stop calls that have not returned; and once a start
call has spawned a task, all others are refused while it runs, unless a stop call begins. -/
theorem a_task_that_runs_has_one_owner {l : Listener} (hl : Reachable l)
    (hkept : l.dropped = false) :
    (∀ n t, l.tasks[n]? = some t → t.hasEnded = false →
      (∃! o, l.Owns o n) ∧ (t.signal = .none ↔ ∃ o, l.CanSignal o n)) ∧
    (∀ call n, l.Owns (.stopCall call) n → ∀ actions m, l.run? actions = some m →
      (∀ o, m.Owns o n → o = .stopCall call) ∧ ∀ a, m.Signals a n → a = .signal call) ∧
    (∀ a l' n, l.step? a = some l' → l.Signals a n →
      ∀ actions m, l'.run? actions = some m → ∀ a', ¬ m.Signals a' n) ∧
    l.tasks.countP (! ·.hasEnded) ≤ l.stops.countP (·.handle?.isSome) + 1 ∧
    ∀ i actions m, l.step? (.start i) = some (l.spawn i) → (l.spawn i).run? actions = some m →
      .stop ∉ actions → .drop ∉ actions → m.isRunning l.tasks.length = true →
      m.tasks.length = l.tasks.length + 1 ∧
        ∀ j, ∃ m', m.step? (.start j) = some m' ∧ m'.tasks = m.tasks ∧
          m'.startResult? m.starts.length = some (.failed .alreadyRunning) := by
  refine ⟨?_, ?_, ?_, hl.countP_running_le hkept, ?_⟩
  · intro n t ht hn
    have hrunning : l.isRunning n = true :=
      isRunning_iff.mpr ⟨t, ht, by simpa [Task.hasEnded] using hn⟩
    obtain ⟨o, ho⟩ := hl.exists_owner hkept hrunning
    exact ⟨⟨o, ho, fun o' ho' => hl.unshared n o' o ho' ho⟩,
      hl.signal_eq_none_iff hkept ht hrunning⟩
  · intro call n hcall actions m hrun
    refine ⟨fun o ho => hl.owns_later hcall hrun ho, ?_⟩
    intro a hsignals
    obtain ⟨call', handle, rfl, _⟩ := id hsignals
    cases hl.owns_later hcall hrun hsignals.canSignal.owns
    rfl
  · intro a l' n h hsignals actions m hrun a'
    exact hl.not_signals_later h hsignals hrun a'
  · intro i actions m hstart hrun hstop hdrop hn
    have hspawned : (l.spawn i).slot = some ⟨l.publisher.generation + 1, l.tasks.length⟩ := rfl
    obtain ⟨hslot, hlen, hdropped⟩ :=
      run_slot_of_running hspawned (by simp [tasks_spawn]) hrun hstop hdrop hn
    refine ⟨by simp [hlen, tasks_spawn], ?_⟩
    intro j
    refine ⟨m.refuse, step?_start_of_running hslot hn (hdropped.trans hkept) j, rfl, ?_⟩
    exact startResult?_eq_some_iff.mpr ⟨none, by simp [refuse]⟩

/-- While a stop call waits for its task, a start call has spawned another one. Each of the two has
its owner, and a third task is not spawned. -/
theorem two_tasks_run_while_a_stop_call_waits :
    ∃ l, serving.run? [.stop, .start accessPoint] = some l ∧
      l.Owns (.stopCall 0) 0 ∧ l.Owns .slot 1 ∧
      (∀ o, l.Owns o 0 → o = .stopCall 0) ∧ (∀ o, l.Owns o 1 → o = .slot) ∧
      l.tasks.countP (! ·.hasEnded) = 2 ∧ l.stops.countP (·.handle?.isSome) + 1 = 2 ∧
      ∀ actions m a, l.run? actions = some m → m.Signals a 0 → a = .signal 0 := by
  obtain ⟨l, hrun, hkept, htasks, hslot, hstops⟩ :
      ∃ l, serving.run? [.stop, .start accessPoint] = some l ∧ l.dropped = false ∧
        l.tasks = serving.tasks ++ [{ generation := 2, interface := accessPoint }] ∧
        l.slot = some ⟨2, 1⟩ ∧ l.stops = [.taken ⟨1, 0⟩] := ⟨_, rfl, rfl, rfl, rfl, rfl⟩
  obtain ⟨howned, hlater, _⟩ :=
    a_task_that_runs_has_one_owner (reachable_serving.run hrun) hkept
  have hfirst : l.Owns (.stopCall 0) 0 :=
    ⟨⟨1, 0⟩, stopHandle?_of_stop (c := .taken ⟨1, 0⟩) (by rw [hstops]; rfl), rfl⟩
  have hsecond : l.Owns .slot 1 := ⟨⟨2, 1⟩, hslot, rfl⟩
  obtain ⟨⟨_, _, honly⟩, _⟩ := howned 1 { generation := 2, interface := accessPoint }
    (by rw [htasks]; rfl) rfl
  refine ⟨l, hrun, hfirst, hsecond, ?_, ?_, ?_, ?_, ?_⟩
  · exact (hlater 0 0 hfirst [] l rfl).1
  · exact fun o ho => (honly o ho).trans (honly .slot hsecond).symm
  · rw [htasks]
    decide +kernel
  · rw [hstops]
    rfl
  · exact fun actions m a hm => (hlater 0 0 hfirst actions m hm).2 a

end Listener

end PortalDns
