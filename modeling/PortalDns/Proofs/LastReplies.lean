-- The laws of stopping a task: a task that is told to stop finishes what it has
-- begun and takes on nothing new, whenever it is told.
import PortalDns.Proofs.Owners
import PortalDns.Proofs.Serving

namespace PortalDns

/-! ## What is left to do for a task that is told to stop -/

namespace Phase

/-- How many datagrams a task may still take once it is told to stop: the one that it waits for. -/
def datagramsLeft : Phase → Nat
  | opened _ .polling => 1
  | _ => 0

/-- How many replies a task may still send once it is told to stop: the one to the datagram that it
waits for or deals with. -/
def repliesLeft : Phase → Nat
  | opened _ .polling => 1
  | opened _ (.handling ..) => 1
  | opened _ (.sending ..) => 1
  | _ => 0

theorem datagramsLeft_le (p : Phase) : p.datagramsLeft ≤ p.repliesLeft := by
  unfold datagramsLeft
  split
  · exact Nat.le_refl 1
  · exact Nat.zero_le _

theorem repliesLeft_le_one (p : Phase) : p.repliesLeft ≤ 1 := by
  unfold repliesLeft
  split <;> decide

/-- What is left is one datagram and one reply at most. -/
theorem one_left {p : Phase} {taken sent : List (Endpoint × Octets)}
    (htaken : taken.length ≤ p.datagramsLeft) (hsent : sent.length ≤ p.repliesLeft) :
    taken.length ≤ 1 ∧ sent.length ≤ 1 ∧ (p.repliesLeft = 0 → taken = [] ∧ sent = []) := by
  have hfewer := p.datagramsLeft_le
  have hmost := p.repliesLeft_le_one
  refine ⟨by omega, by omega, ?_⟩
  intro hnone
  exact ⟨List.eq_nil_of_length_eq_zero (by omega), List.eq_nil_of_length_eq_zero (by omega)⟩

end Phase

namespace Task

/-- What a task sends in the course of events, and to whom. -/
def sends (t : Task) : List TaskEvent → List (Endpoint × Octets)
  | [] => []
  | event :: events => (t.sent? event).toList ++ (t.step? event).elim [] (·.sends events)

variable {t t' : Task} {event : TaskEvent} {events : List TaskEvent}

theorem run?_cons (t : Task) (event : TaskEvent) (events : List TaskEvent) :
    t.run? (event :: events) = (t.step? event).bind (·.run? events) := rfl

theorem length_sent?_le (t : Task) (event : TaskEvent) : (t.sent? event).toList.length ≤ 1 := by
  cases t.sent? event <;> simp

/-- Step by step, a task that is told to stop uses up what is left to do: it looks for a stop before
it waits for another datagram. -/
theorem Step.left_le (h : t.Step event t') (hstop : t.signal ≠ .none) :
    event.arrival?.toList.length + t'.phase.datagramsLeft ≤ t.phase.datagramsLeft ∧
      (t.sent? event).toList.length + t'.phase.repliesLeft ≤ t.phase.repliesLeft := by
  cases h with
  | poll _ hnone => exact absurd hnone hstop
  | @handle socket peer size hp =>
    have hmost := Phase.repliesLeft_le_one (.opened socket (afterHandling peer
      (Portal.replyTo t.interface peer.address (t.buffer.take size))))
    simp only [hp, sent?, TaskEvent.arrival?]
    refine ⟨?_, by simpa [Phase.repliesLeft] using hmost⟩
    cases Portal.replyTo t.interface peer.address (t.buffer.take size) <;>
      simp [afterHandling, Phase.datagramsLeft]
  | send hp =>
    have hmost := t.length_sent?_le .send
    rw [hp]
    exact ⟨Nat.le_refl 0, hmost⟩
  | bind hp | failBind hp | retryBind hp | giveUp hp | loseEndpoint hp | publishServing hp
  | heed hp | idle hp | receive hp | failSend hp | close hp | publishStopped hp | exit hp =>
    simp [hp, sent?, Phase.datagramsLeft, Phase.repliesLeft, TaskEvent.arrival?]

/-- Until it looks for a stop for the first time, a task has nothing to do that is left to do after
that. -/
theorem Step.repliesLeft_eq_zero (h : t.Step event t') (hunchecked : event ≠ .check)
    (hnone : t.phase.repliesLeft = 0) : t'.phase.repliesLeft = 0 := by
  cases h with
  | poll | heed => exact absurd rfl hunchecked
  | receive hp | handle hp => simp [hp, Phase.repliesLeft] at hnone
  | bind | failBind | retryBind | giveUp | loseEndpoint | publishServing | idle | send | failSend
  | close | publishStopped | exit => rfl

theorem filterMap_arrival?_cons (event : TaskEvent) (events : List TaskEvent) :
    (event :: events).filterMap TaskEvent.arrival? =
      event.arrival?.toList ++ events.filterMap TaskEvent.arrival? := by
  rw [List.filterMap_cons]
  cases event.arrival? <;> rfl

/-- Whatever happens to it, a task that is told to stop takes no more datagrams and sends no more
replies than are left. -/
theorem run_left_le (hrun : t.run? events = some t') (hstop : t.signal ≠ .none) :
    (events.filterMap TaskEvent.arrival?).length ≤ t.phase.datagramsLeft ∧
      (t.sends events).length ≤ t.phase.repliesLeft := by
  induction events generalizing t with
  | nil => exact ⟨Nat.zero_le _, Nat.zero_le _⟩
  | cons event events ih =>
    rw [run?_cons, Option.bind_eq_some_iff] at hrun
    obtain ⟨u, hu, hrest⟩ := hrun
    have hstep := step_of_step? hu
    obtain ⟨htaken, hsent⟩ := hstep.left_le hstop
    obtain ⟨htaken', hsent'⟩ := ih hrest (by rwa [hstep.signal_eq])
    rw [filterMap_arrival?_cons, sends, hu, Option.elim_some, List.length_append,
      List.length_append]
    omega

theorem run_repliesLeft_eq_zero (hrun : t.run? events = some t') (hunchecked : .check ∉ events)
    (hnone : t.phase.repliesLeft = 0) : t'.phase.repliesLeft = 0 := by
  induction events generalizing t with
  | nil =>
    cases hrun
    exact hnone
  | cons event events ih =>
    rw [run?_cons, Option.bind_eq_some_iff] at hrun
    obtain ⟨u, hu, hrest⟩ := hrun
    rw [List.mem_cons, not_or] at hunchecked
    exact ih hrest hunchecked.2
      ((step_of_step? hu).repliesLeft_eq_zero (Ne.symm hunchecked.1) hnone)

end Task

namespace Listener

section Runs

variable {l l' : Listener} {a : Action} {actions : List Action} {n : Nat} {t t' : Task}

theorem Step.left_le (h : Step l a l') (ht : l.tasks[n]? = some t) (hstop : t.signal ≠ .none) :
    ∃ t', l'.tasks[n]? = some t' ∧ t'.signal ≠ .none ∧
      ((a.eventOf? n).bind TaskEvent.arrival?).toList.length + t'.phase.datagramsLeft ≤
        t.phase.datagramsLeft ∧
      (l.sentFor? n a).toList.length + t'.phase.repliesLeft ≤ t.phase.repliesLeft := by
  obtain ⟨t', ht', ⟨event, rfl, htask⟩ | ⟨hother, signal, rfl, hkept⟩⟩ := h.task_cases ht
  · refine ⟨t', ht', by rwa [htask.signal_eq], ?_⟩
    have hleft := htask.left_le hstop
    simpa [sentFor?, sent?, ht] using hleft
  · refine ⟨_, ht', hkept hstop, ?_⟩
    simp [sentFor?, Action.eventOf?_eq_none hother]

/-- In the course of a run, a task that is told to stop takes no more datagrams and sends no more
replies than are left. -/
theorem run_left_le (hrun : l.run? actions = some l') (ht : l.tasks[n]? = some t)
    (hstop : t.signal ≠ .none) :
    (received n actions).length ≤ t.phase.datagramsLeft ∧
      (l.sentBy n actions).length ≤ t.phase.repliesLeft := by
  induction actions generalizing l t with
  | nil => exact ⟨Nat.zero_le _, Nat.zero_le _⟩
  | cons a actions ih =>
    rw [run?_cons, Option.bind_eq_some_iff] at hrun
    obtain ⟨m, hm, hrest⟩ := hrun
    obtain ⟨u, hu, hustop, htaken, hsent⟩ := (step_of_step? hm).left_le ht hstop
    obtain ⟨htaken', hsent'⟩ := ih hrest hu hustop
    rw [received_cons, sentBy, hm, Option.elim_some, List.length_append, List.length_append]
    omega

theorem Step.repliesLeft_eq_zero (h : Step l a l') (hunchecked : a ≠ .task n .check)
    (hnone : ∀ t, l.tasks[n]? = some t → t.phase.repliesLeft = 0) (ht' : l'.tasks[n]? = some t') :
    t'.phase.repliesLeft = 0 := by
  cases h.taskOrigin ht' with
  | kept ht heq =>
    have hbefore := hnone _ ht
    rw [heq]
    exact hbefore
  | stepped ht haction htask _ =>
    refine htask.repliesLeft_eq_zero ?_ (hnone _ ht)
    rintro rfl
    exact hunchecked haction
  | spawned _ _ heq =>
    rw [heq]
    rfl

/-- A task that has not looked for a stop yet has neither taken a datagram nor waited for one. -/
theorem run_repliesLeft_eq_zero (hrun : l.run? actions = some l')
    (hunchecked : .task n .check ∉ actions)
    (hnone : ∀ t, l.tasks[n]? = some t → t.phase.repliesLeft = 0) (ht' : l'.tasks[n]? = some t') :
    t'.phase.repliesLeft = 0 := by
  induction actions generalizing l with
  | nil =>
    cases hrun
    exact hnone t' ht'
  | cons a actions ih =>
    rw [run?_cons, Option.bind_eq_some_iff] at hrun
    obtain ⟨m, hm, hrest⟩ := hrun
    rw [List.mem_cons, not_or] at hunchecked
    exact ih hrest hunchecked.2
      fun u hu => (step_of_step? hm).repliesLeft_eq_zero (Ne.symm hunchecked.1) hnone hu

end Runs

/-! ## The law of stopping a task -/

/-- Once a task is told to stop, or nobody can tell it any more, it takes one more datagram at most
and sends one more reply at most, whatever happens to it; and none at all if it had not looked for a
stop yet when it was told. So it is for a task by itself, whoever tells it, and for each of the
tasks of a listener. -/
theorem a_task_told_to_stop_takes_one_more_datagram_at_most :
    (∀ generation interface before t signal after t',
      Task.run? { generation, interface } before = some t → signal ≠ .none →
      Task.run? { t with signal } after = some t' →
        (after.filterMap TaskEvent.arrival?).length ≤ 1 ∧
          (Task.sends { t with signal } after).length ≤ 1 ∧
          (.check ∉ before → after.filterMap TaskEvent.arrival? = [] ∧
            Task.sends { t with signal } after = [])) ∧
    ∀ settings n before l t after l', run? { settings } before = some l →
      l.tasks[n]? = some t → t.signal ≠ .none → l.run? after = some l' →
        (received n after).length ≤ 1 ∧ (l.sentBy n after).length ≤ 1 ∧
          (.task n .check ∉ before → received n after = [] ∧ l.sentBy n after = []) := by
  constructor
  · intro generation interface before t signal after t' hbefore hstop hafter
    obtain ⟨htaken, hsent⟩ := Task.run_left_le hafter hstop
    obtain ⟨hone, hone', hnone⟩ := Phase.one_left htaken hsent
    refine ⟨hone, hone', ?_⟩
    intro hunchecked
    have hleft : t.phase.repliesLeft = 0 := Task.run_repliesLeft_eq_zero hbefore hunchecked rfl
    exact hnone hleft
  · intro settings n before l t after l' hbefore ht hstop hafter
    obtain ⟨htaken, hsent⟩ := run_left_le hafter ht hstop
    obtain ⟨hone, hone', hnone⟩ := Phase.one_left htaken hsent
    refine ⟨hone, hone', ?_⟩
    intro hunchecked
    exact hnone (run_repliesLeft_eq_zero hbefore hunchecked (by simp) ht)

/-- A task that nobody can tell to stop any more before its socket is bound answers nothing, and one
that is told so while it waits for a datagram answers that. -/
theorem a_datagram_is_answered_if_it_was_waited_for :
    (∃ t t', Task.run? { generation := 1, interface := accessPoint } [.failBind] = some t ∧
      Task.run? { t with signal := .dropped } [.retryBind, .bind port53, .publishServing, .check,
        .close] = some t' ∧
      Task.sends { t with signal := .dropped } [.retryBind, .bind port53, .publishServing, .check,
        .close] = []) ∧
    ∃ l t l' after, run? { settings := {} } [.start accessPoint, .task 0 (.bind port53),
        .task 0 .publishServing, .task 0 .check, .stop, .announce 0, .signal 0] = some l ∧
      l.tasks[0]? = some t ∧ t.signal = .sent ∧ l.run? after = some l' ∧
      received 0 after = [(client, query)] ∧ l.sentBy 0 after = [(client, answer)] ∧
      (l.sentBy 0 after).length ≤ 1 := by
  obtain ⟨htask, hlistener⟩ := a_task_told_to_stop_takes_one_more_datagram_at_most
  constructor
  · obtain ⟨_, _, hnone⟩ := htask 1 accessPoint [.failBind] _ .dropped [.retryBind, .bind port53,
      .publishServing, .check, .close] _ rfl (by decide) rfl
    exact ⟨_, _, rfl, rfl, (hnone (by decide)).2⟩
  · obtain ⟨l, t, hbefore, ht, hstop, hafter, hsent⟩ : ∃ l t, run? { settings := {} } [
          .start accessPoint, .task 0 (.bind port53), .task 0 .publishServing, .task 0 .check, .stop,
          .announce 0, .signal 0] = some l ∧ l.tasks[0]? = some t ∧ t.signal = .sent ∧
        (l.run? [.task 0 (.receive client query), .task 0 .handle, .task 0 .send]).isSome = true ∧
        l.sentBy 0 [.task 0 (.receive client query), .task 0 .handle, .task 0 .send] =
          [(client, answer)] :=
      ⟨_, _, rfl, rfl, rfl, by decide +kernel, by decide +kernel⟩
    obtain ⟨l', hafter⟩ := Option.isSome_iff_exists.mp hafter
    obtain ⟨_, hone, _⟩ := hlistener {} 0 _ l t _ l' hbefore ht (by simp [hstop]) hafter
    exact ⟨l, t, l', _, hbefore, ht, hstop, hafter, rfl, hsent, hone⟩

end Listener

end PortalDns
