-- The steps of tasks and of listeners, one case for each thing that can happen,
-- and what a step leaves as it was. Runs are steps one after the other.
import Mathlib
import PortalDns.Listener.Basic

namespace PortalDns

/-! ## Lists of tasks and of calls -/

section Lists

variable {α : Type} {xs : List α} {i j : Nat} {x y : α}

theorem getElem?_set_cases (h : (xs.set i x)[j]? = some y) : j = i ∧ y = x ∨ xs[j]? = some y := by
  rw [List.getElem?_set] at h
  split at h
  · rename_i heq
    split at h
    · cases h
      exact .inl ⟨heq.symm, rfl⟩
    · cases h
  · exact .inr h

theorem getElem?_snoc_cases (h : (xs ++ [x])[j]? = some y) :
    j = xs.length ∧ y = x ∨ xs[j]? = some y := by
  rw [List.getElem?_append] at h
  split at h
  · exact .inr h
  · obtain ⟨hlt, rfl⟩ := List.getElem?_eq_some_iff.mp h
    rw [List.length_singleton] at hlt
    exact .inl ⟨by omega, List.getElem_singleton _⟩

end Lists

/-! ## Steps of a task -/

/-- What an event needs of a task, and what becomes of the task. -/
inductive Task.Step (t : Task) : TaskEvent → Task → Prop
  | bind {socket : Endpoint} : t.phase = .binding →
      Step t (.bind socket) { t with phase := .opened socket .bound }
  | failBind : t.phase = .binding → Step t .failBind { t with phase := .waiting }
  | retryBind : t.phase = .waiting → Step t .retryBind { t with phase := .binding }
  | giveUp : t.phase = .waiting → t.signal ≠ .none → Step t .giveUp { t with phase := .closed }
  | loseEndpoint {socket : Endpoint} : t.phase = .opened socket .bound →
      Step t .loseEndpoint { t with phase := .closed }
  | publishServing {socket : Endpoint} : t.phase = .opened socket .bound →
      Step t .publishServing { t with phase := .opened socket .checking }
  | poll {socket : Endpoint} : t.phase = .opened socket .checking → t.signal = .none →
      Step t .check { t with phase := .opened socket .polling }
  | heed {socket : Endpoint} : t.phase = .opened socket .checking → t.signal ≠ .none →
      Step t .check { t with phase := .opened socket .closing }
  | idle {socket : Endpoint} : t.phase = .opened socket .polling →
      Step t .idle { t with phase := .opened socket .checking }
  | receive {socket peer : Endpoint} {datagram : Octets} : t.phase = .opened socket .polling →
      Step t (.receive peer datagram) { t with
        buffer := (Datagram.receive t.buffer datagram).1
        phase := .opened socket (.handling peer (Datagram.receive t.buffer datagram).2) }
  | handle {socket peer : Endpoint} {size : Nat} : t.phase = .opened socket (.handling peer size) →
      Step t .handle { t with
        phase := .opened socket (Task.afterHandling peer
          (Portal.replyTo t.interface peer.address (t.buffer.take size))) }
  | send {socket peer : Endpoint} {reply : Octets} :
      t.phase = .opened socket (.sending peer reply) →
      Step t .send { t with phase := .opened socket .checking }
  | failSend {socket peer : Endpoint} {reply : Octets} :
      t.phase = .opened socket (.sending peer reply) →
      Step t .failSend { t with phase := .opened socket .checking }
  | close {socket : Endpoint} : t.phase = .opened socket .closing →
      Step t .close { t with phase := .closed }
  | publishStopped : t.phase = .closed → Step t .publishStopped { t with phase := .finishing }
  | exit : t.phase = .finishing → Step t .exit { t with phase := .ended }

namespace Task

variable {t t' : Task} {event : TaskEvent} {e : Endpoint}

theorem step_of_step? (h : t.step? event = some t') : Step t event t' := by
  unfold step? at h
  split at h
  · cases h; exact .bind ‹_›
  · cases h; exact .failBind ‹_›
  · cases h; exact .retryBind ‹_›
  · split at h
    · cases h
    · cases h; exact .giveUp ‹_› ‹_›
  · cases h; exact .loseEndpoint ‹_›
  · cases h; exact .publishServing ‹_›
  · split at h
    · cases h; exact .poll ‹_› ‹_›
    · cases h; exact .heed ‹_› ‹_›
  · cases h; exact .idle ‹_›
  · cases h; exact .receive ‹_›
  · cases h; exact .handle ‹_›
  · cases h; exact .send ‹_›
  · cases h; exact .failSend ‹_›
  · cases h; exact .close ‹_›
  · cases h; exact .publishStopped ‹_›
  · cases h; exact .exit ‹_›
  · cases h

theorem Step.generation_eq (h : Step t event t') : t'.generation = t.generation := by
  cases h <;> rfl

/-- A task that has ended takes no steps. -/
theorem Step.not_ended (h : Step t event t') : t.phase ≠ .ended := by
  cases h <;> simp [*]

/-- Sockets come from binding, and are not exchanged. -/
theorem Step.socket_of_socket (h : Step t event t') (he : t'.socket? = some e) :
    t.socket? = some e ∨ event = .bind e := by
  cases h <;> simp_all [socket?]

theorem socket?_eq_some_iff : t.socket? = some e ↔ ∃ stage, t.phase = .opened e stage := by
  unfold socket?
  split
  · simp [*]
  · rename_i hne
    simp only [reduceCtorEq, false_iff, not_exists]
    intro stage hphase
    exact hne _ _ hphase

end Task

/-! ## Steps of a listener -/

@[simp] theorem Publisher.generation_update (p : Publisher) (generation : Nat)
    (change : Status → Status) : (p.update generation change).generation = p.generation := by
  unfold update
  split
  · rfl
  · rfl

namespace Listener

def setTask (l : Listener) (number : Nat) (t : Task) : Listener :=
  { l with tasks := l.tasks.set number t }

/-- What a step needs of a listener, and what becomes of the listener. -/
inductive Step (l : Listener) : Action → Listener → Prop
  | refuse {i : Interface} {h : Handle} : l.dropped = false → l.slot = some h →
      l.isRunning h.task = true → Step l (.start i) l.refuse
  | spawn {i : Interface} : l.dropped = false →
      (∀ h, l.slot = some h → l.isRunning h.task = false) → Step l (.start i) (l.spawn i)
  | observe {call g : Nat} : l.starts[call]? = some ⟨some g, .waiting⟩ →
      l.status.settled = true ∨ l.isCurrent g = false →
      Step l (.observe call) (l.setStart call ⟨some g, .seen l.status⟩)
  | conclude {call g : Nat} {s : Status} : l.starts[call]? = some ⟨some g, .seen s⟩ →
      Step l (.conclude call) (l.setStart call ⟨some g, .returned (l.startResult g s)⟩)
  | stopNothing : l.dropped = false → l.slot = none →
      Step l .stop { l with stops := l.stops ++ [.returned] }
  | take {h : Handle} : l.dropped = false → l.slot = some h →
      Step l .stop { l with slot := none, stops := l.stops ++ [.taken h] }
  | announce {call : Nat} {h : Handle} : l.stops[call]? = some (.taken h) →
      Step l (.announce call)
        ((l.publish h.generation Status.requestStop).setStop call (.announced h))
  | signal {call : Nat} {h : Handle} : l.stops[call]? = some (.announced h) →
      Step l (.signal call) ((l.signalTask h.task .sent).setStop call (.signalled h))
  | join {call : Nat} {h : Handle} : l.stops[call]? = some (.signalled h) →
      l.isRunning h.task = false → Step l (.join call) (l.setStop call (.joined h))
  | release {call : Nat} {h : Handle} : l.stops[call]? = some (.joined h) →
      Step l (.release call)
        ((l.publish h.generation fun _ => .stopped).setStop call .returned)
  | dropNothing : l.dropped = false → l.slot = none →
      Step l .drop { l with dropped := true }
  | drop {h : Handle} : l.dropped = false → l.slot = some h →
      Step l .drop ({ l with slot := none, dropped := true }.signalTask h.task .dropped)
  | task {number : Nat} {event : TaskEvent} {t t' : Task} : l.tasks[number]? = some t →
      t.Step event t' → l.permits event = true →
      Step l (.task number event)
        ((l.setTask number t').publish t.generation (t.publication event))
  | occupy {endpoints : List Endpoint} : (∀ t ∈ l.tasks, ∀ e ∈ t.socket?, e ∉ endpoints) →
      Step l (.occupy endpoints) { l with others := endpoints }

variable {l l' : Listener} {a : Action} {n : Nat} {t t' : Task}

theorem step_of_start {i : Interface} (h : l.step? (.start i) = some l') :
    Step l (.start i) l' := by
  simp only [step?] at h
  split at h
  · cases h
  rename_i hdropped
  rw [Bool.not_eq_true] at hdropped
  split at h
  · rename_i hrunning
    cases h
    cases hslot : l.slot with
    | none => simp [hslot] at hrunning
    | some handle => exact .refuse hdropped hslot (by simpa [hslot] using hrunning)
  · rename_i hrunning
    cases h
    refine .spawn hdropped ?_
    intro handle hslot
    simpa [hslot] using hrunning

theorem step_of_stop (h : l.step? .stop = some l') : Step l .stop l' := by
  simp only [step?] at h
  split at h
  · cases h
  rename_i hdropped
  rw [Bool.not_eq_true] at hdropped
  split at h
  · cases h
    exact .stopNothing hdropped ‹_›
  · cases h
    exact .take hdropped ‹_›

theorem step_of_drop (h : l.step? .drop = some l') : Step l .drop l' := by
  simp only [step?] at h
  split at h
  · cases h
  rename_i hdropped
  rw [Bool.not_eq_true] at hdropped
  split at h
  · cases h
    exact .dropNothing hdropped ‹_›
  · cases h
    exact .drop hdropped ‹_›

theorem step_of_step? (h : l.step? a = some l') : Step l a l' := by
  cases a with
  | start i => exact step_of_start h
  | stop => exact step_of_stop h
  | drop => exact step_of_drop h
  | observe call =>
    simp only [step?] at h
    split at h
    · split at h
      · rename_i hseen
        cases h
        exact .observe ‹_› (by simpa using hseen)
      · cases h
    · cases h
  | conclude call =>
    simp only [step?] at h
    split at h
    · cases h
      exact .conclude ‹_›
    · cases h
  | announce call =>
    simp only [step?] at h
    split at h
    · cases h
      exact .announce ‹_›
    · cases h
  | signal call =>
    simp only [step?] at h
    split at h
    · cases h
      exact .signal ‹_›
    · cases h
  | join call =>
    simp only [step?] at h
    split at h
    · split at h
      · cases h
      · rename_i hrunning
        cases h
        exact .join ‹_› (by simpa using hrunning)
    · cases h
  | release call =>
    simp only [step?] at h
    split at h
    · cases h
      exact .release ‹_›
    · cases h
  | task number event =>
    simp only [step?] at h
    split at h
    · cases h
    split at h
    · cases h
    split at h
    · cases h
      exact .task ‹_› (Task.step_of_step? ‹_›) ‹_›
    · cases h
  | occupy endpoints =>
    simp only [step?] at h
    split at h
    · cases h
      exact .occupy ‹_›
    · cases h

/-- What a task can do and its surroundings permit is a step of the listener. -/
theorem exists_step?_of_task {event : TaskEvent} (ht : l.tasks[n]? = some t)
    (hstep : t.step? event = some t') (hpermits : l.permits event = true) :
    ∃ l', l.step? (.task n event) = some l' ∧ l'.tasks[n]? = some t' := by
  have hlt := (List.getElem?_eq_some_iff.mp ht).1
  refine ⟨{ l.publish t.generation (t.publication event) with tasks := l.tasks.set n t' }, ?_, ?_⟩
  · simp [step?, ht, hstep, hpermits]
  · exact List.getElem?_set_self hlt

/-! ## What a step does to a task -/

/-- Where a task comes from that is there after a step: it was there before, or took the step
itself, or was spawned by it. -/
inductive TaskOrigin (l : Listener) (a : Action) (l' : Listener) (n : Nat) (t' : Task) : Prop
  | kept {t : Task} {signal : Signal} : l.tasks[n]? = some t → t' = { t with signal } →
      TaskOrigin l a l' n t'
  | stepped {t : Task} {event : TaskEvent} : l.tasks[n]? = some t → a = .task n event →
      t.Step event t' → l.permits event = true → TaskOrigin l a l' n t'
  | spawned {i : Interface} : l' = l.spawn i → n = l.tasks.length →
      t' = { generation := l.publisher.generation + 1, interface := i } → TaskOrigin l a l' n t'

theorem exists_of_signalTask {task : Nat} {signal : Signal}
    (ht : (l.signalTask task signal).tasks[n]? = some t') :
    ∃ t signal, l.tasks[n]? = some t ∧ t' = { t with signal } := by
  rw [signalTask, List.getElem?_modify, Option.map_eq_map, Option.map_eq_some_iff] at ht
  obtain ⟨t, ht, rfl⟩ := ht
  split
  · exact ⟨t, signal, ht, rfl⟩
  · exact ⟨t, t.signal, ht, rfl⟩

theorem Step.taskOrigin (h : Step l a l') (ht : l'.tasks[n]? = some t') :
    TaskOrigin l a l' n t' := by
  cases h with
  | refuse | observe | conclude | stopNothing | take | announce | join | release | dropNothing
  | occupy => exact .kept ht rfl
  | signal | drop =>
    obtain ⟨t, _, hbefore, heq⟩ := exists_of_signalTask ht
    exact .kept hbefore heq
  | spawn =>
    rcases getElem?_snoc_cases ht with ⟨hlen, heq⟩ | hbefore
    · exact .spawned rfl hlen heq
    · exact .kept hbefore rfl
  | task htask hstep hpermits =>
    rcases getElem?_set_cases ht with ⟨hn, heq⟩ | hbefore
    · subst hn heq
      exact .stepped htask rfl hstep hpermits
    · exact .kept hbefore rfl

/-- What a step does to a task: the task takes the step, or is signalled, or nothing. -/
theorem Step.task_cases (h : Step l a l') (ht : l.tasks[n]? = some t) :
    ∃ t', l'.tasks[n]? = some t' ∧
      ((∃ event, a = .task n event ∧ t.Step event t') ∨
        (∀ event, a ≠ .task n event) ∧
          ∃ signal, t' = { t with signal } ∧ (t.signal ≠ .none → signal ≠ .none)) := by
  have hlt := (List.getElem?_eq_some_iff.mp ht).1
  cases h with
  | refuse | observe | conclude | stopNothing | take | announce | join | release | dropNothing
  | occupy => exact ⟨t, ht, .inr ⟨by simp, t.signal, rfl, id⟩⟩
  | spawn =>
    exact ⟨t, (List.getElem?_append_left hlt).trans ht, .inr ⟨by simp, t.signal, rfl, id⟩⟩
  | @signal _ handle =>
    by_cases hn : handle.task = n
    · refine ⟨{ t with signal := .sent }, ?_, .inr ⟨by simp, .sent, rfl, by simp⟩⟩
      simp [signalTask, setStop, hn, ht]
    · refine ⟨t, ?_, .inr ⟨by simp, t.signal, rfl, id⟩⟩
      simp [signalTask, setStop, hn, ht]
  | @drop handle =>
    by_cases hn : handle.task = n
    · refine ⟨{ t with signal := .dropped }, ?_, .inr ⟨by simp, .dropped, rfl, by simp⟩⟩
      simp [signalTask, hn, ht]
    · refine ⟨t, ?_, .inr ⟨by simp, t.signal, rfl, id⟩⟩
      simp [signalTask, hn, ht]
  | @task number event t₀ t' ht₀ htask _ =>
    by_cases hn : number = n
    · subst hn
      cases ht.symm.trans ht₀
      exact ⟨t', List.getElem?_set_self hlt, .inl ⟨event, rfl, htask⟩⟩
    · exact ⟨t, (List.getElem?_set_ne hn).trans ht, .inr ⟨by simp [hn], t.signal, rfl, id⟩⟩

theorem isRunning_iff : l.isRunning n = true ↔ ∃ t, l.tasks[n]? = some t ∧ t.phase ≠ .ended := by
  simp [isRunning, Option.any_eq_true, Task.hasEnded]

/-- A task that runs after a step ran before it, unless the step spawned it. -/
theorem Step.isRunning_of_isRunning (h : Step l a l') (hn : l'.isRunning n = true) :
    l.isRunning n = true ∨ ∃ i, l' = l.spawn i ∧ n = l.tasks.length := by
  obtain ⟨t', ht', hphase⟩ := isRunning_iff.mp hn
  cases h.taskOrigin ht' with
  | kept ht heq =>
    subst heq
    exact .inl (isRunning_iff.mpr ⟨_, ht, hphase⟩)
  | stepped ht _ hstep _ => exact .inl (isRunning_iff.mpr ⟨_, ht, hstep.not_ended⟩)
  | spawned hspawn hlen _ => exact .inr ⟨_, hspawn, hlen⟩

/-- A task that was spawned and does not run will not run again. -/
theorem Step.not_isRunning (h : Step l a l') (hlt : n < l.tasks.length)
    (hn : l.isRunning n = false) : l'.isRunning n = false := by
  rw [← Bool.not_eq_true]
  intro hrunning
  rcases h.isRunning_of_isRunning hrunning with hbefore | ⟨_, _, hlen⟩
  · rw [hn] at hbefore
    cases hbefore
  · omega

/-- A step begins a generation and spawns the task for it, or does neither. -/
theorem Step.counts (h : Step l a l') :
    (∃ i, a = .start i ∧ l' = l.spawn i) ∨
      l'.publisher.generation = l.publisher.generation ∧ l'.tasks.length = l.tasks.length := by
  cases h with
  | spawn => exact .inl ⟨_, rfl, rfl⟩
  | refuse | observe | conclude | stopNothing | take | join | dropNothing | occupy =>
    exact .inr ⟨rfl, rfl⟩
  | announce | release => exact .inr ⟨Publisher.generation_update .., rfl⟩
  | signal | drop => exact .inr ⟨rfl, List.length_modify ..⟩
  | task => exact .inr ⟨Publisher.generation_update .., List.length_set ..⟩

theorem Step.length_tasks (h : Step l a l') : l.tasks.length ≤ l'.tasks.length := by
  rcases h.counts with ⟨i, _, rfl⟩ | ⟨_, hlen⟩
  · simp [Listener.spawn]
  · exact Nat.le_of_eq hlen.symm

/-! ## Sockets -/

/-- A task holds a socket that is bound to an endpoint. -/
def Holds (l : Listener) (n : Nat) (e : Endpoint) : Prop :=
  ∃ t, l.tasks[n]? = some t ∧ t.socket? = some e

theorem Holds.isRunning {e : Endpoint} (h : l.Holds n e) : l.isRunning n = true := by
  obtain ⟨t, ht, hsocket⟩ := h
  obtain ⟨stage, hphase⟩ := Task.socket?_eq_some_iff.mp hsocket
  refine isRunning_iff.mpr ⟨t, ht, ?_⟩
  rw [hphase]
  exact Phase.noConfusion

/-- A socket that a task holds after a step was there before, or is bound by the task right now,
where no socket was. -/
theorem Step.holds_cases {e : Endpoint} (h : Step l a l') (he : l'.Holds n e) :
    l.Holds n e ∨ a = .task n (.bind e) ∧ ∀ k, ¬ l.Holds k e := by
  obtain ⟨t', ht', hsocket⟩ := he
  cases h.taskOrigin ht' with
  | @kept t signal ht heq =>
    subst heq
    exact .inl ⟨t, ht, hsocket⟩
  | spawned _ _ heq =>
    subst heq
    cases hsocket
  | stepped ht haction hstep hpermits =>
    rcases hstep.socket_of_socket hsocket with hbefore | rfl
    · exact .inl ⟨_, ht, hbefore⟩
    · refine .inr ⟨haction, ?_⟩
      rintro k ⟨t, hk, hheld⟩
      simp only [permits, isFree, decide_eq_true_eq] at hpermits
      exact hpermits.2.2 t (List.mem_of_getElem? hk) hheld

/-- No two tasks hold sockets that are bound to one endpoint. -/
theorem Reachable.eq_of_holds {k : Nat} {e : Endpoint} (hl : Reachable l) (hk : l.Holds k e)
    (hn : l.Holds n e) : k = n := by
  induction hl generalizing k n with
  | new settings =>
    obtain ⟨t, ht, _⟩ := hk
    simp at ht
  | step _ h ih =>
    have hstep := step_of_step? h
    rcases hstep.holds_cases hk with hk | ⟨haction, hfree⟩
    · rcases hstep.holds_cases hn with hn | ⟨_, hfree⟩
      · exact ih hk hn
      · exact absurd hk (hfree k)
    · rcases hstep.holds_cases hn with hn | ⟨haction', _⟩
      · exact absurd hn (hfree n)
      · rw [haction] at haction'
        cases haction'
        rfl

/-! ## Runs -/

variable {actions more : List Action}

@[simp] theorem run?_nil (l : Listener) : l.run? [] = some l := rfl

theorem run?_cons (l : Listener) (a : Action) (actions : List Action) :
    l.run? (a :: actions) = (l.step? a).bind (·.run? actions) := rfl

theorem run?_append (l : Listener) (actions more : List Action) :
    l.run? (actions ++ more) = (l.run? actions).bind (·.run? more) :=
  List.foldlM_append

/-- What every step keeps, a run keeps. -/
theorem run_keeps {p : Listener → Prop}
    (hstep : ∀ {l l' : Listener} {a : Action}, p l → l.step? a = some l' → p l')
    (hl : p l) (h : l.run? actions = some l') : p l' := by
  induction actions generalizing l with
  | nil =>
    cases h
    exact hl
  | cons a actions ih =>
    rw [run?_cons, Option.bind_eq_some_iff] at h
    obtain ⟨m, hm, hrest⟩ := h
    exact ih (hstep hl hm) hrest

/-! ## Turning points of a run -/

/-- A run takes the step `a` from `m` to `m'` once the steps `before` are done. -/
structure Takes (l : Listener) (actions before : List Action) (a : Action) (m m' : Listener) :
    Prop where
  taken : before ++ [a] <+: actions
  run : l.run? before = some m
  step : m.step? a = some m'

section Turns

variable {l l' m m' : Listener} {a : Action} {actions before : List Action}

/-- What does not hold at the start of a run and holds at its end comes about by some step. -/
theorem exists_takes {p : Listener → Prop} (hnot : ¬ p l) (hrun : l.run? actions = some l')
    (hp : p l') : ∃ before a m m', Takes l actions before a m m' ∧ ¬ p m ∧ p m' := by
  induction actions generalizing l with
  | nil =>
    cases hrun
    exact absurd hp hnot
  | cons a actions ih =>
    rw [run?_cons, Option.bind_eq_some_iff] at hrun
    obtain ⟨m, hm, hrest⟩ := hrun
    by_cases hpm : p m
    · exact ⟨[], a, l, m, ⟨⟨actions, rfl⟩, rfl, hm⟩, hnot, hpm⟩
    · obtain ⟨before, b, q, q', htakes, hq, hq'⟩ := ih hpm hrest
      refine ⟨a :: before, b, q, q', ⟨?_, ?_, htakes.step⟩, hq, hq'⟩
      · exact List.cons_prefix_cons.mpr ⟨rfl, htakes.taken⟩
      · rw [run?_cons, hm, Option.bind_some, htakes.run]

theorem Takes.run_through (h : Takes l actions before a m m') :
    l.run? (before ++ [a]) = some m' := by
  rw [run?_append, h.run, Option.bind_some, run?_cons, h.step]
  rfl

theorem Takes.before_le (h : Takes l actions before a m m') : before <+: actions :=
  (List.prefix_append ..).trans h.taken

theorem Takes.mono {more : List Action} (h : Takes l actions before a m m')
    (hle : actions <+: more) : Takes l more before a m m' :=
  ⟨h.taken.trans hle, h.run, h.step⟩

/-- Two moments of a run come one after the other. -/
theorem run_between {early late : List Action} (hearly : l.run? early = some m)
    (hlate : l.run? late = some m') (hle : early <+: late) :
    ∃ between, m.run? between = some m' := by
  obtain ⟨between, rfl⟩ := hle
  rw [run?_append, hearly, Option.bind_some] at hlate
  exact ⟨between, hlate⟩

end Turns

/-! ## A listener that serves -/

def accessPoint : Interface := ⟨.ofOctets 192 168 4 1, .ofOctets 255 255 255 0⟩

def port53 : Endpoint := Settings.endpoint {}

/-- A new listener after a start call whose task has bound its socket and said so. -/
def serving : Listener where
  settings := {}
  publisher := { status := .serving port53, generation := 1 }
  slot := some { generation := 1, task := 0 }
  tasks := [{ generation := 1, interface := accessPoint, phase := .opened port53 .checking }]
  starts := [{ generation := some 1, phase := .waiting }]

theorem reachable_serving : Reachable serving := by
  have hrun : run? { settings := {} }
      [.start accessPoint, .task 0 (.bind port53), .task 0 .publishServing] = some serving := rfl
  exact (Reachable.new {}).run hrun

end Listener

end PortalDns
