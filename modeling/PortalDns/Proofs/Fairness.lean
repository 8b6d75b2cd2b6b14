-- The laws of progress: if a listener goes on by itself so that no call and no task
-- is left out, and binding does not fail forever, every call under way returns and
-- every task comes to its end or to wait for datagrams.
import PortalDns.Proofs.Switches

namespace PortalDns

/-- Whether a step is that of a call under way. -/
def Action.isOfCall : Action → Bool
  | observe _ | conclude _ | announce _ | signal _ | join _ | release _ => true
  | start _ | stop | drop | task .. | occupy _ => false

/-- How many steps a task has left at most until it ends, if it is told to stop and does not fail
to bind its socket. -/
def Phase.stepsLeft : Phase → Nat
  | .waiting => 7
  | .binding | .opened _ (.handling ..) => 6
  | .opened _ .bound | .opened _ .polling | .opened _ (.sending ..) => 5
  | .opened _ .checking => 4
  | .opened _ .closing => 3
  | .closed => 2
  | .finishing => 1
  | .ended => 0

/-- A step of a task leaves it fewer steps, unless the task starts over. -/
theorem Task.Step.stepsLeft_lt {t t' : Task} {event : TaskEvent} (h : t.Step event t')
    (hinner : event.isInner = true) (hbind : event ≠ .failBind)
    (hpoll : ∀ socket, t.phase = .opened socket .checking → t.signal ≠ .none) :
    t'.phase.stepsLeft < t.phase.stepsLeft := by
  cases h with
  | receive | loseEndpoint | failSend => cases hinner
  | failBind => exact absurd rfl hbind
  | poll hp hsignal => exact absurd hsignal (hpoll _ hp)
  | @handle _ peer size hp =>
    rw [hp]
    unfold afterHandling
    split
    · simp [Phase.stepsLeft]
    · simp [Phase.stepsLeft]
  | bind hp | retryBind hp | giveUp hp | publishServing hp | heed hp | idle hp | send hp | close hp
  | publishStopped hp | exit hp =>
    rw [hp]
    simp [Phase.stepsLeft]

namespace Listener

/-- A task has something to do other than to wait for datagrams: it has not ended, and does not
look for a stop in vain. -/
def Busy (l : Listener) (n : Nat) : Prop :=
  ∃ t, l.tasks[n]? = some t ∧ t.phase ≠ .ended ∧
    ∀ socket, t.phase = .opened socket .checking → t.signal ≠ .none

/-- How many steps a task has left, if there is such a task. -/
def stepsLeft (l : Listener) (n : Nat) : Nat := l.tasks[n]?.elim 0 (·.phase.stepsLeft)

theorem stepsLeft_of_task {l : Listener} {n : Nat} {t : Task} (ht : l.tasks[n]? = some t) :
    l.stepsLeft n = t.phase.stepsLeft := by
  rw [stepsLeft, ht, Option.elim_some]

theorem Busy.isRunning {l : Listener} {n : Nat} (h : l.Busy n) : l.isRunning n = true := by
  obtain ⟨t, ht, hphase, _⟩ := h
  exact isRunning_iff.mpr ⟨t, ht, hphase⟩

/-- A task that is busy has no more steps left after a step, and fewer if it takes the step. -/
theorem Step.stepsLeft_cases {l l' : Listener} {a : Action} {n : Nat} (h : Step l a l')
    (ha : a.isInner = true) (hbusy : l.Busy n) (hbind : a ≠ .task n .failBind) :
    l'.stepsLeft n ≤ l.stepsLeft n ∧
      ∀ event, a = .task n event → l'.stepsLeft n < l.stepsLeft n := by
  obtain ⟨t, ht, _, hpoll⟩ := hbusy
  rw [stepsLeft_of_task ht]
  obtain ⟨t', ht', ⟨event, rfl, htask⟩ | ⟨hother, signal, rfl, _⟩⟩ := h.task_cases ht
  · have hlt := htask.stepsLeft_lt ha (fun heq => hbind (heq ▸ rfl)) hpoll
    rw [stepsLeft_of_task ht']
    exact ⟨Nat.le_of_lt hlt, fun _ _ => hlt⟩
  · rw [stepsLeft_of_task ht']
    exact ⟨Nat.le_refl _, fun event haction => absurd haction (hother event)⟩

def IsSignalled (l : Listener) (n : Nat) : Prop :=
  ∃ t, l.tasks[n]? = some t ∧ t.signal ≠ .none

theorem IsSignalled.step {l l' : Listener} {a : Action} {n : Nat} (hn : l.IsSignalled n)
    (h : Step l a l') : l'.IsSignalled n := by
  obtain ⟨t, ht, hsignal⟩ := hn
  obtain ⟨t', ht', ⟨event, _, htask⟩ | ⟨_, signal, rfl, hkept⟩⟩ := h.task_cases ht
  · exact ⟨t', ht', htask.signal_eq ▸ hsignal⟩
  · exact ⟨_, ht', hkept hsignal⟩

/-- A way for a listener to go on by itself forever. -/
structure Schedule (l : Listener) where
  state : Nat → Listener
  action : Nat → Action
  first : state 0 = l
  next : ∀ k, (state k).step? (action k) = some (state (k + 1))
  inner : ∀ k, (action k).isInner = true

namespace Schedule

variable {l : Listener}

/-- No call is left out that can go on, nor any task that runs, and attempts of a task to bind its
socket do not fail over and over. -/
structure Fair (σ : Schedule l) : Prop where
  calls : ∀ a k, a.isOfCall = true → (∀ j ≥ k, ((σ.state j).step? a).isSome = true) →
    ∃ j ≥ k, σ.action j = a
  tasks : ∀ n k, (∀ j ≥ k, (σ.state j).isRunning n = true) →
    ∃ j ≥ k, ∃ event, σ.action j = .task n event
  binds : ∀ n, ∃ k, ∀ j ≥ k, σ.action j ≠ .task n .failBind

/-! ## Along a schedule -/

section Along

variable {σ : Schedule l} {k : Nat} {n : Nat}

/-- The first steps of a schedule. -/
def actions (σ : Schedule l) (k : Nat) : List Action := (List.range k).map σ.action

theorem inner_actions (σ : Schedule l) (k : Nat) : ∀ a ∈ σ.actions k, a.isInner = true := by
  intro a ha
  obtain ⟨j, _, rfl⟩ := List.mem_map.mp ha
  exact σ.inner j

theorem run_actions (σ : Schedule l) (k : Nat) : l.run? (σ.actions k) = some (σ.state k) := by
  induction k with
  | zero => exact congrArg some σ.first.symm
  | succ k ih =>
    rw [actions, List.range_succ, List.map_append, run?_append]
    rw [actions] at ih
    rw [ih, Option.bind_some, List.map_singleton, run?_cons, σ.next]
    rfl

theorem step (σ : Schedule l) (k : Nat) : Step (σ.state k) (σ.action k) (σ.state (k + 1)) :=
  step_of_step? (σ.next k)

theorem within (σ : Schedule l) (k : Nat) : Within l (σ.state k) :=
  run_within (σ.inner_actions k) (σ.run_actions k)

theorem reachable (σ : Schedule l) (hl : Reachable l) (k : Nat) : Reachable (σ.state k) :=
  hl.run (σ.run_actions k)

/-- What every step of a schedule keeps holds from then on. -/
theorem keeps {p : Listener → Prop} (hp : p (σ.state k))
    (hstep : ∀ j ≥ k, p (σ.state j) → p (σ.state (j + 1))) : ∀ j ≥ k, p (σ.state j) := by
  intro j hj
  induction j, hj using Nat.le_induction with
  | base => exact hp
  | succ j hj ih => exact hstep j hj ih

/-- What every inner step keeps holds all the time. -/
theorem keeps_inner {p : Listener → Prop} (σ : Schedule l) (hp : p l)
    (hstep : ∀ {l l' : Listener} {a : Action}, p l → a.isInner = true → l.step? a = some l' → p l')
    (k : Nat) : p (σ.state k) :=
  inner_run_keeps hstep hp (σ.inner_actions k) (σ.run_actions k)

end Along

/-! ## Progress -/

section Progress

variable {σ : Schedule l} {k n call : Nat}

/-- A step of a call that is possible from some time on is taken, if nothing else makes up for
it. -/
theorem Fair.takes_call (hσ : σ.Fair) {a : Action} (ha : a.isOfCall = true) {p : Listener → Prop}
    (hp : p (σ.state k))
    (hkeep : ∀ j ≥ k, p (σ.state j) → σ.action j ≠ a → p (σ.state (j + 1)))
    (hready : ∃ ready, ∀ j ≥ ready, p (σ.state j) → ((σ.state j).step? a).isSome = true) :
    ∃ j ≥ k, p (σ.state j) ∧ σ.action j = a := by
  by_contra hnever
  have hother : ∀ j ≥ k, p (σ.state j) → σ.action j ≠ a :=
    fun j hj hpj haction => hnever ⟨j, hj, hpj, haction⟩
  have hall : ∀ j ≥ k, p (σ.state j) := keeps hp fun j hj hpj => hkeep j hj hpj (hother j hj hpj)
  obtain ⟨ready, hready⟩ := hready
  obtain ⟨j, hj, haction⟩ := hσ.calls a (max k ready) ha fun j hj =>
    hready j (le_of_max_le_right hj) (hall j (le_of_max_le_left hj))
  have hk := le_of_max_le_left hj
  exact hother j hk (hall j hk) haction

/-- No task is busy forever: each step that it takes leaves it fewer to take. -/
theorem Fair.exists_not_busy (hσ : σ.Fair) (n k : Nat) : ∃ j ≥ k, ¬ (σ.state j).Busy n := by
  by_contra hnever
  have hbusy : ∀ j ≥ k, (σ.state j).Busy n := by
    intro j hj
    by_contra hnot
    exact hnever ⟨j, hj, hnot⟩
  obtain ⟨bound, hbind⟩ := hσ.binds n
  have hstep : ∀ j ≥ max k bound, (σ.state (j + 1)).stepsLeft n ≤ (σ.state j).stepsLeft n ∧
      ∀ event, σ.action j = .task n event →
        (σ.state (j + 1)).stepsLeft n < (σ.state j).stepsLeft n :=
    fun j hj => (σ.step j).stepsLeft_cases (σ.inner j) (hbusy j (le_of_max_le_left hj))
      (hbind j (le_of_max_le_right hj))
  have hleft : ∀ left, ∀ j ≥ max k bound, ¬ (σ.state j).stepsLeft n < left := by
    intro left
    induction left with
    | zero => exact fun j _ => Nat.not_lt_zero _
    | succ left ih =>
      intro j hj hlt
      have hk := le_of_max_le_left hj
      obtain ⟨i, hi, event, haction⟩ :=
        hσ.tasks n j fun i hi => (hbusy i (Nat.le_trans hk hi)).isRunning
      have hmono : (σ.state i).stepsLeft n ≤ (σ.state j).stepsLeft n :=
        keeps (p := fun l => l.stepsLeft n ≤ (σ.state j).stepsLeft n) (Nat.le_refl _)
          (fun i hi hle => Nat.le_trans (hstep i (Nat.le_trans hj hi)).1 hle) i hi
      have hless := (hstep i (Nat.le_trans hj hi)).2 event haction
      exact ih (i + 1) (by omega) (by omega)
  exact hleft _ _ (Nat.le_refl _) (Nat.lt_succ_self _)

/-- A task that is signalled ends. -/
theorem Fair.task_ends (hσ : σ.Fair) (hn : (σ.state k).IsSignalled n) :
    ∃ j ≥ k, (σ.state j).isRunning n = false := by
  obtain ⟨j, hj, hidle⟩ := hσ.exists_not_busy n k
  refine ⟨j, hj, ?_⟩
  obtain ⟨t, ht, hsignal⟩ : (σ.state j).IsSignalled n :=
    keeps (p := (·.IsSignalled n)) hn (fun j _ h => h.step (σ.step j)) j hj
  rw [← Bool.not_eq_true, isRunning_iff]
  rintro ⟨t', ht', hphase⟩
  cases ht.symm.trans ht'
  exact hidle ⟨t, ht, hphase, fun _ _ => hsignal⟩

/-- A task that has ended does not run again. -/
theorem not_isRunning (hlt : n < l.tasks.length) (hn : (σ.state k).isRunning n = false) :
    ∀ j ≥ k, (σ.state j).isRunning n = false := by
  refine keeps (p := (·.isRunning n = false)) hn ?_
  intro j _ h
  exact (σ.step j).not_isRunning ((σ.within j).tasks ▸ hlt) h

/-- A task replies to a datagram, or lets it be. -/
theorem Fair.task_answers (hσ : σ.Fair) (n k : Nat) : ∃ j ≥ k, ¬ (σ.state j).Answers n := by
  obtain ⟨j, hj, hidle⟩ := hσ.exists_not_busy n k
  refine ⟨j, hj, ?_⟩
  rintro ⟨t, ht, hanswers⟩
  refine hidle ⟨t, ht, ?_, ?_⟩
  · intro hphase
    simp [Task.isAnswering, hphase] at hanswers
  · intro socket hphase
    simp [Task.isAnswering, hphase] at hanswers

end Progress

/-! ## The task in force -/

section InForce

variable {σ : Schedule l} {k n : Nat} {i : Interface} {e : Endpoint}

theorem inForce (hforce : (σ.state k).InForce n i) (hl : Reachable l) :
    ∀ j ≥ k, (σ.state j).InForce n i :=
  keeps (p := (·.InForce n i)) hforce fun j _ h =>
    h.step_inner (σ.reachable hl j) (σ.next j) (σ.inner j)

theorem serving (hforce : (σ.state k).InForce n i) (hl : Reachable l)
    (hserving : (σ.state k).status = .serving e) : ∀ j ≥ k, (σ.state j).status = .serving e := by
  have hall := inForce hforce hl
  refine keeps (p := (·.status = .serving e)) hserving ?_
  intro j hj h
  exact (hall j hj).serving_step (σ.reachable hl j) (σ.next j) (hall (j + 1) (Nat.le_succ_of_le hj)) h

/-- The task in force comes to serve. -/
theorem Fair.serves (hσ : σ.Fair) (hl : Reachable l) (hkept : l.dropped = false)
    (hforce : (σ.state k).InForce n i) : ∃ j ≥ k, ∃ e, (σ.state j).status = .serving e := by
  obtain ⟨j, hj, hidle⟩ := hσ.exists_not_busy n k
  have hforce := inForce hforce hl j hj
  obtain ⟨t, ht, _, hlasts⟩ := hforce.task
  obtain ⟨socket, hphase⟩ : ∃ socket, t.phase = .opened socket .checking := by
    by_contra hnot
    exact hidle ⟨t, ht, hlasts.ne_ended, fun socket hphase => absurd ⟨socket, hphase⟩ hnot⟩
  have hannounces :=
    (hforce.announces (σ.reachable hl j) ((σ.within j).dropped.trans hkept) ht).phase
  rw [hphase] at hannounces
  rcases hannounces with hserving | hstop
  · exact ⟨j, hj, socket, hserving⟩
  · exact absurd (.inl hstop) hforce.status

/-- The task in force comes to wait for datagrams, if it has none to answer: it looks for a stop and
finds none. -/
theorem Fair.polls (hσ : σ.Fair) (hl : l.Rests) (hforce : (σ.state k).InForce n i)
    (hserving : (σ.state k).status = .serving e) :
    ∃ j ≥ k, ∃ t, (σ.state j).tasks[n]? = some t ∧ t.phase = .opened e .polling := by
  have hforces := inForce hforce hl.reachable
  have hserves := serving hforce hl.reachable hserving
  have hrests (j : Nat) : (σ.state j).Rests :=
    σ.keeps_inner hl (fun hl ha h => hl.step ha h) j
  obtain ⟨j, hj, event, haction⟩ := hσ.tasks n k fun j hj => (hforces j hj).isRunning
  obtain ⟨t, ht, hphase⟩ := (hrests j).phase_of_serving (hforces j hj) (hserves j hj)
  rcases hphase with hphase | hphase
  · have hsignal := (hforces j hj).signal_eq (hrests j).reachable ht
    obtain ⟨t', ht', ⟨event', haction', htask⟩ | ⟨hother, _⟩⟩ := (σ.step j).task_cases ht
    · refine ⟨j + 1, Nat.le_succ_of_le hj, t', ht', ?_⟩
      cases htask with
      | poll hp _ =>
        rw [hphase] at hp
        cases hp
        rfl
      | heed _ hheed => exact absurd hsignal hheed
      | bind hp | failBind hp | retryBind hp | giveUp hp | loseEndpoint hp | publishServing hp
      | idle hp | receive hp | handle hp | send hp | failSend hp | close hp | publishStopped hp
      | exit hp =>
        rw [hphase] at hp
        cases hp
    · exact absurd haction (hother event)
  · exact ⟨j, hj, t, ht, hphase⟩

end InForce

/-! ## Calls -/

section Calls

variable {σ : Schedule l} {k call n g : Nat} {c : StopCall} {a : Action}

/-- A stop call goes on, once the task has ended that it waits for. -/
theorem Fair.stop_goes_on (hσ : σ.Fair) (hc : (σ.state k).stops[call]? = some c)
    (hnext : c.next? call = some a)
    (hended : ∃ ended, ∀ j ≥ ended, ∀ handle, c = .signalled handle →
      (σ.state j).isRunning handle.task = false) :
    ∃ j ≥ k, (σ.state j).stops[call]? = some c.advance := by
  have hcall : a.isOfCall = true := by
    cases c with
    | returned => cases hnext
    | taken | announced | signalled | joined => cases hnext; rfl
  obtain ⟨ended, hended⟩ := hended
  obtain ⟨j, hj, hcj, haction⟩ := hσ.takes_call hcall (p := fun l => l.stops[call]? = some c) hc
    (fun j _ hcj hother => by
      rcases (σ.step j).stop_cases hcj with hkept | ⟨hnext', _⟩
      · exact hkept
      · exact absurd (Option.some.inj (hnext'.symm.trans hnext)) hother)
    ⟨ended, fun j hj hcj => isSome_step?_of_next hcj hnext (hended j hj)⟩
  have hstep := σ.next j
  rw [haction] at hstep
  exact ⟨j + 1, Nat.le_succ_of_le hj, stops_of_next hcj hnext hstep⟩

/-- A stop call that has signalled a task comes to see its end. -/
theorem Fair.stop_joins (hσ : σ.Fair) (hl : Reachable l) {handle : Handle}
    (hc : (σ.state k).stops[call]? = some (.signalled handle)) :
    ∃ j ≥ k, (σ.state j).stops[call]? = some (.joined handle) := by
  have hreachable := σ.reachable hl k
  have hlt := (hreachable.numbered.stops call handle (stopHandle?_of_stop hc)).2
  have ht := List.getElem?_eq_getElem hlt
  have hsent := hreachable.senders.used call handle _ hc ht
  obtain ⟨ended, _, hnot⟩ := hσ.task_ends ⟨_, ht, by simp [hsent]⟩
  rw [(σ.within k).tasks] at hlt
  refine hσ.stop_goes_on hc rfl ⟨ended, ?_⟩
  rintro j hj _ ⟨⟩
  exact not_isRunning hlt hnot j hj

/-- A stop call that has taken the handle of a task returns. -/
theorem Fair.stop_returns (hσ : σ.Fair) (hl : Reachable l) {handle : Handle}
    (hc : (σ.state k).stops[call]? = some (.taken handle)) :
    ∃ j ≥ k, (σ.state j).stops[call]? = some .returned := by
  obtain ⟨k₁, hk₁, hannounced⟩ := hσ.stop_goes_on hc rfl ⟨0, by rintro _ _ _ ⟨⟩⟩
  obtain ⟨k₂, hk₂, hsignalled⟩ := hσ.stop_goes_on hannounced rfl ⟨0, by rintro _ _ _ ⟨⟩⟩
  obtain ⟨k₃, hk₃, hjoined⟩ := hσ.stop_joins hl hsignalled
  obtain ⟨k₄, hk₄, hreturned⟩ := hσ.stop_goes_on hjoined rfl ⟨0, by rintro _ _ _ ⟨⟩⟩
  exact ⟨k₄, by omega, hreturned⟩

/-- A start call takes its next step, once it can. -/
theorem Fair.start_goes_on (hσ : σ.Fair) {c : StartCall}
    (hc : (σ.state k).starts[call]? = some c) (hnext : c.next? call = some a)
    (hready : ∃ ready, ∀ j ≥ ready, (σ.state j).starts[call]? = some c →
      ((σ.state j).step? a).isSome = true) :
    ∃ j ≥ k, (σ.state j).starts[call]? = some c ∧ σ.action j = a := by
  have hcall : a.isOfCall = true := by
    obtain ⟨_, phase⟩ := c
    cases phase with
    | returned => cases hnext
    | waiting | seen => cases hnext; rfl
  refine hσ.takes_call hcall (p := fun l => l.starts[call]? = some c) hc ?_ hready
  intro j _ hcj hother
  rcases (σ.step j).start_cases hcj with
    hkept | ⟨_, haction, rfl, _⟩ | ⟨_, _, haction, rfl, _⟩
  · exact hkept
  · exact absurd (haction.trans (Option.some.inj hnext)) hother
  · exact absurd (haction.trans (Option.some.inj hnext)) hother

/-- A start call that waits sees the status once it is one that it waits for. -/
theorem Fair.start_observes (hσ : σ.Fair)
    (hc : (σ.state k).starts[call]? = some ⟨some g, .waiting⟩)
    (hsettled : ∀ j ≥ k, (σ.state j).status.settled = true) :
    ∃ j ≥ k, ∃ s, (σ.state j).starts[call]? = some ⟨some g, .seen s⟩ := by
  have hready {j : Nat} (hj : j ≥ k) (hcj : (σ.state j).starts[call]? = some ⟨some g, .waiting⟩) :
      (σ.state j).step? (.observe call) =
        some ((σ.state j).setStart call ⟨some g, .seen (σ.state j).status⟩) := by
    simp [step?, hcj, hsettled j hj]
  obtain ⟨j, hj, hcj, haction⟩ := hσ.start_goes_on hc rfl
    ⟨k, fun j hj hcj => by rw [hready hj hcj]; rfl⟩
  have hstep := σ.next j
  rw [haction, hready hj hcj] at hstep
  refine ⟨j + 1, Nat.le_succ_of_le hj, (σ.state j).status, ?_⟩
  rw [← Option.some.inj hstep]
  exact List.getElem?_set_self (List.getElem?_eq_some_iff.mp hcj).1

/-- A start call that has seen the status that it waited for returns. -/
theorem Fair.start_concludes (hσ : σ.Fair) {s : Status}
    (hc : (σ.state k).starts[call]? = some ⟨some g, .seen s⟩) :
    ∃ j ≥ k, ∃ result, (σ.state j).starts[call]? = some ⟨some g, .returned result⟩ := by
  obtain ⟨j, hj, hcj, haction⟩ := hσ.start_goes_on hc rfl
    ⟨0, fun j _ hcj => by rw [step?_conclude hcj]; rfl⟩
  have hstep := σ.next j
  rw [haction, step?_conclude hcj] at hstep
  refine ⟨j + 1, Nat.le_succ_of_le hj, (σ.state j).startResult g s, ?_⟩
  rw [← Option.some.inj hstep]
  exact List.getElem?_set_self (List.getElem?_eq_some_iff.mp hcj).1

/-- A start call returns whose task is in force. -/
theorem Fair.start_returns {i : Interface} (hσ : σ.Fair) (hl : l.Begins call n i)
    (hkept : l.dropped = false) :
    ∃ j g result, (σ.state j).starts[call]? = some ⟨some g, .returned result⟩ := by
  have hbegins (j : Nat) : (σ.state j).Begins call n i := σ.keeps_inner hl Begins.step j
  obtain ⟨k, _, e, hserving⟩ := hσ.serves hl.reachable hkept (hbegins 0).force
  have hsettled : ∀ j ≥ k, (σ.state j).status.settled = true := by
    intro j hj
    rw [serving (hbegins k).force hl.reachable hserving j hj]
    rfl
  rcases (hbegins k).starting with hwaiting | ⟨_, _, hseen | hreturned⟩
  · obtain ⟨k', _, s, hseen⟩ := hσ.start_observes hwaiting hsettled
    obtain ⟨j, _, result, hreturned⟩ := hσ.start_concludes hseen
    exact ⟨j, _, result, hreturned⟩
  · obtain ⟨j, _, result, hreturned⟩ := hσ.start_concludes hseen
    exact ⟨j, _, result, hreturned⟩
  · exact ⟨k, _, _, hreturned⟩

end Calls

end Schedule

end Listener

end PortalDns
