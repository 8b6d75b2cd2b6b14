-- The laws of whole requests: each one that is made of a listener is completed, with
-- the response of a switch, whatever was asked of the listener before.
import PortalDns.Proofs.Fairness

namespace PortalDns

namespace Listener

/-! ## Requests that are completed -/

section Requests

variable {l m : Listener} {σ : Schedule m} {i : Interface} {a : Action} {s : Switch}
  {server peer : Endpoint} {d : Octets} {k : Nat}

/-- The calls that have returned before a request have returned all along. -/
theorem Settled.returned (hl : l.Settled) (hm : l.step? a = some m) (σ : Schedule m) (k : Nat) :
    (σ.state k).Returned l.starts.length l.stops.length :=
  σ.keeps_inner (p := (·.Returned l.starts.length l.stops.length))
    ((isQuiet_iff.mp hl.calls).step (step_of_step? hm)) (fun h _ hstep => h.step (step_of_step? hstep)) k

/-- A task that has nothing to answer before a request has nothing to answer all along, unless a
datagram reaches it. -/
theorem Settled.not_answers {n : Nat} (hl : l.Settled) (hm : l.step? a = some m)
    (ha : ∀ event, a = .task n event → event.isInner = true) (σ : Schedule m) (k : Nat) :
    ¬ (σ.state k).Answers n :=
  σ.keeps_inner (p := (¬ ·.Answers n)) (fun h => hl.tasks n ((step_of_step? hm).answers ha h))
    (fun h ha hstep hn => h ((step_of_step? hstep).answers (Action.isInner_of_task ha) hn)) k

theorem Schedule.Fair.completes_start (hσ : σ.Fair) (hl : l.Rests)
    (hm : l.step? (.start i) = some m) :
    ∃ k, (σ.state k).Settled ∧ ∃ result,
      (σ.state k).startResult? l.starts.length = some result := by
  have hone : m.starts.length = l.starts.length + 1 ∧ m.stops.length = l.stops.length := by
    cases step_of_start hm with
    | refuse => simp [refuse]
    | spawn => simp [spawn]
  obtain ⟨k, generation, result, hreturned⟩ : ∃ k generation result,
      (σ.state k).starts[l.starts.length]? = some ⟨generation, .returned result⟩ := by
    cases step_of_start hm with
    | refuse =>
      refine ⟨0, none, .failed .alreadyRunning, ?_⟩
      rw [σ.first]
      simp [refuse]
    | spawn hdropped =>
      obtain ⟨k, g, result, hreturned⟩ := hσ.start_returns (begins_spawn hl.reachable hm) hdropped
      exact ⟨k, some g, result, hreturned⟩
  refine ⟨k, ⟨?_, ?_⟩, result, startResult?_eq_some_iff.mpr ⟨generation, hreturned⟩⟩
  · rw [isQuiet_iff, (σ.within k).starts, (σ.within k).stops, hone.1, hone.2]
    exact (hl.settled.returned hm σ k).start hreturned
  · intro n
    exact hl.settled.not_answers hm (by simp) σ k

theorem Schedule.Fair.completes_stop (hσ : σ.Fair) (hl : l.Rests) (hm : l.step? .stop = some m) :
    ∃ k, (σ.state k).Settled ∧ (σ.state k).stops[l.stops.length]? = some .returned := by
  have hone : m.starts.length = l.starts.length ∧ m.stops.length = l.stops.length + 1 := by
    cases step_of_stop hm with
    | stopNothing | take => simp
  obtain ⟨k, hreturned⟩ : ∃ k, (σ.state k).stops[l.stops.length]? = some .returned := by
    cases step_of_stop hm with
    | stopNothing =>
      refine ⟨0, ?_⟩
      rw [σ.first]
      simp
    | @take handle =>
      have hc : (σ.state 0).stops[l.stops.length]? = some (.taken handle) := by
        rw [σ.first]
        simp
      obtain ⟨k, _, hreturned⟩ := hσ.stop_returns (hl.reachable.step hm) hc
      exact ⟨k, hreturned⟩
  refine ⟨k, ⟨?_, ?_⟩, hreturned⟩
  · rw [isQuiet_iff, (σ.within k).starts, (σ.within k).stops, hone.1, hone.2]
    exact (hl.settled.returned hm σ k).stop hreturned
  · intro n
    exact hl.settled.not_answers hm (by simp) σ k

theorem Schedule.Fair.completes_exchange (hσ : σ.Fair) (hl : l.Rests)
    (hm : l.run? (l.opening (.exchange server peer d)) = some m) :
    ∃ k, (σ.state k).Settled := by
  rcases l.opening_exchange server peer d with ⟨n, _, hopening⟩ | ⟨_, hopening⟩
  · rw [hopening, run?_cons, Option.bind_eq_some_iff] at hm
    obtain ⟨_, hm, heq⟩ := hm
    cases heq
    have hsame : m.starts.length = l.starts.length ∧ m.stops.length = l.stops.length := by
      cases step_of_step? hm with
      | task => exact ⟨rfl, rfl⟩
    obtain ⟨k, _, hdone⟩ := hσ.task_answers n 0
    refine ⟨k, ?_, ?_⟩
    · rw [isQuiet_iff, (σ.within k).starts, (σ.within k).stops, hsame.1, hsame.2]
      exact hl.settled.returned hm σ k
    · intro j
      by_cases hj : j = n
      · exact hj ▸ hdone
      · exact hl.settled.not_answers hm (by rintro event ⟨⟩; exact absurd rfl hj) σ k
  · rw [hopening] at hm
    cases hm
    refine ⟨0, ?_⟩
    rw [σ.first]
    exact hl.settled

/-- A request that has reached a listener gets a response. -/
theorem Schedule.Fair.completes (hσ : σ.Fair) (hl : l.Rests) {request : Request}
    (hm : l.run? (l.opening request) = some m) :
    ∃ k response, (σ.state k).Settled ∧
      l.response? (l.opening request ++ σ.actions k) (σ.state k) request = some response := by
  cases request with
  | start i =>
    obtain ⟨_, hstep, heq⟩ := Option.bind_eq_some_iff.mp hm
    cases heq
    obtain ⟨k, hsettled, result, hresult⟩ := hσ.completes_start hl hstep
    exact ⟨k, .started result, hsettled, by rw [response?, hresult, Option.map_some]⟩
  | stop =>
    obtain ⟨_, hstep, heq⟩ := Option.bind_eq_some_iff.mp hm
    cases heq
    obtain ⟨k, hsettled, hreturned⟩ := hσ.completes_stop hl hstep
    exact ⟨k, .stopped, hsettled, by rw [response?, if_pos hreturned]⟩
  | exchange server peer d =>
    obtain ⟨k, hsettled⟩ := hσ.completes_exchange hl hm
    exact ⟨k, _, hsettled, rfl⟩

/-! ## Requests that are taken up -/

theorem exists_step?_start (hkept : l.dropped = false) (i : Interface) :
    ∃ m, l.step? (.start i) = some m := by
  simp only [step?, hkept, Bool.false_eq_true, if_false]
  split
  · exact ⟨_, rfl⟩
  · exact ⟨_, rfl⟩

theorem exists_step?_stop (hkept : l.dropped = false) : ∃ m, l.step? .stop = some m := by
  simp only [step?, hkept, Bool.false_eq_true, if_false]
  cases l.slot with
  | none => exact ⟨_, rfl⟩
  | some handle => exact ⟨_, rfl⟩

/-- A task that polls its socket takes a datagram. -/
theorem exists_step?_receive {n : Nat} {t : Task} {e : Endpoint} (ht : l.tasks[n]? = some t)
    (hphase : t.phase = .opened e .polling) (peer : Endpoint) (d : Octets) :
    ∃ m, l.step? (.task n (.receive peer d)) = some m := by
  simp [step?, ht, Task.step?, hphase, permits]

/-- A datagram that is sent to a listener reaches it, some time. -/
theorem Schedule.Fair.takes_datagram {σ : Schedule l} (hσ : σ.Fair) (hl : l.Rests) (hs : l.IsSet s)
    (server peer : Endpoint) (d : Octets) (k : Nat) :
    ∃ j ≥ k, ∃ m, (σ.state j).run? ((σ.state j).opening (.exchange server peer d)) = some m := by
  have hrests (j : Nat) : (σ.state j).Rests := σ.keeps_inner hl (fun hl ha h => hl.step ha h) j
  have hset (j : Nat) : (σ.state j).IsSet s :=
    hs.run hl.reachable (σ.inner_actions j) (σ.run_actions j)
  rcases (σ.state k).opening_exchange server peer d with ⟨n, hholds, _⟩ | ⟨_, hopening⟩
  · have hendpoint := ((hrests k).holds_iff (hset k)).mp ⟨n, hholds⟩
    cases s with
    | neverStarted | off => cases hendpoint
    | on i e =>
      cases hendpoint
      obtain ⟨hserving, n, hforce⟩ := hset k
      obtain ⟨j, hj, t, ht, hphase⟩ := hσ.polls hl hforce hserving
      have hpolls : (σ.state j).Holds n server :=
        ⟨t, ht, Task.socket?_eq_some_iff.mpr ⟨_, hphase⟩⟩
      refine ⟨j, hj, ?_⟩
      rcases (σ.state j).opening_exchange server peer d with ⟨n', hholds', hopening⟩ | ⟨hnobody, _⟩
      · obtain rfl := (hrests j).reachable.eq_of_holds hholds' hpolls
        obtain ⟨m, hm⟩ := exists_step?_receive ht hphase peer d
        exact ⟨m, by rw [hopening, run?_cons, hm]; rfl⟩
      · exact absurd hpolls (hnobody n)
  · exact ⟨k, Nat.le_refl k, σ.state k, by rw [hopening]; rfl⟩

/-- A request can be made at any time, though a datagram may have to wait for the task. -/
theorem Schedule.Fair.takes_up {σ : Schedule l} (hσ : σ.Fair) (hl : l.Rests) (hs : l.IsSet s)
    (request : Request) (k : Nat) :
    ∃ j ≥ k, ∃ m, (σ.state j).run? ((σ.state j).opening request) = some m := by
  have hkept : (σ.state k).dropped = false := (σ.within k).dropped.trans hl.kept
  cases request with
  | start i =>
    obtain ⟨m, hm⟩ := exists_step?_start hkept i
    exact ⟨k, Nat.le_refl k, m, by rw [opening, run?_cons, hm]; rfl⟩
  | stop =>
    obtain ⟨m, hm⟩ := exists_step?_stop hkept
    exact ⟨k, Nat.le_refl k, m, by rw [opening, run?_cons, hm]; rfl⟩
  | exchange server peer d => exact hσ.takes_datagram hl hs server peer d k

theorem Performed.state {settings : Settings} {trace : List (Request × Response)}
    (h : Performed settings trace l) (σ : Schedule l) (k : Nat) :
    Performed settings trace (σ.state k) :=
  σ.keeps_inner h (fun h ha hstep => h.wait ha hstep) k

end Requests

/-- A listener that is used by one request at a time is a switch: whatever was asked of it, and
however its calls and tasks went on meanwhile, the responses and what can be seen of it are those of
a switch that was asked the same. And any request that is made of it next is completed, if no call
and no task is left out and binding does not fail over and over. -/
theorem one_request_at_a_time_a_listener_is_a_switch {settings : Settings}
    {trace : List (Request × Response)} {l : Listener} (h : Performed settings trace l) :
    (∃ s, Switch.Runs settings trace s ∧ l.Shows s) ∧
    ∀ (request : Request) (σ : Schedule l), σ.Fair → ∀ k, ∃ j ≥ k, ∃ m,
      (σ.state j).run? ((σ.state j).opening request) = some m ∧
      ∀ σ' : Schedule m, σ'.Fair → ∃ k' response,
        Performed settings (trace ++ [(request, response)]) (σ'.state k') := by
  obtain ⟨hl, _⟩ := h.rests
  obtain ⟨s, hruns, hs⟩ := h.exists_switch
  refine ⟨⟨s, hruns, hl.shows hs⟩, ?_⟩
  intro request σ hσ k
  obtain ⟨j, hj, m, hm⟩ := hσ.takes_up hl hs request k
  refine ⟨j, hj, m, hm, ?_⟩
  intro σ' hσ'
  have hj' := h.state σ j
  obtain ⟨k', response, hsettled, hresponse⟩ := hσ'.completes hj'.rests.1 hm
  refine ⟨k', response, hj'.request request _ (σ'.inner_actions k') ?_ hsettled hresponse⟩
  rw [run?_append, hm, Option.bind_some, σ'.run_actions]

/-! ## A listener that is alone -/

/-- A schedule of a new listener, in which nothing happens. -/
def asleep : Schedule { settings := {} } where
  state _ := { settings := {} }
  action _ := .occupy []
  first := rfl
  next _ := rfl
  inner _ := rfl

theorem fair_asleep : asleep.Fair where
  calls a k ha hready := by
    have hpossible := hready k (Nat.le_refl k)
    cases a with
    | observe | conclude | announce | signal | join | release => cases hpossible
    | start | stop | drop | task | occupy => cases ha
  tasks n k hrunning := by cases hrunning k (Nat.le_refl k)
  binds n := ⟨0, fun _ _ => by simp [asleep]⟩

/-- A listener that serves, and whose start call has returned. -/
def started (stage : Stage) : Listener :=
  { serving with
    starts := [{ generation := some 1, phase := .returned (.started port53) }]
    tasks := [{ generation := 1, interface := accessPoint, phase := .opened port53 stage }] }

/-- A schedule of a listener after a start call: it binds its socket at once, and then waits for
datagrams in vain. -/
def awake : Schedule (spawn { settings := {} } accessPoint) where
  state
    | 0 => spawn { settings := {} } accessPoint
    | 1 =>
      { spawn { settings := {} } accessPoint with
        tasks := [{ generation := 1, interface := accessPoint, phase := .opened port53 .bound }] }
    | 2 => serving
    | 3 => { serving with starts := [{ generation := some 1, phase := .seen (.serving port53) }] }
    | k + 4 => started (if k % 2 = 0 then .checking else .polling)
  action
    | 0 => .task 0 (.bind port53)
    | 1 => .task 0 .publishServing
    | 2 => .observe 0
    | 3 => .conclude 0
    | k + 4 => .task 0 (if k % 2 = 0 then .check else .idle)
  first := rfl
  next
    | 0 => rfl
    | 1 => rfl
    | 2 => rfl
    | 3 => rfl
    | k + 4 => by
      rcases Nat.mod_two_eq_zero_or_one k with hk | hk
      · have hk' : (k + 1) % 2 = 1 := by omega
        simp only [hk, hk']
        rfl
      · have hk' : (k + 1) % 2 = 0 := by omega
        simp only [hk, hk']
        rfl
  inner
    | 0 => rfl
    | 1 => rfl
    | 2 => rfl
    | 3 => rfl
    | k + 4 => by
      simp only
      split
      · rfl
      · rfl

theorem step?_started {a : Action} (ha : a.isOfCall = true) (stage : Stage) :
    (started stage).step? a = none := by
  cases a with
  | observe call | conclude call =>
    cases call with
    | zero => rfl
    | succ call => simp [step?, started]
  | announce | signal | join | release => rfl
  | start | stop | drop | task | occupy => cases ha

theorem fair_awake : awake.Fair where
  calls a k ha hready := by
    have hpossible := hready (k + 4) (by omega)
    simp only [awake] at hpossible
    rw [step?_started ha] at hpossible
    cases hpossible
  tasks n k hrunning := by
    cases n with
    | zero => exact ⟨k + 4, by omega, _, rfl⟩
    | succ n => simpa [awake, started, isRunning] using hrunning (k + 4) (by omega)
  binds n := by
    refine ⟨0, ?_⟩
    intro j _
    rcases j with _ | _ | _ | _ | k
    · simp [awake]
    · simp [awake]
    · simp [awake]
    · simp [awake]
    · simp only [awake]
      split
      · simp
      · simp

/-- The listener after the datagram, which is in the buffer of the task. -/
def asked : Listener :=
  { started .checking with
    tasks := [
      { generation := 1
        interface := accessPoint
        phase := .opened port53 .checking
        buffer := (Datagram.receive Datagram.emptyBuffer query).1 }] }

theorem performed_exchange : Performed {} [(.start accessPoint, .started (.started port53)),
    (.exchange port53 client query, .replied [(client, answer)])] asked := by
  have hstarted : Performed {} [(.start accessPoint, .started (.started port53))]
      (started .checking) :=
    Performed.new.request (.start accessPoint)
      [.task 0 (.bind port53), .task 0 .publishServing, .observe 0, .conclude 0]
      (by decide) rfl (by decide +kernel) rfl
  have hpolls : Performed {} [(.start accessPoint, .started (.started port53))]
      (started .polling) :=
    hstarted.wait (a := .task 0 .check) rfl rfl
  exact hpolls.request (.exchange port53 client query) [.task 0 .handle, .task 0 .send]
    (by decide) (by decide +kernel) (by decide +kernel) (by decide +kernel)

/-- A listener is started, asked and stopped, and the responses are those of a switch. Another one
is started, and the call returns when the task has bound its socket. -/
theorem a_listener_is_started_asked_and_stopped :
    ∃ trace l, trace = [(.start accessPoint, .started (.started port53)),
        (.exchange port53 client query, .replied [(client, answer)]), (.stop, .stopped)] ∧
      Performed {} trace l ∧ (∃ s, Switch.Runs {} trace s ∧ l.Shows s) ∧
      ∃ k response, Performed {} [(.start accessPoint, response)] (awake.state k) := by
  obtain ⟨l, hrun, hsettled, hresponse⟩ : ∃ l, asked.run? (asked.opening .stop ++
        [.announce 0, .signal 0, .task 0 .check, .task 0 .close, .task 0 .publishStopped,
          .task 0 .exit, .join 0, .release 0]) = some l ∧ l.Settled ∧
      asked.response? (asked.opening .stop ++ [.announce 0, .signal 0, .task 0 .check,
        .task 0 .close, .task 0 .publishStopped, .task 0 .exit, .join 0, .release 0]) l .stop =
          some .stopped := by
    refine ⟨_, rfl, ?_, rfl⟩
    decide +kernel
  have hstopped := performed_exchange.request .stop _ (by decide) hrun hsettled hresponse
  obtain ⟨hswitch, _⟩ := one_request_at_a_time_a_listener_is_a_switch hstopped
  refine ⟨_, l, rfl, hstopped, hswitch, ?_⟩
  obtain ⟨_, hcompleted⟩ :=
    one_request_at_a_time_a_listener_is_a_switch (.new : Performed {} [] { settings := {} })
  obtain ⟨j, _, m, hm, hreturns⟩ := hcompleted (.start accessPoint) asleep fair_asleep 0
  cases hm
  exact hreturns awake fair_awake

end Listener

end PortalDns
