-- The laws of the serving loop: a task replies to the datagrams that reach it as
-- if each had come alone, whatever its buffer held before.
import PortalDns.Proofs.Requests

namespace PortalDns

/-! ## What is received and what is sent -/

/-- The event of a task that a step is, if it is a step of this task. -/
def Action.eventOf? (n : Nat) : Action → Option TaskEvent
  | .task number event => if number = n then some event else none
  | _ => none

@[simp] theorem Action.eventOf?_task (n : Nat) (event : TaskEvent) :
    (Action.task n event).eventOf? n = some event := by
  simp [eventOf?]

theorem Action.eventOf?_eq_none {a : Action} {n : Nat} (h : ∀ event, a ≠ .task n event) :
    a.eventOf? n = none := by
  cases a with
  | task number event =>
    have hn : number ≠ n := fun heq => h event (heq ▸ rfl)
    simp [eventOf?, hn]
  | _ => rfl

/-- The datagram that an event brings, and who sent it. -/
def TaskEvent.arrival? : TaskEvent → Option (Endpoint × Octets)
  | receive peer datagram => some (peer, datagram)
  | _ => none

theorem TaskEvent.arrival?_eq_none_iff {event : TaskEvent} :
    event.arrival? = none ↔ ∀ peer d, event ≠ .receive peer d := by
  cases event <;> simp [arrival?]

/-- What there is to send for datagrams, to each of them by itself: the reply to it, if there is
one, back to where it came from. -/
def Portal.repliesTo (i : Interface) (datagrams : List (Endpoint × Octets)) :
    List (Endpoint × Octets) :=
  datagrams.filterMap fun (peer, d) => (replyTo i peer.address d).map (peer, ·)

@[simp] theorem Portal.repliesTo_nil (i : Interface) : repliesTo i [] = [] := rfl

@[simp] theorem Portal.repliesTo_append (i : Interface) (ds more : List (Endpoint × Octets)) :
    repliesTo i (ds ++ more) = repliesTo i ds ++ repliesTo i more :=
  List.filterMap_append

namespace Listener

/-- The datagrams that reach a task in the course of a run, and who sent them. -/
def received (n : Nat) (actions : List Action) : List (Endpoint × Octets) :=
  actions.filterMap fun a => (a.eventOf? n).bind TaskEvent.arrival?

/-- What a step sends for a task, and to whom. -/
def sentFor? (n : Nat) (l : Listener) (a : Action) : Option (Endpoint × Octets) :=
  (a.eventOf? n).bind fun event => l.sent? (.task n event)

/-- What a task sends in the course of a run, and to whom. -/
def sentBy (n : Nat) (l : Listener) : List Action → List (Endpoint × Octets)
  | [] => []
  | a :: actions => (l.sentFor? n a).toList ++ (l.step? a).elim [] fun l' => l'.sentBy n actions

theorem received_cons (n : Nat) (a : Action) (actions : List Action) :
    received n (a :: actions) =
      ((a.eventOf? n).bind TaskEvent.arrival?).toList ++ received n actions := by
  unfold received
  rw [List.filterMap_cons]
  cases (a.eventOf? n).bind TaskEvent.arrival? <;> rfl

@[simp] theorem received_append (n : Nat) (actions more : List Action) :
    received n (actions ++ more) = received n actions ++ received n more :=
  List.filterMap_append

end Listener

/-! ## Steps of a serving task -/

namespace Task

variable {t t' : Task} {event : TaskEvent}

/-- What a task is about to answer is the datagram that reached it last: of the buffer it handles
the front of that datagram, as far as the buffer reaches, and it sends the reply to the whole. -/
def IsAfter (t : Task) (last : Option (Endpoint × Octets)) : Prop :=
  match t.phase with
  | .opened _ (.handling peer size) =>
    ∃ d, last = some (peer, d) ∧ t.buffer.take size = d.take Datagram.bufferLength
  | .opened _ (.sending peer reply) =>
    ∃ d, last = some (peer, d) ∧ Portal.replyTo t.interface peer.address d = some reply
  | _ => True

theorem Step.isAfter {last : Option (Endpoint × Octets)} (h : t.Step event t')
    (hbuffer : t.buffer.length = Datagram.bufferLength) (ht : t.IsAfter last) :
    t'.IsAfter (event.arrival?.or last) := by
  cases h with
  | bind | failBind | retryBind | giveUp | loseEndpoint | publishServing | poll | heed | idle | send
  | failSend | close | publishStopped | exit => trivial
  | @receive _ peer d =>
    refine ⟨d, rfl, ?_⟩
    rw [Datagram.take_receive, hbuffer]
  | @handle _ peer size hp =>
    simp only [IsAfter, hp] at ht
    obtain ⟨d, hlast, hfront⟩ := ht
    rw [hfront, Portal.replyTo_take]
    cases hreply : Portal.replyTo t.interface peer.address d with
    | none => trivial
    | some reply => exact ⟨d, hlast, hreply⟩

/-- A reply to a datagram is sent as it stands: it has the length of a message. -/
theorem IsAfter.sendMessage_eq {last : Option (Endpoint × Octets)} {socket peer : Endpoint}
    {reply : Octets} (ht : t.IsAfter last) (hphase : t.phase = .opened socket (.sending peer reply))
    (link : Link) : Datagram.sendMessage link reply = Datagram.send link reply := by
  simp only [IsAfter, hphase] at ht
  obtain ⟨d, _, hreply⟩ := ht
  rw [Datagram.sendMessage, if_pos (Portal.hasMessageLength_of_replyTo hreply)]

/-- What a task sends now and has to send then is what it had to send, and the reply to the datagram
that has arrived. -/
theorem Step.owed_append (h : t.Step event t')
    (hbuffer : t.buffer.length = Datagram.bufferLength) (hlost : event ≠ .failSend) :
    (t.sent? event).toList ++ t'.owed?.toList =
      t.owed?.toList ++ Portal.repliesTo t.interface event.arrival?.toList := by
  cases harrival : event.arrival? with
  | none =>
    rw [h.owed (TaskEvent.arrival?_eq_none_iff.mp harrival) hlost]
    simp
  | some arrival =>
    cases h with
    | @receive _ peer d hp =>
      cases harrival
      have hreceive : t.Step (.receive peer d) _ := .receive hp
      have howed := hreceive.owed_of_receive hbuffer
      have hnothing : t.owed? = none := by simp [owed?, hp]
      rw [howed, hnothing]
      unfold Portal.repliesTo
      cases hreply : Portal.replyTo t.interface peer.address d <;> simp [sent?, hreply]
    | bind | failBind | retryBind | giveUp | loseEndpoint | publishServing | poll | heed | idle
    | handle | send | failSend | close | publishStopped | exit => cases harrival

end Task

namespace Listener

section Runs

variable {l l' : Listener} {a : Action} {actions : List Action} {n : Nat} {t t' : Task}

theorem Step.exists_interface (h : Step l a l') (ht : l.tasks[n]? = some t) :
    ∃ t', l'.tasks[n]? = some t' ∧ t'.interface = t.interface := by
  obtain ⟨t', ht', ⟨event, _, htask⟩ | ⟨_, signal, rfl, _⟩⟩ := h.task_cases ht
  · exact ⟨t', ht', htask.interface_eq⟩
  · exact ⟨_, ht', rfl⟩

/-- A task keeps the interface that it was spawned for. -/
theorem run_interface (hrun : l.run? actions = some l') (ht : l.tasks[n]? = some t)
    (ht' : l'.tasks[n]? = some t') : t.interface = t'.interface := by
  obtain ⟨u, hu, hinterface⟩ := run_keeps
    (p := fun l => ∃ u, l.tasks[n]? = some u ∧ u.interface = t.interface)
    (fun ⟨_, hu, hi⟩ h => by
      obtain ⟨u', hu', hi'⟩ := (step_of_step? h).exists_interface hu
      exact ⟨u', hu', hi'.trans hi⟩)
    ⟨t, ht, rfl⟩ hrun
  cases hu.symm.trans ht'
  exact hinterface.symm

/-- A task that is there after a step and was not before has just been spawned. -/
theorem Step.phase_of_new (h : Step l a l') (ht : l.tasks[n]? = none)
    (ht' : l'.tasks[n]? = some t') : t'.phase = .binding := by
  cases h.taskOrigin ht' with
  | kept hbefore => cases ht.symm.trans hbefore
  | stepped hbefore => cases ht.symm.trans hbefore
  | spawned _ _ heq => rw [heq]

/-- Before a task is spawned it does nothing, and then it begins with nothing to send. -/
theorem Step.of_no_task (h : Step l a l') (ht : l.tasks[n]? = none) :
    (∀ event, a ≠ .task n event) ∧ l'.owed? n = none := by
  refine ⟨?_, ?_⟩
  · rintro event rfl
    cases h with
    | task hbefore => cases ht.symm.trans hbefore
  · unfold owed?
    rw [Option.bind_eq_none_iff]
    intro t' ht'
    simp [Task.owed?, h.phase_of_new ht ht']

/-- Step by step, what a task sends now and has to send then is what it had to send, and the reply
to the datagram that has reached it. -/
theorem Step.owed_append {i : Interface} (h : Step l a l') (hl : Reachable l)
    (hi : ∀ t, l.tasks[n]? = some t → t.interface = i) (hlost : a ≠ .task n .failSend) :
    (l.sentFor? n a).toList ++ (l'.owed? n).toList =
      (l.owed? n).toList ++
        Portal.repliesTo i ((a.eventOf? n).bind TaskEvent.arrival?).toList := by
  cases ht : l.tasks[n]? with
  | none =>
    obtain ⟨hother, hnothing⟩ := h.of_no_task ht
    rw [hnothing]
    simp [sentFor?, Action.eventOf?_eq_none hother, owed?, ht]
  | some t =>
    obtain ⟨t', ht', ⟨event, rfl, htask⟩ | ⟨hother, signal, rfl, _⟩⟩ := h.task_cases ht
    · have howed := htask.owed_append (hl.length_buffer ht) (fun heq => hlost (heq ▸ rfl))
      rw [hi t ht] at howed
      simpa [sentFor?, sent?, owed?, ht, ht'] using howed
    · simp [sentFor?, Action.eventOf?_eq_none hother, owed?, ht, ht', Task.owed?]

/-- In the course of a run, what a task sends and has to send in the end is what it had to send in
the beginning, and the replies to the datagrams that have reached it. Until the task is spawned,
there is nothing to send for its number. -/
theorem run_owed_append (hl : Reachable l) (hrun : l.run? actions = some l')
    (ht' : l'.tasks[n]? = some t') (hlost : .task n .failSend ∉ actions) :
    l.sentBy n actions ++ (l'.owed? n).toList =
      (l.owed? n).toList ++ Portal.repliesTo t'.interface (received n actions) := by
  induction actions generalizing l with
  | nil =>
    cases hrun
    simp [sentBy, received]
  | cons a actions ih =>
    obtain ⟨m, hm, hrest⟩ := Option.bind_eq_some_iff.mp ((run?_cons l a actions).symm.trans hrun)
    rw [List.mem_cons, not_or] at hlost
    have hstep := step_of_step? hm
    have hmore := ih (hl.step hm) hrest hlost.2
    have hfirst : (l.sentFor? n a).toList ++ (m.owed? n).toList = (l.owed? n).toList ++
        Portal.repliesTo t'.interface ((a.eventOf? n).bind TaskEvent.arrival?).toList := by
      refine hstep.owed_append hl ?_ (Ne.symm hlost.1)
      intro t ht
      exact run_interface hrun ht ht'
    rw [sentBy, hm, Option.elim_some, List.append_assoc, hmore, ← List.append_assoc, hfirst,
      received_cons, Portal.repliesTo_append, List.append_assoc]

theorem Step.isAfter {last : Option (Endpoint × Octets)} (h : Step l a l') (hl : Reachable l)
    (hlast : ∀ t, l.tasks[n]? = some t → t.IsAfter last) (ht' : l'.tasks[n]? = some t') :
    t'.IsAfter (((a.eventOf? n).bind TaskEvent.arrival?).or last) := by
  cases ht : l.tasks[n]? with
  | none => simp [Task.IsAfter, h.phase_of_new ht ht']
  | some t =>
    obtain ⟨u, hu, ⟨event, rfl, htask⟩ | ⟨hother, signal, rfl, _⟩⟩ := h.task_cases ht
    · cases hu.symm.trans ht'
      rw [Action.eventOf?_task]
      exact htask.isAfter (hl.length_buffer ht) (hlast t ht)
    · cases hu.symm.trans ht'
      rw [Action.eventOf?_eq_none hother]
      exact hlast t ht

/-- At every moment of a run, what a task is about to answer is the datagram that has reached it
last. -/
theorem run_isAfter {last : Option (Endpoint × Octets)} (hl : Reachable l)
    (hrun : l.run? actions = some l') (hlast : ∀ t, l.tasks[n]? = some t → t.IsAfter last)
    (ht' : l'.tasks[n]? = some t') : t'.IsAfter ((received n actions).getLast?.or last) := by
  induction actions generalizing l last with
  | nil =>
    cases hrun
    exact hlast t' ht'
  | cons a actions ih =>
    rw [run?_cons, Option.bind_eq_some_iff] at hrun
    obtain ⟨m, hm, hrest⟩ := hrun
    have hend := ih (hl.step hm) hrest fun t ht => (step_of_step? hm).isAfter hl hlast ht
    rw [received_cons, List.getLast?_append, Option.or_assoc]
    cases harrival : (a.eventOf? n).bind TaskEvent.arrival? with
    | none =>
      rw [harrival] at hend
      exact hend
    | some arrival =>
      rw [harrival] at hend
      exact hend

end Runs

end Listener

/-! ## Datagrams may come one after the other -/

/-- Whether an event is one by which a serving task takes a datagram and replies to it. -/
def TaskEvent.isOfLoop : TaskEvent → Bool
  | check | receive .. | handle | send => true
  | _ => false

namespace Task

variable {t : Task} {socket : Endpoint}

/-- The task after events one after the other, if they can happen so. -/
def run? (t : Task) (events : List TaskEvent) : Option Task := events.foldlM step? t

/-- Events of the loop bring a task these datagrams and leave it where the next turn begins. -/
def Takes (t : Task) (socket : Endpoint) (datagrams : List (Endpoint × Octets)) : Prop :=
  ∃ events t', t.run? events = some t' ∧ (∀ event ∈ events, event.isOfLoop = true) ∧
    events.filterMap TaskEvent.arrival? = datagrams ∧
    t'.phase = .opened socket .checking ∧ t'.signal = .none

theorem takes_one (hphase : t.phase = .opened socket .checking) (hsignal : t.signal = .none)
    (peer : Endpoint) (d : Octets) : t.Takes socket [(peer, d)] := by
  cases hreply : Portal.replyTo t.interface peer.address
      ((Datagram.receive t.buffer d).1.take (Datagram.receive t.buffer d).2) with
  | none =>
    refine ⟨[.check, .receive peer d, .handle],
      { t with buffer := (Datagram.receive t.buffer d).1, phase := .opened socket .checking },
      ?_, by simp [TaskEvent.isOfLoop], rfl, rfl, hsignal⟩
    simp [run?, step?, hphase, hsignal, hreply, afterHandling]
  | some reply =>
    refine ⟨[.check, .receive peer d, .handle, .send],
      { t with buffer := (Datagram.receive t.buffer d).1, phase := .opened socket .checking },
      ?_, by simp [TaskEvent.isOfLoop], rfl, rfl, hsignal⟩
    simp [run?, step?, hphase, hsignal, hreply, afterHandling]

theorem takes_all (hphase : t.phase = .opened socket .checking) (hsignal : t.signal = .none)
    (datagrams : List (Endpoint × Octets)) : t.Takes socket datagrams := by
  induction datagrams generalizing t with
  | nil => exact ⟨[], t, rfl, by simp, rfl, hphase, hsignal⟩
  | cons arrival datagrams ih =>
    obtain ⟨first, u, hfirst, hloop, harrival, hu, husignal⟩ :=
      takes_one hphase hsignal arrival.1 arrival.2
    obtain ⟨more, t', hmore, hloop', harrivals, ht'⟩ := ih hu husignal
    refine ⟨first ++ more, t', ?_, ?_, ?_, ht'⟩
    · rw [run?, List.foldlM_append]
      exact Option.bind_eq_some_iff.mpr ⟨u, hfirst, hmore⟩
    · intro event hevent
      rcases List.mem_append.mp hevent with hmem | hmem
      · exact hloop event hmem
      · exact hloop' event hmem
    · rw [List.filterMap_append, harrival, harrivals]
      rfl

end Task

namespace Listener

variable {l : Listener} {n : Nat} {t t' : Task} {events : List TaskEvent}

theorem received_events (n : Nat) (events : List TaskEvent) :
    received n (events.map (.task n)) = events.filterMap TaskEvent.arrival? := by
  simp [received, List.filterMap_map]

/-- What a task can do by itself in its loop, it can do as a task of a listener. -/
theorem exists_run_of_events (ht : l.tasks[n]? = some t) (hrun : t.run? events = some t')
    (hloop : ∀ event ∈ events, event.isOfLoop = true) :
    ∃ l', l.run? (events.map (.task n)) = some l' ∧ l'.tasks[n]? = some t' := by
  induction events generalizing l t with
  | nil =>
    cases hrun
    exact ⟨l, rfl, ht⟩
  | cons event events ih =>
    rw [Task.run?, List.foldlM_cons] at hrun
    obtain ⟨u, hu, hrest⟩ := Option.bind_eq_some_iff.mp hrun
    rw [List.forall_mem_cons] at hloop
    have hpermits : l.permits event = true := by
      cases event with
      | bind => cases hloop.1
      | _ => rfl
    obtain ⟨m, hm, htasks⟩ := exists_step?_of_task ht hu hpermits
    obtain ⟨l', hl', ht'⟩ := ih htasks hrest hloop.2
    refine ⟨l', ?_, ht'⟩
    rw [List.map_cons, run?_cons, hm]
    exact hl'

/-- A new listener can be brought to where its first task begins its loop. -/
theorem exists_run_to_loop {settings : Settings} {e : Endpoint} (he : settings.Allows e)
    (i : Interface) :
    ∃ l, run? { settings } [.start i, .task 0 (.bind e), .task 0 .publishServing] = some l ∧
      l.tasks[0]? = some { generation := 1, interface := i, phase := .opened e .checking } := by
  have hstart : step? { settings } (.start i) = some (spawn { settings } i) := rfl
  have hpermits : (spawn { settings } i).permits (.bind e) = true := by
    simp [permits, isFree, spawn, Task.socket?, he]
  obtain ⟨bound, hbind, htask⟩ := exists_step?_of_task (l := spawn { settings } i) (n := 0)
    (t := { generation := 1, interface := i }) rfl rfl hpermits
  obtain ⟨l, hserve, ht⟩ : ∃ l, bound.step? (.task 0 .publishServing) = some l ∧ l.tasks[0]? =
      some { generation := 1, interface := i, phase := .opened e .checking } :=
    exists_step?_of_task htask rfl rfl
  refine ⟨l, ?_, ht⟩
  rw [run?_cons, hstart, Option.bind_some, run?_cons, hbind, Option.bind_some, run?_cons, hserve]
  rfl

/-- Any datagrams may come one after the other to a task whose socket is bound where the settings
allow it. -/
theorem exists_run_received {settings : Settings} {e : Endpoint} (he : settings.Allows e)
    (i : Interface) (datagrams : List (Endpoint × Octets)) :
    ∃ actions l t, run? { settings } actions = some l ∧ l.tasks[0]? = some t ∧ t.interface = i ∧
      t.phase = .opened e .checking ∧ t.signal = .none ∧ .task 0 .failSend ∉ actions ∧
      received 0 actions = datagrams := by
  obtain ⟨m, hstart, hm⟩ := exists_run_to_loop he i
  obtain ⟨events, t, hevents, hloop, harrivals, hphase, hsignal⟩ :=
    Task.takes_all (t := { generation := 1, interface := i, phase := .opened e .checking }) rfl rfl
      datagrams
  obtain ⟨l, hrest, ht⟩ := exists_run_of_events hm hevents hloop
  have hrun := (run?_append _ _ _).trans (Option.bind_eq_some_iff.mpr ⟨m, hstart, hrest⟩)
  refine ⟨_, l, t, hrun, ht, (run_interface hrest hm ht).symm, hphase, hsignal, ?_, ?_⟩
  · intro hlost
    rcases List.mem_append.mp hlost with hbefore | hevent
    · simp at hbefore
    · obtain ⟨event, hmem, heq⟩ := List.mem_map.mp hevent
      cases heq
      cases hloop _ hmem
  · rw [received_append, received_events, harrivals]
    rfl

/-- What a task sends is the reply to each datagram that has reached it, in order, as if it had come
alone and had been handled as a whole, but for the reply to the last one while that is still to be
sent. No reply is refused for its length. And any datagrams may come so, one after the other. -/
theorem each_datagram_is_answered_as_if_it_came_alone (settings : Settings) :
    (∀ n actions l t, run? { settings } actions = some l → l.tasks[n]? = some t →
      .task n .failSend ∉ actions →
        sentBy n { settings } actions ++ t.owed?.toList =
            Portal.repliesTo t.interface (received n actions) ∧
          (t.isAnswering = false →
            sentBy n { settings } actions = Portal.repliesTo t.interface (received n actions)) ∧
          t.IsAfter (received n actions).getLast? ∧
          ∀ socket peer reply, t.phase = .opened socket (.sending peer reply) →
            ∀ link, Datagram.sendMessage link reply = Datagram.send link reply) ∧
    ∀ e i datagrams, settings.Allows e → ∃ actions l t,
      run? { settings } actions = some l ∧ l.tasks[0]? = some t ∧ t.interface = i ∧
        t.phase = .opened e .checking ∧ t.signal = .none ∧ .task 0 .failSend ∉ actions ∧
        received 0 actions = datagrams ∧
        sentBy 0 { settings } actions = Portal.repliesTo i datagrams := by
  have hsent : ∀ {n actions l t}, run? { settings } actions = some l → l.tasks[n]? = some t →
      .task n .failSend ∉ actions → sentBy n { settings } actions ++ t.owed?.toList =
        Portal.repliesTo t.interface (received n actions) := by
    intro n actions l t hrun ht hlost
    have howed := run_owed_append (.new settings) hrun ht hlost
    rw [owed?_of_task ht] at howed
    simpa [owed?] using howed
  refine ⟨?_, ?_⟩
  · intro n actions l t hrun ht hlost
    have hafter : t.IsAfter ((received n actions).getLast?.or none) :=
      run_isAfter (.new settings) hrun (by simp) ht
    rw [Option.or_none] at hafter
    refine ⟨hsent hrun ht hlost, ?_, hafter, fun _ _ _ hphase => hafter.sendMessage_eq hphase⟩
    intro hidle
    simpa [Task.owed?_of_not_isAnswering hidle] using hsent hrun ht hlost
  · intro e i datagrams he
    obtain ⟨actions, l, t, hrun, ht, rfl, hphase, hsignal, hlost, rfl⟩ :=
      exists_run_received he i datagrams
    refine ⟨actions, l, t, hrun, ht, rfl, hphase, hsignal, hlost, rfl, ?_⟩
    simpa [Task.owed?, hphase] using hsent hrun ht hlost

/-- A datagram that fills the buffer gets no reply, and the query after it gets its own. -/
theorem a_query_is_answered_after_a_datagram_that_fills_the_buffer :
    ∃ actions l t, run? { settings := {} } actions = some l ∧ l.tasks[0]? = some t ∧
      .task 0 .failSend ∉ actions ∧ t.isAnswering = false ∧
      received 0 actions = [(client, List.replicate 600 1), (client, query)] ∧
      sentBy 0 { settings := {} } actions = [(client, answer)] := by
  obtain ⟨hevery, hany⟩ := each_datagram_is_answered_as_if_it_came_alone {}
  obtain ⟨actions, l, t, hrun, ht, hinterface, hphase, _, hlost, hreceived, _⟩ :=
    hany port53 accessPoint [(client, List.replicate 600 1), (client, query)] (by decide)
  have hidle : t.isAnswering = false := by simp [Task.isAnswering, hphase]
  obtain ⟨_, hsent, _⟩ := hevery 0 actions l t hrun ht hlost
  have hreplies : Portal.repliesTo accessPoint [(client, List.replicate 600 1), (client, query)] =
      [(client, answer)] := by
    decide +kernel
  refine ⟨actions, l, t, hrun, ht, hlost, hidle, hreceived, ?_⟩
  rw [hsent hidle, hreceived, hinterface, hreplies]

end Listener

end PortalDns
