-- The laws of exchanges: what a task sends for a datagram that it has received is
-- the portal's reply to it, sent once, whatever else goes on meanwhile.
import PortalDns.Proofs.Bounces
import PortalDns.Proofs.Owners

namespace PortalDns

/-! ## Datagrams that fit -/

namespace Datagram

/-- What is received is the front of the datagram, as far as the buffer reaches. -/
theorem take_receive (buffer d : Octets) :
    (receive buffer d).1.take (receive buffer d).2 = d.take buffer.length :=
  List.take_left

theorem length_receive (buffer d : Octets) : (receive buffer d).1.length = buffer.length := by
  simp only [receive, List.length_append, List.length_take, List.length_drop]
  omega

end Datagram

namespace Portal

variable {i : Interface} {peer : IPAddress} {d r : Octets}

theorem respond_of_long (h : 512 < d.length) (address : IPv4) :
    respond address d = .error (.rejected (.tooLong d.length)) :=
  respond_of_rejected (Query.parse_of_long h)

/-- A datagram that does not fit into the buffer gets no reply, and neither does its front. -/
theorem replyTo_take (i : Interface) (peer : IPAddress) (d : Octets) :
    replyTo i peer (d.take Datagram.bufferLength) = replyTo i peer d := by
  by_cases hfit : d.length ≤ Datagram.bufferLength
  · rw [List.take_of_length_le hfit]
  · have hbuffer : Datagram.bufferLength = 513 := rfl
    have hfront : (d.take Datagram.bufferLength).length = 513 := by
      rw [List.length_take]
      omega
    unfold replyTo
    rw [respond_of_long (d := d) (by omega), respond_of_long (by omega)]
    rfl

/-- A reply is never refused by its length. -/
theorem hasMessageLength_of_replyTo (h : replyTo i peer d = some r) :
    Datagram.hasMessageLength r = true := by
  unfold replyTo at h
  split at h
  · cases hr : respond i.address d with
    | error e =>
      rw [hr] at h
      cases h
    | ok reply =>
      rw [hr] at h
      cases h
      obtain ⟨qs, stop, hall, rfl⟩ := respond_eq_ok_iff.mp hr
      have hfits := hall.fits
      have hquery := hall.isQuery.length_ge
      have hgrows := (echoes_of_answersAll hall).length_le
      rw [← length_replyOctets] at hfits
      simp only [Datagram.hasMessageLength, Bool.and_eq_true, decide_eq_true_eq]
      exact ⟨Nat.le_trans hquery hgrows, hfits⟩
  · cases h

end Portal

namespace Task

/-! ## What a task has yet to send -/

/-- Whether a task is about to reply to a datagram. -/
def isAnswering (t : Task) : Bool :=
  match t.phase with
  | .opened _ (.handling ..) | .opened _ (.sending ..) => true
  | _ => false

/-- The reply that a task has yet to send, and to whom. -/
def owed? (t : Task) : Option (Endpoint × Octets) :=
  match t.phase with
  | .opened _ (.handling peer size) =>
    (Portal.replyTo t.interface peer.address (t.buffer.take size)).map (peer, ·)
  | .opened _ (.sending peer reply) =>
    if Datagram.hasMessageLength reply then some (peer, reply) else none
  | _ => none

section Steps

variable {t t' : Task} {event : TaskEvent} {peer : Endpoint} {d : Octets}

theorem Step.interface_eq (h : t.Step event t') : t'.interface = t.interface := by
  cases h <;> rfl

theorem owed?_of_not_isAnswering (h : t.isAnswering = false) : t.owed? = none := by
  unfold isAnswering at h
  unfold owed?
  split <;> simp_all

/-- What a task sends now and what it has to send then is what it had to send. -/
theorem Step.owed (h : t.Step event t') (harrival : ∀ peer d, event ≠ .receive peer d)
    (hlost : event ≠ .failSend) :
    (t.sent? event).toList ++ t'.owed?.toList = t.owed?.toList := by
  cases h with
  | bind hp | failBind hp | retryBind hp | giveUp hp | loseEndpoint hp | publishServing hp
  | poll hp | heed hp | idle hp | close hp | publishStopped hp | exit hp =>
    simp [sent?, owed?, hp]
  | receive => exact absurd rfl (harrival _ _)
  | failSend => exact absurd rfl hlost
  | send hp => simp [sent?, owed?, hp]
  | @handle _ peer size hp =>
    simp only [sent?, owed?, hp, Option.toList_none, List.nil_append]
    cases hreply : Portal.replyTo t.interface peer.address (t.buffer.take size) with
    | none => rfl
    | some reply => simp [afterHandling, Portal.hasMessageLength_of_replyTo hreply]

/-- A task that has received a datagram has to send the reply to it. -/
theorem Step.owed_of_receive (h : t.Step (.receive peer d) t')
    (hbuffer : t.buffer.length = Datagram.bufferLength) :
    t'.owed? = (Portal.replyTo t.interface peer.address d).map (peer, ·) := by
  cases h
  simp only [owed?]
  rw [Datagram.take_receive, hbuffer, Portal.replyTo_take]

end Steps

end Task

namespace Listener

/-! ## What is so in every state -/

section Reachable

variable {l l' : Listener} {a : Action} {n : Nat} {t : Task} {e : Endpoint}

theorem Step.settings_eq (h : Step l a l') : l'.settings = l.settings := by
  cases h <;> rfl

/-- Sockets are bound where the settings allow it. -/
theorem Reachable.allows_of_holds (hl : Reachable l) (he : l.Holds n e) : l.settings.Allows e := by
  induction hl generalizing n with
  | new settings =>
    obtain ⟨t, ht, _⟩ := he
    simp at ht
  | @step l l' a _ h ih =>
    have hstep := step_of_step? h
    rw [hstep.settings_eq]
    obtain ⟨t', ht', hsocket⟩ := he
    cases hstep.taskOrigin ht' with
    | kept ht heq =>
      subst heq
      exact ih ⟨_, ht, hsocket⟩
    | spawned _ _ heq =>
      subst heq
      cases hsocket
    | stepped ht _ htask hpermits =>
      rcases htask.socket_of_socket hsocket with hbefore | rfl
      · exact ih ⟨_, ht, hbefore⟩
      · simp only [permits, decide_eq_true_eq] at hpermits
        exact hpermits.1

theorem Reachable.length_buffer (hl : Reachable l) (ht : l.tasks[n]? = some t) :
    t.buffer.length = Datagram.bufferLength := by
  induction hl generalizing n t with
  | new settings => simp at ht
  | step _ h ih =>
    cases (step_of_step? h).taskOrigin ht with
    | @kept t signal hbefore heq =>
      subst heq
      exact ih (t := t) hbefore
    | spawned _ _ heq =>
      subst heq
      exact List.length_replicate
    | stepped hbefore _ htask _ =>
      rw [← ih hbefore]
      cases htask with
      | receive => exact Datagram.length_receive ..
      | bind | failBind | retryBind | giveUp | loseEndpoint | publishServing | poll | heed | idle
      | handle | send | failSend | close | publishStopped | exit => rfl

end Reachable

/-! ## A query and its answer -/

def client : Endpoint := ⟨.v4 (.ofOctets 192 168 4 20), 5353⟩

/-- A datagram with one question, which is for an address. -/
def query : Octets := [0, 1, 1, 0, 0, 1, 0, 0, 0, 0, 0, 0] ++ [1, 97, 0, 0, 1, 0, 1]

def answer : Octets :=
  [0, 1, 129, 0, 0, 1, 0, 1, 0, 0, 0, 0] ++ [1, 97, 0, 0, 1, 0, 1] ++
    [1, 97, 0, 0, 1, 0, 1, 0, 0, 0, 0, 0, 4, 192, 168, 4, 1]

end Listener

end PortalDns
