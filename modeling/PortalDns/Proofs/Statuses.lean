-- The laws of the published status: a start call that is not refused begins a
-- generation, and until the next one the status only moves forward, whoever
-- publishes. Calls and tasks of older generations change nothing.
import PortalDns.Proofs.Handles

namespace PortalDns

namespace Status

/-- How far along a status is. -/
def rank : Status → Nat
  | idle => 0
  | binding => 1
  | serving _ => 2
  | stopRequested => 3
  | stopped => 4

/-- A status may follow another if it is farther along. No endpoint follows another one. -/
def Leads (s s' : Status) : Prop := s = s' ∨ s.rank < s'.rank

theorem Leads.refl (s : Status) : s.Leads s := .inl rfl

theorem Leads.trans {s s' s'' : Status} (h : s.Leads s') (h' : s'.Leads s'') : s.Leads s'' := by
  rcases h with rfl | hlt
  · exact h'
  · rcases h' with rfl | hlt'
    · exact .inr hlt
    · exact .inr (Nat.lt_trans hlt hlt')

/-- Nothing goes back to being idle. -/
theorem Leads.eq_idle {s : Status} (h : s.Leads idle) : s = idle := by
  rcases h with rfl | hlt
  · rfl
  · exact absurd hlt (Nat.not_lt_zero _)

theorem Leads.eq_of_serving {e e' : Endpoint} (h : (serving e).Leads (serving e')) : e = e' := by
  rcases h with heq | hlt
  · cases heq
    rfl
  · exact absurd hlt (Nat.lt_irrefl _)

theorem Leads.not_serving {s : Status} (h : stopRequested.Leads s) (e : Endpoint) :
    s ≠ serving e := by
  rintro rfl
  rcases h with heq | hlt
  · cases heq
  · simp [rank] at hlt

/-- A change of the status that takes no status back. -/
def Advances (change : Status → Status) : Prop := ∀ s : Status, s.Leads (change s)

theorem advances_id : Advances id := Leads.refl

theorem advances_serve (e : Endpoint) : Advances (serve e) := by
  intro s
  cases s with
  | binding => exact .inr (by simp [serve, rank])
  | idle | serving | stopRequested | stopped => exact .refl _

theorem advances_requestStop : Advances requestStop := by
  intro s
  cases s with
  | stopRequested | stopped => exact .refl _
  | idle | binding | serving => exact .inr (by simp [requestStop, rank])

theorem advances_stopped : Advances fun _ => stopped := by
  intro s
  cases s with
  | stopped => exact .refl _
  | idle | binding | serving | stopRequested => exact .inr (by simp [rank])

end Status

/-- What a task publishes: its socket, or that it has stopped, or nothing. -/
theorem Task.publication_cases (t : Task) (event : TaskEvent) :
    (∃ socket, t.phase = .opened socket .bound ∧ event = .publishServing ∧
      t.publication event = Status.serve socket) ∨
    (t.publication event = fun _ => .stopped) ∨ t.publication event = id := by
  unfold publication
  split
  · exact .inl ⟨_, ‹_›, rfl, rfl⟩
  · exact .inr (.inl rfl)
  · exact .inr (.inr rfl)

theorem Task.advances_publication (t : Task) (event : TaskEvent) :
    Status.Advances (t.publication event) := by
  rcases t.publication_cases event with ⟨socket, _, _, h⟩ | h | h
  · rw [h]
    exact Status.advances_serve socket
  · rw [h]
    exact Status.advances_stopped
  · rw [h]
    exact Status.advances_id

namespace Listener

variable {l l' : Listener} {a : Action} {actions : List Action}

theorem status_spawn (l : Listener) (i : Interface) : (l.spawn i).status = .binding := rfl

theorem generation_spawn (l : Listener) (i : Interface) :
    (l.spawn i).publisher.generation = l.publisher.generation + 1 := rfl

/-- What a step does to the status: it begins a generation, or leaves the status as it is, or
advances it on behalf of a generation that was begun. -/
theorem Step.publisher_cases (h : Step l a l') (hl : Numbered l) :
    (∃ i, a = .start i ∧ l' = l.spawn i) ∨ l'.publisher = l.publisher ∨
      ∃ (generation : Nat) (change : Status → Status), 0 < generation ∧ Status.Advances change ∧
        l'.publisher = l.publisher.update generation change := by
  have hknown {call : Nat} {c : StopCall} {handle : Handle} (hc : l.stops[call]? = some c)
      (hhandle : c.handle? = some handle) : 0 < handle.generation := by
    rw [(hl.stops call handle ((stopHandle?_of_stop hc).trans hhandle)).1]
    exact Nat.succ_pos _
  cases h with
  | spawn => exact .inl ⟨_, rfl, rfl⟩
  | refuse | observe | conclude | stopNothing | take | signal | join | dropNothing | drop
  | occupy => exact .inr (.inl rfl)
  | announce hc =>
    exact .inr (.inr ⟨_, _, hknown hc rfl, Status.advances_requestStop, rfl⟩)
  | release hc =>
    exact .inr (.inr ⟨_, _, hknown hc rfl, Status.advances_stopped, rfl⟩)
  | @task number event t t' ht _ _ =>
    refine .inr (.inr ⟨_, _, ?_, t.advances_publication event, rfl⟩)
    rw [hl.tasks number t ht]
    exact Nat.succ_pos _

/-- Two statuses of one generation, the earlier one first, or the second one of a later
generation. -/
structure Follows (l l' : Listener) : Prop where
  generation : l.publisher.generation ≤ l'.publisher.generation
  leads : l'.publisher.generation = l.publisher.generation → l.status.Leads l'.status

theorem Follows.refl (l : Listener) : Follows l l := ⟨Nat.le_refl _, fun _ => .refl _⟩

theorem Follows.trans {m : Listener} (h : Follows l m) (h' : Follows m l') : Follows l l' := by
  refine ⟨Nat.le_trans h.generation h'.generation, ?_⟩
  intro hsame
  have hm := h.generation
  have hl' := h'.generation
  exact (h.leads (by omega)).trans (h'.leads (by omega))

theorem follows_of_publisher_eq (h : l'.publisher = l.publisher) : Follows l l' := by
  refine ⟨by rw [h], ?_⟩
  intro _
  rw [status, status, h]
  exact .refl _

theorem follows_update {generation : Nat} {change : Status → Status}
    (hchange : Status.Advances change)
    (h : l'.publisher = l.publisher.update generation change) : Follows l l' := by
  unfold Publisher.update at h
  split at h
  · refine ⟨by rw [h], ?_⟩
    intro _
    rw [status, status, h]
    exact hchange l.publisher.status
  · exact follows_of_publisher_eq h

theorem Step.follows (h : Step l a l') (hl : Numbered l) : Follows l l' := by
  rcases h.publisher_cases hl with ⟨i, _, rfl⟩ | hsame | ⟨generation, change, _, hchange, hupdate⟩
  · refine ⟨?_, ?_⟩
    · rw [generation_spawn]
      exact Nat.le_succ _
    · intro hgeneration
      rw [generation_spawn] at hgeneration
      omega
  · exact follows_of_publisher_eq hsame
  · exact follows_update hchange hupdate

theorem Reachable.follows (hl : Reachable l) (hrun : l.run? actions = some l') : Follows l l' := by
  induction actions generalizing l with
  | nil =>
    cases hrun
    exact .refl _
  | cons a actions ih =>
    rw [run?_cons, Option.bind_eq_some_iff] at hrun
    obtain ⟨m, hm, hrest⟩ := hrun
    exact ((step_of_step? hm).follows hl.numbered).trans (ih (hl.step hm) hrest)

theorem Reachable.follows_between {m m' : Listener} {early late : List Action} (hl : Reachable l)
    (hearly : l.run? early = some m) (hlate : l.run? late = some m') (hle : early <+: late) :
    Follows m m' := by
  obtain ⟨between, hbetween⟩ := run_between hearly hlate hle
  exact (hl.run hearly).follows hbetween

/-- A listener is idle until it is started. -/
theorem Reachable.status_eq_idle_iff (hl : Reachable l) :
    l.status = .idle ↔ l.publisher.generation = 0 := by
  induction hl with
  | new settings => simp [status]
  | @step l l' a hl h ih =>
    rcases (step_of_step? h).publisher_cases hl.numbered with
      ⟨i, _, rfl⟩ | hsame | ⟨generation, change, hpos, hchange, hupdate⟩
    · simp [status_spawn, generation_spawn]
    · rw [status, hsame]
      exact ih
    · unfold Publisher.update at hupdate
      split at hupdate
      · rename_i hcurrent
        have hbegun : l.publisher.generation ≠ 0 := by omega
        simp only [status, hupdate, hbegun, iff_false]
        intro hidle
        exact hbegun (ih.mp (hidle ▸ hchange l.publisher.status).eq_idle)
      · rw [status, hupdate]
        exact ih

end Listener

end PortalDns
