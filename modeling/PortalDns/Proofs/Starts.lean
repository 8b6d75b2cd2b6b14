-- The laws of start calls: an endpoint that a call returns was bound by the task
-- that the call spawned, and published under the call's generation. What a call
-- returns is traced back through its run, one turning point after the other.
import PortalDns.Proofs.Statuses

namespace PortalDns

namespace Listener

/-! ## Start calls -/

/-- What a start call returned, if it did. -/
def startResult? (l : Listener) (call : Nat) : Option StartResult :=
  l.starts[call]?.bind (·.result?)

section Calls

variable {l l' : Listener} {a : Action} {actions : List Action} {call g : Nat} {c : StartCall}

/-- What a step does to a start call: nothing, unless the call sees the status that it waited for,
or returns. -/
theorem Step.start_cases (h : Step l a l') (hc : l.starts[call]? = some c) :
    l'.starts[call]? = some c ∨
      (∃ g, a = .observe call ∧ c = ⟨some g, .waiting⟩ ∧
        l'.starts[call]? = some ⟨some g, .seen l.status⟩) ∨
      ∃ g s, a = .conclude call ∧ c = ⟨some g, .seen s⟩ ∧
        l'.starts[call]? = some ⟨some g, .returned (l.startResult g s)⟩ := by
  have hlt := (List.getElem?_eq_some_iff.mp hc).1
  cases h with
  | stopNothing | take | announce | signal | join | release | dropNothing | drop | task | occupy =>
    exact .inl hc
  | refuse | spawn => exact .inl ((List.getElem?_append_left hlt).trans hc)
  | @observe number g hnumber _ =>
    by_cases hcall : number = call
    · subst hcall
      rw [hc] at hnumber
      cases hnumber
      exact .inr (.inl ⟨g, rfl, rfl, List.getElem?_set_self hlt⟩)
    · exact .inl ((List.getElem?_set_ne hcall).trans hc)
  | @conclude number g s hnumber =>
    by_cases hcall : number = call
    · subst hcall
      rw [hc] at hnumber
      cases hnumber
      exact .inr (.inr ⟨g, s, rfl, rfl, List.getElem?_set_self hlt⟩)
    · exact .inl ((List.getElem?_set_ne hcall).trans hc)

/-- A start call that has returned does nothing any more. -/
theorem Step.of_returned {generation : Option Nat} {r : StartResult} (h : Step l a l')
    (hc : l.starts[call]? = some ⟨generation, .returned r⟩) :
    l'.starts[call]? = some ⟨generation, .returned r⟩ ∧ a ≠ .observe call ∧
      a ≠ .conclude call := by
  refine ⟨?_, ?_, ?_⟩
  · rcases h.start_cases hc with hkept | ⟨_, _, heq, _⟩ | ⟨_, _, _, heq, _⟩
    · exact hkept
    · cases heq
    · cases heq
  · rintro rfl
    cases h with
    | observe hwaiting _ =>
      rw [hc] at hwaiting
      cases hwaiting
  · rintro rfl
    cases h with
    | conclude hseen =>
      rw [hc] at hseen
      cases hseen

theorem run_of_returned {generation : Option Nat} {r : StartResult}
    (hc : l.starts[call]? = some ⟨generation, .returned r⟩) (hrun : l.run? actions = some l') :
    l'.starts[call]? = some ⟨generation, .returned r⟩ ∧ .observe call ∉ actions ∧
      .conclude call ∉ actions := by
  induction actions generalizing l with
  | nil =>
    cases hrun
    exact ⟨hc, List.not_mem_nil, List.not_mem_nil⟩
  | cons a actions ih =>
    rw [run?_cons, Option.bind_eq_some_iff] at hrun
    obtain ⟨m, hm, hrest⟩ := hrun
    obtain ⟨hkept, hobserve, hconclude⟩ := (step_of_step? hm).of_returned hc
    obtain ⟨hlast, hobserves, hconcludes⟩ := ih hkept hrest
    simp only [List.mem_cons, not_or]
    exact ⟨hlast, ⟨hobserve.symm, hobserves⟩, hconclude.symm, hconcludes⟩

/-- A start call that began generation `g`. It is not refused any more. -/
def Begun (l : Listener) (call g : Nat) : Prop :=
  ∃ phase, l.starts[call]? = some ⟨some g, phase⟩ ∧
    phase ≠ .returned (.failed .alreadyRunning)

theorem startResult_ne_alreadyRunning (l : Listener) (g : Nat) (s : Status) :
    l.startResult g s ≠ .failed .alreadyRunning := by
  unfold startResult
  split
  · split
    · simp
    · simp
  · simp

theorem Begun.step (hbegun : l.Begun call g) (h : Step l a l') : l'.Begun call g := by
  obtain ⟨phase, hc, hne⟩ := hbegun
  rcases h.start_cases hc with hkept | ⟨_, _, heq, hseen⟩ | ⟨_, s, _, heq, hreturned⟩
  · exact ⟨phase, hkept, hne⟩
  · cases heq
    exact ⟨_, hseen, by simp⟩
  · cases heq
    refine ⟨_, hreturned, ?_⟩
    simpa using startResult_ne_alreadyRunning l g s

theorem Begun.run (hbegun : l.Begun call g) (hrun : l.run? actions = some l') :
    l'.Begun call g :=
  run_keeps (p := fun l => l.Begun call g) (fun hl h => hl.step (step_of_step? h)) hbegun hrun

theorem begun_spawn (l : Listener) (i : Interface) :
    (l.spawn i).Begun l.starts.length (l.publisher.generation + 1) := by
  refine ⟨.waiting, ?_, by simp⟩
  simp [spawn, Publisher.begin]

end Calls

/-! ## Publications -/

section Publications

variable {l l' : Listener} {a : Action} {g : Nat} {e : Endpoint}

/-- Of all that goes on in a task, only the publication of its own socket makes a status one of
serving, and only a status of binding. -/
theorem serving_of_publication {t : Task} {event : TaskEvent} {s : Status} (hnot : s ≠ .serving e)
    (h : t.publication event s = .serving e) :
    event = .publishServing ∧ t.phase = .opened e .bound ∧ s = .binding := by
  rcases t.publication_cases event with ⟨socket, hphase, rfl, heq⟩ | heq | heq
  · rw [heq] at h
    cases s with
    | binding =>
      cases h
      exact ⟨rfl, hphase, rfl⟩
    | idle | serving | stopRequested | stopped => exact absurd h hnot
  · rw [heq] at h
    cases h
  · rw [heq] at h
    exact absurd h hnot

theorem serving_of_update {p : Publisher} {generation : Nat} {change : Status → Status}
    (hnot : p ≠ ⟨.serving e, g⟩) (h : p.update generation change = ⟨.serving e, g⟩) :
    generation = g ∧ p.generation = g ∧ p.status ≠ .serving e ∧
      change p.status = .serving e := by
  unfold Publisher.update at h
  split at h
  · rename_i hcurrent
    obtain ⟨hstatus, hgeneration⟩ := Publisher.mk.injEq .. ▸ h
    refine ⟨hcurrent.symm.trans hgeneration, hgeneration, ?_, hstatus⟩
    intro hserving
    apply hnot
    cases p
    simp_all
  · exact absurd h hnot

/-- A generation is published as serving by its task alone, with the socket in hand, while the
status is still binding. -/
theorem Step.of_serving (h : Step l a l') (hl : Numbered l)
    (hnot : l.publisher ≠ ⟨.serving e, g⟩) (hserving : l'.publisher = ⟨.serving e, g⟩) :
    ∃ n, a = .task n .publishServing ∧ g = n + 1 ∧ l.publisher = ⟨.binding, g⟩ ∧ l.Holds n e := by
  cases h with
  | refuse | observe | conclude | stopNothing | take | signal | join | dropNothing | drop
  | occupy => exact absurd hserving hnot
  | spawn => cases hserving
  | announce =>
    obtain ⟨_, _, _, hchange⟩ := serving_of_update hnot hserving
    unfold Status.requestStop at hchange
    split at hchange
    · cases hchange
    · cases hchange
  | @release _ handle =>
    have hupdate : l.publisher.update handle.generation (fun _ => .stopped) =
      ⟨.serving e, g⟩ := hserving
    obtain ⟨_, _, _, hchange⟩ := serving_of_update hnot hupdate
    cases hchange
  | @task n event t t' ht _ _ =>
    obtain ⟨hown, hgeneration, hstatus, hchange⟩ := serving_of_update hnot hserving
    obtain ⟨rfl, hphase, hbinding⟩ := serving_of_publication hstatus hchange
    refine ⟨n, rfl, hown ▸ hl.tasks n t ht, ?_, t, ht, ?_⟩
    · rw [← hbinding, ← hgeneration]
    · exact Task.socket?_eq_some_iff.mpr ⟨_, hphase⟩

end Publications

/-! ## The way to an endpoint -/

section Endpoints

variable {l l' : Listener} {actions : List Action} {call n g : Nat} {e : Endpoint}

theorem startResult?_of_start {c : StartCall} (hc : l.starts[call]? = some c) :
    l.startResult? call = c.result? := by
  rw [startResult?, hc, Option.bind_some]

theorem startResult?_eq_some_iff {r : StartResult} :
    l.startResult? call = some r ↔
      ∃ generation, l.starts[call]? = some ⟨generation, .returned r⟩ := by
  refine ⟨?_, ?_⟩
  · intro h
    obtain ⟨⟨generation, phase⟩, hc, hresult⟩ := Option.bind_eq_some_iff.mp h
    cases phase with
    | waiting => cases hresult
    | seen => cases hresult
    | returned =>
      cases hresult
      exact ⟨generation, hc⟩
  · rintro ⟨generation, hc⟩
    exact startResult?_of_start hc

/-- A call that returns an endpoint saw it served, and looked once more whether its generation is
the newest. -/
theorem Begun.concludes (hbegun : l.Begun call g) (hnot : l.startResult? call = none)
    (hrun : l.run? actions = some l') (hstarted : l'.startResult? call = some (.started e)) :
    ∃ before m m', Takes l actions before (.conclude call) m m' ∧
      m.starts[call]? = some ⟨some g, .seen (.serving e)⟩ ∧ m.publisher.generation = g ∧
      m'.startResult? call = some (.started e) := by
  obtain ⟨before, a, m, m', htakes, hm, hm'⟩ :=
    exists_takes (p := fun l => l.startResult? call = some (.started e)) (by simp [hnot])
      hrun hstarted
  obtain ⟨phase, hc, _⟩ := hbegun.run htakes.run
  rcases (step_of_step? htakes.step).start_cases hc with
    hkept | ⟨_, _, _, hseen⟩ | ⟨g', s, rfl, heq, hreturned⟩
  · rw [startResult?_of_start hc] at hm
    rw [startResult?_of_start hkept] at hm'
    exact absurd hm' hm
  · rw [startResult?_of_start hseen] at hm'
    cases hm'
  · cases heq
    rw [startResult?_of_start hreturned] at hm'
    have hresult : m.startResult g s = .started e := by simpa [StartCall.result?] using hm'
    unfold startResult at hresult
    split at hresult
    · split at hresult
      · rename_i hcurrent
        cases hresult
        exact ⟨before, m, m', htakes, hc, by simpa [isCurrent] using hcurrent,
          (startResult?_of_start hreturned).trans hm'⟩
      · cases hresult
    · cases hresult

theorem Begun.observes (hbegun : l.Begun call g)
    (hnot : l.starts[call]? ≠ some ⟨some g, .seen (.serving e)⟩) (hrun : l.run? actions = some l')
    (hseen : l'.starts[call]? = some ⟨some g, .seen (.serving e)⟩) :
    ∃ before m m', Takes l actions before (.observe call) m m' ∧ m.status = .serving e := by
  obtain ⟨before, a, m, m', htakes, hm, hm'⟩ :=
    exists_takes (p := fun l => l.starts[call]? = some ⟨some g, .seen (.serving e)⟩) hnot hrun hseen
  obtain ⟨phase, hc, _⟩ := hbegun.run htakes.run
  rcases (step_of_step? htakes.step).start_cases hc with
    hkept | ⟨_, rfl, _, hafter⟩ | ⟨_, _, _, _, hreturned⟩
  · exact absurd (hc.trans (hkept.symm.trans hm')) hm
  · simp only [hafter, Option.some.injEq, StartCall.mk.injEq, StartPhase.seen.injEq] at hm'
    exact ⟨before, m, m', htakes, hm'.2⟩
  · rw [hreturned] at hm'
    cases hm'

/-- Task `n` binds a socket to `e`, and then publishes that generation `g` serves there. No other
task holds a socket that is bound to `e` then. -/
def BindsAndServes (l : Listener) (actions : List Action) (n g : Nat) (e : Endpoint) : Prop :=
  ∃ before m m', Takes l actions before (.task n .publishServing) m m' ∧
    m.publisher = ⟨.binding, g⟩ ∧ m'.publisher = ⟨.serving e, g⟩ ∧
    (∀ k, m.Holds k e ↔ k = n) ∧
    ∃ earlier b b', Takes l before earlier (.task n (.bind e)) b b'

theorem BindsAndServes.mono {more : List Action} (h : BindsAndServes l actions n g e)
    (hle : actions <+: more) : BindsAndServes l more n g e := by
  obtain ⟨before, m, m', htakes, hserves⟩ := h
  exact ⟨before, m, m', htakes.mono hle, hserves⟩

theorem binds (hnot : ¬ l.Holds n e) (hrun : l.run? actions = some l') (he : l'.Holds n e) :
    ∃ before m m', Takes l actions before (.task n (.bind e)) m m' := by
  obtain ⟨before, a, m, m', htakes, hm, hm'⟩ :=
    exists_takes (p := fun l => l.Holds n e) hnot hrun he
  rcases (step_of_step? htakes.step).holds_cases hm' with hbefore | ⟨rfl, _⟩
  · exact absurd hbefore hm
  · exact ⟨before, m, m', htakes⟩

/-- Whatever serves has been bound and published before. -/
theorem bindsAndServes_of_serving (hl : Reachable l) (hnot : l.publisher ≠ ⟨.serving e, n + 1⟩)
    (hunheld : ¬ l.Holds n e) (hrun : l.run? actions = some l')
    (hserving : l'.publisher = ⟨.serving e, n + 1⟩) : BindsAndServes l actions n (n + 1) e := by
  obtain ⟨before, a, m, m', htakes, hm, hm'⟩ :=
    exists_takes (p := fun l => l.publisher = ⟨.serving e, n + 1⟩) hnot hrun hserving
  have hreachable := hl.run htakes.run
  obtain ⟨number, rfl, hnumber, hbinding, hholds⟩ :=
    (step_of_step? htakes.step).of_serving hreachable.numbered hm hm'
  obtain rfl : n = number := Nat.succ.inj hnumber
  refine ⟨before, m, m', htakes, hbinding, hm', ?_, binds hunheld htakes.run hholds⟩
  intro k
  refine ⟨fun hk => hreachable.eq_of_holds hk hholds, ?_⟩
  rintro rfl
  exact hholds

theorem not_holds_spawn (l : Listener) (i : Interface) (e : Endpoint) :
    ¬ (l.spawn i).Holds l.tasks.length e := by
  rintro ⟨t, ht, hsocket⟩
  rw [tasks_spawn, List.getElem?_append_right (Nat.le_refl _), Nat.sub_self] at ht
  cases ht
  cases hsocket

end Endpoints

/-! ## Results -/

section Results

variable {l l' : Listener} {i : Interface} {actions : List Action} {e : Endpoint}
  {result : StartResult}

/-- A call that returns an endpoint concludes so while its generation is the newest, after its own
task has bound the socket and published it. -/
theorem started_of_spawn (hl : Reachable l) (hstart : l.step? (.start i) = some (l.spawn i))
    (hrun : (l.spawn i).run? actions = some l')
    (hstarted : l'.startResult? l.starts.length = some (.started e)) :
    ∃ before m m', Takes (l.spawn i) actions before (.conclude l.starts.length) m m' ∧
      m.publisher.generation = (l.spawn i).publisher.generation ∧
      m'.startResult? l.starts.length = some (.started e) ∧
      BindsAndServes (l.spawn i) before l.tasks.length (l.spawn i).publisher.generation e := by
  have hspawned : Reachable (l.spawn i) := hl.step hstart
  have hbegun := begun_spawn l i
  have hwaiting : (l.spawn i).starts[l.starts.length]? =
      some ⟨some (l.publisher.generation + 1), .waiting⟩ := by
    simp [spawn, Publisher.begin]
  obtain ⟨before, m, m', hconclude, hseen, hcurrent, hreturned⟩ :=
    hbegun.concludes (startResult?_of_start hwaiting) hrun hstarted
  obtain ⟨earlier, q, q', hobserve, hserving⟩ :=
    hbegun.observes (by simp [hwaiting]) hconclude.run hseen
  have hgeneration : q.publisher.generation = l.publisher.generation + 1 := by
    have hlow := (hspawned.follows hobserve.run).generation
    have hhigh := (hspawned.follows_between hobserve.run hconclude.run
      hobserve.before_le).generation
    rw [generation_spawn] at hlow
    omega
  have hpublisher : q.publisher = ⟨.serving e, l.tasks.length + 1⟩ := by
    rw [← hserving, ← hl.numbered.generation, ← hgeneration]
    rfl
  have hserves : BindsAndServes (l.spawn i) earlier l.tasks.length (l.tasks.length + 1) e :=
    bindsAndServes_of_serving hspawned (by simp [spawn, Publisher.begin])
      (not_holds_spawn l i e) hobserve.run hpublisher
  refine ⟨before, m, m', hconclude, hcurrent, hreturned, ?_⟩
  rw [generation_spawn, hl.numbered.generation]
  exact hserves.mono hobserve.before_le

/-- A generation that serves did so before its stop was announced. -/
theorem serving_before_stop {n g : Nat} {before : List Action} {m : Listener} (hl : Reachable l)
    (hserves : BindsAndServes l actions n g e) (hle : before <+: actions)
    (hm : l.run? before = some m) (hstop : m.publisher = ⟨.stopRequested, g⟩) :
    ∃ early m', early <+: before ∧ l.run? early = some m' ∧ m'.publisher = ⟨.serving e, g⟩ := by
  obtain ⟨earlier, p, p', htakes, _, hserving, _⟩ := hserves
  rcases List.prefix_or_prefix_of_prefix htakes.taken hle with hfirst | hlast
  · exact ⟨_, p', hfirst, htakes.run_through, hserving⟩
  · have hfollows := hl.follows_between hm htakes.run_through hlast
    have hleads := hfollows.leads (by simp [hstop, hserving])
    simp only [status, hstop, hserving] at hleads
    exact absurd rfl (hleads.not_serving e)

/-- Until a call returns, the generation that is the newest when it concludes is the newest. -/
theorem started_before_newer {call : Nat} {before earlier : List Action} {m q q' : Listener}
    (hl : Reachable l) (htakes : Takes l actions earlier (.conclude call) q q')
    (hcurrent : q.publisher.generation = l.publisher.generation)
    (hstarted : q'.startResult? call = some (.started e)) (hle : before <+: actions)
    (hm : l.run? before = some m) (hnewer : m.publisher.generation ≠ l.publisher.generation) :
    m.startResult? call = some (.started e) := by
  rcases List.prefix_or_prefix_of_prefix htakes.taken hle with hfirst | hlast
  · obtain ⟨between, hbetween⟩ := run_between htakes.run_through hm hfirst
    obtain ⟨generation, hreturned⟩ := startResult?_eq_some_iff.mp hstarted
    exact startResult?_eq_some_iff.mpr ⟨generation, (run_of_returned hreturned hbetween).1⟩
  · have hlow := (hl.follows hm).generation
    have hhigh := (hl.follows_between hm htakes.run_through hlast).generation
    rcases (step_of_step? htakes.step).counts with ⟨_, haction, _⟩ | ⟨hsame, _⟩
    · cases haction
    · omega

/-- Of a call that began a generation there are two results. -/
theorem Begun.result_cases {call g : Nat} (hbegun : l.Begun call g)
    (hresult : l.startResult? call = some result) :
    (∃ e, result = .started e) ∨ result = .failed .cancelled := by
  obtain ⟨phase, hc, hne⟩ := hbegun
  obtain ⟨generation, hreturned⟩ := startResult?_eq_some_iff.mp hresult
  rw [hc] at hreturned
  cases hreturned
  cases result with
  | started e => exact .inl ⟨e, rfl⟩
  | failed error =>
    cases error with
    | alreadyRunning => exact absurd rfl hne
    | cancelled => exact .inr rfl

end Results

/-- A start call that returns an endpoint has had its own task bind it and publish it, while no
other task held it, and finds its generation the newest when it concludes. If a stop is announced
before its generation serves, or a newer one begins before the call returns an endpoint, the call
is cancelled. A call that is refused leaves all but the list of calls as it was, and goes no
further. -/
theorem a_start_call_returns_what_its_own_task_serves
    {l₀ l₁ l : Listener} {i : Interface} {actions : List Action} {result : StartResult}
    (hl : Reachable l₀) (hstart : l₀.step? (.start i) = some l₁)
    (hrun : l₁.run? actions = some l) (hresult : l.startResult? l₀.starts.length = some result) :
    (∀ e, result = .started e → l₁ = l₀.spawn i ∧
      ∃ before m m', Takes l₁ actions before (.conclude l₀.starts.length) m m' ∧
        m.publisher.generation = l₁.publisher.generation ∧
        m'.startResult? l₀.starts.length = some (.started e) ∧
        BindsAndServes l₁ before l₀.tasks.length l₁.publisher.generation e) ∧
    (l₁ = l₀.spawn i → ∀ before m, before <+: actions → l₁.run? before = some m →
      (m.publisher = ⟨.stopRequested, l₁.publisher.generation⟩ ∧
          ∀ early m' e, early <+: before → l₁.run? early = some m' →
            m'.publisher ≠ ⟨.serving e, l₁.publisher.generation⟩) ∨
        (m.publisher.generation ≠ l₁.publisher.generation ∧
          ∀ e, m.startResult? l₀.starts.length ≠ some (.started e)) →
      result = .failed .cancelled) ∧
    (result = .failed .alreadyRunning → { l₁ with starts := l₀.starts } = l₀ ∧
      .observe l₀.starts.length ∉ actions ∧ .conclude l₀.starts.length ∉ actions) := by
  have hreachable : Reachable l₁ := hl.step hstart
  cases step_of_start hstart with
  | refuse =>
    have hrefused : l₀.refuse.starts[l₀.starts.length]? =
        some ⟨none, .returned (.failed .alreadyRunning)⟩ := by
      simp [refuse]
    obtain ⟨hreturned, hobserve, hconclude⟩ := run_of_returned hrefused hrun
    obtain rfl : StartResult.failed .alreadyRunning = result :=
      Option.some.inj ((startResult?_of_start hreturned).symm.trans hresult)
    refine ⟨?_, ?_, fun _ => ⟨rfl, hobserve, hconclude⟩⟩
    · rintro e ⟨⟩
    · intro hspawn
      have hgeneration := congrArg (·.publisher.generation) hspawn
      simp [refuse, generation_spawn] at hgeneration
  | spawn =>
    have htrace (e : Endpoint) (heq : result = .started e) :=
      started_of_spawn hl hstart hrun (heq ▸ hresult)
    have hbegun := (begun_spawn l₀ i).run hrun
    refine ⟨fun e heq => ⟨rfl, htrace e heq⟩, ?_, ?_⟩
    · intro _ before m hle hm hearly
      rcases hbegun.result_cases hresult with ⟨e, heq⟩ | hcancelled
      · obtain ⟨earlier, q, q', hconclude, hcurrent, hstarted, hserves⟩ := htrace e heq
        rcases hearly with ⟨hstop, hnever⟩ | ⟨hnewer, hnot⟩
        · obtain ⟨early, p, hle', hp, hserving⟩ := serving_before_stop hreachable
            (hserves.mono hconclude.before_le) hle hm hstop
          exact absurd hserving (hnever early p e hle' hp)
        · exact absurd (started_before_newer hreachable hconclude hcurrent hstarted hle hm hnewer)
            (hnot e)
      · exact hcancelled
    · rintro rfl
      rcases hbegun.result_cases hresult with ⟨e, heq⟩ | heq
      · cases heq
      · cases heq

/-- A start call whose task binds its socket at once, and one whose stop is announced before its
task serves. -/
theorem a_start_call_is_answered_or_cancelled :
    ∃ l₁, step? { settings := {} } (.start accessPoint) = some l₁ ∧
      (∃ l, l₁.run? [.task 0 (.bind port53), .task 0 .publishServing, .observe 0,
          .conclude 0] = some l ∧
        l.startResult? 0 = some (.started port53) ∧
        BindsAndServes l₁ [.task 0 (.bind port53), .task 0 .publishServing, .observe 0,
          .conclude 0] 0 1 port53) ∧
      ∃ m l, l₁.run? [.stop, .announce 0] = some m ∧ m.publisher = ⟨.stopRequested, 1⟩ ∧
        (∀ early m' e, early <+: [.stop, .announce 0] → l₁.run? early = some m' →
          m'.publisher ≠ ⟨.serving e, 1⟩) ∧
        l₁.run? ([.stop, .announce 0] ++ [.task 0 (.bind port53), .task 0 .publishServing,
          .signal 0, .task 0 .check, .task 0 .close, .task 0 .publishStopped, .observe 0,
          .conclude 0]) = some l ∧
        l.startResult? 0 = some (.failed .cancelled) := by
  have hstart : step? { settings := {} } (.start accessPoint) =
      some (spawn { settings := {} } accessPoint) := rfl
  refine ⟨_, hstart, ?_, ?_⟩
  · obtain ⟨l, hrun, hresult⟩ : ∃ l, run? (spawn { settings := {} } accessPoint)
        [.task 0 (.bind port53), .task 0 .publishServing, .observe 0, .conclude 0] = some l ∧
        l.startResult? 0 = some (.started port53) := ⟨_, rfl, rfl⟩
    obtain ⟨hstarted, _⟩ :=
      a_start_call_returns_what_its_own_task_serves (.new {}) hstart hrun hresult
    obtain ⟨_, before, m, m', htakes, _, _, hserves⟩ := hstarted port53 rfl
    exact ⟨l, hrun, hresult, hserves.mono htakes.before_le⟩
  · obtain ⟨l, result, hrun, hresult⟩ : ∃ l result, run? (spawn { settings := {} } accessPoint)
        ([.stop, .announce 0] ++ [.task 0 (.bind port53), .task 0 .publishServing, .signal 0,
          .task 0 .check, .task 0 .close, .task 0 .publishStopped, .observe 0,
          .conclude 0]) = some l ∧ l.startResult? 0 = some result := ⟨_, _, rfl, rfl⟩
    obtain ⟨m, hm, hstop⟩ : ∃ m, run? (spawn { settings := {} } accessPoint)
        [.stop, .announce 0] = some m ∧ m.publisher = ⟨.stopRequested, 1⟩ := ⟨_, rfl, rfl⟩
    have hnever : ∀ early m' e, early <+: [.stop, .announce 0] →
        run? (spawn { settings := {} } accessPoint) early = some m' →
        m'.publisher ≠ ⟨.serving e, 1⟩ := by
      intro early m' e hle hm' hserving
      have hearly : early ∈ [[], [.stop], [.stop, .announce 0]] :=
        (List.mem_inits early _).mpr hle
      simp only [List.mem_cons, List.not_mem_nil, or_false] at hearly
      rcases hearly with rfl | rfl | rfl <;> cases hm' <;> cases hserving
    obtain ⟨_, hcancelled, _⟩ :=
      a_start_call_returns_what_its_own_task_serves (.new {}) hstart hrun hresult
    refine ⟨m, l, hm, hstop, hnever, hrun, hresult.trans (congrArg some ?_)⟩
    exact hcancelled rfl _ m (List.prefix_append ..) hm (.inl ⟨hstop, hnever⟩)

end Listener

end PortalDns
