-- The laws of names on the wire: a name is what a chain of segments spells,
-- each but the last leading to the next by a pointer, and what is read is
-- exactly that, forward and back.
import PortalDns.Proofs.NameItems

namespace PortalDns

/-! ## Chains of segments -/

/-- A stretch of labels of a name on the wire, up to a pointer or to the end of the name. -/
structure NameSegment where
  start : Nat
  labels : List Label

namespace NameSegment

/-- The offset behind the labels. -/
def stop (s : NameSegment) : Nat := s.start + Name.wireLength s.labels

/-- The labels stand in the datagram from the start on, and none of them is empty. -/
def StandsIn (d : Octets) (s : NameSegment) : Prop :=
  (∀ l ∈ s.labels, l ≠ Label.empty) ∧ s.labels.flatMap Label.encode <+: d.drop s.start

end NameSegment

/-- Segments of which each but the last leads to the next by a pointer behind its labels, while
a zero stands behind those of the last. -/
inductive NameChain (d : Octets) : List NameSegment → Prop
  | last {s : NameSegment} : s.StandsIn d → d[s.stop]? = some 0 → NameChain d [s]
  | link {s t : NameSegment} {rest : List NameSegment} :
      s.StandsIn d → PointerAt d s.stop t.start → NameChain d (t :: rest) →
      NameChain d (s :: t :: rest)

namespace NameChain

/-- The octets that are read along a chain before the zero at its end: all labels, and the
pointers between the segments. -/
def octetsBeforeEnd (chain : List NameSegment) : Nat :=
  Name.wireLength (chain.flatMap NameSegment.labels) + 2 * (chain.length - 1)

end NameChain

/-! ## Lengths -/

namespace Name

@[simp] theorem wireLength_nil : wireLength [] = 0 := rfl

@[simp] theorem wireLength_cons (l : Label) (ls : List Label) :
    wireLength (l :: ls) = 1 + l.size + wireLength ls := rfl

@[simp] theorem wireLength_append (ls more : List Label) :
    wireLength (ls ++ more) = wireLength ls + wireLength more := by
  induction ls with
  | nil => simp
  | cons l ls ih =>
    rw [List.cons_append, wireLength_cons, wireLength_cons, ih]
    omega

/-- One octet for each label, and its own octets. -/
theorem wireLength_eq (ls : List Label) :
    wireLength ls = ls.length + (ls.map Label.size).sum := by
  induction ls with
  | nil => rfl
  | cons l ls ih =>
    rw [wireLength_cons, ih, List.length_cons, List.map_cons, List.sum_cons]
    omega

end Name

@[simp] theorem Label.size_empty : Label.empty.size = 0 := rfl

theorem NameChain.octetsBeforeEnd_link (s t : NameSegment) (rest : List NameSegment) :
    octetsBeforeEnd (s :: t :: rest) =
      Name.wireLength s.labels + 2 + octetsBeforeEnd (t :: rest) := by
  simp only [octetsBeforeEnd, List.flatMap_cons, Name.wireLength_append, List.length_cons]
  omega

/-! ## Walks that end well -/

namespace NameWalk

/-- A walk ends with a name, and with the offset to read on from: at its cursor stands the end of
the name, or else a label or a pointer behind which the walk goes on within both bounds. -/
inductive Ends (d : Octets) : NameWalk → Name → Nat → Prop
  | final {w : NameWalk} : d[w.cursor]? = some 0 → (w.pass Label.empty).len ≤ Name.maxLength →
      Ends d w (w.pass Label.empty).result.1 (w.pass Label.empty).result.2
  | label {w : NameWalk} {l : Label} {n : Name} {next : Nat} : ItemAt d w.cursor (.label l) →
      (w.pass l).len ≤ Name.maxLength → (w.pass l).consumed ≤ d.length →
      Ends d (w.pass l) n next → Ends d w n next
  | pointer {w : NameWalk} {target : Nat} {n : Name} {next : Nat} :
      PointerAt d w.cursor target → (w.jump target).consumed ≤ d.length →
      Ends d (w.jump target) n next → Ends d w n next

variable {d : Octets} {w v : NameWalk} {n : Name} {next : Nat}

/-- What a turn makes of a label: both bounds are looked at behind it. -/
theorem step_label {l : Label} (h : ItemAt d w.cursor (.label l)) :
    step d.toArray w =
      if Name.maxLength < (w.pass l).len then .error .tooLong
      else if d.length < (w.pass l).consumed then .error .pointerLoop
      else .ok (.next (w.pass l)) := by
  simp only [step, NameItem.read_of_itemAt h, List.size_toArray]

theorem step_pointer {target : Nat} (h : PointerAt d w.cursor target) :
    step d.toArray w =
      if d.length < (w.jump target).consumed then .error .pointerLoop
      else .ok (.next (w.jump target)) := by
  simp only [step, NameItem.read_of_itemAt (.pointer h), List.size_toArray]

theorem step_final (h : d[w.cursor]? = some 0) :
    step d.toArray w =
      if Name.maxLength < (w.pass Label.empty).len then .error .tooLong
      else .ok (.done (w.pass Label.empty).result.1 (w.pass Label.empty).result.2) := by
  simp only [step, NameItem.read_of_itemAt (.final h)]

theorem step_of_label {l : Label} (h : ItemAt d w.cursor (.label l))
    (hlen : (w.pass l).len ≤ Name.maxLength) (hroom : (w.pass l).consumed ≤ d.length) :
    step d.toArray w = .ok (.next (w.pass l)) := by
  rw [step_label h, if_neg (by omega), if_neg (by omega)]

theorem step_of_pointer {target : Nat} (h : PointerAt d w.cursor target)
    (hroom : (w.jump target).consumed ≤ d.length) :
    step d.toArray w = .ok (.next (w.jump target)) := by
  rw [step_pointer h, if_neg (by omega)]

theorem step_of_final (h : d[w.cursor]? = some 0)
    (hlen : (w.pass Label.empty).len ≤ Name.maxLength) :
    step d.toArray w =
      .ok (.done (w.pass Label.empty).result.1 (w.pass Label.empty).result.2) := by
  rw [step_final h, if_neg (by omega)]

/-- A walk goes on from a label or from a pointer, as far as both bounds allow. -/
theorem cases_of_step_next (h : step d.toArray w = .ok (.next v)) :
    (∃ l, ItemAt d w.cursor (.label l) ∧ v = w.pass l ∧ v.len ≤ Name.maxLength ∧
      v.consumed ≤ d.length) ∨
    ∃ target, PointerAt d w.cursor target ∧ v = w.jump target ∧ v.consumed ≤ d.length := by
  unfold step at h
  split at h
  · cases h
  · rename_i l _ hread
    dsimp only at h
    split at h
    · cases h
    split at h
    · cases h
    · rename_i hlen hroom
      cases h
      exact .inl ⟨l, NameItem.itemAt_of_read hread, rfl, by omega,
        by rw [List.size_toArray] at hroom; omega⟩
  · rename_i target _ hread
    dsimp only at h
    split at h
    · cases h
    · rename_i hroom
      cases h
      cases NameItem.itemAt_of_read hread with
      | pointer hp => exact .inr ⟨target, hp, rfl, by rw [List.size_toArray] at hroom; omega⟩
  · dsimp only at h
    split at h <;> cases h

theorem final_of_step_done (h : step d.toArray w = .ok (.done n next)) :
    d[w.cursor]? = some 0 ∧ (w.pass Label.empty).len ≤ Name.maxLength ∧
      (n, next) = (w.pass Label.empty).result := by
  unfold step at h
  split at h
  · cases h
  · dsimp only at h
    split at h
    · cases h
    split at h <;> cases h
  · dsimp only at h
    split at h <;> cases h
  · rename_i hread
    dsimp only at h
    split at h
    · cases h
    · rename_i hlen
      cases h
      cases NameItem.itemAt_of_read hread with
      | final h0 => exact ⟨h0, by omega, rfl⟩

theorem finish_of_next (h : step d.toArray w = .ok (.next v)) :
    finish d.toArray w = finish d.toArray v := by
  rw [finish]
  split
  · simp_all
  · simp_all
  · rename_i u hu
    rw [h] at hu
    cases hu
    rfl

theorem finish_of_done (h : step d.toArray w = .ok (.done n next)) :
    finish d.toArray w = .ok (n, next) := by
  rw [finish]
  split <;> simp_all

theorem finish_of_error {fault : NameFault} (h : step d.toArray w = .error fault) :
    finish d.toArray w = .error fault := by
  rw [finish]
  split <;> simp_all

theorem finish_of_ends (h : Ends d w n next) : finish d.toArray w = .ok (n, next) := by
  induction h with
  | final h0 hlen => exact finish_of_done (step_of_final h0 hlen)
  | label hl hlen hroom _ ih =>
    rw [finish_of_next (step_of_label hl hlen hroom)]
    exact ih
  | pointer hp hroom _ ih =>
    rw [finish_of_next (step_of_pointer hp hroom)]
    exact ih

theorem ends_of_finish (h : finish d.toArray w = .ok (n, next)) : Ends d w n next := by
  induction w using NameWalk.finish.induct (d := d.toArray) with
  | case1 w fault hstep =>
    rw [finish_of_error hstep] at h
    cases h
  | case2 w m resume hstep =>
    obtain ⟨h0, hlen, hresult⟩ := final_of_step_done hstep
    rw [finish_of_done hstep, hresult] at h
    cases h
    exact .final h0 hlen
  | case3 w v hstep ih =>
    rw [finish_of_next hstep] at h
    rcases cases_of_step_next hstep with ⟨l, hl, rfl, hlen, hroom⟩ | ⟨target, hp, rfl, hroom⟩
    · exact .label hl hlen hroom (ih h)
    · exact .pointer hp hroom (ih h)

/-! ## Chains are walked to their ends -/

/-- The walk past several labels. -/
def passAll (w : NameWalk) (ls : List Label) : NameWalk :=
  { w with
    cursor := w.cursor + Name.wireLength ls
    consumed := w.consumed + Name.wireLength ls
    labels := w.labels ++ ls
    len := w.len + Name.wireLength ls }

theorem passAll_cons (w : NameWalk) (l : Label) (ls : List Label) :
    w.passAll (l :: ls) = (w.pass l).passAll ls := by
  simp [passAll, pass, Nat.add_assoc]

/-- Labels that stand at the cursor are passed one after the other. -/
theorem ends_of_passAll {ls : List Label} (hne : ∀ l ∈ ls, l ≠ Label.empty)
    (h : ls.flatMap Label.encode <+: d.drop w.cursor)
    (hlen : w.len + Name.wireLength ls ≤ Name.maxLength)
    (hroom : w.consumed + Name.wireLength ls ≤ d.length)
    (hends : Ends d (w.passAll ls) n next) : Ends d w n next := by
  induction ls generalizing w with
  | nil => simpa [passAll] using hends
  | cons l ls ih =>
    rw [List.flatMap_cons, append_prefix_drop_iff, l.length_encode] at h
    rw [Name.wireLength_cons] at hlen hroom
    rw [passAll_cons] at hends
    have hitem : ItemAt d w.cursor (.label l) :=
      .label (hne l (by simp)) h.1
    refine .label hitem (by simp only [pass]; omega) (by simp only [pass]; omega) ?_
    apply ih _ _ _ _ hends
    · exact fun l' hl' => hne l' (List.mem_cons_of_mem l hl')
    · exact h.2
    · simp only [pass]; omega
    · simp only [pass]; omega

/-- A chain that starts at the cursor is walked to its end. -/
theorem ends_of_chain {chain rest : List NameSegment} {s : NameSegment} (h : NameChain d chain)
    (hchain : chain = s :: rest) (hstart : w.cursor = s.start)
    (hlen : w.len + Name.wireLength (chain.flatMap NameSegment.labels ++ [Label.empty]) ≤
      Name.maxLength)
    (hroom : w.consumed + NameChain.octetsBeforeEnd chain ≤ d.length) :
    Ends d w
      ⟨w.labels ++ chain.flatMap NameSegment.labels ++ [Label.empty],
        w.len + Name.wireLength (chain.flatMap NameSegment.labels ++ [Label.empty])⟩
      (w.resume.getD (s.stop + if rest = [] then 1 else 2)) := by
  induction h generalizing w s rest with
  | @last s' hs h0 =>
    cases hchain
    simp only [NameChain.octetsBeforeEnd, List.flatMap_cons, List.flatMap_nil, List.append_nil,
      List.length_singleton, Nat.sub_self, Nat.mul_zero, Nat.add_zero, Name.wireLength_append,
      Name.wireLength_cons, Name.wireLength_nil, Label.size_empty] at hlen hroom ⊢
    apply ends_of_passAll hs.1 (hstart ▸ hs.2) (by omega) hroom
    have hzero : d[(w.passAll s'.labels).cursor]? = some 0 := by
      simp only [passAll, hstart]
      exact h0
    have hends := Ends.final hzero (by simp only [passAll, pass, Label.size_empty]; omega)
    simpa only [result, pass, passAll, NameSegment.stop, hstart, Label.size_empty, Nat.add_zero,
      Nat.add_assoc, if_true] using hends
  | @link s' t rest' hs hp _ ih =>
    cases hchain
    rw [NameChain.octetsBeforeEnd_link] at hroom
    simp only [List.flatMap_cons, List.append_assoc, Name.wireLength_append] at hlen
    apply ends_of_passAll hs.1 (hstart ▸ hs.2) (by omega) (by omega)
    have hpointer : PointerAt d (w.passAll s'.labels).cursor t.start := by
      simp only [passAll, hstart]
      exact hp
    refine .pointer hpointer (by simp only [jump, passAll]; omega) ?_
    have hends := ih (w := (w.passAll s'.labels).jump t.start) rfl rfl
      (by simp only [jump, passAll, List.flatMap_cons, Name.wireLength_append]; omega)
      (by simp only [jump, passAll]; omega)
    simpa only [jump, passAll, NameSegment.stop, hstart, List.flatMap_cons, List.append_assoc,
      Name.wireLength_append, Nat.add_assoc, Option.getD_some, reduceCtorEq, if_false] using hends

/-! ## Walks that end have gone along a chain -/

/-- A label in front of a segment belongs to it. -/
theorem chain_of_label {o : Nat} {l : Label} {s : NameSegment} {rest : List NameSegment}
    (hl : ItemAt d o (.label l)) (hs : s.start = o + (1 + l.size)) (h : NameChain d (s :: rest)) :
    NameChain d (⟨o, l :: s.labels⟩ :: rest) := by
  cases hl with
  | label hne hpre =>
    have hstop : NameSegment.stop ⟨o, l :: s.labels⟩ = s.stop := by
      simp only [NameSegment.stop, Name.wireLength_cons, hs]
      omega
    have hstands (hs' : s.StandsIn d) : NameSegment.StandsIn d ⟨o, l :: s.labels⟩ := by
      refine ⟨List.forall_mem_cons.mpr ⟨hne, hs'.1⟩, ?_⟩
      rw [List.flatMap_cons, append_prefix_drop_iff, l.length_encode, ← hs]
      exact ⟨hpre, hs'.2⟩
    cases h with
    | last hs' h0 => exact .last (hstands hs') (hstop ▸ h0)
    | link hs' hp hrest => exact .link (hstands hs') (hstop ▸ hp) hrest

/-- What a walk that ends adds to a name is what a chain from its cursor spells. -/
theorem Ends.exists_chain (h : Ends d w n next) (hroom : w.consumed ≤ d.length) :
    ∃ s rest, s.start = w.cursor ∧ NameChain d (s :: rest) ∧
      n.labels = w.labels ++ (s :: rest).flatMap NameSegment.labels ++ [Label.empty] ∧
      n.len = w.len +
        Name.wireLength ((s :: rest).flatMap NameSegment.labels ++ [Label.empty]) ∧
      n.len ≤ Name.maxLength ∧ w.consumed + NameChain.octetsBeforeEnd (s :: rest) ≤ d.length ∧
      next = w.resume.getD (s.stop + if rest = [] then 1 else 2) := by
  induction h with
  | @final w h0 hlen =>
    refine ⟨⟨w.cursor, []⟩, [], rfl, .last ⟨by simp, by simp⟩ h0, ?_⟩
    simp only [pass, Label.size_empty] at hlen
    simpa [result, pass, NameChain.octetsBeforeEnd, NameSegment.stop] using ⟨hlen, hroom⟩
  | @label w l n next hl _ hroom' _ ih =>
    obtain ⟨s, rest, hstart, hchain, hlabels, hlen, hmax, hread, hnext⟩ := ih hroom'
    simp only [pass] at hstart hlabels hlen hread hnext
    refine ⟨⟨w.cursor, l :: s.labels⟩, rest, rfl, chain_of_label hl hstart hchain, ?_, ?_, hmax,
      ?_, ?_⟩
    · simpa using hlabels
    · simp only [List.flatMap_cons, Name.wireLength_append, Name.wireLength_cons] at hlen ⊢
      omega
    · simp only [NameChain.octetsBeforeEnd, List.flatMap_cons, Name.wireLength_append,
        Name.wireLength_cons, List.length_cons] at hread ⊢
      omega
    · simp only [hnext, NameSegment.stop, Name.wireLength_cons, hstart, Nat.add_assoc]
  | @pointer w target n next hp hroom' _ ih =>
    obtain ⟨s, rest, hstart, hchain, hlabels, hlen, hmax, hread, hnext⟩ := ih hroom'
    simp only [jump] at hstart hlabels hlen hread hnext
    refine ⟨⟨w.cursor, []⟩, s :: rest, rfl, .link ⟨by simp, by simp⟩ (hstart ▸ hp) hchain,
      hlabels, hlen, hmax, ?_, ?_⟩
    · rw [NameChain.octetsBeforeEnd_link]
      simp only [Name.wireLength_nil]
      omega
    · simpa [NameSegment.stop] using hnext

end NameWalk

/-! ## The law of names -/

/-- Reading a name is a walk that ends well. -/
theorem Name.decode_eq_ok_iff {d : Octets} {o next : Nat} {n : Name} :
    Name.decode d o = .ok (n, next) ↔ NameWalk.Ends d { cursor := o } n next :=
  ⟨NameWalk.ends_of_finish, NameWalk.finish_of_ends⟩

/-- However a name goes on elsewhere, it has an octet where it starts. -/
theorem Name.lt_of_decode {d : Octets} {o next : Nat} {name : Name}
    (h : Name.decode d o = .ok (name, next)) : o < next := by
  obtain ⟨s, rest, hstart, _, _, _, _, _, hnext⟩ :=
    (Name.decode_eq_ok_iff.mp h).exists_chain (Nat.zero_le _)
  simp only [Option.getD_none, NameSegment.stop, hstart] at hnext
  split at hnext <;> omega

/-- Reading a name succeeds exactly where a chain starts that spells it: with no more than 255
octets in the name, and with no more octets read before the zero at the end than the datagram
has. It leads behind the first pointer, or behind the zero if there is none. -/
theorem a_name_is_what_its_chain_spells (d : Octets) (o : Nat) (n : Name) (next : Nat) :
    Name.decode d o = .ok (n, next) ↔
      ∃ s rest, s.start = o ∧ NameChain d (s :: rest) ∧
        n.labels = (s :: rest).flatMap NameSegment.labels ++ [Label.empty] ∧
        n.len = n.labels.length + (n.labels.map Label.size).sum ∧ n.len ≤ 255 ∧
        NameChain.octetsBeforeEnd (s :: rest) ≤ d.length ∧
        next = s.stop + if rest = [] then 1 else 2 := by
  rw [Name.decode_eq_ok_iff]
  constructor
  · intro h
    obtain ⟨s, rest, hstart, hchain, hlabels, hlen, hmax, hread, hnext⟩ :=
      h.exists_chain (Nat.zero_le _)
    simp only [List.nil_append, Nat.zero_add] at hlabels hlen hread
    refine ⟨s, rest, hstart, hchain, hlabels, ?_, hmax, hread, hnext⟩
    rw [hlen, ← hlabels, Name.wireLength_eq]
  · rintro ⟨s, rest, hstart, hchain, hlabels, hlen, hmax, hread, rfl⟩
    have hlen' : n.len = Name.wireLength n.labels := by rw [hlen, Name.wireLength_eq]
    have h := NameWalk.ends_of_chain (w := { cursor := o }) hchain rfl hstart.symm
      (by rw [← hlabels, ← hlen', Nat.zero_add]; exact hmax) (by rw [Nat.zero_add]; exact hread)
    rw [List.nil_append, ← hlabels, ← hlen', Nat.zero_add] at h
    exact h

end PortalDns
