-- The laws of names that go in circles: a name that comes back to one of its
-- items is refused, and none is refused as a loop unless it reads an octet twice.
import PortalDns.Proofs.NameReads

namespace PortalDns

/-! ## Following labels and pointers -/

/-- Where the label or the pointer at an offset leads, by its length octet alone: behind so many
octets, or to its target. Whether the datagram has octets there is not asked. -/
inductive LeadsTo (d : Octets) (o : Nat) : Nat → Prop
  | label {size : UInt8} : d[o]? = some size → size ≠ 0 → size.toNat ≤ 63 →
      LeadsTo d o (o + 1 + size.toNat)
  | pointer {high low : UInt8} : d[o]? = some high → d[o + 1]? = some low →
      high &&& 0xC0 = 0xC0 → LeadsTo d o ((high &&& 0x3F).toNat * 256 + low.toNat)

/-- Labels and pointers lead from an offset to one that is led back to. -/
def GoesInCircles (d : Octets) (o : Nat) : Prop :=
  ∃ c, Relation.ReflTransGen (LeadsTo d) o c ∧ Relation.TransGen (LeadsTo d) c c

section Circles

variable {d : Octets} {o a : Nat}

theorem LeadsTo.lt_length (h : LeadsTo d o a) : o < d.length := by
  cases h with
  | label hsize _ _ => exact (List.getElem?_eq_some_iff.mp hsize).1
  | pointer hhigh _ _ => exact (List.getElem?_eq_some_iff.mp hhigh).1

/-- A circle has no end: something leads on, and what it leads to goes in circles too. -/
theorem GoesInCircles.exists_next (h : GoesInCircles d o) :
    ∃ a, LeadsTo d o a ∧ GoesInCircles d a := by
  obtain ⟨c, hreach, hcircle⟩ := h
  rcases hreach.cases_head with rfl | ⟨a, ha, hreach'⟩
  · obtain ⟨a, ha, hback⟩ := Relation.TransGen.head'_iff.mp hcircle
    exact ⟨a, ha, o, hback, hcircle⟩
  · exact ⟨a, ha, c, hreach', hcircle⟩

theorem GoesInCircles.lt_length (h : GoesInCircles d o) : o < d.length := by
  obtain ⟨_, ha, _⟩ := h.exists_next
  exact ha.lt_length

/-- On a circle stand whole items, since what they lead to is inside the datagram. -/
theorem GoesInCircles.item_cases (h : GoesInCircles d o) :
    (∃ l : Label, ItemAt d o (.label l) ∧ GoesInCircles d (o + (1 + l.size))) ∨
      ∃ target, PointerAt d o target ∧ GoesInCircles d target := by
  obtain ⟨a, ha, hcircle⟩ := h.exists_next
  have hinside := hcircle.lt_length
  cases ha with
  | @label size hsize h0 h63 =>
    obtain ⟨l, hne, hpre, _⟩ := NameItem.read_of_label hsize h0 h63 (by omega)
    refine .inl ⟨l, .label hne hpre, ?_⟩
    have hfirst := (encode_prefix_iff.mp hpre).1
    rw [hsize, Option.some.injEq] at hfirst
    rw [← l.toNat_ofNat_size, ← hfirst, ← Nat.add_assoc]
    exact hcircle
  | pointer hhigh hlow htop =>
    exact .inr ⟨_, ⟨_, _, hhigh, hlow, htop, rfl, hinside⟩, hcircle⟩

/-- On a circle the loop turns until a bound stops it. -/
theorem GoesInCircles.step_cases {w : NameWalk} (h : GoesInCircles d w.cursor) :
    NameWalk.step d.toArray w = .error .pointerLoop ∨
      NameWalk.step d.toArray w = .error .tooLong ∨
      ∃ v, NameWalk.step d.toArray w = .ok (.next v) ∧ GoesInCircles d v.cursor := by
  rcases h.item_cases with ⟨l, hl, hcircle⟩ | ⟨target, hp, hcircle⟩
  · rcases NameWalk.step_cases_of_label hl with hstep | ⟨hstep, _⟩ | hstep
    · exact .inr (.inl hstep)
    · exact .inl hstep
    · exact .inr (.inr ⟨_, hstep, hcircle⟩)
  · rcases NameWalk.step_cases_of_pointer hp with ⟨hstep, _⟩ | hstep
    · exact .inl hstep
    · exact .inr (.inr ⟨_, hstep, hcircle⟩)

theorem GoesInCircles.finish_cases {w : NameWalk} (h : GoesInCircles d w.cursor) :
    NameWalk.finish d.toArray w = .error .pointerLoop ∨
      NameWalk.finish d.toArray w = .error .tooLong := by
  induction w using NameWalk.finish.induct (d := d.toArray) with
  | case1 w fault hstep =>
    rw [NameWalk.finish_of_error hstep]
    simpa [hstep] using h.step_cases
  | case2 w n next hstep =>
    have hnever := h.step_cases
    simp [hstep] at hnever
  | case3 w v hstep ih =>
    have hcircle : GoesInCircles d v.cursor := by simpa [hstep] using h.step_cases
    rw [NameWalk.finish_of_next hstep]
    exact ih hcircle

end Circles

/-! ## Loops read octets twice -/

section Loops

variable {d : Octets} {o : Nat}

/-- A name that is refused as a loop has read more octets than the datagram has. -/
theorem Name.length_lt_of_pointerLoop (h : Name.decode d o = .error .pointerLoop) :
    d.length < (Name.offsetsRead d o).length := by
  have hturns := Name.turns_decode d o
  rw [h] at hturns
  obtain ⟨u, hlast, _, hread, _⟩ := hturns.exists_last (Nat.zero_le _)
  have hspent := NameWalk.lt_of_step_pointerLoop hlast.step_of_error
  simp only [Nat.zero_add] at hread
  unfold Name.offsetsRead
  omega

theorem Name.not_nodup_of_pointerLoop (h : Name.decode d o = .error .pointerLoop) :
    ¬ (Name.offsetsRead d o).Nodup := by
  intro hnodup
  have hle := Name.length_offsetsRead_le_of_nodup hnodup
  have hlt := Name.length_lt_of_pointerLoop h
  omega

end Loops

/-- Reading a name that comes back to an item ends with one of the two faults that stop circles. A
name is refused as a loop only if an octet of the datagram is read twice, so never if its segments
lie apart, wherever they do. -/
theorem a_name_in_circles_is_refused_and_a_loop_reads_an_octet_twice (d : Octets) (o : Nat) :
    (∀ c, Relation.ReflTransGen (LeadsTo d) o c → Relation.TransGen (LeadsTo d) c c →
      Name.decode d o = .error .pointerLoop ∨ Name.decode d o = .error .tooLong) ∧
    (Name.decode d o = .error .pointerLoop →
      ∃ i < d.length, 2 ≤ (Name.offsetsRead d o).count i) ∧
    ∀ s rest, s.start = o → NameChain d (s :: rest) → (NameChain.offsets (s :: rest)).Nodup →
      Name.decode d o ≠ .error .pointerLoop := by
  refine ⟨?_, ?_, ?_⟩
  · intro c hreach hcircle
    exact GoesInCircles.finish_cases (w := { cursor := o }) ⟨c, hreach, hcircle⟩
  · intro hloop
    have htwice := Name.not_nodup_of_pointerLoop hloop
    rw [List.nodup_iff_count_le_one] at htwice
    push Not at htwice
    obtain ⟨i, hi⟩ := htwice
    have hmem : i ∈ Name.offsetsRead d o := List.count_pos_iff.mp (by omega)
    exact ⟨i, Name.lt_of_mem_offsetsRead hmem, hi⟩
  · intro s rest hstart hchain hapart hloop
    have halong := hchain.readsAlong (w := { cursor := o }) rfl hstart.symm
    have hfront : Name.offsetsRead d o <+: NameChain.offsets (s :: rest) := by
      rw [Name.offsetsRead_eq_reads]
      exact halong.front
    exact Name.not_nodup_of_pointerLoop hloop (hapart.sublist hfront.sublist)

/-- Two pointers to each other, and a name that jumps back to its end. -/
theorem two_pointers_to_each_other_are_a_loop :
    (Name.decode [192, 2, 192, 0] 0 = .error .pointerLoop ∨
        Name.decode [192, 2, 192, 0] 0 = .error .tooLong) ∧
      (∃ i < 4, 2 ≤ (Name.offsetsRead [192, 2, 192, 0] 0).count i) ∧
      Name.decode [0, 1, 97, 192, 0] 1 ≠ .error .pointerLoop := by
  have hthere : LeadsTo [192, 2, 192, 0] 0 2 := @LeadsTo.pointer _ 0 192 2 rfl rfl rfl
  have hback : LeadsTo [192, 2, 192, 0] 2 0 := @LeadsTo.pointer _ 2 192 0 rfl rfl rfl
  obtain ⟨hcircles, htwice, _⟩ :=
    a_name_in_circles_is_refused_and_a_loop_reads_an_octet_twice [192, 2, 192, 0] 0
  obtain ⟨_, _, hapart⟩ :=
    a_name_in_circles_is_refused_and_a_loop_reads_an_octet_twice [0, 1, 97, 192, 0] 1
  refine ⟨hcircles 0 .refl (.tail (.single hthere) hback), htwice (by cbv), ?_⟩
  have hchain : NameChain [0, 1, 97, 192, 0] [⟨1, [⟨[97], by decide⟩]⟩, ⟨0, []⟩] := by
    refine .link ⟨by decide, by decide⟩ ⟨192, 0, rfl, rfl, rfl, rfl, by decide⟩ ?_
    exact .last ⟨by decide, by decide⟩ rfl
  exact hapart ⟨1, [⟨[97], by decide⟩]⟩ [⟨0, []⟩] rfl hchain (by decide)

end PortalDns
