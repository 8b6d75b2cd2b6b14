-- The laws of names between writing and reading: a name that is written is
-- read back wherever it stands, and a name that is read stands there as it
-- would be written, up to its first pointer.
import PortalDns.Proofs.NameCopies
import PortalDns.Proofs.Writing

namespace PortalDns

/-! ## Lengths -/

namespace Name

theorem length_encode_labels (ls : List Label) :
    (ls.flatMap Label.encode).length = wireLength ls := by
  induction ls with
  | nil => rfl
  | cons l ls ih =>
    rw [List.flatMap_cons, List.length_append, l.length_encode, ih, wireLength_cons]

theorem length_encode (n : Name) : n.encode.length = wireLength n.labels :=
  length_encode_labels n.labels

namespace WellFormed

variable {n : Name}

theorem length_eq (h : n.WellFormed) : n.encode.length = n.len := by
  rw [length_encode, h.len_eq]

/-- The labels of a name, the last of which ends it. -/
theorem labels_eq (h : n.WellFormed) : n.labels = n.labels.dropLast ++ [Label.empty] := by
  obtain ⟨ls, hlabels⟩ := List.getLast?_eq_some_iff.mp h.last_empty
  rw [hlabels, List.dropLast_concat]

theorem encode_eq (h : n.WellFormed) :
    n.encode = n.labels.dropLast.flatMap Label.encode ++ [0] := by
  rw [encode, h.labels_eq, List.flatMap_append, List.dropLast_concat]
  rfl

/-- Every name takes an octet at least, the zero that ends it. -/
theorem length_pos (h : n.WellFormed) : 0 < n.encode.length := by
  rw [h.encode_eq, List.length_append, List.length_singleton]
  exact Nat.succ_pos _

end WellFormed

/-! ## Names that were written -/

section Written

variable {d : Octets} {o : Nat} {n : Name}

/-- A name that was written stands in one segment, without a pointer. -/
theorem WellFormed.chain (h : n.WellFormed) (hstands : n.encode <+: d.drop o) :
    NameChain d [⟨o, n.labels.dropLast⟩] := by
  rw [h.encode_eq, append_prefix_drop_iff, length_encode_labels] at hstands
  obtain ⟨hlabels, t, ht⟩ := hstands
  refine .last ⟨h.inner_nonempty, hlabels⟩ ?_
  rw [NameSegment.stop, ← List.head?_drop, ← ht]
  rfl

/-- A name is read back where it was written, whatever stands around it. -/
theorem decode_of_encode (h : n.WellFormed) (hstands : n.encode <+: d.drop o) :
    decode d o = .ok (n, o + n.len) := by
  have hlabels := h.labels_eq
  have hlen : n.len = wireLength n.labels.dropLast + 1 := by
    rw [h.len_eq, hlabels, List.dropLast_concat, wireLength_append, wireLength_cons,
      wireLength_nil, Label.size_empty]
  have hmax := h.len_le
  have hfit := hstands.length_le
  rw [h.length_eq, List.length_drop] at hfit
  have hends := NameWalk.ends_of_chain (w := { cursor := o }) (h.chain hstands) rfl rfl
    (by
      simp only [List.flatMap_singleton, wireLength_append, wireLength_cons, wireLength_nil,
        Label.size_empty]
      omega)
    (by
      simp only [NameChain.octetsBeforeEnd, List.flatMap_singleton, List.length_singleton]
      omega)
  rw [List.flatMap_singleton, List.nil_append, ← hlabels, ← h.len_eq, Nat.zero_add] at hends
  rw [decode_eq_ok_iff, hlen, ← Nat.add_assoc]
  exact hends

end Written

end Name

/-! ## Names that were read -/

/-- At one offset stands one item. -/
theorem ItemAt.unique {d : Octets} {o : Nat} {item item' : NameItem} (h : ItemAt d o item)
    (h' : ItemAt d o item') : item = item' := by
  have hread := NameItem.read_of_itemAt h
  rw [NameItem.read_of_itemAt h'] at hread
  cases hread
  rfl

/-- On its way, the reading of the name at an offset follows a pointer. -/
def Name.FollowsPointer (d : Octets) (o : Nat) : Prop :=
  ∃ w ∈ Name.trail d o, ∃ target, PointerAt d w.cursor target

namespace NameWalk

variable {d : Octets} {w : NameWalk} {n : Name} {next : Nat}

/-- A walk that has not followed a pointer yet passes labels that stand one behind the other, to
the end of the name or to a pointer. Which labels the pointer leads to is left open, since the walk
does not stand behind the first ones any more. -/
theorem Ends.exists_front (h : Ends d w n next) (hroom : w.consumed ≤ d.length)
    (hnone : w.resume = none) :
    ∃ ls more, n.labels = w.labels ++ ls ++ more ∧ ls.flatMap Label.encode <+: d.drop w.cursor ∧
      (more = [] ∧ next = w.cursor + Name.wireLength ls ∧ next ≤ d.length ∧
          (∀ u ∈ trail d.toArray w, ∀ target, ¬ PointerAt d u.cursor target) ∨
        next = w.cursor + Name.wireLength ls + 2 ∧ next ≤ d.length ∧
          ∃ u ∈ trail d.toArray w, ∃ target, PointerAt d u.cursor target) := by
  induction h with
  | @final w h0 hmax =>
    have hlt : w.cursor < d.length := (List.getElem?_eq_some_iff.mp h0).1
    refine ⟨[Label.empty], [], by simp [result, pass], ?_, .inl ⟨rfl, ?_, ?_, ?_⟩⟩
    · rw [List.flatMap_singleton, encode_prefix_iff]
      exact ⟨h0, List.nil_prefix⟩
    · simp [result, pass, hnone]
    · simpa [result, pass, hnone] using hlt
    · rw [trail_of_done (step_of_final h0 hmax), List.forall_mem_singleton]
      intro target hp
      cases (ItemAt.final h0).unique (.pointer hp)
  | @label w l n next hl hmax hroom' _ ih =>
    obtain ⟨ls, more, hlabels, hfront, hend⟩ := ih hroom' hnone
    simp only [pass] at hlabels hfront hend
    refine ⟨l :: ls, more, by simpa using hlabels, ?_, ?_⟩
    · rw [List.flatMap_cons, append_prefix_drop_iff, l.length_encode]
      cases hl with
      | label _ hpre => exact ⟨hpre, hfront⟩
    · rw [trail_of_next (step_of_label hl hmax hroom'), Name.wireLength_cons]
      rcases hend with ⟨hmore, hnext, hle, hno⟩ | ⟨hnext, hle, u, hu, hp⟩
      · refine .inl ⟨hmore, by omega, hle, List.forall_mem_cons.mpr ⟨?_, hno⟩⟩
        intro target hp
        cases hl.unique (.pointer hp)
      · exact .inr ⟨by omega, hle, u, List.mem_cons_of_mem w hu, hp⟩
  | @pointer w target n next hp hroom' hends _ =>
    obtain ⟨more, hlabels⟩ := hends.labels_prefix hroom'
    have hle : w.cursor + 2 ≤ d.length := (ItemAt.pointer hp).le_length
    have hnext := hends.next_of_jump hroom' hnone
    refine ⟨[], more, ?_, List.nil_prefix, .inr ⟨hnext, by omega, w, mem_trail_self d w, _, hp⟩⟩
    rw [List.append_nil]
    exact hlabels.symm

end NameWalk

/-- What is read is what would be written, up to the first pointer or to the end. -/
theorem Name.encode_of_decode {d : Octets} {o next : Nat} {n : Name}
    (h : Name.decode d o = .ok (n, next)) :
    (¬ Name.FollowsPointer d o ∧ next = o + n.encode.length ∧ next ≤ d.length ∧
        n.encode <+: d.drop o) ∨
      Name.FollowsPointer d o ∧ ∃ front, front <+: n.encode ∧ next = o + front.length + 2 ∧
        next ≤ d.length ∧ front <+: d.drop o := by
  obtain ⟨ls, more, hlabels, hfront, hend⟩ :=
    (Name.decode_eq_ok_iff.mp h).exists_front (Nat.zero_le _) rfl
  rw [List.nil_append] at hlabels
  have hencode : n.encode = ls.flatMap Label.encode ++ more.flatMap Label.encode := by
    rw [Name.encode, hlabels, List.flatMap_append]
  rcases hend with ⟨rfl, hnext, hle, hno⟩ | ⟨hnext, hle, hp⟩
  · rw [List.flatMap_nil, List.append_nil] at hencode
    refine .inl ⟨?_, ?_, hle, hencode ▸ hfront⟩
    · rintro ⟨w, hw, target, hp⟩
      exact hno w hw target hp
    · rw [hencode, Name.length_encode_labels, hnext]
  · refine .inr ⟨hp, ls.flatMap Label.encode, ?_, ?_, hle, hfront⟩
    · rw [hencode]
      exact List.prefix_append _ _
    · rw [Name.length_encode_labels, hnext]

/-- The octets from where a stretch stands to its end are that stretch. -/
theorem Octets.extract_of_prefix {d a : Octets} {o : Nat} (h : a <+: d.drop o) :
    d.extract o (o + a.length) = a := by
  rw [List.extract_eq_take_drop, Nat.add_sub_cancel_left]
  exact (List.prefix_iff_eq_take.mp h).symm

/-! ## The law of names written and read -/

/-- What is written for a name is read back as that name, wherever it stands. And where a name is
read stands what would be written for it, up to its end or to the first pointer. -/
theorem a_name_is_read_as_it_is_written :
    (∀ n : Name, n.WellFormed → n.encode.length = n.len ∧
      (∀ w : Writer, w.size + n.len ≤ w.limit →
        n.write w = .ok () { w with octets := w.octets ++ n.encode }) ∧
      ∀ p s, Name.decode (p ++ n.encode ++ s) p.length = .ok (n, p.length + n.len)) ∧
    ∀ d o n next, Name.decode d o = .ok (n, next) → next ≤ d.length ∧
      (¬ Name.FollowsPointer d o → o ≤ next ∧ d.extract o next = n.encode) ∧
      (Name.FollowsPointer d o → o + 2 ≤ next ∧ d.extract o (next - 2) <+: n.encode) := by
  constructor
  · intro n hn
    refine ⟨hn.length_eq, ?_, ?_⟩
    · intro w hroom
      rw [← hn.length_eq] at hroom
      exact (appends_name n).fits w hroom
    · intro p s
      apply Name.decode_of_encode hn
      rw [List.append_assoc, List.drop_left]
      exact List.prefix_append _ _
  · intro d o n next h
    rcases Name.encode_of_decode h with
      ⟨hno, hnext, hle, hstands⟩ | ⟨hpointer, front, hfront, hnext, hle, hstands⟩
    · refine ⟨hle, fun _ => ⟨by omega, ?_⟩, fun hpointer => absurd hpointer hno⟩
      rw [hnext, Octets.extract_of_prefix hstands]
    · refine ⟨hle, fun hno => absurd hpointer hno, fun _ => ⟨by omega, ?_⟩⟩
      rw [hnext, Nat.add_sub_cancel, Octets.extract_of_prefix hstands]
      exact hfront

/-- A name between other octets, and one whose second label is behind a pointer. -/
theorem a_name_is_read_in_one_piece_and_in_two :
    Name.decode ([7, 7] ++ [1, 97, 1, 98, 0] ++ [7]) 2 =
        .ok (⟨[⟨[97], by decide⟩, ⟨[98], by decide⟩, Label.empty], 5⟩, 7) ∧
      Name.FollowsPointer [1, 97, 192, 5, 7, 1, 98, 0] 0 ∧
      [1, 97] <+: ([1, 97, 1, 98, 0] : Octets) := by
  obtain ⟨hwritten, hread⟩ := a_name_is_read_as_it_is_written
  have hpointer : Name.FollowsPointer [1, 97, 192, 5, 7, 1, 98, 0] 0 := by
    have hwalk : (Name.trail [1, 97, 192, 5, 7, 1, 98, 0] 0)[1]? =
        some ⟨2, none, 2, [⟨[97], by decide⟩], 2⟩ := by
      cbv
    exact ⟨_, List.mem_of_getElem? hwalk, 5, 192, 5, rfl, rfl, by decide, by decide, by decide⟩
  obtain ⟨_, _, hsame⟩ := hwritten ⟨[⟨[97], by decide⟩, ⟨[98], by decide⟩, Label.empty], 5⟩
    ⟨by decide, by decide, by decide, by decide⟩
  obtain ⟨_, _, hfront⟩ := hread [1, 97, 192, 5, 7, 1, 98, 0] 0
    ⟨[⟨[97], by decide⟩, ⟨[98], by decide⟩, Label.empty], 5⟩ 4 (by cbv)
  exact ⟨hsame [7, 7] [7], hpointer, (hfront hpointer).2⟩

end PortalDns
