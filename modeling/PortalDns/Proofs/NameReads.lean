-- The laws of what is read for a name: which octets, how many of them, and how
-- often the loop turns that reads them.
import PortalDns.Proofs.NameCopies

namespace PortalDns

/-! ## What is read of one item -/

theorem NameItem.width_le (item : NameItem) : item.width ≤ 64 := by
  cases item with
  | label l =>
    have hsize : l.size ≤ 63 := l.length_le
    simp only [width]
    omega
  | pointer | final => simp [width]

/-- Labels that are not empty and pointers take two octets at least. -/
theorem ItemAt.two_le_width {d : Octets} {o : Nat} {item : NameItem} (h : ItemAt d o item)
    (hne : item ≠ .final) : 2 ≤ item.width := by
  cases h with
  | @label l hl _ =>
    rw [ne_eq, ← l.size_eq_zero_iff] at hl
    simp only [NameItem.width]
    omega
  | pointer => exact Nat.le_refl 2
  | final => exact absurd rfl hne

namespace NameWalk

section Turns

variable {d : Octets} {w v u : NameWalk} {ws : List NameWalk} {fault : NameFault}
  {out : Except NameFault (Name × Nat)}

theorem offsets_of_item {item : NameItem} (h : ItemAt d w.cursor item) :
    offsets d.toArray w = List.range' w.cursor item.width := by
  simp [offsets, readEnd, NameItem.read_of_itemAt h]

theorem length_offsets_of_item {item : NameItem} (h : ItemAt d w.cursor item) :
    (offsets d.toArray w).length = item.width := by
  rw [offsets_of_item h, List.length_range']

/-- What is read at a cursor is a stretch inside the datagram, no longer than the longest item. -/
theorem exists_offsets (d : Octets) (w : NameWalk) :
    ∃ size ≤ 64, offsets d.toArray w = List.range' w.cursor size ∧
      (size ≠ 0 → w.cursor + size ≤ d.length) := by
  rcases NameItem.itemAt_or_fault d w.cursor with ⟨item, hitem⟩ | ⟨_, size, hread, hsize, hle, _⟩
  · exact ⟨item.width, item.width_le, offsets_of_item hitem, fun _ => hitem.le_length⟩
  · exact ⟨size, by omega, by simp [offsets, readEnd, hread], hle⟩

theorem length_offsets_le (d : Octets) (w : NameWalk) : (offsets d.toArray w).length ≤ 64 := by
  obtain ⟨size, hsize, heq, _⟩ := exists_offsets d w
  rw [heq, List.length_range']
  exact hsize

theorem lt_of_mem_offsets {i : Nat} (h : i ∈ offsets d.toArray w) : i < d.length := by
  obtain ⟨size, _, heq, hle⟩ := exists_offsets d w
  rw [heq, List.mem_range'_1] at h
  have := hle (by omega)
  omega

/-! ## Turns of the loop -/

/-- Which walks the loop turns through that reads a name, each with one item read from it, and what
comes of the last one. -/
inductive Turns (d : Array UInt8) :
    NameWalk → List NameWalk → Except NameFault (Name × Nat) → Prop
  | fault {w : NameWalk} {fault : NameFault} :
      step d w = .error fault → Turns d w [w] (.error fault)
  | done {w : NameWalk} {n : Name} {next : Nat} :
      step d w = .ok (.done n next) → Turns d w [w] (.ok (n, next))
  | next {w v : NameWalk} {ws : List NameWalk} {out : Except NameFault (Name × Nat)} :
      step d w = .ok (.next v) → Turns d v ws out → Turns d w (w :: ws) out

/-- A trail holds the turns of the loop, all of them, so the loop ends. -/
theorem turns_trail (d : Octets) (w : NameWalk) :
    Turns d.toArray w (trail d.toArray w) (finish d.toArray w) := by
  induction w using NameWalk.finish.induct (d := d.toArray) with
  | case1 w fault hstep =>
    rw [trail_of_error hstep, finish_of_error hstep]
    exact .fault hstep
  | case2 w n next hstep =>
    rw [trail_of_done hstep, finish_of_done hstep]
    exact .done hstep
  | case3 w v hstep ih =>
    rw [trail_of_next hstep, finish_of_next hstep]
    exact .next hstep ih

/-- A turn that the loop goes on from consumes what it reads: two octets at least, within the
budget. -/
theorem consumed_of_next (h : step d.toArray w = .ok (.next v)) :
    v.consumed = w.consumed + (offsets d.toArray w).length ∧
      2 ≤ (offsets d.toArray w).length ∧ v.consumed ≤ d.length := by
  rcases cases_of_step_next h with ⟨l, hl, rfl, _, hroom⟩ | ⟨target, hp, rfl, hroom⟩
  · rw [length_offsets_of_item hl]
    exact ⟨rfl, hl.two_le_width NameItem.noConfusion, hroom⟩
  · rw [length_offsets_of_item (.pointer hp)]
    exact ⟨rfl, Nat.le_refl 2, hroom⟩

/-- The account of a loop, in which each turn but the last one pays for what it reads: before its
last turn it has consumed all that was read, within the budget, and two octets at least for each
turn. -/
theorem Turns.exists_last (h : Turns d.toArray w ws out) (hroom : w.consumed ≤ d.length) :
    ∃ u, Turns d.toArray u [u] out ∧ u.consumed ≤ d.length ∧
      w.consumed + (ws.flatMap (offsets d.toArray)).length =
        u.consumed + (offsets d.toArray u).length ∧
      w.consumed + 2 * ws.length ≤ u.consumed + 2 := by
  induction h with
  | @fault w fault hstep => exact ⟨w, .fault hstep, hroom, by simp, by simp⟩
  | @done w n next hstep => exact ⟨w, .done hstep, hroom, by simp, by simp⟩
  | @next w v ws out hstep _ ih =>
    obtain ⟨hconsumed, htwo, hroom'⟩ := consumed_of_next hstep
    obtain ⟨u, hlast, hu, hread, hturns⟩ := ih hroom'
    refine ⟨u, hlast, hu, ?_, ?_⟩
    · rw [List.flatMap_cons, List.length_append]
      omega
    · rw [List.length_cons]
      omega

theorem Turns.step_of_error (h : Turns d.toArray u [u] (.error fault)) :
    step d.toArray u = .error fault := by
  cases h with
  | fault hstep => exact hstep
  | next _ hrest => cases hrest

end Turns

/-! ## What the loop makes of an item -/

section Items

variable {d : Octets} {w v : NameWalk} {fault : NameFault}

theorem step_of_fault {rest : Reader}
    (h : NameItem.read ⟨d.toArray, w.cursor⟩ = .error fault rest) :
    step d.toArray w = .error fault := by
  simp only [step, h]

/-- From a label the loop goes on, unless the name gets too long or the budget is spent. -/
theorem step_cases_of_label {l : Label} (h : ItemAt d w.cursor (.label l)) :
    step d.toArray w = .error .tooLong ∨
      step d.toArray w = .error .pointerLoop ∧ d.length < (w.pass l).consumed ∨
      step d.toArray w = .ok (.next (w.pass l)) := by
  by_cases hlen : (w.pass l).len ≤ Name.maxLength
  · by_cases hroom : (w.pass l).consumed ≤ d.length
    · exact .inr (.inr (step_of_label h hlen hroom))
    · refine .inr (.inl ⟨?_, by omega⟩)
      rw [step_label h, if_neg (by omega), if_pos (by omega)]
  · refine .inl ?_
    rw [step_label h, if_pos (by omega)]

/-- From a pointer the loop goes on, unless the budget is spent. -/
theorem step_cases_of_pointer {target : Nat} (h : PointerAt d w.cursor target) :
    step d.toArray w = .error .pointerLoop ∧ d.length < (w.jump target).consumed ∨
      step d.toArray w = .ok (.next (w.jump target)) := by
  by_cases hroom : (w.jump target).consumed ≤ d.length
  · exact .inr (step_of_pointer h hroom)
  · refine .inl ⟨?_, by omega⟩
    rw [step_pointer h, if_pos (by omega)]

/-- At the end of a name the loop ends, whatever was consumed: the budget is not looked at. -/
theorem step_cases_of_final (h : d[w.cursor]? = some 0) :
    step d.toArray w = .error .tooLong ∨
      ∃ n next, step d.toArray w = .ok (.done n next) := by
  by_cases hlen : (w.pass Label.empty).len ≤ Name.maxLength
  · exact .inr ⟨_, _, step_of_final h hlen⟩
  · refine .inl ?_
    rw [step_final h, if_pos (by omega)]

/-- A name is a loop when more octets have been read than the datagram has. -/
theorem lt_of_step_pointerLoop (h : step d.toArray w = .error .pointerLoop) :
    d.length < w.consumed + (offsets d.toArray w).length := by
  rcases NameItem.itemAt_or_fault d w.cursor with ⟨item, hitem⟩ | ⟨_, _, hread, _, _, hne⟩
  · rw [length_offsets_of_item hitem]
    cases item with
    | label l =>
      rcases step_cases_of_label hitem with hstep | ⟨_, hspent⟩ | hstep
      · simp [h] at hstep
      · exact hspent
      · simp [h] at hstep
    | pointer target =>
      cases hitem with
      | pointer hp =>
        rcases step_cases_of_pointer hp with ⟨_, hspent⟩ | hstep
        · exact hspent
        · simp [h] at hstep
    | final =>
      cases hitem with
      | final h0 =>
        have hstep := step_cases_of_final h0
        simp [h] at hstep
  · rw [step_of_fault hread] at h
    cases h
    exact absurd rfl hne

end Items

/-! ## What is read along a chain -/

/-- The offsets of all octets that are read from a walk on. -/
def reads (d : Array UInt8) (w : NameWalk) : List Nat := (trail d w).flatMap (offsets d)

/-- What is read from a walk on is all of these octets, or the front of them up to a fault. -/
structure ReadsAlong (d : Octets) (w : NameWalk) (xs : List Nat) : Prop where
  front : reads d.toArray w <+: xs
  whole : ∀ r, finish d.toArray w = .ok r → reads d.toArray w = xs

section Chains

variable {d : Octets} {w v : NameWalk} {fault : NameFault} {xs : List Nat}

theorem ReadsAlong.of_error (h : step d.toArray w = .error fault)
    (hxs : offsets d.toArray w <+: xs) : ReadsAlong d w xs := by
  refine ⟨?_, ?_⟩
  · simpa [reads, trail_of_error h] using hxs
  · intro r hr
    rw [finish_of_error h] at hr
    cases hr

theorem ReadsAlong.of_next (h : step d.toArray w = .ok (.next v)) (hv : ReadsAlong d v xs) :
    ReadsAlong d w (offsets d.toArray w ++ xs) := by
  have hreads : reads d.toArray w = offsets d.toArray w ++ reads d.toArray v := by
    simp [reads, trail_of_next h]
  refine ⟨?_, ?_⟩
  · rw [hreads, List.prefix_append_right_inj]
    exact hv.front
  · intro r hr
    rw [finish_of_next h] at hr
    rw [hreads, hv.whole r hr]

theorem ReadsAlong.label {l : Label} (hl : ItemAt d w.cursor (.label l))
    (hv : ReadsAlong d (w.pass l) xs) :
    ReadsAlong d w (List.range' w.cursor (1 + l.size) ++ xs) := by
  have hoffsets : offsets d.toArray w = List.range' w.cursor (1 + l.size) := offsets_of_item hl
  rw [← hoffsets]
  rcases step_cases_of_label hl with hstep | ⟨hstep, _⟩ | hstep
  · exact .of_error hstep (List.prefix_append _ _)
  · exact .of_error hstep (List.prefix_append _ _)
  · exact .of_next hstep hv

theorem ReadsAlong.pointer {target : Nat} (hp : PointerAt d w.cursor target)
    (hv : ReadsAlong d (w.jump target) xs) :
    ReadsAlong d w (List.range' w.cursor 2 ++ xs) := by
  have hoffsets : offsets d.toArray w = List.range' w.cursor 2 := offsets_of_item (.pointer hp)
  rw [← hoffsets]
  rcases step_cases_of_pointer hp with ⟨hstep, _⟩ | hstep
  · exact .of_error hstep (List.prefix_append _ _)
  · exact .of_next hstep hv

theorem ReadsAlong.final (h0 : d[w.cursor]? = some 0) :
    ReadsAlong d w (List.range' w.cursor 1) := by
  have hoffsets : offsets d.toArray w = List.range' w.cursor 1 := offsets_of_item (.final h0)
  rw [← hoffsets]
  rcases step_cases_of_final h0 with hstep | ⟨n, next, hstep⟩
  · exact .of_error hstep (List.prefix_refl _)
  · have hreads : reads d.toArray w = offsets d.toArray w := by
      simp [reads, trail_of_done hstep]
    exact ⟨hreads ▸ List.prefix_refl _, fun _ _ => hreads⟩

/-- Labels that stand one behind the other are read so. -/
theorem ReadsAlong.labels {ls : List Label} (hne : ∀ l ∈ ls, l ≠ Label.empty)
    (h : ls.flatMap Label.encode <+: d.drop w.cursor) (hv : ReadsAlong d (w.passAll ls) xs) :
    ReadsAlong d w (List.range' w.cursor (Name.wireLength ls) ++ xs) := by
  induction ls generalizing w with
  | nil => simpa [passAll] using hv
  | cons l ls ih =>
    rw [List.flatMap_cons, append_prefix_drop_iff, l.length_encode] at h
    rw [passAll_cons] at hv
    have hrest := ih (fun l' hl' => hne l' (List.mem_cons_of_mem l hl')) h.2 hv
    have hall := ReadsAlong.label (.label (hne l (by simp)) h.1) hrest
    rw [Name.wireLength_cons, ← List.range'_append_1, List.append_assoc]
    exact hall

end Chains

end NameWalk

namespace NameChain

/-- The offsets of the octets of a chain: of each segment its labels, and the pointer behind them or
the zero at the end. -/
def offsets : List NameSegment → List Nat
  | [] => []
  | s :: rest =>
    List.range' s.start (Name.wireLength s.labels + if rest = [] then 1 else 2) ++ offsets rest

/-- A chain has one octet more than are read before its end. -/
theorem length_offsets (s : NameSegment) (rest : List NameSegment) :
    (offsets (s :: rest)).length = octetsBeforeEnd (s :: rest) + 1 := by
  induction rest generalizing s with
  | nil => simp [offsets, octetsBeforeEnd]
  | cons t rest ih =>
    have hlen := ih t
    rw [offsets, List.length_append, List.length_range', hlen, octetsBeforeEnd_link,
      if_neg (List.cons_ne_nil t rest)]
    omega

/-- Along a chain that starts at the cursor its octets are read, one segment after the other, or a
front of them if the loop stops at one of its items. -/
theorem readsAlong {d : Octets} {chain rest : List NameSegment} {s : NameSegment} {w : NameWalk}
    (h : NameChain d chain) (hchain : chain = s :: rest) (hstart : w.cursor = s.start) :
    NameWalk.ReadsAlong d w (offsets chain) := by
  induction h generalizing w s rest with
  | @last s' hs h0 =>
    cases hchain
    have hend : NameWalk.ReadsAlong d (w.passAll s'.labels) (List.range' s'.stop 1) := by
      have hcursor : (w.passAll s'.labels).cursor = s'.stop := by
        simp only [NameWalk.passAll, hstart, NameSegment.stop]
      rw [← hcursor] at h0 ⊢
      exact .final h0
    have hall := NameWalk.ReadsAlong.labels hs.1 (hstart ▸ hs.2) hend
    rw [hstart] at hall
    rw [offsets, offsets, List.append_nil, if_pos rfl, ← List.range'_append_1]
    exact hall
  | @link s' t rest' hs hp _ ih =>
    cases hchain
    have hlink : NameWalk.ReadsAlong d (w.passAll s'.labels)
        (List.range' s'.stop 2 ++ offsets (t :: rest')) := by
      have hcursor : (w.passAll s'.labels).cursor = s'.stop := by
        simp only [NameWalk.passAll, hstart, NameSegment.stop]
      rw [← hcursor] at hp ⊢
      exact .pointer hp (ih rfl rfl)
    have hall := NameWalk.ReadsAlong.labels hs.1 (hstart ▸ hs.2) hlink
    rw [hstart] at hall
    rw [offsets, if_neg (List.cons_ne_nil t rest'), ← List.range'_append_1, List.append_assoc]
    exact hall

end NameChain

/-! ## How much is read for a name -/

namespace Name

variable {d : Octets} {o i : Nat}

/-- The offsets of the length octets that are read for the name at an offset: each item begins with
its own. -/
def lengthOffsetsRead (d : Octets) (offset : Nat) : List Nat :=
  (trail d offset).filterMap fun w => (NameWalk.offsets d.toArray w).head?

theorem offsetsRead_eq_reads (d : Octets) (o : Nat) :
    offsetsRead d o = NameWalk.reads d.toArray { cursor := o } := rfl

theorem lt_of_mem_offsetsRead (h : i ∈ offsetsRead d o) : i < d.length := by
  obtain ⟨w, _, hi⟩ := List.mem_flatMap.mp h
  exact NameWalk.lt_of_mem_offsets hi

theorem turns_decode (d : Octets) (o : Nat) :
    NameWalk.Turns d.toArray { cursor := o } (trail d o) (decode d o) :=
  NameWalk.turns_trail d { cursor := o }

/-- Of octets that are read once each there are no more than the datagram has. -/
theorem length_offsetsRead_le_of_nodup (h : (offsetsRead d o).Nodup) :
    (offsetsRead d o).length ≤ d.length := by
  have hsub : offsetsRead d o ⊆ List.range d.length := by
    intro i hi
    exact List.mem_range.mpr (lt_of_mem_offsetsRead hi)
  have hle := (List.subperm_of_subset h hsub).length_le
  rwa [List.length_range] at hle

end Name

/-- The loop that reads a name ends. It reads at most one length octet more than the datagram has
octets, in all at most 64 octets more than those, and none from outside. -/
theorem a_name_is_read_within_its_datagram (d : Octets) (o : Nat) :
    NameWalk.Turns d.toArray { cursor := o } (Name.trail d o) (Name.decode d o) ∧
      (Name.lengthOffsetsRead d o).length ≤ d.length + 1 ∧
      (Name.offsetsRead d o).length ≤ d.length + 64 ∧
      ∀ i ∈ Name.offsetsRead d o, i < d.length := by
  have hturns := Name.turns_decode d o
  obtain ⟨u, _, hroom, hread, hcount⟩ := hturns.exists_last (Nat.zero_le _)
  simp only [Nat.zero_add] at hread hcount
  have hlast := NameWalk.length_offsets_le d u
  refine ⟨hturns, ?_, ?_, fun i hi => Name.lt_of_mem_offsetsRead hi⟩
  · have hle : (Name.lengthOffsetsRead d o).length ≤ (Name.trail d o).length :=
      List.length_filterMap_le ..
    omega
  · unfold Name.offsetsRead
    omega

/-- A pointer to itself is followed until the budget is spent, one pointer beyond it. -/
theorem a_pointer_to_itself_is_read_twice :
    NameWalk.Turns #[192, 0] { cursor := 0 } (Name.trail [192, 0] 0) (.error .pointerLoop) ∧
      (Name.lengthOffsetsRead [192, 0] 0).length = 2 ∧ Name.offsetsRead [192, 0] 0 = [0, 1, 0, 1] ∧
      1 ∈ Name.offsetsRead [192, 0] 0 ∧ 1 < ([192, 0] : Octets).length := by
  obtain ⟨hturns, _, _, hinside⟩ := a_name_is_read_within_its_datagram [192, 0] 0
  have hloop : Name.decode [192, 0] 0 = .error .pointerLoop := by cbv
  have hread : Name.offsetsRead [192, 0] 0 = [0, 1, 0, 1] := by cbv
  have hmem : 1 ∈ Name.offsetsRead [192, 0] 0 := by simp [hread]
  rw [hloop] at hturns
  exact ⟨hturns, by cbv, hread, hmem, hinside 1 hmem⟩

/-- For a name the octets of its chain are read, in order. So many may be read before the zero at
the end as the datagram has, and then the zero is one more. That is never so unless an octet is read
twice. -/
theorem the_zero_of_a_name_may_be_read_beyond_the_budget {d : Octets} {o next : Nat} {n : Name}
    (h : Name.decode d o = .ok (n, next)) :
    ∃ s rest, s.start = o ∧ NameChain d (s :: rest) ∧
      n.labels = (s :: rest).flatMap NameSegment.labels ++ [Label.empty] ∧
      Name.offsetsRead d o = NameChain.offsets (s :: rest) ∧
      (Name.offsetsRead d o).length = NameChain.octetsBeforeEnd (s :: rest) + 1 ∧
      NameChain.octetsBeforeEnd (s :: rest) ≤ d.length ∧
      ((Name.offsetsRead d o).length ≤ d.length ↔
        NameChain.octetsBeforeEnd (s :: rest) ≠ d.length) ∧
      ((Name.offsetsRead d o).Nodup → (Name.offsetsRead d o).length ≤ d.length) := by
  obtain ⟨s, rest, hstart, hchain, hlabels, _, _, hroom, _⟩ :=
    (Name.decode_eq_ok_iff.mp h).exists_chain (Nat.zero_le _)
  simp only [List.nil_append, Nat.zero_add] at hlabels hroom
  have halong := hchain.readsAlong (w := { cursor := o }) rfl hstart.symm
  have hread : Name.offsetsRead d o = NameChain.offsets (s :: rest) := by
    rw [Name.offsetsRead_eq_reads]
    exact halong.whole (n, next) h
  have hlen : (Name.offsetsRead d o).length = NameChain.octetsBeforeEnd (s :: rest) + 1 := by
    rw [hread, NameChain.length_offsets]
  refine ⟨s, rest, hstart, hchain, hlabels, hread, hlen, hroom, ?_,
    Name.length_offsetsRead_le_of_nodup⟩
  rw [hlen]
  omega

/-- A name of two segments that do not overlap. -/
theorem a_name_in_two_segments_is_read_within_the_budget :
    Name.decode [1, 97, 192, 5, 7, 1, 98, 0] 0 =
        .ok (⟨[⟨[97], by decide⟩, ⟨[98], by decide⟩, Label.empty], 5⟩, 4) ∧
      Name.offsetsRead [1, 97, 192, 5, 7, 1, 98, 0] 0 = [0, 1, 2, 3, 5, 6, 7] ∧
      (Name.offsetsRead [1, 97, 192, 5, 7, 1, 98, 0] 0).length ≤ 8 := by
  have hname : Name.decode [1, 97, 192, 5, 7, 1, 98, 0] 0 =
      .ok (⟨[⟨[97], by decide⟩, ⟨[98], by decide⟩, Label.empty], 5⟩, 4) := by
    cbv
  have hread : Name.offsetsRead [1, 97, 192, 5, 7, 1, 98, 0] 0 = [0, 1, 2, 3, 5, 6, 7] := by cbv
  obtain ⟨_, _, _, _, _, _, _, _, _, hle⟩ :=
    the_zero_of_a_name_may_be_read_beyond_the_budget hname
  exact ⟨hname, hread, hle (by rw [hread]; decide)⟩

/-- The zero inside the label is read once more, as the end of the name: five octets of four. -/
theorem a_name_of_four_octets_is_read_by_reading_five :
    Name.decode [1, 0, 192, 1] 0 = .ok (⟨[⟨[0], by decide⟩, Label.empty], 3⟩, 4) ∧
      Name.offsetsRead [1, 0, 192, 1] 0 = [0, 1, 2, 3, 1] ∧
      ¬ (Name.offsetsRead [1, 0, 192, 1] 0).length ≤ ([1, 0, 192, 1] : Octets).length := by
  have hread : Name.offsetsRead [1, 0, 192, 1] 0 = [0, 1, 2, 3, 1] := by cbv
  exact ⟨by cbv, hread, by rw [hread]; decide⟩

end PortalDns
