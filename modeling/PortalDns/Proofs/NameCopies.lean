-- The laws of names in copies of a datagram: a name depends on the octets
-- that are read for it, and where it ends on those of its first segment.
import PortalDns.Name.Trail
import PortalDns.Proofs.NameChains

namespace PortalDns

/-! ## Items in copies -/

section Items

variable {d r : Octets} {o : Nat}

theorem agree_of_prefix_drop {a : Octets} (h : a <+: d.drop o) (h' : a <+: r.drop o) :
    ∀ i, o ≤ i → i < o + a.length → r[i]? = d[i]? := by
  intro i hge hlt
  rw [List.prefix_iff_getElem?] at h h'
  obtain ⟨k, rfl⟩ := Nat.exists_eq_add_of_le hge
  have hk := h k (by omega)
  have hk' := h' k (by omega)
  rw [List.getElem?_drop] at hk hk'
  rw [hk, hk']

theorem prefix_drop_of_agree {a : Octets} (h : a <+: d.drop o)
    (hagree : ∀ i, o ≤ i → i < o + a.length → r[i]? = d[i]?) : a <+: r.drop o := by
  rw [List.prefix_iff_getElem?] at h ⊢
  intro i hi
  have hi' := h i hi
  rw [List.getElem?_drop] at hi' ⊢
  rw [hagree (o + i) (by omega) (by omega), hi']

theorem PointerAt.copy {target : Nat} (h : PointerAt d o target) (hlen : d.length ≤ r.length)
    (hhigh : r[o]? = d[o]?) (hlow : r[o + 1]? = d[o + 1]?) : PointerAt r o target := by
  obtain ⟨x, y, hx, hy, htop, htarget, hin⟩ := h
  exact ⟨x, y, hhigh.trans hx, hlow.trans hy, htop, htarget, by omega⟩

/-- An item stands in every copy that has its octets. -/
theorem ItemAt.copy {item : NameItem} (h : ItemAt d o item) (hlen : d.length ≤ r.length)
    (hagree : ∀ i, o ≤ i → i < o + item.width → r[i]? = d[i]?) : ItemAt r o item := by
  cases h with
  | @label l hne hpre =>
    refine .label hne (prefix_drop_of_agree hpre ?_)
    rw [l.length_encode]
    exact hagree
  | pointer hp =>
    simp only [NameItem.width] at hagree
    exact .pointer (hp.copy hlen (hagree o (by omega) (by omega))
      (hagree (o + 1) (by omega) (by omega)))
  | final h0 =>
    simp only [NameItem.width] at hagree
    rw [← hagree o (by omega) (by omega)] at h0
    exact .final h0

theorem ItemAt.le_length {item : NameItem} (h : ItemAt d o item) : o + item.width ≤ d.length := by
  cases h with
  | @label l _ hpre =>
    have hlt : o < d.length := (List.getElem?_eq_some_iff.mp (encode_prefix_iff.mp hpre).1).1
    have hle := hpre.length_le
    rw [l.length_encode, List.length_drop] at hle
    simp only [NameItem.width]
    omega
  | pointer hp =>
    obtain ⟨_, _, _, hlow, _⟩ := hp
    exact (List.getElem?_eq_some_iff.mp hlow).1
  | final h0 => exact (List.getElem?_eq_some_iff.mp h0).1

theorem ItemAt.agree_of_label {l : Label} (h : ItemAt d o (.label l))
    (h' : ItemAt r o (.label l)) : ∀ i, o ≤ i → i < o + (1 + l.size) → r[i]? = d[i]? := by
  cases h with
  | label _ hpre =>
    cases h' with
    | label _ hpre' =>
      rw [← l.length_encode]
      exact agree_of_prefix_drop hpre hpre'

/-- Where a label has its length octet, a label of that length stands. -/
theorem ItemAt.exists_label {l : Label} (h : ItemAt d o (.label l)) (hlen : d.length ≤ r.length)
    (hfirst : r[o]? = d[o]?) : ∃ l' : Label, ItemAt r o (.label l') ∧ l'.size = l.size := by
  have hle : o + (1 + l.size) ≤ d.length := h.le_length
  cases h with
  | label hne hpre =>
    have hsize : l.size ≤ 63 := l.length_le
    have hx := l.toNat_ofNat_size
    rw [(encode_prefix_iff.mp hpre).1] at hfirst
    have h0 : UInt8.ofNat l.size ≠ 0 := by
      intro h0
      rw [h0] at hx
      exact hne (l.size_eq_zero_iff.mp hx.symm)
    obtain ⟨l', hne', hpre', _⟩ := NameItem.read_of_label hfirst h0 (by omega) (by omega)
    refine ⟨l', .label hne' hpre', ?_⟩
    have hfirst' := (encode_prefix_iff.mp hpre').1
    rw [hfirst, Option.some.injEq] at hfirst'
    rw [← l'.toNat_ofNat_size, ← hfirst', hx]

end Items

/-! ## The trail of a walk -/

namespace NameWalk

section Trail

variable {d : Octets} {w v : NameWalk}

theorem trail_of_next (h : step d.toArray w = .ok (.next v)) :
    trail d.toArray w = w :: trail d.toArray v := by
  rw [trail]
  split
  · rename_i u hu
    rw [h] at hu
    cases hu
    rfl
  · rename_i hne
    exact absurd h (hne v)

/-- The trail ends where the walk does not go on. -/
theorem trail_of_halt (h : ∀ v, step d.toArray w ≠ .ok (.next v)) : trail d.toArray w = [w] := by
  rw [trail]
  split
  · rename_i v hv
    exact absurd hv (h v)
  · rfl

theorem trail_of_done {n : Name} {next : Nat} (h : step d.toArray w = .ok (.done n next)) :
    trail d.toArray w = [w] :=
  trail_of_halt (by simp [h])

theorem trail_of_error {fault : NameFault} (h : step d.toArray w = .error fault) :
    trail d.toArray w = [w] :=
  trail_of_halt (by simp [h])

theorem mem_trail_self (d : Octets) (w : NameWalk) : w ∈ trail d.toArray w := by
  rw [trail]
  split
  · exact List.mem_cons_self
  · exact List.mem_singleton_self w

theorem mem_offsets_iff {item : NameItem} (h : ItemAt d w.cursor item) {i : Nat} :
    i ∈ offsets d.toArray w ↔ w.cursor ≤ i ∧ i < w.cursor + item.width := by
  simp only [offsets, readEnd, NameItem.read_of_itemAt h, List.mem_range'_1]
  omega

end Trail

/-! ## Walks over copies -/

/-- A copy has all octets that are read at the cursor. -/
def ReadsAlike (d r : Octets) (w : NameWalk) : Prop :=
  ∀ i ∈ offsets d.toArray w, r[i]? = d[i]?

/-- A copy has the length octet or the pointer at the cursor, whatever stands in a label
there. -/
def LeadsAlike (d r : Octets) (w : NameWalk) : Prop :=
  r[w.cursor]? = d[w.cursor]? ∧
    ∀ target, PointerAt d w.cursor target → PointerAt r w.cursor target

section Copies

variable {d r : Octets} {w : NameWalk} {n m : Name} {next next' : Nat}

theorem ReadsAlike.of_agree {item : NameItem} (hitem : ItemAt d w.cursor item)
    (h : ∀ i, w.cursor ≤ i → i < w.cursor + item.width → r[i]? = d[i]?) : ReadsAlike d r w := by
  intro i hi
  obtain ⟨hge, hlt⟩ := (mem_offsets_iff hitem).mp hi
  exact h i hge hlt

theorem ReadsAlike.itemAt {item : NameItem} (h : ReadsAlike d r w) (hlen : d.length ≤ r.length)
    (hitem : ItemAt d w.cursor item) : ItemAt r w.cursor item := by
  apply hitem.copy hlen
  intro i hge hlt
  exact h i ((mem_offsets_iff hitem).mpr ⟨hge, hlt⟩)

/-- A walk whose octets a copy has spells the same name there. -/
theorem Ends.copy (h : Ends d w n next) (hlen : d.length ≤ r.length)
    (halike : ∀ u ∈ trail d.toArray w, ReadsAlike d r u) : Ends r w n next := by
  induction h with
  | @final w h0 hmax =>
    cases (halike w (mem_trail_self d w)).itemAt hlen (.final h0) with
    | final h0' => exact .final h0' hmax
  | @label w l n next hl hmax hroom _ ih =>
    rw [trail_of_next (step_of_label hl hmax hroom), List.forall_mem_cons] at halike
    exact .label (halike.1.itemAt hlen hl) hmax (by omega) (ih halike.2)
  | @pointer w target n next hp hroom _ ih =>
    rw [trail_of_next (step_of_pointer hp hroom), List.forall_mem_cons] at halike
    cases halike.1.itemAt hlen (.pointer hp) with
    | pointer hp' => exact .pointer hp' (by omega) (ih halike.2)

/-- A walk whose length octets and pointers a copy has ends in the same place there, whatever
stands in the labels. -/
theorem Ends.exists_of_leads (h : Ends d w n next) (hlen : d.length ≤ r.length)
    (hleads : ∀ u ∈ trail d.toArray w, LeadsAlike d r u) (ls : List Label) :
    ∃ m, Ends r { w with labels := ls } m next := by
  induction h generalizing ls with
  | @final w h0 hmax =>
    have h0' : r[w.cursor]? = some 0 := (hleads w (mem_trail_self d w)).1.trans h0
    exact ⟨_, .final (w := { w with labels := ls }) h0' hmax⟩
  | @label w l n next hl hmax hroom _ ih =>
    rw [trail_of_next (step_of_label hl hmax hroom), List.forall_mem_cons] at hleads
    obtain ⟨⟨hfirst, _⟩, hrest⟩ := hleads
    obtain ⟨l', hl', hsize⟩ := hl.exists_label hlen hfirst
    obtain ⟨m, hends⟩ := ih hrest (ls ++ [l'])
    simp only [pass] at hmax hroom hends
    refine ⟨m, .label (w := { w with labels := ls }) hl' ?_ ?_ ?_⟩
    · simp only [pass, hsize]; omega
    · simp only [pass, hsize]; omega
    · simp only [pass, hsize]; exact hends
  | @pointer w target n next hp hroom _ ih =>
    rw [trail_of_next (step_of_pointer hp hroom), List.forall_mem_cons] at hleads
    obtain ⟨⟨_, hpointer⟩, hrest⟩ := hleads
    obtain ⟨m, hends⟩ := ih hrest ls
    have hroom' : w.consumed + 2 ≤ r.length := Nat.le_trans hroom hlen
    exact ⟨m, .pointer (w := { w with labels := ls }) (hpointer target hp) hroom' hends⟩

theorem Ends.labels_prefix (h : Ends d w n next) (hroom : w.consumed ≤ d.length) :
    w.labels <+: n.labels := by
  obtain ⟨_, _, _, _, hlabels, _⟩ := h.exists_chain hroom
  rw [hlabels, List.append_assoc]
  exact List.prefix_append _ _

/-- After its first pointer, a walk will end behind that. -/
theorem Ends.next_of_jump {target : Nat} (h : Ends d (w.jump target) n next)
    (hroom : (w.jump target).consumed ≤ d.length) (hnone : w.resume = none) :
    next = w.cursor + 2 := by
  obtain ⟨_, _, _, _, _, _, _, _, hnext⟩ := h.exists_chain hroom
  rw [hnext]
  simp only [jump, hnone, Option.getD_none, Option.getD_some]

/-- Where a name ends depends on nothing but the octets from where it starts: names in copies
that have those may differ, but not in where they end. -/
theorem Ends.next_eq (h : Ends d w n next) (h' : Ends r w m next') (hlen : d.length ≤ r.length)
    (hnone : w.resume = none) (hagree : ∀ i, w.cursor ≤ i → i < d.length → r[i]? = d[i]?) :
    next' = next := by
  have hcopy {w : NameWalk} {item : NameItem} (hitem : ItemAt d w.cursor item)
      (hagree : ∀ i, w.cursor ≤ i → i < d.length → r[i]? = d[i]?) : ItemAt r w.cursor item := by
    have hle := hitem.le_length
    exact hitem.copy hlen fun i hge hlt => hagree i hge (by omega)
  induction h with
  | @final w h0 hmax =>
    cases hcopy (.final h0) hagree with
    | final h0' =>
      have heq := finish_of_ends (.final h0' hmax)
      rw [finish_of_ends h', Except.ok.injEq, Prod.mk.injEq] at heq
      exact heq.2
  | @label w l n next hl hmax hroom _ ih =>
    have hstep := step_of_label (hcopy hl hagree) hmax (by omega)
    have hends := finish_of_ends h'
    rw [finish_of_next hstep] at hends
    apply ih (ends_of_finish hends) hnone
    intro i hge hlt
    simp only [pass] at hge
    exact hagree i (by omega) hlt
  | @pointer w target n next hp hroom hrest ih =>
    cases hcopy (.pointer hp) hagree with
    | pointer hp' =>
      have hends := finish_of_ends h'
      rw [finish_of_next (step_of_pointer hp' (by omega))] at hends
      rw [hrest.next_of_jump hroom hnone,
        (ends_of_finish hends).next_of_jump (by omega) hnone]

end Copies

end NameWalk

end PortalDns
