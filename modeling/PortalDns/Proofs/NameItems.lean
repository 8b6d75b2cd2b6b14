-- The laws of the items of names: what reading one item finds is what stands
-- at its offset, as a shape of the octets there.
import Mathlib
import PortalDns.Name.Wire

namespace PortalDns

/-! ## Steps that may fail -/

section Steps

variable {ε σ α β : Type} {x : EStateM ε σ α} {f : α → EStateM ε σ β} {s t : σ}

theorem bind_of_ok {a : α} (h : x s = .ok a t) : (x >>= f) s = f a t := by
  simp [bind, EStateM.bind, h]

theorem bind_of_error {e : ε} (h : x s = .error e t) : (x >>= f) s = .error e t := by
  simp [bind, EStateM.bind, h]

theorem get_bind {g : σ → EStateM ε σ β} : ((get : EStateM ε σ σ) >>= g) s = g s s := rfl

end Steps

/-! ## Reads that find what they ask for -/

namespace Reader

variable {d : Octets} {o : Nat}

theorem take?_eq_some {n : Nat} (h : o + n ≤ d.length) :
    ∃ os : { os : Octets // os.length = n },
      (Reader.mk d.toArray o).take? n = some (os, ⟨d.toArray, o + n⟩) ∧
        os.val = (d.drop o).take n := by
  refine ⟨⟨(d.drop o).take n, by simp; omega⟩, ?_, rfl⟩
  rw [take?_eq_some_iff]
  exact ⟨by simpa using h, by simp, rfl⟩

theorem octet?_eq_some {x : UInt8} (h : d[o]? = some x) :
    (Reader.mk d.toArray o).octet? = some (x, ⟨d.toArray, o + 1⟩) := by
  obtain ⟨hlt, hx⟩ := List.getElem?_eq_some_iff.mp h
  obtain ⟨os, htake, hos⟩ := take?_eq_some (n := 1) hlt
  simp only [octet?, htake, Option.map_some, Option.some.injEq, Prod.mk.injEq, and_true]
  rw [hos, List.drop_eq_getElem_cons hlt, hx]
  simp [Octets.number]

theorem octet?_eq_none (h : d[o]? = none) : (Reader.mk d.toArray o).octet? = none := by
  have hle : d.length ≤ o := List.getElem?_eq_none_iff.mp h
  simp only [octet?, Option.map_eq_none_iff, take?_eq_none_iff, List.size_toArray]
  omega

variable {ε α : Type} {read : Reader → Option (α × Reader)} {r rest : Reader} {a : α}

theorem require_of_some (fault : ε) (h : read r = some (a, rest)) :
    require read fault r = .ok a rest := by
  simp [require, h]

theorem require_of_none (fault : ε) (h : read r = none) :
    require read fault r = .error fault r := by
  simp [require, h]

end Reader

/-! ## The shapes of items -/

/-- Of two stretches that stand one behind the other, the second stands behind the first. -/
theorem append_prefix_drop_iff {a b d : Octets} {o : Nat} :
    a ++ b <+: d.drop o ↔ a <+: d.drop o ∧ b <+: d.drop (o + a.length) := by
  rw [← List.drop_drop]
  constructor
  · rintro ⟨t, ht⟩
    rw [← ht, List.append_assoc]
    exact ⟨List.prefix_append _ _, by rw [List.drop_left]; exact List.prefix_append _ _⟩
  · rintro ⟨⟨t, ht⟩, hb⟩
    rw [← ht, List.drop_left] at hb
    rw [← ht]
    exact (List.prefix_append_right_inj a).mpr hb

/-- Two octets with both top bits set, and in the other 14 bits an offset inside the datagram. -/
def PointerAt (d : Octets) (o target : Nat) : Prop :=
  ∃ high low : UInt8, d[o]? = some high ∧ d[o + 1]? = some low ∧ high &&& 0xC0 = 0xC0 ∧
    target = (high &&& 0x3F).toNat * 256 + low.toNat ∧ target < d.length

/-- The item that stands at an offset of a datagram. -/
inductive ItemAt (d : Octets) (o : Nat) : NameItem → Prop
  | label {l : Label} : l ≠ Label.empty → l.encode <+: d.drop o → ItemAt d o (.label l)
  | pointer {target : Nat} : PointerAt d o target → ItemAt d o (.pointer target)
  | final : d[o]? = some 0 → ItemAt d o .final

/-- Why no item stands at an offset, and how many octets are read before that is known. -/
inductive FaultAt (d : Octets) (o : Nat) : NameFault → Nat → Prop
  | ended : d[o]? = none → FaultAt d o .tooShort 0
  | reserved {x : UInt8} : d[o]? = some x → 63 < x.toNat → x.toNat < 0xC0 →
      FaultAt d o .reservedLabel 1
  | cutLabel {x : UInt8} : d[o]? = some x → x ≠ 0 → x.toNat ≤ 63 →
      d.length < o + 1 + x.toNat → FaultAt d o .tooShort 1
  | cutPointer {x : UInt8} : d[o]? = some x → 0xC0 ≤ x.toNat → d[o + 1]? = none →
      FaultAt d o .tooShort 1
  | outside {x y : UInt8} : d[o]? = some x → 0xC0 ≤ x.toNat → d[o + 1]? = some y →
      d.length ≤ (x.toNat - 0xC0) * 256 + y.toNat → FaultAt d o .pointerOutside 2

theorem topBits_eq_iff (x : UInt8) : x &&& 0xC0 = 0xC0 ↔ 0xC0 ≤ x.toNat := by
  have h : ∀ x : BitVec 8, x &&& 0xC0#8 = 0xC0#8 ↔ 0xC0 ≤ x.toNat := by decide
  rw [← UInt8.toBitVec_inj]
  exact h x.toBitVec

theorem lowBits_eq {x : UInt8} (h : 0xC0 ≤ x.toNat) : (x &&& 0x3F).toNat = x.toNat - 0xC0 := by
  have hmod : (x &&& 0x3F).toNat = x.toNat % 64 := by
    rw [UInt8.toNat_and]
    exact Nat.and_two_pow_sub_one_eq_mod x.toNat 6
  have := x.toNat_lt
  omega

theorem Label.length_encode (l : Label) : l.encode.length = 1 + l.size := by
  simp [encode, size, Nat.add_comm]

theorem Label.size_eq_zero_iff (l : Label) : l.size = 0 ↔ l = Label.empty := by
  rw [size, List.length_eq_zero_iff]
  constructor
  · exact fun h => Label.ext h
  · exact fun h => h ▸ rfl

/-- The length octet of a label is its size. -/
theorem Label.toNat_ofNat_size (l : Label) : (UInt8.ofNat l.size).toNat = l.size := by
  have h : l.size ≤ 63 := l.length_le
  rw [UInt8.toNat_ofNat']
  omega

/-- A label stands where its size and its octets do. -/
theorem encode_prefix_iff {d : Octets} {o : Nat} {l : Label} :
    l.encode <+: d.drop o ↔ d[o]? = some (UInt8.ofNat l.size) ∧ l.octets <+: d.drop (o + 1) := by
  rw [← List.head?_drop, ← List.tail_drop]
  cases d.drop o with
  | nil => simp [Label.encode]
  | cons x xs => simp [Label.encode, eq_comm]

theorem Label.eq_of_encode_prefix {l l' : Label} {os : Octets} (h : l.encode <+: os)
    (h' : l'.encode <+: os) : l = l' := by
  obtain ⟨t, ht⟩ := h
  obtain ⟨t', ht'⟩ := h'
  rw [← ht] at ht'
  simp only [encode, List.cons_append, List.cons.injEq] at ht'
  have hsize : l.octets.length = l'.octets.length := by
    have := congrArg UInt8.toNat ht'.1
    rw [toNat_ofNat_size, toNat_ofNat_size] at this
    exact this.symm
  exact Label.ext (List.append_inj ht'.2 hsize.symm).1.symm

/-! ## Reading an item -/

namespace NameItem

variable {d : Octets} {o : Nat} {x : UInt8}

theorem read_of_end (h : d[o]? = none) :
    read ⟨d.toArray, o⟩ = .error .tooShort ⟨d.toArray, o⟩ := by
  unfold read
  exact bind_of_error (Reader.require_of_none _ (Reader.octet?_eq_none h))

theorem read_of_final (h : d[o]? = some 0) :
    read ⟨d.toArray, o⟩ = .ok .final ⟨d.toArray, o + 1⟩ := by
  unfold read
  rw [bind_of_ok (Reader.require_of_some _ (Reader.octet?_eq_some h))]
  rfl

theorem read_of_reserved (h : d[o]? = some x) (h1 : 63 < x.toNat) (h2 : x.toNat < 0xC0) :
    read ⟨d.toArray, o⟩ = .error .reservedLabel ⟨d.toArray, o + 1⟩ := by
  unfold read
  rw [bind_of_ok (Reader.require_of_some _ (Reader.octet?_eq_some h)), if_neg (by omega),
    dif_pos (show Label.maxLength < x.toNat from h1)]
  rfl

theorem read_of_label (h : d[o]? = some x) (h0 : x ≠ 0) (h63 : x.toNat ≤ 63)
    (hfit : o + 1 + x.toNat ≤ d.length) :
    ∃ l : Label, l ≠ Label.empty ∧ l.encode <+: d.drop o ∧
      read ⟨d.toArray, o⟩ = .ok (.label l) ⟨d.toArray, o + (1 + l.size)⟩ := by
  obtain ⟨os, htake, hos⟩ := Reader.take?_eq_some hfit
  have hsize := os.property
  refine ⟨⟨os.val, by simp only [Label.maxLength]; omega⟩, ?_, ?_, ?_⟩
  · rw [ne_eq, ← Label.size_eq_zero_iff, Label.size, hsize]
    exact fun hx => h0 (UInt8.toNat_inj.mp hx)
  · rw [encode_prefix_iff]
    simp only [Label.size, hsize, UInt8.ofNat_toNat]
    exact ⟨h, hos ▸ List.take_prefix _ _⟩
  · unfold read
    rw [bind_of_ok (Reader.require_of_some _ (Reader.octet?_eq_some h)), if_neg (by omega),
      dif_neg (show ¬ Label.maxLength < x.toNat from by simp only [Label.maxLength]; omega),
      if_neg h0, bind_of_ok (Reader.require_of_some _ htake)]
    simp only [Label.size, hsize, ← Nat.add_assoc]
    rfl

theorem read_of_short_label (h : d[o]? = some x) (h0 : x ≠ 0) (h63 : x.toNat ≤ 63)
    (hfit : d.length < o + 1 + x.toNat) :
    read ⟨d.toArray, o⟩ = .error .tooShort ⟨d.toArray, o + 1⟩ := by
  have htake : (Reader.mk d.toArray (o + 1)).take? x.toNat = none := by
    rw [Reader.take?_eq_none_iff]
    simpa using hfit
  unfold read
  rw [bind_of_ok (Reader.require_of_some _ (Reader.octet?_eq_some h)), if_neg (by omega),
    dif_neg (show ¬ Label.maxLength < x.toNat from by simp only [Label.maxLength]; omega),
    if_neg h0, bind_of_error (Reader.require_of_none _ htake)]

theorem read_of_short_pointer (h : d[o]? = some x) (hx : 0xC0 ≤ x.toNat) (hy : d[o + 1]? = none) :
    read ⟨d.toArray, o⟩ = .error .tooShort ⟨d.toArray, o + 1⟩ := by
  unfold read
  rw [bind_of_ok (Reader.require_of_some _ (Reader.octet?_eq_some h)), if_pos hx,
    bind_of_error (Reader.require_of_none _ (Reader.octet?_eq_none hy))]

/-- A pointer is read if it does not lead out of the datagram. -/
theorem read_of_pointer {y : UInt8} (h : d[o]? = some x) (hx : 0xC0 ≤ x.toNat)
    (hy : d[o + 1]? = some y) :
    read ⟨d.toArray, o⟩ =
      if d.length ≤ (x.toNat - 0xC0) * 256 + y.toNat then
        .error .pointerOutside ⟨d.toArray, o + 2⟩
      else .ok (.pointer ((x.toNat - 0xC0) * 256 + y.toNat)) ⟨d.toArray, o + 2⟩ := by
  unfold read
  rw [bind_of_ok (Reader.require_of_some _ (Reader.octet?_eq_some h)), if_pos hx,
    bind_of_ok (Reader.require_of_some _ (Reader.octet?_eq_some hy))]
  split
  · rename_i hout
    simp [get, getThe, MonadStateOf.get, EStateM.get, bind, EStateM.bind, throw, throwThe,
      MonadExceptOf.throw, EStateM.throw, hout]
  · rename_i hin
    simp [get, getThe, MonadStateOf.get, EStateM.get, bind, EStateM.bind, pure, EStateM.pure, hin]

theorem read_of_itemAt {item : NameItem} (h : ItemAt d o item) :
    read ⟨d.toArray, o⟩ = .ok item ⟨d.toArray, o + item.width⟩ := by
  cases h with
  | @label l hne hpre =>
    have hsize : l.size ≤ 63 := l.length_le
    have hx := l.toNat_ofNat_size
    obtain ⟨hfirst, hrest⟩ := encode_prefix_iff.mp hpre
    have hfit := hpre.length_le
    rw [l.length_encode, List.length_drop] at hfit
    have h0 : UInt8.ofNat l.size ≠ 0 := fun h0 => by
      rw [h0] at hx
      exact hne (l.size_eq_zero_iff.mp hx.symm)
    obtain ⟨l', _, hpre', hread⟩ := read_of_label hfirst h0 (by omega) (by omega)
    rw [hread, Label.eq_of_encode_prefix hpre' hpre]
    rfl
  | @pointer target hp =>
    obtain ⟨x, y, hx, hy, htop, rfl, hin⟩ := hp
    rw [topBits_eq_iff] at htop
    rw [lowBits_eq htop] at hin ⊢
    rw [read_of_pointer hx htop hy, if_neg (by omega)]
    rfl
  | final h0 => exact read_of_final h0

theorem read_of_faultAt {fault : NameFault} {size : Nat} (h : FaultAt d o fault size) :
    read ⟨d.toArray, o⟩ = .error fault ⟨d.toArray, o + size⟩ := by
  cases h with
  | ended hx => exact read_of_end hx
  | reserved hx h1 h2 => exact read_of_reserved hx h1 h2
  | cutLabel hx h0 h63 hfit => exact read_of_short_label hx h0 h63 hfit
  | cutPointer hx htop hy => exact read_of_short_pointer hx htop hy
  | outside hx htop hy hout => rw [read_of_pointer hx htop hy, if_pos hout]

/-- At every offset stands an item or a fault, by the octets there. -/
theorem itemAt_or_faultAt (d : Octets) (o : Nat) :
    (∃ item, ItemAt d o item) ∨ ∃ fault size, FaultAt d o fault size := by
  cases hx : d[o]? with
  | none => exact .inr ⟨_, _, .ended hx⟩
  | some x =>
    by_cases h0 : x = 0
    · exact .inl ⟨_, .final (h0 ▸ hx)⟩
    by_cases h63 : x.toNat ≤ 63
    · by_cases hfit : o + 1 + x.toNat ≤ d.length
      · obtain ⟨l, hne, hpre, _⟩ := read_of_label hx h0 h63 hfit
        exact .inl ⟨_, .label hne hpre⟩
      · exact .inr ⟨_, _, .cutLabel hx h0 h63 (by omega)⟩
    by_cases htop : 0xC0 ≤ x.toNat
    · cases hy : d[o + 1]? with
      | none => exact .inr ⟨_, _, .cutPointer hx htop hy⟩
      | some y =>
        by_cases hin : (x.toNat - 0xC0) * 256 + y.toNat < d.length
        · refine .inl ⟨_, .pointer ⟨x, y, hx, hy, (topBits_eq_iff x).mpr htop, ?_, hin⟩⟩
          rw [lowBits_eq htop]
        · exact .inr ⟨_, _, .outside hx htop hy (by omega)⟩
    · exact .inr ⟨_, _, .reserved hx (by omega) (by omega)⟩

/-- Where no item stands, reading fails: at once, behind the length octet, or behind a pointer that
leads outside. -/
theorem itemAt_or_fault (d : Octets) (o : Nat) :
    (∃ item, ItemAt d o item) ∨
      ∃ fault size, read ⟨d.toArray, o⟩ = .error fault ⟨d.toArray, o + size⟩ ∧ size ≤ 2 ∧
        (size ≠ 0 → o + size ≤ d.length) ∧ fault ≠ .pointerLoop := by
  rcases itemAt_or_faultAt d o with hitem | ⟨fault, size, hfault⟩
  · exact .inl hitem
  · refine .inr ⟨fault, size, read_of_faultAt hfault, ?_⟩
    cases hfault with
    | ended => simp
    | reserved hx | cutLabel hx | cutPointer hx =>
      have hlt := (List.getElem?_eq_some_iff.mp hx).1
      simp [Nat.succ_le_of_lt hlt]
    | outside _ _ hy =>
      have hlt := (List.getElem?_eq_some_iff.mp hy).1
      simp [Nat.succ_le_of_lt hlt]

/-- Reading finds exactly the item that stands there, and goes past it. -/
theorem read_eq_ok_iff {item : NameItem} {rest : Reader} :
    read ⟨d.toArray, o⟩ = .ok item rest ↔
      ItemAt d o item ∧ rest = ⟨d.toArray, o + item.width⟩ := by
  constructor
  · intro h
    rcases itemAt_or_fault d o with ⟨item', hitem⟩ | ⟨fault, size, hread, _⟩
    · rw [read_of_itemAt hitem] at h
      cases h
      exact ⟨hitem, rfl⟩
    · rw [hread] at h
      cases h
  · rintro ⟨h, rfl⟩
    exact read_of_itemAt h

theorem itemAt_of_read {item : NameItem} {rest : Reader}
    (h : read ⟨d.toArray, o⟩ = .ok item rest) : ItemAt d o item :=
  (read_eq_ok_iff.mp h).1

end NameItem

end PortalDns
