-- The laws of networks: who is on the network of an interface, by the bits of
-- its mask and by the leading bits that a prefix counts.
import Mathlib
import PortalDns.Portal.Interface

namespace PortalDns

/-! ## Numbers bit by bit -/

section Bits

variable {x y m s : Nat}

/-- Under a mask two numbers are the same exactly if they agree on all bits of the mask. -/
theorem and_eq_and_iff : x &&& m = y &&& m ↔
    ∀ k, m.testBit k = true → x.testBit k = y.testBit k := by
  constructor
  · intro h k hk
    have hbit := congrArg (Nat.testBit · k) h
    simpa only [Nat.testBit_and, hk, Bool.and_true] using hbit
  · intro h
    apply Nat.eq_of_testBit_eq
    intro k
    rw [Nat.testBit_and, Nat.testBit_and]
    by_cases hk : m.testBit k = true
    · rw [h k hk]
    · rw [Bool.not_eq_true] at hk
      rw [hk, Bool.and_false, Bool.and_false]

/-- Without their low bits two numbers are the same exactly if they agree on all others. -/
theorem div_two_pow_eq_iff : x / 2 ^ s = y / 2 ^ s ↔
    ∀ k, s ≤ k → x.testBit k = y.testBit k := by
  constructor
  · intro h k hk
    obtain ⟨j, rfl⟩ := Nat.exists_eq_add_of_le' hk
    rw [← Nat.testBit_div_two_pow, ← Nat.testBit_div_two_pow, h]
  · intro h
    apply Nat.eq_of_testBit_eq
    intro k
    rw [Nat.testBit_div_two_pow, Nat.testBit_div_two_pow]
    exact h _ (Nat.le_add_left s k)

end Bits

/-! ## Mapped addresses -/

namespace IPv6

/-- The address that an address of version 4 is mapped to, `::ffff:` and its two halves. -/
def ofMapped (a : IPv4) : IPv6 :=
  ⟨#v[0, 0, 0, 0, 0, 0xFFFF, UInt16.ofNat (a.bits.toNat / 0x10000), UInt16.ofNat a.bits.toNat]⟩

/-- Two halves make a word. -/
theorem toNat_ofHalves (high low : UInt16) :
    (UInt32.ofNat (high.toNat * 0x10000 + low.toNat)).toNat =
      high.toNat * 0x10000 + low.toNat := by
  have hhigh := high.toNat_lt
  have hlow := low.toNat_lt
  rw [UInt32.toNat_ofNat']
  exact Nat.mod_eq_of_lt (by omega)

theorem high_ofHalves (high low : UInt16) :
    UInt16.ofNat ((UInt32.ofNat (high.toNat * 0x10000 + low.toNat)).toNat / 0x10000) = high := by
  have hhigh := high.toNat_lt
  have hlow := low.toNat_lt
  apply UInt16.toNat_inj.mp
  rw [toNat_ofHalves, UInt16.toNat_ofNat']
  omega

theorem low_ofHalves (high low : UInt16) :
    UInt16.ofNat (UInt32.ofNat (high.toNat * 0x10000 + low.toNat)).toNat = low := by
  have hlow := low.toNat_lt
  apply UInt16.toNat_inj.mp
  rw [toNat_ofHalves, UInt16.toNat_ofNat']
  omega

theorem mapped?_ofMapped (a : IPv4) : (ofMapped a).mapped? = some a := by
  obtain ⟨bits⟩ := a
  have hlt := bits.toNat_lt
  have hfront : (∀ i : Fin 5, (ofMapped ⟨bits⟩).groups[i] = 0) ∧
      (ofMapped ⟨bits⟩).groups[5] = 0xFFFF := by
    refine ⟨?_, rfl⟩
    intro i
    fin_cases i <;> rfl
  have hhigh : (ofMapped ⟨bits⟩).groups[6] = UInt16.ofNat (bits.toNat / 0x10000) := rfl
  have hlow : (ofMapped ⟨bits⟩).groups[7] = UInt16.ofNat bits.toNat := rfl
  rw [mapped?, if_pos hfront, hhigh, hlow, Option.some.injEq, IPv4.mk.injEq, ← UInt32.toNat_inj,
    toNat_ofHalves, UInt16.toNat_ofNat', UInt16.toNat_ofNat']
  omega

/-- An address is mapped if it is what some address of version 4 is mapped to. -/
theorem mapped?_eq_some_iff {p : IPv6} {a : IPv4} : p.mapped? = some a ↔ p = ofMapped a := by
  constructor
  · intro h
    unfold mapped? at h
    split at h
    · rename_i hfront
      obtain ⟨hzeros, hones⟩ := hfront
      obtain ⟨groups⟩ := p
      cases h
      rw [IPv6.mk.injEq]
      apply Vector.ext
      intro i hi
      obtain hi | rfl | rfl | rfl : i < 5 ∨ i = 5 ∨ i = 6 ∨ i = 7 := by omega
      · rw [show groups[i] = 0 from hzeros ⟨i, hi⟩]
        interval_cases i <;> rfl
      · exact hones
      · exact (high_ofHalves groups[6] groups[7]).symm
      · exact (low_ofHalves groups[6] groups[7]).symm
    · cases h
  · rintro rfl
    exact mapped?_ofMapped a

end IPv6

namespace Interface

/-! ## Networks by their mask -/

section Masks

variable {i : Interface} {peer : IPv4}

/-- An address is covered if it agrees with that of the interface on every bit of the mask. -/
theorem covers_iff : i.covers peer = true ↔ ∀ k, i.netmask.bits.toNat.testBit k = true →
    peer.bits.toNat.testBit k = i.address.bits.toNat.testBit k := by
  rw [covers, network, decide_eq_true_iff, ← UInt32.toNat_inj, UInt32.toNat_and, UInt32.toNat_and]
  exact and_eq_and_iff

theorem contains_v6_iff {p : IPv6} : i.contains (.v6 p) = true ↔
    ∃ a, p = IPv6.ofMapped a ∧ i.contains (.v4 a) = true := by
  simp only [contains, Option.any_eq_true, IPv6.mapped?_eq_some_iff]

/-- To be on one network is a relation between addresses like equality. -/
theorem equivalence_contains (mask : IPv4) :
    Equivalence fun a b : IPv4 => (Interface.mk a mask).contains (.v4 b) = true where
  refl _ := covers_iff.mpr fun _ _ => rfl
  symm h := covers_iff.mpr fun k hk => (covers_iff.mp h k hk).symm
  trans h h' := covers_iff.mpr fun k hk => (covers_iff.mp h' k hk).trans (covers_iff.mp h k hk)

end Masks

/-! ## Networks by their prefix -/

section Prefixes

variable {address : IPv4} {m n : Nat} {i j : Interface} {peer : IPv4}

/-- The mask of a prefix: all ones, shifted to the left. To make a mask without bits they would have
to be shifted by all their width. -/
def prefixMask (n : Nat) : UInt32 :=
  if n = 0 then 0 else 0xFFFFFFFF <<< UInt32.ofNat (32 - n)

theorem prefixMask_eq (hn : n ≤ 32) :
    prefixMask n = UInt32.ofNat (0x100000000 - (1 <<< (32 - n))) := by
  have h : ∀ k : Fin 33, prefixMask k = UInt32.ofNat (0x100000000 - (1 <<< (32 - k.val))) := by
    decide
  exact h ⟨n, Nat.lt_succ_of_le hn⟩

theorem ofPrefix?_eq_some_iff :
    ofPrefix? address n = some i ↔ n ≤ 32 ∧ i = ⟨address, ⟨prefixMask n⟩⟩ := by
  unfold ofPrefix?
  split
  · rename_i hn
    rw [prefixMask_eq hn, Option.some.injEq, eq_comm, and_iff_right hn]
  · rename_i hn
    simp [hn]

theorem ofPrefix?_eq_none_iff : ofPrefix? address n = none ↔ 32 < n := by
  simp [ofPrefix?]

/-- The mask of a prefix has so many leading bits. -/
theorem testBit_prefixMask (hn : n ≤ 32) (k : Nat) :
    (prefixMask n).toNat.testBit k = (decide (k < 32) && decide (32 - n ≤ k)) := by
  have hpos := Nat.two_pow_pos (32 - n)
  have hvalue : (prefixMask n).toNat = 2 ^ 32 - (2 ^ (32 - n) - 1 + 1) := by
    rw [prefixMask_eq hn, UInt32.toNat_ofNat', Nat.one_shiftLeft, Nat.sub_add_cancel hpos]
    exact Nat.mod_eq_of_lt (Nat.sub_lt (by decide) hpos)
  have hlt : 2 ^ (32 - n) - 1 < 2 ^ 32 :=
    Nat.lt_of_lt_of_le (Nat.sub_lt hpos Nat.one_pos)
      (Nat.pow_le_pow_right (by decide) (Nat.sub_le 32 n))
  rw [hvalue, Nat.testBit_two_pow_sub_succ hlt, Nat.testBit_two_pow_sub_one, ← decide_not]
  simp only [Nat.not_lt]

/-- On the network of a prefix are the addresses that are the same without the bits of the hosts. -/
theorem covers_prefix_iff (hn : n ≤ 32) :
    (Interface.mk address ⟨prefixMask n⟩).covers peer = true ↔
      peer.bits.toNat / 2 ^ (32 - n) = address.bits.toNat / 2 ^ (32 - n) := by
  rw [covers_iff, div_two_pow_eq_iff]
  simp only [testBit_prefixMask hn, Bool.and_eq_true, decide_eq_true_eq]
  constructor
  · intro h k hk
    by_cases h32 : k < 32
    · exact h k ⟨h32, hk⟩
    · have htwo : 2 ^ 32 ≤ 2 ^ k := Nat.pow_le_pow_right (by decide) (by omega)
      rw [Nat.testBit_lt_two_pow (Nat.lt_of_lt_of_le peer.bits.toNat_lt htwo),
        Nat.testBit_lt_two_pow (Nat.lt_of_lt_of_le address.bits.toNat_lt htwo)]
  · rintro h k ⟨_, hk⟩
    exact h k hk

/-- The longer a prefix, the fewer addresses are on its network. -/
theorem covers_of_longer (hmn : m ≤ n) (hn : n ≤ 32)
    (h : (Interface.mk address ⟨prefixMask n⟩).covers peer = true) :
    (Interface.mk address ⟨prefixMask m⟩).covers peer = true := by
  rw [covers_prefix_iff hn, div_two_pow_eq_iff] at h
  rw [covers_prefix_iff (by omega), div_two_pow_eq_iff]
  intro k hk
  exact h k (by omega)

theorem contains_of_longer {p : IPAddress} (hmn : m ≤ n) (hi : ofPrefix? address m = some i)
    (hj : ofPrefix? address n = some j) (h : j.contains p = true) : i.contains p = true := by
  obtain ⟨_, rfl⟩ := ofPrefix?_eq_some_iff.mp hi
  obtain ⟨hn, rfl⟩ := ofPrefix?_eq_some_iff.mp hj
  cases p with
  | v4 peer => exact covers_of_longer hmn hn h
  | v6 p =>
    rw [contains_v6_iff] at h ⊢
    obtain ⟨a, hp, ha⟩ := h
    exact ⟨a, hp, covers_of_longer hmn hn ha⟩

end Prefixes

/-! ## The law of networks -/

/-- On the network of an interface are the addresses that agree with its own on every bit of the
mask, wherever these are, and those of version 6 to which such an address is mapped; so under one
mask the networks part the addresses into classes. A prefix of up to 32 bits makes the network of
the addresses with the same leading bits, and the longer it is, the fewer there are. -/
theorem a_network_is_the_addresses_that_agree_under_its_mask :
    (∀ (i : Interface) (peer : IPv4), i.contains (.v4 peer) = true ↔
      ∀ k, i.netmask.bits.toNat.testBit k = true →
        peer.bits.toNat.testBit k = i.address.bits.toNat.testBit k) ∧
    (∀ (i : Interface) (peer : IPv6), i.contains (.v6 peer) = true ↔
      ∃ a, peer = IPv6.ofMapped a ∧ i.contains (.v4 a) = true) ∧
    (∀ mask, Equivalence fun a b : IPv4 => (Interface.mk a mask).contains (.v4 b) = true) ∧
    (∀ address n, ofPrefix? address n = none ↔ 32 < n) ∧
    (∀ address n, n ≤ 32 → ∃ i, ofPrefix? address n = some i ∧
      i.address = address ∧ i.netmask.bits = prefixMask n ∧
      ∀ peer : IPv4, i.contains (.v4 peer) = true ↔
        peer.bits.toNat / 2 ^ (32 - n) = address.bits.toNat / 2 ^ (32 - n)) ∧
    ∀ address m n i j peer, m ≤ n → ofPrefix? address m = some i →
      ofPrefix? address n = some j → j.contains peer = true → i.contains peer = true := by
  refine ⟨fun i peer => covers_iff, fun i peer => contains_v6_iff, equivalence_contains,
    fun address n => ofPrefix?_eq_none_iff, ?_,
    fun address m n i j peer => contains_of_longer⟩
  intro address n hn
  exact ⟨_, ofPrefix?_eq_some_iff.mpr ⟨hn, rfl⟩, rfl, rfl, fun peer => covers_prefix_iff hn⟩

/-- A mask with a gap, a mapped address, and a network inside a larger one. -/
theorem a_mapped_address_is_on_a_network_and_on_the_larger_one :
    (Interface.mk (.ofOctets 192 168 4 1) (.ofOctets 255 0 255 0)).contains
        (.v4 (.ofOctets 192 7 4 9)) = true ∧
      ∃ i j, ofPrefix? (.ofOctets 192 168 4 1) 22 = some i ∧
        ofPrefix? (.ofOctets 192 168 4 1) 24 = some j ∧
        j.contains (.v6 (.ofMapped (.ofOctets 192 168 4 9))) = true ∧
        i.contains (.v6 (.ofMapped (.ofOctets 192 168 4 9))) = true ∧
        i.contains (.v4 (.ofOctets 192 168 7 9)) = true ∧
        j.contains (.v4 (.ofOctets 192 168 7 9)) = false := by
  obtain ⟨_, hmapped, _, _, hprefix, hlonger⟩ :=
    a_network_is_the_addresses_that_agree_under_its_mask
  obtain ⟨i, hi, _, _, hlarge⟩ := hprefix (.ofOctets 192 168 4 1) 22 (by decide)
  obtain ⟨j, hj, _, _, hsmall⟩ := hprefix (.ofOctets 192 168 4 1) 24 (by decide)
  have hpeer : j.contains (.v6 (.ofMapped (.ofOctets 192 168 4 9))) = true :=
    (hmapped j _).mpr ⟨_, rfl, (hsmall _).mpr (by decide)⟩
  refine ⟨?_, i, j, hi, hj, hpeer, hlonger _ 22 24 i j _ (by decide) hi hj hpeer,
    (hlarge _).mpr (by decide), ?_⟩
  · rw [contains, covers, network]
    decide
  · rw [← Bool.not_eq_true, hsmall]
    decide

end Interface

end PortalDns
