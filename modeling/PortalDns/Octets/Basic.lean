-- Octets, the unit of everything on the wire, and the words that are made of
-- them: numbers stand high octet first.

namespace PortalDns

/-- A datagram, a part of one, or a text that is sent as it stands. -/
abbrev Octets := List UInt8

namespace Octets

/-! ## Words -/

/-- The number that octets spell, high octet first. -/
def number (os : Octets) : Nat :=
  os.foldl (fun n o => n * 256 + o.toNat) 0

/-- The word of 16 bits at the end of `os`. -/
def toUInt16 (os : Octets) : UInt16 :=
  UInt16.ofNat (number os)

def ofUInt16 (w : UInt16) : Octets :=
  [UInt8.ofNat (w.toNat / 256), UInt8.ofNat w.toNat]

def ofUInt32 (w : UInt32) : Octets :=
  [UInt8.ofNat (w.toNat / 0x1000000), UInt8.ofNat (w.toNat / 0x10000),
    UInt8.ofNat (w.toNat / 0x100), UInt8.ofNat w.toNat]

@[simp] theorem length_ofUInt16 (w : UInt16) : (ofUInt16 w).length = 2 := rfl

@[simp] theorem length_ofUInt32 (w : UInt32) : (ofUInt32 w).length = 4 := rfl

@[simp] theorem number_pair (a b : UInt8) : number [a, b] = a.toNat * 256 + b.toNat := by
  simp [number]

/-- A word that was written is read back. -/
@[simp] theorem toUInt16_ofUInt16 (w : UInt16) : toUInt16 (ofUInt16 w) = w := by
  have := w.toNat_lt
  apply UInt16.toNat_inj.1
  simp only [toUInt16, ofUInt16, number_pair, UInt8.toNat_ofNat', UInt16.toNat_ofNat']
  omega

/-- Two octets are the word that they spell. -/
@[simp] theorem ofUInt16_toUInt16 (a b : UInt8) : ofUInt16 (toUInt16 [a, b]) = [a, b] := by
  have := a.toNat_lt
  have := b.toNat_lt
  simp only [ofUInt16, toUInt16, number_pair, UInt16.toNat_ofNat', List.cons.injEq, and_true]
  constructor <;> apply UInt8.toNat_inj.1 <;> simp only [UInt8.toNat_ofNat'] <;> omega

theorem number_ofUInt32 (w : UInt32) : number (ofUInt32 w) = w.toNat := by
  have := w.toNat_lt
  simp only [number, ofUInt32, List.foldl_cons, List.foldl_nil, UInt8.toNat_ofNat']
  omega

/-! ## Replacing a word in place -/

/-- `os` with the two octets from `i` on replaced by those of `w`. Past the end nothing is
replaced. -/
def setUInt16 (os : Octets) (i : Nat) (w : UInt16) : Octets :=
  (os.set i (UInt8.ofNat (w.toNat / 256))).set (i + 1) (UInt8.ofNat w.toNat)

@[simp] theorem length_setUInt16 (os : Octets) (i : Nat) (w : UInt16) :
    (os.setUInt16 i w).length = os.length := by
  simp [setUInt16]

end Octets

end PortalDns
