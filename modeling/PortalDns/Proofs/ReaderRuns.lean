-- The laws of readers over whole runs: whichever reads fail, the octets that
-- are handed out are those between the start and where the reader stands.
import PortalDns.Proofs.NameEncodings
import PortalDns.Proofs.Queries

namespace PortalDns

/-! ## Reads one after the other -/

/-- What may be read next. A header is read field by field. -/
inductive ReadAction where
  | octet
  | word
  | octets (n : Nat)
  | header
deriving DecidableEq, Repr

namespace Reader

/-- What a read hands out, if it succeeds, and the reader after it. A read that fails hands out
nothing, and the reader stays. -/
def handOut {α : Type} (read : Reader → Option (α × Reader)) (octets : α → Octets) (r : Reader) :
    List Octets × Reader :=
  match read r with
  | some (a, rest) => ([octets a], rest)
  | none => ([], r)

end Reader

namespace ReadAction

/-- What is handed out, stretch by stretch, and the reader after it. Of a header that is cut short
these are the fields that are there. -/
def perform : ReadAction → Reader → List Octets × Reader
  | octet => Reader.handOut Reader.octet? fun o => [o]
  | word => Reader.handOut Reader.word? Octets.ofUInt16
  | octets n => Reader.handOut (Reader.take? n) Subtype.val
  | header => fun r => r.fields Header.widths

/-- How many octets are read at once. -/
def width? : ReadAction → Option Nat
  | octet => some 1
  | word => some 2
  | octets n => some n
  | header => none

/-- What is handed out in a run of reads, and the reader after them. -/
def performAll : List ReadAction → Reader → List Octets × Reader
  | [], r => ([], r)
  | a :: more, r =>
    let (stretches, mid) := a.perform r
    let (rest, last) := performAll more mid
    (stretches ++ rest, last)

/-- What is handed out by reads that are made one after the other only as long as none fails. -/
def performWhile : List ReadAction → Reader → List Octets × Reader
  | [], r => ([], r)
  | a :: more, r =>
    match a.perform r with
    | ([], mid) => ([], mid)
    | (stretches, mid) => (stretches ++ (performWhile more mid).1, (performWhile more mid).2)

theorem performAll_cons (a : ReadAction) (more : List ReadAction) (r : Reader) :
    performAll (a :: more) r =
      ((a.perform r).1 ++ (performAll more (a.perform r).2).1,
        (performAll more (a.perform r).2).2) := rfl

end ReadAction

/-! ## Single reads -/

namespace Reader

variable {r rest mid : Reader} {n : Nat} {os more : Octets}

/-- What stands before a reader. -/
def ahead (r : Reader) : Octets := r.octets.toList.drop r.position

theorem length_ahead (r : Reader) : r.ahead.length = r.octets.size - r.position :=
  List.length_drop

theorem handOut_take? (r : Reader) (n : Nat) :
    r.handOut (take? n) Subtype.val =
      if r.position + n ≤ r.octets.size then ([r.ahead.take n], r.seek (r.position + n))
      else ([], r) := by
  rw [handOut]
  by_cases hfit : r.position + n ≤ r.octets.size
  · obtain ⟨os, htake, hos⟩ := take?_eq_some (d := r.octets.toList) hfit
    have hread : r.take? n = some (os, r.seek (r.position + n)) := htake
    rw [hread, if_pos hfit, ahead, ← hos]
  · rw [take?_eq_none_iff.mpr (by omega), if_neg hfit]

/-- A number that is read as one octet is handed out as that octet. -/
theorem handOut_octet? (r : Reader) :
    r.handOut octet? (fun o => [o]) = r.handOut (take? 1) Subtype.val := by
  unfold handOut octet?
  cases r.take? 1 with
  | none => rfl
  | some pair =>
    obtain ⟨⟨os, hos⟩, rest⟩ := pair
    obtain ⟨o, rfl⟩ := List.length_eq_one_iff.mp hos
    simp [Octets.number]

/-- A number that is read as two octets is handed out as these octets. -/
theorem handOut_word? (r : Reader) :
    r.handOut word? Octets.ofUInt16 = r.handOut (take? 2) Subtype.val := by
  unfold handOut word?
  cases r.take? 2 with
  | none => rfl
  | some pair =>
    obtain ⟨⟨os, hos⟩, rest⟩ := pair
    obtain ⟨a, b, rfl⟩ := List.length_eq_two.mp hos
    simp

end Reader

/-- A read of so many octets hands out these, if they are all there, and goes past them; else it
hands out nothing and does not move. -/
theorem ReadAction.perform_of_width {a : ReadAction} {n : Nat} (h : a.width? = some n) (r : Reader) :
    a.perform r =
      if r.position + n ≤ r.octets.size then ([r.ahead.take n], r.seek (r.position + n))
      else ([], r) := by
  rw [← r.handOut_take? n]
  cases a with
  | octet =>
    cases h
    exact r.handOut_octet?
  | word =>
    cases h
    exact r.handOut_word?
  | octets n =>
    cases h
    rfl
  | header => cases h

/-- Fields of some widths are reads of these widths, as long as none fails. -/
theorem Reader.fields_eq_performWhile {widths : List Nat} {actions : List ReadAction}
    (h : actions.map ReadAction.width? = widths.map some) (r : Reader) :
    r.fields widths = ReadAction.performWhile actions r := by
  induction widths generalizing actions r with
  | nil =>
    rw [List.map_nil, List.map_eq_nil_iff] at h
    rw [h]
    rfl
  | cons width widths ih =>
    rw [List.map_cons, List.map_eq_cons_iff] at h
    obtain ⟨a, more, rfl, hwidth, hmore⟩ := h
    rw [ReadAction.performWhile, ReadAction.perform_of_width hwidth, fields]
    by_cases hfit : r.position + width ≤ r.octets.size
    · obtain ⟨os, htake, hos⟩ := take?_eq_some (d := r.octets.toList) hfit
      have hread : r.take? width = some (os, r.seek (r.position + width)) := htake
      simp only [hread, if_pos hfit, ih hmore, hos]
      rfl
    · rw [take?_eq_none_iff.mpr (by omega), if_neg hfit]

/-! ## What is handed out -/

namespace Reader

variable {r rest mid : Reader} {n : Nat} {os more : Octets}

/-- Between one reader and another stand these octets, and nothing else. -/
structure Passed (r : Reader) (os : Octets) (rest : Reader) : Prop where
  octets_eq : rest.octets = r.octets
  position_eq : rest.position = r.position + os.length
  stands : os <+: r.ahead

theorem Passed.nil (r : Reader) : r.Passed [] r := ⟨rfl, rfl, List.nil_prefix⟩

theorem Passed.append (h : r.Passed os mid) (h' : mid.Passed more rest) :
    r.Passed (os ++ more) rest where
  octets_eq := h'.octets_eq.trans h.octets_eq
  position_eq := by
    rw [h'.position_eq, h.position_eq, List.length_append, Nat.add_assoc]
  stands := by
    have hmore := h'.stands
    rw [ahead, h.octets_eq, h.position_eq] at hmore
    exact append_prefix_drop_iff.mpr ⟨h.stands, hmore⟩

/-- What is passed is the part from one position to the other. -/
theorem Passed.extract_eq (h : r.Passed os rest) :
    r.octets.toList.extract r.position rest.position = os := by
  rw [h.position_eq]
  exact Octets.extract_of_prefix h.stands

/-- Nothing is passed beyond the end. -/
theorem Passed.position_le (h : r.Passed os rest) :
    r.position ≤ rest.position ∧ rest.position ≤ max r.position r.octets.size := by
  have hposition := h.position_eq
  have hlength := h.stands.length_le
  rw [length_ahead] at hlength
  omega

theorem passed_take (h : r.position + n ≤ r.octets.size) :
    r.Passed (r.ahead.take n) (r.seek (r.position + n)) where
  octets_eq := rfl
  position_eq := by
    show r.position + n = r.position + (r.ahead.take n).length
    rw [List.length_take, length_ahead, Nat.min_eq_left (by omega)]
  stands := List.take_prefix n r.ahead

/-- Fields are passed up to the first that is cut short. -/
theorem passed_fields (r : Reader) (widths : List Nat) :
    r.Passed (r.fields widths).1.flatten (r.fields widths).2 := by
  induction widths generalizing r with
  | nil => exact Passed.nil r
  | cons width widths ih =>
    rw [fields]
    cases htake : r.take? width with
    | none => exact Passed.nil r
    | some pair =>
      obtain ⟨os, mid⟩ := pair
      obtain ⟨hfit, hos, rfl⟩ := take?_eq_some_iff.mp htake
      have hmid := passed_take hfit
      rw [ahead, ← hos] at hmid
      exact hmid.append (ih _)

end Reader

namespace ReadAction

open Reader

theorem passed_perform (a : ReadAction) (r : Reader) :
    r.Passed (a.perform r).1.flatten (a.perform r).2 := by
  cases hwidth : a.width? with
  | some n =>
    rw [perform_of_width hwidth]
    split
    · rename_i hfit
      rw [List.flatten_singleton]
      exact passed_take hfit
    · exact Passed.nil r
  | none =>
    cases a with
    | header => exact r.passed_fields _
    | octet | word | octets => cases hwidth

/-- In a run of reads, what is handed out is all that is passed. -/
theorem passed_performAll (actions : List ReadAction) (r : Reader) :
    r.Passed (performAll actions r).1.flatten (performAll actions r).2 := by
  induction actions generalizing r with
  | nil => exact Passed.nil r
  | cons a actions ih =>
    rw [performAll_cons, List.flatten_append]
    exact (a.passed_perform r).append (ih _)

end ReadAction

/-- A name that is read moves the reader on, within the octets. -/
theorem Name.position_of_read {id : UInt16} {r last : Reader} {n : Name}
    (h : Name.read id r = .ok n last) :
    last.octets = r.octets ∧ r.position < last.position ∧ last.position ≤ r.octets.size := by
  obtain ⟨next, hname, rfl⟩ := decode_of_read h
  refine ⟨rfl, lt_of_decode hname, ?_⟩
  rcases encode_of_decode hname with ⟨_, _, hle, _⟩ | ⟨_, _, _, _, hle, _⟩ <;> exact hle

theorem Name.eq_of_read_error {id : UInt16} {r last : Reader} {e : DecodeError}
    (h : Name.read id r = .error e last) : last = r := by
  unfold Name.read at h
  split at h
  · cases h
  · cases h
    rfl

/-! ## Positions as words -/

/-- The sum of two words of 64 bits, unless it is too large for one. -/
def checkedSum (a b : UInt64) : Option UInt64 :=
  if a + b < a then none else some (a + b)

theorem checkedSum_of_lt {a b : UInt64} (h : a.toNat + b.toNat < 2 ^ 64) :
    checkedSum a b = some (a + b) ∧ (a + b).toNat = a.toNat + b.toNat := by
  have hsum : (a + b).toNat = a.toNat + b.toNat := by
    rw [UInt64.toNat_add, Nat.mod_eq_of_lt h]
  refine ⟨if_neg ?_, hsum⟩
  rw [UInt64.lt_iff_toNat_lt, hsum]
  omega

theorem checkedSum_of_ge {a b : UInt64} (h : 2 ^ 64 ≤ a.toNat + b.toNat) :
    checkedSum a b = none := by
  have ha := a.toNat_lt
  have hb := b.toNat_lt
  apply if_pos
  rw [UInt64.lt_iff_toNat_lt, UInt64.toNat_add]
  omega

/-- A read by words: the octets from one to the sum of both, if that is one and not past the end. -/
def takeWords? (d : Array UInt8) (position n : UInt64) : Option (Octets × UInt64) :=
  (checkedSum position n).bind fun stop =>
    if stop.toNat ≤ d.size then some (d.toList.extract position.toNat stop.toNat, stop) else none

/-- Words do for positions: no array is so long that a read whose sum is too large for one could
succeed. -/
theorem takeWords?_eq {d : Array UInt8} (h : d.size < 2 ^ 64) (position n : UInt64) :
    ((Reader.mk d position.toNat).take? n.toNat).map (fun read => (read.1.val, read.2.position)) =
      (takeWords? d position n).map fun read => (read.1, read.2.toNat) := by
  unfold takeWords?
  by_cases hsum : position.toNat + n.toNat < 2 ^ 64
  · obtain ⟨hchecked, hstop⟩ := checkedSum_of_lt hsum
    rw [hchecked, Option.bind_some, hstop]
    by_cases hfit : position.toNat + n.toNat ≤ d.size
    · obtain ⟨os, htake, hos⟩ := Reader.take?_eq_some (d := d.toList) hfit
      have hread : (Reader.mk d position.toNat).take? n.toNat =
          some (os, ⟨d, position.toNat + n.toNat⟩) := htake
      rw [hread, if_pos hfit, Option.map_some, Option.map_some, hstop, hos,
        List.extract_eq_take_drop, Nat.add_sub_cancel_left]
    · rw [if_neg hfit, Reader.take?_eq_none_iff.mpr (Nat.lt_of_not_le hfit)]
      rfl
  · rw [checkedSum_of_ge (by omega), Reader.take?_eq_none_iff.mpr (by simp only; omega)]
    rfl

/-! ## The law of readers -/

/-- A read of so many octets succeeds exactly if they are all there, which words of 64 bits tell as
well as numbers do, and does not move if it fails. A header is seven such reads, as long as none
fails. Whatever is read and whatever fails, what is handed out are the octets from the start to where
the reader stands, each once. A name that cannot be read does not move the reader, and one that is
read moves it on, within the octets. -/
theorem a_reader_hands_out_each_octet_that_it_passes :
    (∀ (a : ReadAction) (n : Nat) (r : Reader), a.width? = some n →
      (r.position + n ≤ r.octets.size →
        ∃ os, os.length = n ∧ a.perform r = ([os], r.seek (r.position + n))) ∧
      (r.octets.size < r.position + n → a.perform r = ([], r))) ∧
    (∀ (d : Array UInt8) (position n : UInt64), d.size < 2 ^ 64 →
      ((Reader.mk d position.toNat).take? n.toNat).map (fun read => (read.1.val, read.2.position)) =
        (takeWords? d position n).map fun read => (read.1, read.2.toNat)) ∧
    (∀ r, ReadAction.header.perform r = ReadAction.performWhile
        [.word, .octet, .octets 1, .word, .word, .word, .word] r ∧
      Header.read r = match Header.ofFields (ReadAction.header.perform r).1 with
        | .ok header => .ok header (ReadAction.header.perform r).2
        | .error e => .error e (ReadAction.header.perform r).2) ∧
    (∀ (actions : List ReadAction) (r last : Reader) (stretches : List Octets),
      ReadAction.performAll actions r = (stretches, last) →
        last.octets = r.octets ∧ r.position ≤ last.position ∧
          last.position ≤ max r.position r.octets.size ∧
          stretches.flatten = r.octets.toList.extract r.position last.position) ∧
    ∀ (id : UInt16) (r last : Reader),
      (∀ e, Name.read id r = .error e last → last = r) ∧
      ∀ n, Name.read id r = .ok n last →
        last.octets = r.octets ∧ r.position < last.position ∧ last.position ≤ r.octets.size := by
  refine ⟨?_, fun d position n h => takeWords?_eq h position n,
    fun r => ⟨Reader.fields_eq_performWhile rfl r, rfl⟩, ?_,
    fun id r last => ⟨fun e => Name.eq_of_read_error, fun n => Name.position_of_read⟩⟩
  · intro a n r hwidth
    rw [ReadAction.perform_of_width hwidth]
    constructor
    · intro hfit
      refine ⟨r.ahead.take n, ?_, if_pos hfit⟩
      rw [List.length_take, r.length_ahead, Nat.min_eq_left (by omega)]
    · intro hshort
      exact if_neg (by omega)
  · intro actions r last stretches hrun
    have hpassed := ReadAction.passed_performAll actions r
    rw [hrun] at hpassed
    obtain ⟨hforward, hwithin⟩ := hpassed.position_le
    exact ⟨hpassed.octets_eq, hforward, hwithin, hpassed.extract_eq.symm⟩

/-- A header that is cut short hands out what is there of it, behind an octet and before a word that
is not there; nothing is read at the last position that a word holds; and the root is read. -/
theorem a_header_that_is_cut_short_hands_out_its_fields :
    (∃ last, ReadAction.performAll [.octet, .octets 9, .header, .word] ⟨#[1, 2, 3, 4, 5], 1⟩ =
        ([[2], [3, 4], [5]], last) ∧
      ([[2], [3, 4], [5]] : List Octets).flatten = [1, 2, 3, 4, 5].extract 1 last.position) ∧
    (ReadAction.octets 2).perform ⟨#[7, 8], 0xFFFFFFFFFFFFFFFF⟩ =
        ([], ⟨#[7, 8], 0xFFFFFFFFFFFFFFFF⟩) ∧
    ((Reader.mk #[7, 8] (0xFFFFFFFFFFFFFFFF : UInt64).toNat).take? (2 : UInt64).toNat).map
        (fun read => (read.1.val, read.2.position)) =
      (takeWords? #[7, 8] 0xFFFFFFFFFFFFFFFF 2).map (fun read => (read.1, read.2.toNat)) ∧
    (∃ last, Name.read 7 ⟨#[9, 0, 1], 1⟩ = .ok Name.root last ∧ 1 < last.position) ∧
    ∃ e last, Name.read 7 ⟨#[1, 2], 0⟩ = .error e last ∧ last = ⟨#[1, 2], 0⟩ := by
  obtain ⟨hsingle, hwords, _, hruns, hnames⟩ := a_reader_hands_out_each_octet_that_it_passes
  have hrun : ReadAction.performAll [.octet, .octets 9, .header, .word] ⟨#[1, 2, 3, 4, 5], 1⟩ =
      ([[2], [3, 4], [5]], ⟨#[1, 2, 3, 4, 5], 5⟩) := by
    cbv
  have hroot : Name.read 7 ⟨#[9, 0, 1], 1⟩ = .ok Name.root ⟨#[9, 0, 1], 2⟩ := by
    cbv
  have hshort : Name.read 7 ⟨#[1, 2], 0⟩ = .error (.name .tooShort 7) ⟨#[1, 2], 0⟩ := by
    cbv
  obtain ⟨_, _, _, hextract⟩ := hruns _ _ _ _ hrun
  exact ⟨⟨_, hrun, hextract⟩, (hsingle (.octets 2) 2 _ rfl).2 (by decide),
    hwords _ _ _ (by decide), ⟨_, hroot, ((hnames 7 _ _).2 _ hroot).2.1⟩,
    _, _, hshort, (hnames 7 _ _).1 _ hshort⟩

end PortalDns
