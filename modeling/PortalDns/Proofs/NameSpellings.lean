-- The laws of names that are printed and read again: which names come back
-- from their own texts, and that no other does by chance.
import PortalDns.Proofs.NameTexts

namespace PortalDns

/-! ## Dots in texts -/

section Dots

variable {cs : List Char}

/-- Behind a dot at the end stands a stretch without characters. -/
theorem nil_mem_splitDots (h : cs.getLast? = some '.') : [] ∈ splitDots cs := by
  obtain ⟨front, rfl⟩ := List.getLast?_eq_some_iff.mp h
  rw [splitDots_eq_splitOn, List.splitOn, List.splitOnP_append_cons front [] (by decide)]
  exact List.mem_append_right _ (List.mem_singleton.mpr rfl)

theorem mem_of_mem_splitDots {chunk : List Char} {c : Char} (h : chunk ∈ splitDots cs)
    (hc : c ∈ chunk) : c ∈ cs := by
  rw [← joinDots_splitDots cs]
  generalize splitDots cs = chunks at h
  induction chunks with
  | nil => cases h
  | cons first more ih =>
    cases more with
    | nil =>
      rw [joinDots_singleton]
      exact List.mem_singleton.mp h ▸ hc
    | cons next more =>
      rw [joinDots_cons, List.mem_append]
      rcases List.mem_cons.mp h with rfl | hmore
      · exact .inl hc
      · exact .inr (List.mem_cons_of_mem _ (ih hmore))

/-- Parts that hold no dot are the stretches of their text. -/
theorem splitDots_joinDots {parts : List (List Char)} (hne : parts ≠ [])
    (hdots : ∀ part ∈ parts, '.' ∉ part) : splitDots (joinDots parts) = parts := by
  rw [splitDots_eq_splitOn]
  exact List.splitOn_intercalate '.' hdots hne

theorem dropEndDot_of_not_dot (h : cs.getLast? ≠ some '.') : dropEndDot cs = cs := by
  rw [dropEndDot, if_neg h]

end Dots

/-! ## Octets as texts and back -/

section Octets

variable {cs : List Char} {os : Octets} {c : Char}

theorem toNat_ofNat_octet (o : UInt8) : (Char.ofNat o.toNat).toNat = o.toNat := by
  have hlt := o.toNat_lt
  have hvalid : o.toNat.isValidChar := .inl (by omega)
  rw [Char.toNat_ofNat, if_pos hvalid]

/-- The text of ASCII octets has these octets. -/
theorem utf8_latin1_of_ascii (h : ∀ o ∈ os, o.toNat < 128) : utf8 (latin1 os) = os := by
  induction os with
  | nil => rfl
  | cons o os ih =>
    rw [List.forall_mem_cons] at h
    have hascii : (Char.ofNat o.toNat).toNat < 128 := (toNat_ofNat_octet o).symm ▸ h.1
    rw [latin1, List.map_cons, utf8_cons, utf8EncodeChar_of_ascii hascii, toNat_ofNat_octet,
      UInt8.ofNat_toNat]
    exact congrArg (o :: ·) (ih h.2)

theorem length_le_length_utf8 (cs : List Char) : cs.length ≤ (utf8 cs).length := by
  induction cs with
  | nil => exact Nat.le_refl 0
  | cons c cs ih =>
    have hpos := c.utf8Size_pos
    rw [utf8_cons, List.length_append, List.length_cons, String.length_utf8EncodeChar]
    omega

/-- A text that has no more octets than characters is ASCII. -/
theorem ascii_of_length_utf8 (h : (utf8 cs).length ≤ cs.length) : ∀ c ∈ cs, c.toNat < 128 := by
  induction cs with
  | nil => simp
  | cons c cs ih =>
    have hpos := c.utf8Size_pos
    have hrest := length_le_length_utf8 cs
    rw [utf8_cons, List.length_append, List.length_cons, String.length_utf8EncodeChar] at h
    have hsize : c.utf8Size = 1 := by omega
    rw [List.forall_mem_cons]
    exact ⟨Nat.lt_succ_of_le (Char.utf8Size_eq_one_iff.mp hsize), ih (by omega)⟩

/-- Of a character that takes several octets, the last one has its top bit set. -/
theorem getLast?_utf8EncodeChar (h : 128 ≤ c.toNat) :
    (String.utf8EncodeChar c).getLast? = some (UInt8.ofNat (c.toNat % 64 + 128)) := by
  have hlarge : ¬c.val.toNat ≤ 127 := Nat.not_le.mpr h
  simp only [String.utf8EncodeChar, if_neg hlarge]
  split_ifs <;> rfl

/-- The last octet of a character is that of a dot only if the character is a dot. -/
theorem eq_dot_of_utf8EncodeChar (h : (String.utf8EncodeChar c).getLast? = some 0x2E) :
    c = '.' := by
  by_cases hascii : c.toNat < 128
  · rw [utf8EncodeChar_of_ascii hascii, List.getLast?_singleton, Option.some.injEq] at h
    have hnumber := congrArg UInt8.toNat h
    rw [UInt8.toNat_ofNat', Nat.mod_eq_of_lt (by omega)] at hnumber
    exact Char.toNat_inj.mp hnumber
  · rw [getLast?_utf8EncodeChar (by omega), Option.some.injEq] at h
    have hnumber := congrArg UInt8.toNat h
    rw [UInt8.toNat_ofNat', Nat.mod_eq_of_lt (by omega)] at hnumber
    have hdot : (0x2E : UInt8).toNat = 46 := rfl
    omega

/-- A text whose octets end in a dot ends in a dot itself. -/
theorem getLast?_of_utf8 (h : (utf8 cs).getLast? = some 0x2E) : cs.getLast? = some '.' := by
  obtain rfl | ⟨front, c, rfl⟩ := List.eq_nil_or_concat' cs
  · cases h
  · have hone : utf8 [c] = String.utf8EncodeChar c := List.append_nil _
    have hlast : (String.utf8EncodeChar c).getLast? ≠ none := by
      rw [ne_eq, List.getLast?_eq_none_iff]
      exact String.utf8EncodeChar_ne_nil
    rw [utf8_append, hone, List.getLast?_append, Option.or_of_isSome
      (Option.isSome_iff_ne_none.mpr hlast)] at h
    rw [eq_dot_of_utf8EncodeChar h]
    exact List.getLast?_concat

/-- A dot prints for the octet of a dot and for no other. -/
theorem eq_dot_of_latin1 {o : UInt8} (h : Char.ofNat o.toNat = '.') : o = 0x2E := by
  apply UInt8.toNat_inj.mp
  rw [← toNat_ofNat_octet, h]
  rfl

end Octets

/-! ## Names that come back -/

namespace Name

section Names

variable {n : Name}

/-- The root is the only name of one label that keeps the rules. -/
theorem WellFormed.eq_root (h : n.WellFormed) (hone : n.labels.length = 1) : n = root := by
  have hlabels := h.labels_eq
  have hinner : n.labels.dropLast = [] := by
    rw [← List.length_eq_zero_iff, List.length_dropLast, hone]
  rw [hinner, List.nil_append] at hlabels
  have hlen := h.len_eq
  rw [hlabels] at hlen
  obtain ⟨labels, len⟩ := n
  cases hlabels
  cases hlen
  rfl

/-- The stretches that the labels of a name are printed as. -/
def stretches (n : Name) : List (List Char) := n.labels.dropLast.map (latin1 ·.octets)

theorem WellFormed.stretches_ne_nil (h : n.WellFormed) : ∀ part ∈ n.stretches, part ≠ [] := by
  intro part hpart
  obtain ⟨l, hl, rfl⟩ := List.mem_map.mp hpart
  intro hnil
  exact h.inner_nonempty l hl (Label.ext (List.map_eq_nil_iff.mp hnil))

/-- Every other name prints as its stretches with the dots between them. -/
theorem WellFormed.dottedChars_eq (h : n.WellFormed) (hmore : n.labels.length ≠ 1) :
    n.dottedChars = joinDots n.stretches := by
  have hroot : n.isRoot = false := decide_eq_false hmore
  have hinner : n.labels.dropLast.filter (! ·.isEmpty) = n.labels.dropLast := by
    rw [List.filter_eq_self]
    intro l hl
    have hne := h.inner_nonempty l hl
    rw [Bool.not_eq_true', Label.isEmpty, List.isEmpty_eq_false_iff]
    exact fun hnil => hne (Label.ext hnil)
  have hlabels : n.labels.filter (! ·.isEmpty) = n.labels.dropLast := by
    rw [h.labels_eq, List.filter_append, List.dropLast_concat, hinner]
    exact List.append_nil _
  rw [dottedChars, hroot, hlabels]
  rfl

section Plain

variable (hplain : ∀ l ∈ n.labels, ∀ o ∈ l.octets, o.toNat < 128 ∧ o ≠ 0x2E)
include hplain

theorem dot_notMem_stretches : ∀ part ∈ n.stretches, '.' ∉ part := by
  intro part hpart hdot
  obtain ⟨l, hl, rfl⟩ := List.mem_map.mp hpart
  obtain ⟨o, ho, heq⟩ := List.mem_map.mp hdot
  exact (hplain l (List.mem_of_mem_dropLast hl) o ho).2 (eq_dot_of_latin1 heq)

theorem utf8_stretches : n.stretches.map utf8 = n.labels.dropLast.map Label.octets := by
  rw [stretches, List.map_map]
  apply List.map_congr_left
  intro l hl
  exact utf8_latin1_of_ascii fun o ho => (hplain l (List.mem_of_mem_dropLast hl) o ho).1

/-- A name of ASCII labels without dots comes back from its text, whose stretches are its labels. -/
theorem WellFormed.ofDotted?_toDotted (h : n.WellFormed) : ofDotted? n.toDotted = some n := by
  by_cases hroot : n.labels.length = 1
  · rw [h.eq_root hroot]
    exact ofDotted?_of_nil rfl
  · have hlabels : n.labels.map Label.octets = n.stretches.map utf8 ++ [[]] := by
      rw [utf8_stretches hplain, h.labels_eq, List.map_append, List.dropLast_concat]
      rfl
    have hsome : n.stretches ≠ [] := by
      intro hnil
      have hcount := congrArg List.length hlabels
      rw [hnil, List.length_map] at hcount
      exact hroot hcount
    have hsplit : splitDots n.dottedChars = n.stretches := by
      rw [h.dottedChars_eq hroot]
      exact splitDots_joinDots hsome (dot_notMem_stretches hplain)
    have hend : dropEndDot n.toDotted.toList = n.dottedChars := by
      rw [toDotted, String.toList_ofList]
      apply dropEndDot_of_not_dot
      intro hdot
      exact h.stretches_ne_nil [] (hsplit ▸ nil_mem_splitDots hdot) rfl
    have hne : n.dottedChars ≠ [] := by
      intro hnil
      rw [hnil] at hsplit
      exact h.stretches_ne_nil [] (hsplit ▸ List.mem_singleton.mpr rfl) rfl
    rw [ofDotted?_eq_some_iff (hend ▸ hne), hend, hsplit]
    exact ⟨h, h.stretches_ne_nil, hlabels⟩

end Plain

/-- The octets of a stretch of an ASCII text are ASCII, and no dots. -/
theorem plain_of_mem_splitDots {cs chunk : List Char} (hascii : ∀ c ∈ cs, c.toNat < 128)
    (hchunk : chunk ∈ splitDots cs) : ∀ o ∈ utf8 chunk, o.toNat < 128 ∧ o ≠ 0x2E := by
  intro o ho
  obtain ⟨c, hc, hoctet⟩ := List.mem_flatMap.mp ho
  have hlt := hascii c (mem_of_mem_splitDots hchunk hc)
  rw [utf8EncodeChar_of_ascii hlt, List.mem_singleton] at hoctet
  have hnumber : o.toNat = c.toNat := by
    rw [hoctet, UInt8.toNat_ofNat', Nat.mod_eq_of_lt (by omega)]
  refine ⟨hnumber ▸ hlt, ?_⟩
  rintro rfl
  obtain rfl : '.' = c := Char.toNat_inj.mp hnumber
  exact dot_notMem_of_mem_splitDots hchunk hc

/-- A text that a name prints as, and that spells this name, does not end in a dot: the text is the
octets of what is left without that dot, which would have to end in a dot again. -/
theorem getLast?_ne_dot_of_ofDotted? {cs : List Char}
    (hprint : cs = latin1 (utf8 (dropEndDot cs)))
    (hpos : ∀ chunk ∈ splitDots (dropEndDot cs), chunk ≠ []) : cs.getLast? ≠ some '.' := by
  intro hdot
  have hoctet : ((utf8 (dropEndDot cs)).getLast?.map fun o => Char.ofNat o.toNat) = some '.' := by
    rw [← List.getLast?_map]
    exact (congrArg List.getLast? hprint.symm).trans hdot
  obtain ⟨o, ho, heq⟩ := Option.map_eq_some_iff.mp hoctet
  rw [eq_dot_of_latin1 heq] at ho
  exact hpos [] (nil_mem_splitDots (getLast?_of_utf8 ho)) rfl

/-- A name that comes back from its text has ASCII labels without dots. -/
theorem plain_of_ofDotted? (h : ofDotted? n.toDotted = some n) :
    ∀ l ∈ n.labels, ∀ o ∈ l.octets, o.toNat < 128 ∧ o ≠ 0x2E := by
  have hchars : n.toDotted.toList = n.dottedChars := String.toList_ofList
  by_cases hnil : dropEndDot n.toDotted.toList = []
  · obtain rfl : root = n := Option.some.inj ((ofDotted?_of_nil hnil).symm.trans h)
    simp [root, Label.empty]
  · obtain ⟨_, hpos, hlabels⟩ := (ofDotted?_eq_some_iff hnil).mp h
    have hprint := congrArg String.toList (toDotted_of_dotted hnil h)
    rw [String.toList_ofList] at hprint
    generalize n.toDotted.toList = cs at hnil hpos hlabels hprint
    have hend := dropEndDot_of_not_dot (getLast?_ne_dot_of_ofDotted? hprint hpos)
    rw [hend] at hprint hlabels
    have hascii : ∀ c ∈ cs, c.toNat < 128 := by
      apply ascii_of_length_utf8
      rw [← List.length_map fun o : UInt8 => Char.ofNat o.toNat]
      exact Nat.le_of_eq (congrArg List.length hprint.symm)
    intro l hl o ho
    have hmem : l.octets ∈ (splitDots cs).map utf8 ++ [[]] := hlabels ▸ List.mem_map_of_mem hl
    rcases List.mem_append.mp hmem with hchunk | hempty
    · obtain ⟨chunk, hchunk, heq⟩ := List.mem_map.mp hchunk
      exact plain_of_mem_splitDots hascii hchunk o (heq ▸ ho)
    · rw [List.mem_singleton.mp hempty] at ho
      cases ho

end Names

end Name

/-! ## The law of names that are printed -/

/-- A name that keeps the rules comes back from its text exactly if all its octets are ASCII and none
is a dot. Every name that is read from a datagram keeps them, and no name that breaks them comes
back. -/
theorem a_name_comes_back_from_its_text_exactly_if_it_is_ascii_without_dots :
    (∀ n : Name, n.WellFormed → (Name.ofDotted? n.toDotted = some n ↔
      ∀ l ∈ n.labels, ∀ o ∈ l.octets, o.toNat < 0x80 ∧ o ≠ 0x2E)) ∧
    (∀ d o n next, Name.decode d o = .ok (n, next) → n.WellFormed) ∧
    ∀ n, Name.ofDotted? n.toDotted = some n → n.WellFormed := by
  refine ⟨?_, fun d o n next => Name.wellFormed_of_decode, fun n => Name.wellFormed_of_dotted⟩
  intro n hn
  exact ⟨Name.plain_of_ofDotted?, fun hplain => hn.ofDotted?_toDotted hplain⟩

/-- A name in two segments comes back, and one whose only label is an accent before a dot does
not. -/
theorem a_name_in_two_segments_comes_back_and_an_accent_before_a_dot_does_not :
    (∃ n, Name.decode [3, 87, 119, 119, 192, 7, 255, 2, 100, 101, 0] 0 = .ok (n, 6) ∧
      n.WellFormed ∧ n.toDotted = "Www.de" ∧ Name.ofDotted? n.toDotted = some n) ∧
    ∃ n : Name, n.WellFormed ∧ n.labels = [⟨[0xE9, 0x2E], by decide⟩, Label.empty] ∧
      n.toDotted = "é." ∧ Name.ofDotted? n.toDotted ≠ some n := by
  obtain ⟨hback, hread, hkept⟩ :=
    a_name_comes_back_from_its_text_exactly_if_it_is_ascii_without_dots
  have hdecode : Name.decode [3, 87, 119, 119, 192, 7, 255, 2, 100, 101, 0] 0 =
      .ok (⟨[⟨[87, 119, 119], by decide⟩, ⟨[100, 101], by decide⟩, Label.empty], 8⟩, 6) := by
    cbv
  have hwww := hread _ _ _ _ hdecode
  have haccent : Name.WellFormed ⟨[⟨[0xE9, 0x2E], by decide⟩, Label.empty], 4⟩ :=
    ⟨by decide, by decide, by decide, by decide⟩
  refine ⟨⟨_, hdecode, hwww, by decide, (hback _ hwww).mpr (by simp [Label.empty])⟩,
    _, haccent, rfl, by decide, ?_⟩
  intro hsame
  exact absurd ((hback _ haccent).mp hsame) (by decide)

end PortalDns
