-- The laws of names as text: which texts are names, by the octets of their
-- stretches between dots, and what is printed of a name that was read.
import PortalDns.Proofs.NameRules

namespace PortalDns

/-! ## Stretches between dots -/

/-- Splitting at dots is splitting a list at an element. -/
theorem splitDots_eq_splitOn (cs : List Char) : splitDots cs = cs.splitOn '.' := by
  induction cs with
  | nil => rfl
  | cons c cs ih =>
    rw [splitDots, ih, List.splitOn, List.splitOn, List.splitOnP_cons_eq_if_modifyHead]
    simp only [beq_iff_eq]

/-! ## Texts as octets and back -/

section Octets

variable {cs : List Char}

theorem utf8_cons (c : Char) (cs : List Char) :
    utf8 (c :: cs) = String.utf8EncodeChar c ++ utf8 cs :=
  List.flatMap_cons

theorem utf8_append (cs more : List Char) : utf8 (cs ++ more) = utf8 cs ++ utf8 more :=
  List.flatMap_append

theorem latin1_append (os more : Octets) : latin1 (os ++ more) = latin1 os ++ latin1 more :=
  List.map_append

theorem length_utf8_pos (h : cs ≠ []) : 0 < (utf8 cs).length := by
  obtain ⟨c, cs, rfl⟩ := List.exists_cons_of_ne_nil h
  have hpos := c.utf8Size_pos
  rw [utf8_cons, List.length_append, String.length_utf8EncodeChar]
  omega

/-- An ASCII character is one octet, its number. -/
theorem utf8EncodeChar_of_ascii {c : Char} (h : c.toNat < 128) :
    String.utf8EncodeChar c = [UInt8.ofNat c.toNat] := by
  have hval : c.val ≤ 127 := Nat.le_of_lt_succ h
  rw [String.utf8EncodeChar_eq_singleton (Char.utf8Size_eq_one_iff.mpr hval)]
  rfl

/-- The octet of an ASCII character prints as that character. -/
theorem latin1_utf8EncodeChar_of_ascii {c : Char} (h : c.toNat < 128) :
    latin1 (String.utf8EncodeChar c) = [c] := by
  rw [utf8EncodeChar_of_ascii h, latin1, List.map_singleton, UInt8.toNat_ofNat',
    Nat.mod_eq_of_lt (by omega), Char.ofNat_toNat]

/-- A text in ASCII prints as itself. -/
theorem latin1_utf8_of_ascii (h : ∀ c ∈ cs, c.toNat < 128) : latin1 (utf8 cs) = cs := by
  induction cs with
  | nil => rfl
  | cons c cs ih =>
    rw [List.forall_mem_cons] at h
    rw [utf8_cons, latin1_append, latin1_utf8EncodeChar_of_ascii h.1, ih h.2]
    rfl

/-- A dot is one octet, which prints as a dot. -/
theorem latin1_utf8_joinDots (parts : List (List Char)) :
    latin1 (utf8 (joinDots parts)) = joinDots (parts.map fun part => latin1 (utf8 part)) := by
  induction parts with
  | nil => rfl
  | cons part parts ih =>
    cases parts with
    | nil => simp only [List.map_cons, List.map_nil, joinDots_singleton]
    | cons next more =>
      rw [joinDots_cons, List.map_cons, List.map_cons, joinDots_cons, utf8_append, latin1_append,
        utf8_cons, latin1_append, ih]
      rfl

end Octets

namespace Name

/-! ## Labels of stretches -/

section Labels

variable {chunk : List Char} {chunks : List (List Char)} {l : Label} {labels : List Label}

theorem labelOfChunk?_eq_some_iff :
    labelOfChunk? chunk = some l ↔ chunk ≠ [] ∧ l.octets = utf8 chunk := by
  unfold labelOfChunk? Label.ofOctets?
  by_cases hchunk : chunk = []
  · simp [hchunk]
  · rw [if_neg hchunk]
    constructor
    · intro h
      split at h
      · cases h
        exact ⟨hchunk, rfl⟩
      · cases h
    · rintro ⟨_, hoctets⟩
      rw [dif_pos (hoctets ▸ l.length_le)]
      exact congrArg some (Label.ext hoctets.symm)

/-- The labels of stretches hold their octets, if no stretch is empty. -/
theorem mapM_labelOfChunk?_eq_some_iff :
    chunks.mapM labelOfChunk? = some labels ↔
      (∀ chunk ∈ chunks, chunk ≠ []) ∧ labels.map Label.octets = chunks.map utf8 := by
  induction chunks generalizing labels with
  | nil => simp
  | cons chunk chunks ih =>
    rw [List.mapM_cons, List.forall_mem_cons, List.map_cons, List.map_eq_cons_iff]
    simp only [Option.bind_eq_bind, Option.bind_eq_some_iff, labelOfChunk?_eq_some_iff, ih,
      Option.pure_def, Option.some.injEq]
    constructor
    · rintro ⟨l, ⟨hne, hl⟩, ls, ⟨hnes, hls⟩, rfl⟩
      exact ⟨⟨hne, hnes⟩, l, ls, rfl, hl, hls⟩
    · rintro ⟨⟨hne, hnes⟩, l, ls, rfl, hl, hls⟩
      exact ⟨l, ⟨hne, hl⟩, ls, ⟨hnes, hls⟩, rfl⟩

theorem exists_labels_of_chunks (h : ∀ chunk ∈ chunks, (utf8 chunk).length ≤ 63) :
    ∃ labels : List Label, labels.map Label.octets = chunks.map utf8 := by
  induction chunks with
  | nil => exact ⟨[], rfl⟩
  | cons chunk chunks ih =>
    rw [List.forall_mem_cons] at h
    obtain ⟨labels, hlabels⟩ := ih h.2
    exact ⟨⟨utf8 chunk, h.1⟩ :: labels, by rw [List.map_cons, List.map_cons, hlabels]⟩

/-- Labels take as many octets as their stretches with the dots between them, and one more: each has
a length octet, and there is one dot less than there are stretches. -/
theorem wireLength_of_chunks (hne : chunks ≠ [])
    (h : labels.map Label.octets = chunks.map utf8) :
    wireLength labels = (utf8 (joinDots chunks)).length + 1 := by
  induction chunks generalizing labels with
  | nil => exact absurd rfl hne
  | cons chunk chunks ih =>
    rw [List.map_cons, List.map_eq_cons_iff] at h
    obtain ⟨l, ls, rfl, hl, hls⟩ := h
    have hsize : l.size = (utf8 chunk).length := congrArg List.length hl
    rw [wireLength_cons, hsize]
    cases chunks with
    | nil =>
      obtain rfl : ls = [] := List.map_eq_nil_iff.mp hls
      rw [joinDots_singleton, wireLength_nil]
      omega
    | cons next more =>
      rw [ih (by simp) hls, joinDots_cons, utf8_append, utf8_cons, List.length_append,
        List.length_append]
      have hdot : (String.utf8EncodeChar '.').length = 1 := rfl
      omega

end Labels

/-! ## Names of stretches -/

section Names

variable {chunks : List (List Char)} {n : Name}

/-- Stretches that are all there and fit, each by itself and all together, are those of a name. -/
theorem exists_name_of_chunks (hne : chunks ≠ []) (hpos : ∀ chunk ∈ chunks, chunk ≠ [])
    (hfit : ∀ chunk ∈ chunks, (utf8 chunk).length ≤ 63)
    (hmax : (utf8 (joinDots chunks)).length ≤ 253) :
    ∃ n : Name, n.WellFormed ∧ n.labels.map Label.octets = chunks.map utf8 ++ [[]] := by
  obtain ⟨labels, hlabels⟩ := exists_labels_of_chunks hfit
  have hwire : wireLength (labels ++ [Label.empty]) = (utf8 (joinDots chunks)).length + 2 := by
    rw [wireLength_append, wireLength_of_chunks hne hlabels]
    rfl
  refine ⟨⟨labels ++ [Label.empty], wireLength (labels ++ [Label.empty])⟩, ⟨?_, ?_, rfl, ?_⟩, ?_⟩
  · exact List.getLast?_concat
  · rw [List.dropLast_concat]
    rintro l hl rfl
    have hmem : [] ∈ chunks.map utf8 := hlabels ▸ List.mem_map.mpr ⟨_, hl, rfl⟩
    obtain ⟨chunk, hchunk, hnil⟩ := List.mem_map.mp hmem
    have hsome := length_utf8_pos (hpos chunk hchunk)
    rw [hnil] at hsome
    exact absurd hsome (by simp)
  · rw [hwire]
    exact Nat.add_le_add_right hmax 2
  · rw [List.map_append, hlabels]
    rfl

variable (hn : n.labels.map Label.octets = chunks.map utf8 ++ [[]])
include hn

/-- A name of stretches takes two octets more than they do: the length octet of the first, and the
zero at the end. -/
theorem WellFormed.len_of_chunks (h : n.WellFormed) (hne : chunks ≠ []) :
    n.len = (utf8 (joinDots chunks)).length + 2 := by
  rw [h.labels_eq, List.map_append] at hn
  rw [h.len_eq, h.labels_eq, wireLength_append,
    wireLength_of_chunks hne (List.append_cancel_right hn)]
  rfl

/-- No stretch of a name is longer than a label. -/
theorem length_le_of_chunks : ∀ chunk ∈ chunks, (utf8 chunk).length ≤ 63 := by
  intro chunk hchunk
  have hmem : utf8 chunk ∈ n.labels.map Label.octets :=
    hn ▸ List.mem_append_left _ (List.mem_map_of_mem hchunk)
  obtain ⟨l, _, hl⟩ := List.mem_map.mp hmem
  rw [← hl]
  exact l.length_le

/-- A name of stretches prints as their octets do, with the dots between them. -/
theorem dottedChars_of_chunks (hne : chunks ≠ []) (hpos : ∀ chunk ∈ chunks, chunk ≠ []) :
    n.dottedChars = latin1 (utf8 (joinDots chunks)) := by
  have hroot : n.isRoot = false := by
    have hcount := congrArg List.length hn
    have hsome := List.length_pos_iff.mpr hne
    simp only [List.length_map, List.length_append, List.length_singleton] at hcount
    rw [isRoot, decide_eq_false_iff_not]
    omega
  have hinner : (chunks.map utf8).filter (! ·.isEmpty) = chunks.map utf8 := by
    rw [List.filter_eq_self]
    intro os hos
    obtain ⟨chunk, hchunk, rfl⟩ := List.mem_map.mp hos
    have hsome := length_utf8_pos (hpos chunk hchunk)
    simpa using List.length_pos_iff.mp hsome
  have hparts : (n.labels.filter (! ·.isEmpty)).map (latin1 ·.octets) =
      chunks.map fun chunk => latin1 (utf8 chunk) := by
    calc (n.labels.filter (! ·.isEmpty)).map (latin1 ·.octets)
        = ((n.labels.map Label.octets).filter (! ·.isEmpty)).map latin1 := by
          rw [List.filter_map, List.map_map]
          rfl
      _ = (chunks.map utf8).map latin1 := by
          rw [hn, List.filter_append, hinner]
          simp
      _ = chunks.map fun chunk => latin1 (utf8 chunk) := List.map_map
  rw [dottedChars, hroot, hparts, latin1_utf8_joinDots]
  rfl

end Names

/-! ## Names of texts -/

section Texts

variable {s : String} {n : Name}

theorem ofDotted?_of_nil (h : dropEndDot s.toList = []) : ofDotted? s = some root := by
  rw [ofDotted?, h]

/-- A text that is more than a dot spells the name that keeps the rules and has the octets of its
stretches as labels. -/
theorem ofDotted?_eq_some_iff (h : dropEndDot s.toList ≠ []) :
    ofDotted? s = some n ↔
      n.WellFormed ∧ (∀ chunk ∈ splitDots (dropEndDot s.toList), chunk ≠ []) ∧
        n.labels.map Label.octets = (splitDots (dropEndDot s.toList)).map utf8 ++ [[]] := by
  unfold ofDotted?
  split
  · contradiction
  · simp only [Option.bind_eq_bind, Option.bind_eq_some_iff, mapM_labelOfChunk?_eq_some_iff,
      ofLabels?_eq_some_iff]
    constructor
    · rintro ⟨labels, ⟨hne, hlabels⟩, hn, heq⟩
      refine ⟨hn, hne, ?_⟩
      rw [heq, List.map_append, hlabels]
      rfl
    · rintro ⟨hn, hne, hlabels⟩
      rw [hn.labels_eq, List.map_append] at hlabels
      exact ⟨n.labels.dropLast, ⟨hne, List.append_cancel_right hlabels⟩, hn, hn.labels_eq⟩

/-- A text that is more than a dot spells a name exactly if its stretches fit. -/
theorem exists_ofDotted?_iff (h : dropEndDot s.toList ≠ []) :
    (∃ n, ofDotted? s = some n) ↔
      (∀ chunk ∈ splitDots (dropEndDot s.toList),
          1 ≤ (utf8 chunk).length ∧ (utf8 chunk).length ≤ 63) ∧
        (utf8 (dropEndDot s.toList)).length ≤ 253 := by
  have hchunks := splitDots_ne_nil (dropEndDot s.toList)
  have hjoin := joinDots_splitDots (dropEndDot s.toList)
  simp only [ofDotted?_eq_some_iff h]
  constructor
  · rintro ⟨n, hn, hpos, hlabels⟩
    constructor
    · intro chunk hchunk
      exact ⟨length_utf8_pos (hpos chunk hchunk), length_le_of_chunks hlabels chunk hchunk⟩
    · have hlen := hn.len_of_chunks hlabels hchunks
      have hmax : n.len ≤ 255 := hn.len_le
      rw [hjoin] at hlen
      omega
  · rintro ⟨hfit, hmax⟩
    have hpos : ∀ chunk ∈ splitDots (dropEndDot s.toList), chunk ≠ [] := by
      rintro _ hchunk rfl
      exact absurd (hfit _ hchunk).1 (by simp [utf8])
    obtain ⟨n, hn, hlabels⟩ := exists_name_of_chunks hchunks hpos
      (fun chunk hchunk => (hfit chunk hchunk).2) (hjoin.symm ▸ hmax)
    exact ⟨n, hn, hpos, hlabels⟩

/-- The name of a text prints as the text does in octets, without the dot at its end. -/
theorem toDotted_of_dotted (h : dropEndDot s.toList ≠ []) (hn : ofDotted? s = some n) :
    n.toDotted = String.ofList (latin1 (utf8 (dropEndDot s.toList))) := by
  obtain ⟨_, hpos, hlabels⟩ := (ofDotted?_eq_some_iff h).mp hn
  rw [toDotted, dottedChars_of_chunks hlabels (splitDots_ne_nil _) hpos, joinDots_splitDots]

end Texts

end Name

/-! ## The law of names as text -/

/-- A text spells a name exactly if it is empty or a dot, or if without the dot at its end each of
its stretches has 1 to 63 octets, and all of it 253 at most. The name is the root, or has the octets
of the stretches as its labels, and prints as these octets, which is the text itself if that is
ASCII. -/
theorem a_text_is_a_name_exactly_if_its_stretches_fit (s : String) :
    ((∃ n, Name.ofDotted? s = some n) ↔
      dropEndDot s.toList = [] ∨
        (∀ chunk ∈ (dropEndDot s.toList).splitOn '.',
            1 ≤ (utf8 chunk).length ∧ (utf8 chunk).length ≤ 63) ∧
          (utf8 (dropEndDot s.toList)).length ≤ 253) ∧
      ∀ n, Name.ofDotted? s = some n →
        (dropEndDot s.toList = [] → n = Name.root ∧ n.toDotted = ".") ∧
          (dropEndDot s.toList ≠ [] →
            n.labels.map Label.octets =
                ((dropEndDot s.toList).splitOn '.').map utf8 ++ [[]] ∧
              n.toDotted = String.ofList (latin1 (utf8 (dropEndDot s.toList))) ∧
              ((∀ c ∈ s.toList, c.toNat < 128) →
                n.toDotted = String.ofList (dropEndDot s.toList))) := by
  rw [← splitDots_eq_splitOn]
  by_cases hnil : dropEndDot s.toList = []
  · have hroot := Name.ofDotted?_of_nil hnil
    refine ⟨⟨fun _ => .inl hnil, fun _ => ⟨_, hroot⟩⟩, ?_⟩
    intro n hn
    obtain rfl : Name.root = n := Option.some.inj (hroot.symm.trans hn)
    exact ⟨fun _ => ⟨rfl, rfl⟩, fun hne => absurd hnil hne⟩
  · refine ⟨?_, ?_⟩
    · rw [Name.exists_ofDotted?_iff hnil, or_iff_right hnil]
    · intro n hn
      have hprinted := Name.toDotted_of_dotted hnil hn
      refine ⟨fun h => absurd h hnil, fun _ => ⟨?_, hprinted, ?_⟩⟩
      · obtain ⟨_, _, hlabels⟩ := (Name.ofDotted?_eq_some_iff hnil).mp hn
        exact hlabels
      · intro hascii
        rw [hprinted, latin1_utf8_of_ascii fun c hc => hascii c (mem_of_mem_dropEndDot hc)]

/-- A letter with an accent prints as two characters, and a text in ASCII without its dot at the
end. -/
theorem an_accent_prints_as_two_characters_and_ascii_as_itself :
    (∃ n, Name.ofDotted? "é.x." = some n ∧
      n.labels.map Label.octets = [[0xC3, 0xA9], [0x78], []] ∧ n.toDotted = "Ã©.x") ∧
    (∃ n, Name.ofDotted? "www." = some n ∧ n.toDotted = "www") ∧
    ¬∃ n, Name.ofDotted? ".." = some n := by
  obtain ⟨haccent, hprinted⟩ := a_text_is_a_name_exactly_if_its_stretches_fit "é.x."
  obtain ⟨hascii, hitself⟩ := a_text_is_a_name_exactly_if_its_stretches_fit "www."
  obtain ⟨hdots, _⟩ := a_text_is_a_name_exactly_if_its_stretches_fit ".."
  obtain ⟨n, hn⟩ := haccent.mpr (.inr (by decide))
  obtain ⟨m, hm⟩ := hascii.mpr (.inr (by decide))
  obtain ⟨hlabels, htext, _⟩ := (hprinted n hn).2 (by decide)
  obtain ⟨_, _, hsame⟩ := (hitself m hm).2 (by decide)
  refine ⟨⟨n, hn, hlabels, htext⟩, ⟨m, hm, hsame (by simp)⟩, ?_⟩
  exact fun h => absurd (hdots.mp h) (by decide)

end PortalDns
