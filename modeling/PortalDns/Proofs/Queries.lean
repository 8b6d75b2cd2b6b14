-- The laws of queries: which datagrams are queries, and which questions stand
-- in them, each one directly behind the one before it.
import PortalDns.Message.Query
import PortalDns.Proofs.NameItems

namespace PortalDns

/-! ## Words -/

namespace Octets

/-- The word at an offset. -/
def wordAt (os : Octets) (i : Nat) : UInt16 := toUInt16 ((os.drop i).take 2)

theorem take_two_drop {os : Octets} {i : Nat} {a b : UInt8} (ha : os[i]? = some a)
    (hb : os[i + 1]? = some b) : (os.drop i).take 2 = [a, b] := by
  obtain ⟨hi, rfl⟩ := List.getElem?_eq_some_iff.mp ha
  obtain ⟨hi', rfl⟩ := List.getElem?_eq_some_iff.mp hb
  rw [List.drop_eq_getElem_cons hi, List.drop_eq_getElem_cons hi']
  rfl

theorem exists_octets {os : Octets} {i : Nat} (h : i + 2 ≤ os.length) :
    ∃ a b, os[i]? = some a ∧ os[i + 1]? = some b :=
  ⟨os[i], os[i + 1], List.getElem?_eq_getElem (by omega), List.getElem?_eq_getElem (by omega)⟩

theorem wordAt_congr {d r : Octets} {i : Nat} (h : i + 2 ≤ d.length) (h0 : r[i]? = d[i]?)
    (h1 : r[i + 1]? = d[i + 1]?) : wordAt r i = wordAt d i := by
  obtain ⟨a, b, ha, hb⟩ := exists_octets h
  rw [wordAt, wordAt, take_two_drop ha hb, take_two_drop (h0.trans ha) (h1.trans hb)]

/-- A word that was written is read back. -/
theorem wordAt_of_prefix {d : Octets} {o : Nat} {w : UInt16} (h : ofUInt16 w <+: d.drop o) :
    wordAt d o = w := by
  obtain ⟨t, ht⟩ := h
  rw [wordAt, ← ht, ← length_ofUInt16 w, List.take_left, toUInt16_ofUInt16]

/-- A word is zero where both its octets are. -/
theorem wordAt_eq_zero_iff {os : Octets} {i : Nat} (h : i + 2 ≤ os.length) :
    wordAt os i = 0 ↔ os[i]? = some 0 ∧ os[i + 1]? = some 0 := by
  obtain ⟨a, b, ha, hb⟩ := exists_octets h
  rw [wordAt, take_two_drop ha hb, ha, hb]
  constructor
  · intro h0
    have hpair := ofUInt16_toUInt16 a b
    rw [h0] at hpair
    simp only [ofUInt16, List.cons.injEq, and_true] at hpair
    exact ⟨congrArg some hpair.1.symm, congrArg some hpair.2.symm⟩
  · rintro ⟨h0, h1⟩
    cases h0
    cases h1
    rfl

end Octets

/-! ## Headers -/

theorem Reader.fields_cons {d : Octets} {o width : Nat} (widths : List Nat)
    (h : o + width ≤ d.length) :
    (Reader.mk d.toArray o).fields (width :: widths) =
      ((d.drop o).take width :: ((Reader.mk d.toArray (o + width)).fields widths).1,
        ((Reader.mk d.toArray (o + width)).fields widths).2) := by
  obtain ⟨os, htake, hos⟩ := take?_eq_some h
  rw [fields]
  simp only [htake, hos]

theorem Header.read_of_length {d : Octets} {flags : UInt8} (h : 12 ≤ d.length)
    (hflags : d[2]? = some flags) :
    Header.read (Reader.ofOctets d) = .ok {
      id := Octets.wordAt d 0
      truncated := flags &&& 0x02 ≠ 0
      questions := Octets.wordAt d 4
      answers := Octets.wordAt d 6
      authorities := Octets.wordAt d 8
      additional := Octets.wordAt d 10 } ⟨d.toArray, 12⟩ := by
  obtain ⟨h2, rfl⟩ := List.getElem?_eq_some_iff.mp hflags
  have htake : (d.drop 2).take 1 = [d[2]] := by
    rw [List.drop_eq_getElem_cons h2]
    rfl
  simp only [Header.read, Reader.ofOctets, widths]
  rw [Reader.fields_cons _ (by omega), Reader.fields_cons _ (by omega),
    Reader.fields_cons _ (by omega), Reader.fields_cons _ (by omega),
    Reader.fields_cons _ (by omega), Reader.fields_cons _ (by omega),
    Reader.fields_cons _ (by omega)]
  simp [Reader.fields, ofFields, Octets.wordAt, htake, Octets.number, truncatedBit]

/-! ## Which datagrams are queries -/

/-- A datagram of a length that messages have, without records, and not cut short by its
sender. -/
structure IsQuery (d : Octets) : Prop where
  length_ge : 12 ≤ d.length
  length_le : d.length ≤ 512
  no_records : ∀ i, 6 ≤ i → i ≤ 11 → d[i]? = some 0
  not_truncated : ∀ flags, d[2]? = some flags → flags &&& 0x02 = 0

theorem IsQuery.of_flags {d : Octets} {flags : UInt8} (hge : 12 ≤ d.length)
    (hle : d.length ≤ 512) (hrecords : ∀ i, 6 ≤ i → i ≤ 11 → d[i]? = some 0)
    (hflags : d[2]? = some flags) (hcut : flags &&& 0x02 = 0) : IsQuery d := by
  refine ⟨hge, hle, hrecords, ?_⟩
  intro flags' hflags'
  rw [hflags] at hflags'
  cases hflags'
  exact hcut

namespace Query

/-- The query that a datagram is taken for. -/
def ofOctets (d : Octets) : Query where
  octets := d
  header := {
    id := Octets.wordAt d 0
    truncated := false
    questions := Octets.wordAt d 4
    answers := 0
    authorities := 0
    additional := 0 }

variable {d : Octets}

theorem no_records_iff (h : 12 ≤ d.length) :
    (∀ i, 6 ≤ i → i ≤ 11 → d[i]? = some 0) ↔
      Octets.wordAt d 6 = 0 ∧ Octets.wordAt d 8 = 0 ∧ Octets.wordAt d 10 = 0 := by
  rw [Octets.wordAt_eq_zero_iff (by omega), Octets.wordAt_eq_zero_iff (by omega),
    Octets.wordAt_eq_zero_iff (by omega)]
  constructor
  · intro h0
    exact ⟨⟨h0 6 (by omega) (by omega), h0 7 (by omega) (by omega)⟩,
      ⟨h0 8 (by omega) (by omega), h0 9 (by omega) (by omega)⟩,
      ⟨h0 10 (by omega) (by omega), h0 11 (by omega) (by omega)⟩⟩
  · rintro ⟨⟨h6, h7⟩, ⟨h8, h9⟩, ⟨h10, h11⟩⟩ i hge hle
    obtain rfl | rfl | rfl | rfl | rfl | rfl : i = 6 ∨ i = 7 ∨ i = 8 ∨ i = 9 ∨ i = 10 ∨ i = 11 := by
      omega
    all_goals assumption

theorem parse_of_short (h : d.length < 12) : parse d = .error (.tooShort d.length) := by
  rw [parse, if_pos (show d.length < Header.length from h)]

theorem parse_of_long (h : 512 < d.length) : parse d = .error (.tooLong d.length) := by
  rw [parse, if_neg (show ¬ d.length < Header.length by simp only [Header.length]; omega),
    if_pos (show maxMessageLength < d.length from h)]

theorem hasRecords_iff (h : Header) :
    h.hasRecords = true ↔ ¬ (h.answers = 0 ∧ h.authorities = 0 ∧ h.additional = 0) := by
  simp only [Header.hasRecords, Bool.or_eq_true, bne_iff_ne, Decidable.not_and_iff_not_or_not,
    or_assoc]

/-- Once the length is right, the header decides. -/
theorem parse_of_length {flags : UInt8} (hge : 12 ≤ d.length) (hle : d.length ≤ 512)
    (hflags : d[2]? = some flags) :
    parse d =
      if ¬ (Octets.wordAt d 6 = 0 ∧ Octets.wordAt d 8 = 0 ∧ Octets.wordAt d 10 = 0) then
        .error (.notAQuery (Octets.wordAt d 0))
      else if flags &&& 0x02 ≠ 0 then .error (.truncated (Octets.wordAt d 0))
      else .ok (ofOctets d) := by
  rw [parse, if_neg (show ¬ d.length < Header.length by simp only [Header.length]; omega),
    if_neg (show ¬ maxMessageLength < d.length by simp only [maxMessageLength]; omega),
    Header.read_of_length hge hflags]
  simp only [hasRecords_iff, decide_eq_true_eq]
  split
  · rfl
  · rename_i hrecords
    obtain ⟨h6, h8, h10⟩ := Decidable.not_not.mp hrecords
    split
    · rfl
    · rename_i hcut
      simp only [h6, h8, h10, ofOctets, decide_eq_false hcut]

theorem exists_flags (h : 12 ≤ d.length) : ∃ flags, d[2]? = some flags :=
  ⟨d[2], List.getElem?_eq_getElem (by omega)⟩

theorem parse_of_records (hge : 12 ≤ d.length) (hle : d.length ≤ 512)
    (h : ¬ ∀ i, 6 ≤ i → i ≤ 11 → d[i]? = some 0) :
    parse d = .error (.notAQuery (Octets.wordAt d 0)) := by
  obtain ⟨flags, hflags⟩ := exists_flags hge
  rw [no_records_iff hge] at h
  rw [parse_of_length hge hle hflags, if_pos h]

theorem parse_of_truncated {flags : UInt8} (hge : 12 ≤ d.length) (hle : d.length ≤ 512)
    (h : ∀ i, 6 ≤ i → i ≤ 11 → d[i]? = some 0) (hflags : d[2]? = some flags)
    (hcut : flags &&& 0x02 ≠ 0) : parse d = .error (.truncated (Octets.wordAt d 0)) := by
  rw [no_records_iff hge] at h
  rw [parse_of_length hge hle hflags, if_neg (not_not_intro h), if_pos hcut]

theorem parse_of_isQuery (h : IsQuery d) : parse d = .ok (ofOctets d) := by
  obtain ⟨flags, hflags⟩ := exists_flags h.length_ge
  have hrecords := (no_records_iff h.length_ge).mp h.no_records
  rw [parse_of_length h.length_ge h.length_le hflags, if_neg (not_not_intro hrecords),
    if_neg (not_not_intro (h.not_truncated flags hflags))]

theorem isQuery_of_parse {q : Query} (h : parse d = .ok q) : IsQuery d ∧ q = ofOctets d := by
  by_cases hshort : d.length < 12
  · rw [parse_of_short hshort] at h
    cases h
  by_cases hlong : 512 < d.length
  · rw [parse_of_long hlong] at h
    cases h
  have hge : 12 ≤ d.length := by omega
  have hle : d.length ≤ 512 := by omega
  obtain ⟨flags, hflags⟩ := exists_flags hge
  rw [parse_of_length hge hle hflags] at h
  split at h
  · cases h
  · rename_i hrecords
    split at h
    · cases h
    · rename_i hcut
      cases h
      have hnone := (no_records_iff hge).mpr (Classical.not_not.mp hrecords)
      exact ⟨.of_flags hge hle hnone hflags (Classical.not_not.mp hcut), rfl⟩

end Query

/-! ## Reading a question -/

theorem Reader.word?_eq_some {d : Octets} {o : Nat} (h : o + 2 ≤ d.length) :
    (Reader.mk d.toArray o).word? = some (Octets.wordAt d o, ⟨d.toArray, o + 2⟩) := by
  obtain ⟨os, htake, hos⟩ := take?_eq_some h
  simp only [word?, htake, Option.map_some, hos, Octets.wordAt]

theorem Reader.word?_eq_none {d : Octets} {o : Nat} (h : d.length < o + 2) :
    (Reader.mk d.toArray o).word? = none := by
  rw [word?, Option.map_eq_none_iff, take?_eq_none_iff]
  simpa using h

section Reading

variable {d : Octets} {id : UInt16} {o : Nat}

/-- A word is read in whole or not at all. -/
theorem read_word {ε α : Type} (f : UInt16 → α) (fault : ε) :
    (do return f (← Reader.require Reader.word? fault) : EStateM ε Reader α) ⟨d.toArray, o⟩ =
      if o + 2 ≤ d.length then .ok (f (Octets.wordAt d o)) ⟨d.toArray, o + 2⟩
      else .error fault ⟨d.toArray, o⟩ := by
  split
  · rename_i h
    exact bind_of_ok (Reader.require_of_some fault (Reader.word?_eq_some h))
  · rename_i h
    exact bind_of_error (Reader.require_of_none fault (Reader.word?_eq_none (by omega)))

theorem Name.read_eq (d : Octets) (id : UInt16) (o : Nat) :
    Name.read id ⟨d.toArray, o⟩ =
      match Name.decode d o with
      | .ok (name, next) => .ok name ⟨d.toArray, next⟩
      | .error fault => .error (.name fault id) ⟨d.toArray, o⟩ := rfl

/-- A name that is read is the one at the position, and the reader goes behind it. -/
theorem Name.decode_of_read {r rest : Reader} {n : Name} (h : Name.read id r = .ok n rest) :
    ∃ next, Name.decode r.octets.toList r.position = .ok (n, next) ∧ rest = r.seek next := by
  unfold Name.read at h
  split at h
  · rename_i hname
    cases h
    exact ⟨_, hname, rfl⟩
  · cases h

/-- A question is a name, and behind it the words of a type and of a class. -/
theorem Question.read_of_name {name : Name} {next : Nat} (h : Name.decode d o = .ok (name, next)) :
    Question.read id ⟨d.toArray, o⟩ =
      if next + 4 ≤ d.length then
        .ok { name, qtype := .ofCode (Octets.wordAt d next),
              qclass := .ofCode (Octets.wordAt d (next + 2)) } ⟨d.toArray, next + 4⟩
      else .error (.questionTooShort id)
        ⟨d.toArray, if next + 2 ≤ d.length then next + 2 else next⟩ := by
  have hname : Name.read id ⟨d.toArray, o⟩ = .ok name ⟨d.toArray, next⟩ := by
    rw [Name.read_eq, h]
  have htype : QueryType.read id ⟨d.toArray, next⟩ = _ := read_word QueryType.ofCode _
  have hclass : QueryClass.read id ⟨d.toArray, next + 2⟩ = _ := read_word QueryClass.ofCode _
  rw [Question.read, bind_of_ok hname]
  by_cases h2 : next + 2 ≤ d.length
  · rw [bind_of_ok (htype.trans (if_pos h2)), if_pos h2]
    by_cases h4 : next + 4 ≤ d.length
    · rw [bind_of_ok (hclass.trans (if_pos h4)), if_pos h4]
      rfl
    · rw [bind_of_error (hclass.trans (if_neg h4)), if_neg h4]
  · rw [bind_of_error (htype.trans (if_neg h2)), if_neg (by omega), if_neg h2]

theorem Question.read_of_fault {fault : NameFault} (h : Name.decode d o = .error fault) :
    Question.read id ⟨d.toArray, o⟩ = .error (.name fault id) ⟨d.toArray, o⟩ := by
  have hname : Name.read id ⟨d.toArray, o⟩ = .error (.name fault id) ⟨d.toArray, o⟩ := by
    rw [Name.read_eq, h]
  rw [Question.read, bind_of_error hname]

theorem Question.read_eq_ok_iff {q : Question} {rest : Reader} :
    Question.read id ⟨d.toArray, o⟩ = .ok q rest ↔
      ∃ next, Name.decode d o = .ok (q.name, next) ∧ next + 4 ≤ d.length ∧
        q.qtype = .ofCode (Octets.wordAt d next) ∧
        q.qclass = .ofCode (Octets.wordAt d (next + 2)) ∧ rest = ⟨d.toArray, next + 4⟩ := by
  cases h : Name.decode d o with
  | error fault => simp [Question.read_of_fault h]
  | ok pair =>
    obtain ⟨name, next⟩ := pair
    rw [Question.read_of_name h]
    constructor
    · intro h
      split at h
      · rename_i hfit
        cases h
        exact ⟨next, rfl, hfit, rfl, rfl, rfl⟩
      · cases h
    · rintro ⟨next', hpair, hfit, htype, hclass, rfl⟩
      cases hpair
      rw [if_pos hfit, ← htype, ← hclass]

/-- The fault of a question names the message. -/
theorem Question.id?_of_read_error {e : DecodeError} {rest : Reader}
    (h : Question.read id ⟨d.toArray, o⟩ = .error e rest) : e.id? = some id := by
  cases hname : Name.decode d o with
  | error fault =>
    rw [read_of_fault hname] at h
    cases h
    rfl
  | ok pair =>
    rw [read_of_name hname] at h
    split at h
    · cases h
    · cases h
      rfl

end Reading

/-! ## Questions one behind the other -/

/-- `qs` are what reading finds from one offset to another, each question directly behind the one
before it. -/
inductive QuestionsAt (d : Octets) (id : UInt16) : Nat → List Question → Nat → Prop
  | nil {o : Nat} : QuestionsAt d id o [] o
  | cons {o next stop : Nat} {q : Question} {qs : List Question} :
      Question.read id ⟨d.toArray, o⟩ = .ok q ⟨d.toArray, next⟩ →
      QuestionsAt d id next qs stop → QuestionsAt d id o (q :: qs) stop

section Standing

variable {d : Octets} {id : UInt16} {o next stop : Nat} {q : Question} {qs : List Question}

theorem questionsAt_cons_iff :
    QuestionsAt d id o (q :: qs) stop ↔
      ∃ next, Name.decode d o = .ok (q.name, next) ∧ next + 4 ≤ d.length ∧
        q.qtype = .ofCode (Octets.wordAt d next) ∧
        q.qclass = .ofCode (Octets.wordAt d (next + 2)) ∧
        QuestionsAt d id (next + 4) qs stop := by
  constructor
  · intro h
    cases h with
    | cons hread hqs =>
      obtain ⟨next, hname, hfit, htype, hclass, hrest⟩ := Question.read_eq_ok_iff.mp hread
      cases hrest
      exact ⟨next, hname, hfit, htype, hclass, hqs⟩
  · rintro ⟨next, hname, hfit, htype, hclass, hqs⟩
    exact .cons (Question.read_eq_ok_iff.mpr ⟨next, hname, hfit, htype, hclass, rfl⟩) hqs

theorem QuestionsAt.not_of_fault {fault : NameFault} (h : Name.decode d o = .error fault)
    (hlen : 0 < qs.length) : ¬ QuestionsAt d id o qs stop := by
  intro hqs
  obtain ⟨q, qs, rfl⟩ := List.exists_cons_of_length_pos hlen
  obtain ⟨next, hname, _⟩ := questionsAt_cons_iff.mp hqs
  rw [h] at hname
  cases hname

theorem QuestionsAt.stop_le (h : QuestionsAt d id o qs stop) (ho : o ≤ d.length) :
    stop ≤ d.length := by
  induction h with
  | nil => exact ho
  | cons hread _ ih =>
    obtain ⟨_, _, hfit, _, _, hrest⟩ := Question.read_eq_ok_iff.mp hread
    cases hrest
    exact ih hfit

/-- So many questions are found in one way only. -/
theorem QuestionsAt.unique {qs' : List Question} {stop' : Nat} (h : QuestionsAt d id o qs stop)
    (h' : QuestionsAt d id o qs' stop') (hlen : qs'.length = qs.length) :
    qs' = qs ∧ stop' = stop := by
  induction h generalizing qs' with
  | nil =>
    obtain rfl := List.length_eq_zero_iff.mp hlen
    cases h'
    exact ⟨rfl, rfl⟩
  | cons hread _ ih =>
    obtain ⟨q', qs', rfl⟩ := List.exists_cons_of_length_eq_add_one hlen
    cases h' with
    | cons hread' h' =>
      rw [hread] at hread'
      cases hread'
      obtain ⟨rfl, rfl⟩ := ih h' (Nat.succ.inj hlen)
      exact ⟨rfl, rfl⟩

theorem QuestionsAt.snoc (h : QuestionsAt d id o qs next)
    (hq : Question.read id ⟨d.toArray, next⟩ = .ok q ⟨d.toArray, stop⟩) :
    QuestionsAt d id o (qs ++ [q]) stop := by
  induction h with
  | nil => exact .cons hq .nil
  | cons hread _ ih => exact .cons hread (ih hq)

/-- A read that succeeds stays in the datagram. -/
theorem Question.exists_of_read {rest : Reader} (h : Question.read id ⟨d.toArray, o⟩ = .ok q rest) :
    ∃ next, rest = ⟨d.toArray, next⟩ := by
  obtain ⟨next, _, _, _, _, rfl⟩ := Question.read_eq_ok_iff.mp h
  exact ⟨next + 4, rfl⟩

namespace Questions

/-- The questions from an offset on, when so many are promised. -/
def startingAt (d : Octets) (id : UInt16) (o n : Nat) : Questions where
  reader := ⟨d.toArray, o⟩
  id
  remaining := n

theorem questions_ofOctets (d : Octets) :
    (Query.ofOctets d).questions =
      startingAt d (Octets.wordAt d 0) 12 (Octets.wordAt d 4).toNat := rfl

theorem next?_of_failed {qs : Questions} (h : qs.failed = true) : qs.next? = none := by
  simp [next?, h]

theorem next?_of_ok (n : Nat) (h : Question.read id ⟨d.toArray, o⟩ = .ok q ⟨d.toArray, next⟩) :
    (startingAt d id o (n + 1)).next? = some (.ok q, startingAt d id next n) := by
  simp [next?, startingAt, h]

theorem next?_of_error {e : DecodeError} {rest : Reader} (n : Nat)
    (h : Question.read id ⟨d.toArray, o⟩ = .error e rest) :
    (startingAt d id o (n + 1)).next? = some (.error e, ⟨rest, id, n, true⟩) := by
  simp [next?, startingAt, h]

theorem toList_of_none {qs : Questions} (h : qs.next? = none) : qs.toList = [] := by
  rw [toList_eq, h]

theorem toList_of_some {qs rest : Questions} {item : Except DecodeError Question}
    (h : qs.next? = some (item, rest)) : qs.toList = item :: rest.toList := by
  rw [toList_eq, h]

theorem toList_zero : (startingAt d id o 0).toList = [] := rfl

theorem toList_of_ok (n : Nat)
    (h : Question.read id ⟨d.toArray, o⟩ = .ok q ⟨d.toArray, next⟩) :
    (startingAt d id o (n + 1)).toList = .ok q :: (startingAt d id next n).toList :=
  toList_of_some (next?_of_ok n h)

theorem toList_of_error {e : DecodeError} {rest : Reader} (n : Nat)
    (h : Question.read id ⟨d.toArray, o⟩ = .error e rest) :
    (startingAt d id o (n + 1)).toList = [.error e] := by
  rw [toList_of_some (next?_of_error n h), toList_of_none (next?_of_failed rfl)]

/-- The questions that stand in the datagram come first. -/
theorem toList_of_questionsAt (n : Nat) (h : QuestionsAt d id o qs stop) :
    (startingAt d id o (qs.length + n)).toList =
      qs.map .ok ++ (startingAt d id stop n).toList := by
  induction h with
  | nil => simp
  | cons hread _ ih =>
    rw [List.length_cons, Nat.add_right_comm, toList_of_ok _ hread, ih]
    rfl

end Questions

/-- Of all the questions that stand one behind the other and keep a property `p`, there are `n`,
or behind some of them the next one cannot be read, or ends the property. -/
theorem exists_questionsAt (d : Octets) (id : UInt16) (o : Nat) (p : List Question → Prop)
    (hp : p []) (n : Nat) :
    ∃ qs stop, QuestionsAt d id o qs stop ∧ p qs ∧
      (qs.length = n ∨ qs.length < n ∧
        ((∃ e rest, Question.read id ⟨d.toArray, stop⟩ = .error e rest) ∨
          ∃ q rest, Question.read id ⟨d.toArray, stop⟩ = .ok q rest ∧ ¬ p (qs ++ [q]))) := by
  induction n with
  | zero => exact ⟨[], o, .nil, hp, .inl rfl⟩
  | succ n ih =>
    rcases ih with ⟨qs, stop, hqs, hkeep, hlen | ⟨hlen, hend⟩⟩
    · cases hread : Question.read id ⟨d.toArray, stop⟩ with
      | error e rest => exact ⟨qs, stop, hqs, hkeep, .inr ⟨by omega, .inl ⟨e, rest, hread⟩⟩⟩
      | ok q rest =>
        obtain ⟨next, rfl⟩ := Question.exists_of_read hread
        by_cases hq : p (qs ++ [q])
        · exact ⟨qs ++ [q], next, hqs.snoc hread, hq, .inl (by simp [hlen])⟩
        · exact ⟨qs, stop, hqs, hkeep, .inr ⟨by omega, .inr ⟨q, _, hread, hq⟩⟩⟩
    · exact ⟨qs, stop, hqs, hkeep, .inr ⟨by omega, hend⟩⟩

end Standing

end PortalDns
