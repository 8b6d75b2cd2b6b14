-- The laws of reading replies: the questions of a query that was put together
-- without pointers are read back from its reply, and behind them the answers,
-- one record directly behind the other up to the end.
import PortalDns.Proofs.Asking
import PortalDns.Proofs.Echoes

namespace PortalDns

/-! ## Records as they are read -/

/-- A record as a client reads it that does not look into its data. -/
structure RawRecord where
  name : Name
  typeCode : UInt16
  classCode : UInt16
  ttl : Nat
  length : UInt16
  data : Octets
deriving DecidableEq, Repr

/-- The record at an offset, and the offset behind it: a name, ten octets of fields, and as many
octets of data as the last of them say. -/
def RawRecord.decode? (d : Octets) (o : Nat) : Option (RawRecord × Nat) :=
  match Name.decode d o with
  | .error _ => none
  | .ok (name, next) =>
    let length := Octets.wordAt d (next + 8)
    let stop := next + 10 + length.toNat
    if stop ≤ d.length then
      some ({
        name
        typeCode := Octets.wordAt d next
        classCode := Octets.wordAt d (next + 2)
        ttl := Octets.number (d.extract (next + 4) (next + 8))
        length
        data := d.extract (next + 10) stop }, stop)
    else none

/-- What is read of a record that was written. -/
def Record.raw (r : Record) : RawRecord where
  name := r.name
  typeCode := r.data.type.code
  classCode := r.recordClass.code
  ttl := r.ttl.toNat
  length := UInt16.ofNat r.data.encode.length
  data := r.data.encode

/-- `records` are what reading finds from one offset to another, each record directly behind the
one before it. -/
inductive RecordsAt (d : Octets) : Nat → List RawRecord → Nat → Prop
  | nil {o : Nat} : RecordsAt d o [] o
  | cons {o next stop : Nat} {record : RawRecord} {records : List RawRecord} :
      RawRecord.decode? d o = some (record, next) → RecordsAt d next records stop →
      RecordsAt d o (record :: records) stop

/-- A record that can be read back: its name is one that can be read, and the length of its data
fits into the field for it. -/
structure Record.IsReadable (r : Record) : Prop where
  name : r.name.WellFormed
  data : r.data.encode.length < 0x10000

section Written

variable {d : Octets} {o : Nat} {r : Record} {records : List Record}

theorem Record.IsReadable.toNat_length (h : r.IsReadable) :
    r.raw.length.toNat = r.raw.data.length := by
  have hdata := h.data
  simp only [raw, UInt16.toNat_ofNat']
  omega

/-- Where a record stands, its name and its fields stand one behind the other. -/
theorem Record.fields_of_encode (h : r.IsReadable) (hstands : r.encode <+: d.drop o) :
    Name.decode d o = .ok (r.name, o + r.name.len) ∧
      Octets.wordAt d (o + r.name.len) = r.data.type.code ∧
      Octets.wordAt d (o + r.name.len + 2) = r.recordClass.code ∧
      Octets.ofUInt32 r.ttl <+: d.drop (o + r.name.len + 4) ∧
      Octets.wordAt d (o + r.name.len + 8) = UInt16.ofNat r.data.encode.length ∧
      r.data.encode <+: d.drop (o + r.name.len + 10) := by
  simp only [encode, encodeWith, append_prefix_drop_iff, List.length_append, h.name.length_eq,
    Octets.length_ofUInt16, Octets.length_ofUInt32, ← Nat.add_assoc] at hstands
  obtain ⟨⟨⟨⟨⟨hname, htype⟩, hclass⟩, httl⟩, hlength⟩, hdata⟩ := hstands
  exact ⟨Name.decode_of_encode h.name hname, Octets.wordAt_of_prefix htype,
    Octets.wordAt_of_prefix hclass, httl, Octets.wordAt_of_prefix hlength, hdata⟩

/-- A record is read back where it was written. -/
theorem Record.decode?_of_encode (h : r.IsReadable) (hstands : r.encode <+: d.drop o) :
    RawRecord.decode? d o = some (r.raw, o + r.encode.length) := by
  have hlen := r.length_encode
  rw [h.name.length_eq] at hlen
  have hfit := hstands.length_le
  rw [hlen, List.length_drop] at hfit
  have hdata : (UInt16.ofNat r.data.encode.length).toNat = r.data.encode.length :=
    h.toNat_length
  obtain ⟨hname, htype, hclass, httl, hlength, hstands⟩ := Record.fields_of_encode h hstands
  have httl' := Octets.extract_of_prefix httl
  rw [Octets.length_ofUInt32] at httl'
  simp only [RawRecord.decode?, hname, htype, hclass, hlength, hdata]
  rw [if_pos (by omega), httl', Octets.number_ofUInt32, Octets.extract_of_prefix hstands, hlen]
  rw [raw, Nat.add_assoc o, Nat.add_assoc o]

/-- Records that were written one behind the other are read back in order. -/
theorem recordsAt_of_encode (h : ∀ r ∈ records, r.IsReadable)
    (hstand : records.flatMap Record.encode <+: d.drop o) :
    RecordsAt d o (records.map Record.raw) (o + (records.flatMap Record.encode).length) := by
  induction records generalizing o with
  | nil => exact .nil
  | cons r records ih =>
    rw [List.forall_mem_cons] at h
    rw [List.flatMap_cons, append_prefix_drop_iff] at hstand
    rw [List.flatMap_cons, List.length_append, ← Nat.add_assoc]
    exact .cons (Record.decode?_of_encode h.1 hstand.1) (ih h.2 hstand.2)

end Written

/-! ## Records that answer questions -/

namespace Portal

/-- The data that answers a question for a type: the address of the portal, a server by the name
of `ns`, or a link of priority 10 and weight 1. -/
inductive CaptiveData (address : IPv4) : UInt16 → Octets → Prop
  | a : CaptiveData address 1 address.octets
  | ns {server : Name} {os : Octets} : Name.decode os 0 = .ok (server, os.length) →
      server.toDotted = "ns" → CaptiveData address 2 os
  | uri : CaptiveData address 256 ([0, 10, 0, 1] ++ utf8 "http://esp.nonet".toList)

/-- A record answers a question: it has the name that was asked for, octet by octet, and the type,
may not be kept, and holds the data for the type, of which it says the length. -/
structure Answers (address : IPv4) (a : Asked) (record : RawRecord) : Prop where
  name : record.name = a.name
  type : record.typeCode = a.typeCode
  ttl : record.ttl = 0
  length : record.length.toNat = record.data.length
  data : CaptiveData address a.typeCode record.data

section Records

variable {address : IPv4} {a : Asked} {asked : List Asked} {record : Record}

theorem code_qtype (a : Asked) : a.question.qtype.code = a.typeCode :=
  QueryType.code_ofCode a.typeCode

theorem captiveData_of_data? {t : QueryType} {data : RecordData} {recordClass : RecordClass}
    (h : data? address t = some (data, recordClass)) :
    CaptiveData address t.code data.encode ∧ data.encode.length < 0x10000 := by
  unfold data? at h
  split at h
  · cases h
    exact ⟨.a, show 4 < 0x10000 by decide⟩
  · rw [ofDotted?_serverText] at h
    cases h
    have hserver : Name.decode server.encode 0 = .ok (server, 4) := by cbv
    exact ⟨.ns hserver (by cbv), by decide⟩
  · cases h
    exact ⟨.uri, by decide⟩
  · cases h

theorem answers_of_answer? (hname : a.name.WellFormed)
    (h : answer? address a.question = some record) :
    record.IsReadable ∧ Answers address a record.raw := by
  obtain ⟨⟨data, recordClass⟩, hdata, rfl⟩ := Option.map_eq_some_iff.mp h
  obtain ⟨hcaptive, hlen⟩ := captiveData_of_data? hdata
  have hread : Record.IsReadable { name := a.question.name, data, recordClass, ttl := 0 } :=
    ⟨hname, hlen⟩
  have htype := type_of_data? hdata
  rw [code_qtype] at hcaptive htype
  exact ⟨hread, rfl, htype, rfl, hread.toNat_length, hcaptive⟩

/-- The records of a reply answer the questions for addresses, servers and links in order. -/
theorem forall₂_answers (address : IPv4) (hnames : ∀ a ∈ asked, a.name.WellFormed) :
    (∀ record ∈ answersTo address (asked.map Asked.question), record.IsReadable) ∧
      List.Forall₂ (Answers address) (asked.filter (IsAnswered ·.question))
        ((answersTo address (asked.map Asked.question)).map Record.raw) := by
  induction asked with
  | nil => exact ⟨by simp [answersTo], .nil⟩
  | cons a asked ih =>
    rw [List.forall_mem_cons] at hnames
    obtain ⟨hread, hanswers⟩ := ih hnames.2
    have hsome : IsAnswered a.question ↔ (answer? address a.question).isSome := isAnswered_iff
    unfold answersTo at hread hanswers ⊢
    rw [List.map_cons, List.filterMap_cons, List.filter_cons]
    cases h : answer? address a.question with
    | none =>
      simp only [h, Option.isSome_none, Bool.false_eq_true] at hsome
      simp only [hsome, decide_false, Bool.false_eq_true, if_false]
      exact ⟨hread, hanswers⟩
    | some record =>
      simp only [h, Option.isSome_some, iff_true] at hsome
      obtain ⟨hread', hanswers'⟩ := answers_of_answer? hnames.1 h
      simp only [hsome, decide_true, if_true, List.map_cons]
      exact ⟨List.forall_mem_cons.mpr ⟨hread', hread⟩, .cons hanswers' hanswers⟩

end Records

end Portal

/-! ## Reading a reply back -/

theorem response_bit_set (x : UInt8) : (x ||| 0x80) &&& Header.responseBit ≠ 0 := by
  have hall : ∀ x : BitVec 8, (x ||| 0x80#8) &&& 0x80#8 ≠ 0#8 := by decide
  intro h
  exact hall x.toBitVec (UInt8.toBitVec_inj.mpr h)

namespace Portal

section Replies

variable {address : IPv4} {id : UInt16} {flags low : UInt8} {asked : List Asked} {r : Octets}

/-- A query that was put together is answered, if at all, by the answers to what it asks. -/
theorem answersAll_of_compose (hnames : ∀ a ∈ asked, a.name.WellFormed)
    (h : respond address (Query.compose id flags low asked) = .ok r) :
    AnswersAll address (Query.compose id flags low asked) (asked.map Asked.question)
        (Query.compose id flags low asked).length ∧
      r = replyOctets address (Query.compose id flags low asked) (asked.map Asked.question) := by
  obtain ⟨qs, stop, hall, rfl⟩ := respond_eq_ok_iff.mp h
  obtain ⟨hstand, hcount⟩ := Query.questions_of_compose hnames hall.isQuery.length_le
    (Octets.wordAt (Query.compose id flags low asked) 0)
  obtain ⟨rfl, rfl⟩ := hstand.unique hall.questions (by rw [hall.promised, hcount])
  exact ⟨hall, rfl⟩

theorem questions_of_replyOctets (hnames : ∀ a ∈ asked, a.name.WellFormed) (id' : UInt16) :
    QuestionsAt (replyOctets address (Query.compose id flags low asked)
      (asked.map Asked.question)) id' 12 (asked.map Asked.question)
      (Query.compose id flags low asked).length := by
  have hdrop := Query.compose_append id flags low asked []
  rw [List.append_nil, List.append_nil] at hdrop
  rw [Query.length_compose]
  apply Asked.questionsAt_of_encode hnames
  rw [replyOctets, List.drop_append_of_le_length (by
    rw [Reply.length_echo, Query.length_compose]; omega), Reply.drop_echo _ _ (by omega), hdrop]
  exact List.prefix_append _ _

theorem records_of_replyOctets (hnames : ∀ a ∈ asked, a.name.WellFormed) (d : Octets) :
    RecordsAt (replyOctets address d (asked.map Asked.question)) d.length
      ((answersTo address (asked.map Asked.question)).map Record.raw)
      (replyOctets address d (asked.map Asked.question)).length := by
  have hstand := recordsAt_of_encode (o := d.length)
    (d := replyOctets address d (asked.map Asked.question)) (forall₂_answers address hnames).1
    (by rw [replyOctets, ← encode_answersTo, ← Reply.length_echo, List.drop_left])
  rw [encode_answersTo] at hstand
  rw [length_replyOctets]
  exact hstand

end Replies

/-- The reply to a query that was put together without pointers: a client that reads it finds the
id, a response, as many questions as were asked and those very questions. Directly behind them it
finds as many records as the header says, up to the end, and they answer the questions for
addresses, servers and links in the order in which these were asked. -/
theorem a_reply_is_read_as_its_questions_and_their_answers {address : IPv4} {id : UInt16}
    {flags low : UInt8} {asked : List Asked} {r : Octets}
    (hnames : ∀ a ∈ asked, a.name.WellFormed)
    (h : respond address (Query.compose id flags low asked) = .ok r) :
    ∃ header rest records,
      Header.read (Reader.ofOctets r) = .ok header rest ∧ header.id = id ∧
      (∃ x, r[2]? = some x ∧ x &&& Header.responseBit ≠ 0) ∧
      header.questions.toNat = asked.length ∧
      QuestionsAt r id 12 (asked.map Asked.question)
        (Query.compose id flags low asked).length ∧
      RecordsAt r (Query.compose id flags low asked).length records r.length ∧
      records.length = header.answers.toNat ∧
      List.Forall₂ (Answers address)
        (asked.filter fun a => a.typeCode = 1 ∨ a.typeCode = 2 ∨ a.typeCode = 256) records := by
  obtain ⟨hall, rfl⟩ := answersAll_of_compose hnames h
  have he := echoes_of_answersAll hall
  have hlen := Nat.le_trans hall.isQuery.length_ge he.length_le
  obtain ⟨x, _, hflags⟩ := he.flags
  refine ⟨_, _, _, Header.read_of_length hlen hflags, ?_, ⟨_, hflags, response_bit_set x⟩, ?_,
    questions_of_replyOctets hnames id, records_of_replyOctets hnames _, ?_, ?_⟩
  · rw [id_of_reply hall]
    have hid := Query.wordAt_id id flags low asked []
    rwa [List.append_nil] at hid
  · rw [questions_of_reply hall, ← hall.promised, List.length_map]
  · rw [answers_of_reply hall, List.length_map]
  · have hanswers := (forall₂_answers address hnames).2
    simp only [IsAnswered, code_qtype] at hanswers
    exact hanswers

/-- A client asks for the address and the server of a name, and for its address of the other
kind, which is not answered. -/
theorem two_answers_to_three_questions_are_read :
    ∃ r records,
      respond (.ofOctets 192 168 4 1) ([0, 1, 1, 0, 0, 3, 0, 0, 0, 0, 0, 0] ++
        [1, 65, 0, 0, 1, 0, 1] ++ [1, 65, 0, 0, 28, 0, 1] ++ [1, 65, 0, 0, 2, 0, 1]) = .ok r ∧
      RecordsAt r 33 records r.length ∧
      List.Forall₂ (Answers (.ofOctets 192 168 4 1)) [
        ⟨⟨[⟨[65], by decide⟩, Label.empty], 3⟩, 1, 1⟩,
        ⟨⟨[⟨[65], by decide⟩, Label.empty], 3⟩, 2, 1⟩] records := by
  have hname : (⟨[⟨[65], by decide⟩, Label.empty], 3⟩ : Name).WellFormed :=
    ⟨by decide, by decide, by decide, by decide⟩
  have hreply : respond (.ofOctets 192 168 4 1) (Query.compose 1 1 0 [
      ⟨⟨[⟨[65], by decide⟩, Label.empty], 3⟩, 1, 1⟩,
      ⟨⟨[⟨[65], by decide⟩, Label.empty], 3⟩, 28, 1⟩,
      ⟨⟨[⟨[65], by decide⟩, Label.empty], 3⟩, 2, 1⟩]) =
        .ok ([0, 1, 129, 0, 0, 3, 0, 2, 0, 0, 0, 0] ++ [1, 65, 0, 0, 1, 0, 1] ++
          [1, 65, 0, 0, 28, 0, 1] ++ [1, 65, 0, 0, 2, 0, 1] ++
          [1, 65, 0, 0, 1, 0, 1, 0, 0, 0, 0, 0, 4, 192, 168, 4, 1] ++
          [1, 65, 0, 0, 2, 0, 1, 0, 0, 0, 0, 0, 4, 2, 110, 115, 0]) := by
    cbv
  obtain ⟨_, _, records, _, _, _, _, _, hrecords, _, hanswers⟩ :=
    a_reply_is_read_as_its_questions_and_their_answers
      (by simp only [List.forall_mem_cons, hname, true_and, List.not_mem_nil, false_implies,
        implies_true]) hreply
  exact ⟨_, records, hreply, hrecords, hanswers⟩

end Portal

end PortalDns
