-- The laws of asking: a question is read back where it was written, and the
-- questions of a query come one after the other, as they were put and no more,
-- whatever stands behind them.
import PortalDns.Proofs.NameEncodings
import PortalDns.Proofs.Queries

namespace PortalDns

/-! ## Questions that were written -/

/-- A question as it is put: a name, and the numbers of a type and of a class. -/
structure Asked where
  name : Name
  typeCode : UInt16
  classCode : UInt16
deriving DecidableEq, Repr

namespace Asked

/-- The question that is meant. -/
def question (a : Asked) : Question where
  name := a.name
  qtype := .ofCode a.typeCode
  qclass := .ofCode a.classCode

def encode (a : Asked) : Octets := a.question.encode

section Written

variable {d : Octets} {o : Nat} {a : Asked} {asked : List Asked}

/-- Whatever a type and a class mean, their numbers are what is written. -/
theorem encode_eq (a : Asked) :
    a.encode = a.name.encode ++ Octets.ofUInt16 a.typeCode ++ Octets.ofUInt16 a.classCode := by
  simp only [encode, Question.encode, question, QueryType.code_ofCode, QueryClass.code_ofCode]

theorem length_encode (h : a.name.WellFormed) : a.encode.length = a.name.len + 4 := by
  rw [encode_eq, List.length_append, List.length_append, h.length_eq, Octets.length_ofUInt16,
    Octets.length_ofUInt16]

/-- A question is read back where it was written. -/
theorem read_of_encode (h : a.name.WellFormed) (hstands : a.encode <+: d.drop o) (id : UInt16) :
    Question.read id ⟨d.toArray, o⟩ = .ok a.question ⟨d.toArray, o + a.encode.length⟩ := by
  have hfit := hstands.length_le
  rw [length_encode h, List.length_drop] at hfit
  rw [encode_eq, append_prefix_drop_iff, append_prefix_drop_iff, List.length_append, h.length_eq,
    Octets.length_ofUInt16, ← Nat.add_assoc] at hstands
  obtain ⟨⟨hname, htype⟩, hclass⟩ := hstands
  rw [Question.read_eq_ok_iff]
  refine ⟨o + a.name.len, Name.decode_of_encode h hname, by omega, ?_, ?_, ?_⟩
  · rw [Octets.wordAt_of_prefix htype]
    rfl
  · rw [Octets.wordAt_of_prefix hclass]
    rfl
  · rw [length_encode h, Nat.add_assoc]

/-- Questions that were written one behind the other are read back in order. -/
theorem questionsAt_of_encode (h : ∀ a ∈ asked, a.name.WellFormed)
    (hstand : asked.flatMap encode <+: d.drop o) (id : UInt16) :
    QuestionsAt d id o (asked.map question) (o + (asked.flatMap encode).length) := by
  induction asked generalizing o with
  | nil => exact .nil
  | cons a asked ih =>
    rw [List.forall_mem_cons] at h
    rw [List.flatMap_cons, append_prefix_drop_iff] at hstand
    rw [List.flatMap_cons, List.length_append, ← Nat.add_assoc]
    exact .cons (read_of_encode h.1 hstand.1 id) (ih h.2 hstand.2)

end Written

end Asked

/-! ## Queries that were put together -/

/-- A query with this id and these two octets of flags, which asks questions and carries no
records. -/
def Query.compose (id : UInt16) (flags low : UInt8) (asked : List Asked) : Octets :=
  Octets.ofUInt16 id ++ [flags, low] ++ Octets.ofUInt16 (UInt16.ofNat asked.length) ++
    [0, 0, 0, 0, 0, 0] ++ asked.flatMap Asked.encode

namespace Query

section Composed

variable {id : UInt16} {flags low : UInt8} {asked : List Asked} {t : Octets}

theorem length_compose (id : UInt16) (flags low : UInt8) (asked : List Asked) :
    (compose id flags low asked).length = 12 + (asked.flatMap Asked.encode).length := by
  simp only [compose, List.length_append, Octets.length_ofUInt16, List.length_cons,
    List.length_nil]

/-- The header of the query, octet by octet. -/
theorem compose_append (id : UInt16) (flags low : UInt8) (asked : List Asked) (t : Octets) :
    compose id flags low asked ++ t = Octets.ofUInt16 id ++ ([flags, low] ++
      (Octets.ofUInt16 (UInt16.ofNat asked.length) ++
        ([0, 0, 0, 0, 0, 0] ++ (asked.flatMap Asked.encode ++ t)))) := by
  simp only [compose, List.append_assoc]

theorem isQuery_compose (hcut : flags &&& 0x02 = 0)
    (hlen : (compose id flags low asked ++ t).length ≤ 512) :
    IsQuery (compose id flags low asked ++ t) where
  length_ge := by
    rw [List.length_append, length_compose]
    omega
  length_le := hlen
  no_records := by
    intro i hge hle
    rw [compose_append]
    obtain rfl | rfl | rfl | rfl | rfl | rfl : i = 6 ∨ i = 7 ∨ i = 8 ∨ i = 9 ∨ i = 10 ∨ i = 11 := by
      omega
    all_goals rfl
  not_truncated := by
    intro flags' hflags
    rw [compose_append] at hflags
    cases hflags
    exact hcut

theorem wordAt_id (id : UInt16) (flags low : UInt8) (asked : List Asked) (t : Octets) :
    Octets.wordAt (compose id flags low asked ++ t) 0 = id := by
  rw [compose_append]
  exact Octets.wordAt_of_prefix (List.prefix_append _ _)

theorem wordAt_questions (id : UInt16) (flags low : UInt8) (asked : List Asked) (t : Octets) :
    Octets.wordAt (compose id flags low asked ++ t) 4 = UInt16.ofNat asked.length := by
  rw [compose_append]
  exact Octets.wordAt_of_prefix (List.prefix_append _ _)

/-- No question takes fewer than five octets, so there are few of them where they fit. -/
theorem length_asked_le (h : ∀ a ∈ asked, a.name.WellFormed) :
    5 * asked.length ≤ (asked.flatMap Asked.encode).length := by
  induction asked with
  | nil => exact Nat.zero_le _
  | cons a asked ih =>
    rw [List.forall_mem_cons] at h
    have hrest := ih h.2
    have hpos := h.1.length_pos
    rw [h.1.length_eq] at hpos
    rw [List.flatMap_cons, List.length_append, Asked.length_encode h.1, List.length_cons]
    omega

theorem toNat_wordAt_questions (h : ∀ a ∈ asked, a.name.WellFormed)
    (hlen : (compose id flags low asked ++ t).length ≤ 512) :
    (Octets.wordAt (compose id flags low asked ++ t) 4).toNat = asked.length := by
  have hfew := length_asked_le h
  rw [List.length_append, length_compose] at hlen
  rw [wordAt_questions, UInt16.toNat_ofNat']
  omega

/-- The questions of a query stand where they were put. -/
theorem questionsAt_compose (id : UInt16) (flags low : UInt8)
    (h : ∀ a ∈ asked, a.name.WellFormed) (t : Octets) (id' : UInt16) :
    QuestionsAt (compose id flags low asked ++ t) id' 12 (asked.map Asked.question)
      (compose id flags low asked).length := by
  rw [length_compose, compose_append]
  exact Asked.questionsAt_of_encode h (List.prefix_append _ _) id'

/-- A query without padding asks what was put, up to its end, and as much as it promises. -/
theorem questions_of_compose (h : ∀ a ∈ asked, a.name.WellFormed)
    (hlen : (compose id flags low asked).length ≤ 512) (id' : UInt16) :
    QuestionsAt (compose id flags low asked) id' 12 (asked.map Asked.question)
        (compose id flags low asked).length ∧
      (asked.map Asked.question).length =
        (Octets.wordAt (compose id flags low asked) 4).toNat := by
  rw [← List.append_nil (compose id flags low asked)] at hlen
  have hstand := questionsAt_compose id flags low h [] id'
  have hcount := toNat_wordAt_questions h hlen
  rw [List.append_nil] at hstand hcount
  exact ⟨hstand, by rw [hcount, List.length_map]⟩

theorem toList_questions (h : ∀ a ∈ asked, a.name.WellFormed)
    (hlen : (compose id flags low asked ++ t).length ≤ 512) :
    (ofOctets (compose id flags low asked ++ t)).questions.toList =
      (asked.map Asked.question).map .ok := by
  have hstand := questionsAt_compose id flags low h t id
  rw [Questions.questions_ofOctets, wordAt_id, toNat_wordAt_questions h hlen,
    ← List.length_map Asked.question, ← Nat.add_zero (List.length _),
    Questions.toList_of_questionsAt 0 hstand, Questions.toList_zero, List.append_nil]

end Composed

end Query

/-! ## Items one after the other -/

namespace Questions

/-- These items come one after the other, and then what is left is still to come. -/
inductive Yields : Questions → List (Except DecodeError Question) → Questions → Prop
  | nil {qs : Questions} : Yields qs [] qs
  | cons {qs rest last : Questions} {item : Except DecodeError Question}
      {items : List (Except DecodeError Question)} :
      qs.next? = some (item, rest) → Yields rest items last → Yields qs (item :: items) last

/-- The list of what is to come is what comes, and nothing comes after it. Every item is one of
those that were promised, also one that cannot be read. -/
theorem exists_yields_toList (qs : Questions) :
    ∃ last, qs.Yields qs.toList last ∧ last.next? = none := by
  induction hn : qs.remaining generalizing qs with
  | zero =>
    have hnext : qs.next? = none := by
      rw [next?, hn]
      simp
    rw [toList_of_none hnext]
    exact ⟨qs, .nil, hnext⟩
  | succ n ih =>
    cases hnext : qs.next? with
    | none =>
      rw [toList_of_none hnext]
      exact ⟨qs, .nil, hnext⟩
    | some pair =>
      obtain ⟨item, rest⟩ := pair
      rw [toList_of_some hnext]
      have hremaining := remaining_of_next? hnext
      obtain ⟨last, hyields, hnone⟩ := ih rest (by omega)
      exact ⟨last, .cons hnext hyields, hnone⟩

end Questions

/-! ## The law of asking -/

/-- Whatever is asked in a query that is short enough, and whatever stands behind its questions:
the datagram is taken for a query, and its questions come as they were put, with the numbers that
they were put with, and after them none. -/
theorem a_query_yields_the_questions_that_were_put {id : UInt16} {flags low : UInt8}
    {asked : List Asked} {t : Octets} (hcut : flags &&& 0x02 = 0)
    (hnames : ∀ a ∈ asked, a.name.WellFormed)
    (hlen : (Query.compose id flags low asked ++ t).length ≤ 512) :
    ∃ query last, Query.parse (Query.compose id flags low asked ++ t) = .ok query ∧
      query.id = id ∧ query.questions.Yields (asked.map fun a => .ok a.question) last ∧
      last.next? = none ∧
      ∀ a ∈ asked, a.question.name = a.name ∧ a.question.qtype.code = a.typeCode ∧
        a.question.qclass.code = a.classCode := by
  have hquery := Query.isQuery_compose hcut hlen
  obtain ⟨last, hyields, hnone⟩ :=
    (Query.ofOctets (Query.compose id flags low asked ++ t)).questions.exists_yields_toList
  rw [Query.toList_questions hnames hlen, List.map_map] at hyields
  refine ⟨_, last, Query.parse_of_isQuery hquery, Query.wordAt_id .., hyields, hnone, ?_⟩
  intro a _
  exact ⟨rfl, QueryType.code_ofCode _, QueryClass.code_ofCode _⟩

/-- A question for an address and one for anything, and an octet behind them. -/
theorem two_questions_come_before_padding :
    ∃ query last, Query.parse ([0, 1, 1, 0, 0, 2, 0, 0, 0, 0, 0, 0] ++ [1, 97, 0, 0, 1, 0, 1] ++
        [0, 0, 255, 0, 255] ++ [192]) = .ok query ∧
      query.questions.Yields [
        .ok ⟨⟨[⟨[97], by decide⟩, Label.empty], 3⟩, .record .a, .record .internet⟩,
        .ok ⟨Name.root, .any, .any⟩] last ∧ last.next? = none := by
  have hnames : ∀ a ∈ [Asked.mk ⟨[⟨[97], by decide⟩, Label.empty], 3⟩ 1 1, ⟨Name.root, 255, 255⟩],
      a.name.WellFormed := by
    rw [List.forall_mem_cons, List.forall_mem_singleton]
    exact ⟨⟨by decide, by decide, by decide, by decide⟩,
      ⟨by decide, by decide, by decide, by decide⟩⟩
  have hlen : (Query.compose 1 1 0 [Asked.mk ⟨[⟨[97], by decide⟩, Label.empty], 3⟩ 1 1,
      ⟨Name.root, 255, 255⟩] ++ [192]).length ≤ 512 := by decide
  obtain ⟨query, last, hparse, _, hyields, hnone, _⟩ :=
    a_query_yields_the_questions_that_were_put (by decide) hnames hlen
  exact ⟨query, last, hparse, hyields, hnone⟩

end PortalDns
