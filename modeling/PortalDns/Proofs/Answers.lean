-- The laws of the portal's replies: a datagram is answered in full, question
-- by question, or the first fault in the order of processing decides.
import PortalDns.Portal.Policy
import PortalDns.Proofs.Queries
import PortalDns.Proofs.Replies

namespace PortalDns

namespace Portal

/-! ## The answers on the wire -/

/-- The server that every name has: one label. -/
def server : Name := ⟨[⟨utf8 ['n', 's'], by decide⟩, Label.empty], 4⟩

/-- The text of the server is a name, so no question for a server goes without an answer. -/
theorem ofDotted?_serverText : Name.ofDotted? serverText = some server := by cbv

theorem data?_ns (address : IPv4) :
    data? address (.record .ns) = some (.ns server, .internet) := by
  rw [data?, ofDotted?_serverText, Option.map_some]

/-- The class and the data of an answer, by the code of the type that is asked for. -/
def answerData? (address : IPv4) (code : UInt16) : Option (UInt16 × Octets) :=
  if code = 1 then some (1, address.octets)
  else if code = 2 then some (1, [2, 0x6E, 0x73, 0])
  else if code = 256 then some (256, [0, 10, 0, 1] ++ target)
  else none

/-- The answer to a question on the wire, under the name that was asked for: it may not be kept,
and is not there at all for other types. -/
def answerOctets (address : IPv4) (q : Question) : Octets :=
  match answerData? address q.qtype.code with
  | none => []
  | some (answerClass, data) =>
    q.name.encode ++ Octets.ofUInt16 q.qtype.code ++ Octets.ofUInt16 answerClass ++
      [0, 0, 0, 0] ++ Octets.ofUInt16 (UInt16.ofNat data.length) ++ data

/-- A question by one of the codes that are answered. -/
def IsAnswered (q : Question) : Prop :=
  q.qtype.code = 1 ∨ q.qtype.code = 2 ∨ q.qtype.code = 256

instance : DecidablePred IsAnswered := fun q =>
  inferInstanceAs (Decidable (q.qtype.code = 1 ∨ q.qtype.code = 2 ∨ q.qtype.code = 256))

/-- The records that answer questions. -/
def answersTo (address : IPv4) (qs : List Question) : List Record :=
  qs.filterMap (answer? address)

section Wire

variable {address : IPv4} {q : Question} {qs : List Question}

theorem answerData?_code (address : IPv4) (t : QueryType) :
    answerData? address t.code =
      (data? address t).map fun (data, recordClass) => (recordClass.code, data.encode) := by
  cases t with
  | any => rfl
  | record t =>
    cases t with
    | other code unnamed => simp [answerData?, data?, QueryType.code, RecordType.code, unnamed]
    | ns =>
      rw [data?_ns]
      rfl
    | a | aaaa | uri => rfl

theorem type_of_data? {t : QueryType} {data : RecordData} {recordClass : RecordClass}
    (h : data? address t = some (data, recordClass)) : data.type.code = t.code := by
  unfold data? at h
  split at h
  · cases h
    rfl
  · obtain ⟨_, _, heq⟩ := Option.map_eq_some_iff.mp h
    cases heq
    rfl
  · cases h
    rfl
  · cases h

theorem isAnswered_iff : IsAnswered q ↔ (answer? address q).isSome := by
  have h : (answer? address q).isSome = (answerData? address q.qtype.code).isSome := by
    rw [answerData?_code]
    unfold answer?
    simp only [Option.isSome_map]
  rw [h]
  unfold IsAnswered answerData?
  split
  · simp [*]
  split
  · simp [*]
  split
  · simp [*]
  · simp [*]

theorem answerOctets_eq (address : IPv4) (q : Question) :
    answerOctets address q = ((answer? address q).map Record.encode).getD [] := by
  unfold answerOctets answer?
  rw [answerData?_code]
  cases h : data? address q.qtype with
  | none => rfl
  | some pair =>
    obtain ⟨data, recordClass⟩ := pair
    simp only [Option.map_some, Option.getD_some, Record.encode, Record.encodeWith,
      type_of_data? h]
    rfl

theorem encode_answersTo (address : IPv4) (qs : List Question) :
    (answersTo address qs).flatMap Record.encode = qs.flatMap (answerOctets address) := by
  induction qs with
  | nil => rfl
  | cons q qs ih =>
    unfold answersTo at ih ⊢
    rw [List.flatMap_cons, List.filterMap_cons]
    cases h : answer? address q with
    | none => simp [ih, answerOctets_eq, h]
    | some record => simp [ih, answerOctets_eq, h]

theorem length_answersTo (address : IPv4) (qs : List Question) :
    (answersTo address qs).length = qs.countP (IsAnswered ·) := by
  induction qs with
  | nil => rfl
  | cons q qs ih =>
    unfold answersTo at ih ⊢
    rw [List.filterMap_cons, List.countP_cons, ← ih]
    have hq : IsAnswered q ↔ (answer? address q).isSome := isAnswered_iff
    cases h : answer? address q with
    | none => simp [hq, h]
    | some record => simp [hq, h]

end Wire

/-! ## Answering one question after the other -/

/-- How many octets a reply has that answers these questions. -/
def replySize (address : IPv4) (d : Octets) (qs : List Question) : Nat :=
  d.length + (qs.flatMap (answerOctets address)).length

section Steps

variable {address : IPv4} {d : Octets} {q : Question} {qs more : List Question}

theorem sizeWith_answersTo (address : IPv4) (d : Octets) (qs : List Question) :
    Reply.sizeWith (Query.ofOctets d) (answersTo address qs) = replySize address d qs := by
  unfold Reply.sizeWith replySize
  rw [encode_answersTo]
  rfl

theorem replySize_append (address : IPv4) (d : Octets) (qs more : List Question) :
    replySize address d (qs ++ more) =
      replySize address d qs + (more.flatMap (answerOctets address)).length := by
  simp only [replySize, List.flatMap_append, List.length_append, Nat.add_assoc]

/-- The reply after these questions. -/
def replyAfter (address : IPv4) (d : Octets) (qs : List Question) : Reply :=
  Reply.holding (Query.ofOctets d) (answersTo address qs)

theorem answerNext_of_fits (h : replySize address d (qs ++ [q]) ≤ 512) :
    answerNext address (replyAfter address d qs) (.ok q) =
      .ok (replyAfter address d (qs ++ [q])) := by
  rw [← sizeWith_answersTo] at h
  unfold replyAfter
  unfold answersTo at h ⊢
  rw [List.filterMap_append] at h ⊢
  cases hq : answer? address q with
  | none => simp [answerNext, hq]
  | some record =>
    simp only [List.filterMap_cons, hq, List.filterMap_nil] at h ⊢
    simp only [answerNext, hq, Reply.push_of_fits h]

theorem answerNext_of_overflow (h : replySize address d qs ≤ 512)
    (hover : 512 < replySize address d (qs ++ [q])) :
    answerNext address (replyAfter address d qs) (.ok q) =
      .error (.overflow (.messageTooLong 512)) := by
  rw [← sizeWith_answersTo] at h hover
  unfold replyAfter
  unfold answersTo at h hover ⊢
  rw [List.filterMap_append] at hover
  cases hq : answer? address q with
  | none =>
    simp only [List.filterMap_cons, hq, List.filterMap_nil, List.append_nil] at hover
    omega
  | some record =>
    simp only [List.filterMap_cons, hq, List.filterMap_nil] at hover
    simp only [answerNext, hq, Reply.push_of_overflow h hover]

/-- Questions whose answers fit are answered in order. -/
theorem foldlM_answerNext (h : replySize address d (qs ++ more) ≤ 512) :
    (more.map Except.ok).foldlM (answerNext address) (replyAfter address d qs) =
      .ok (replyAfter address d (qs ++ more)) := by
  induction more generalizing qs with
  | nil => rw [List.append_nil]; rfl
  | cons q more ih =>
    rw [List.append_cons] at h ⊢
    have hfit : replySize address d (qs ++ [q]) ≤ 512 := by
      rw [replySize_append] at h
      omega
    rw [List.map_cons, List.foldlM_cons, answerNext_of_fits hfit]
    exact ih h

end Steps

/-! ## Answering a datagram -/

/-- The reply that answers these questions of a datagram. -/
def replyOctets (address : IPv4) (d : Octets) (qs : List Question) : Octets :=
  Reply.echo d (UInt16.ofNat (qs.countP (IsAnswered ·))) ++ qs.flatMap (answerOctets address)

theorem length_replyOctets (address : IPv4) (d : Octets) (qs : List Question) :
    (replyOctets address d qs).length = replySize address d qs := by
  rw [replyOctets, replySize, List.length_append, Reply.length_echo]

/-- All questions that a query promises stand in it, and the answers fit. -/
structure AnswersAll (address : IPv4) (d : Octets) (qs : List Question) (stop : Nat) : Prop where
  isQuery : IsQuery d
  questions : QuestionsAt d (Octets.wordAt d 0) 12 qs stop
  promised : qs.length = (Octets.wordAt d 4).toNat
  fits : replySize address d qs ≤ 512

/-- The first questions of a query stand in it, their answers fit, and another question is
promised behind them. -/
structure AnswersSome (address : IPv4) (d : Octets) (qs : List Question) (stop : Nat) : Prop where
  isQuery : IsQuery d
  questions : QuestionsAt d (Octets.wordAt d 0) 12 qs stop
  promised : qs.length < (Octets.wordAt d 4).toNat
  fits : replySize address d qs ≤ 512

/-- The fault that is met first: in the length, in the header, or in the first question that
cannot be read or whose answer does not fit behind the answers before it. -/
inductive FirstFault (address : IPv4) (d : Octets) : Dropped → Prop
  | tooShort : d.length < 12 → FirstFault address d (.rejected (.tooShort d.length))
  | tooLong : 512 < d.length → FirstFault address d (.rejected (.tooLong d.length))
  | notAQuery : 12 ≤ d.length → d.length ≤ 512 → (¬ ∀ i, 6 ≤ i → i ≤ 11 → d[i]? = some 0) →
      FirstFault address d (.rejected (.notAQuery (Octets.wordAt d 0)))
  | truncated {flags : UInt8} : 12 ≤ d.length → d.length ≤ 512 →
      (∀ i, 6 ≤ i → i ≤ 11 → d[i]? = some 0) → d[2]? = some flags → flags &&& 0x02 ≠ 0 →
      FirstFault address d (.rejected (.truncated (Octets.wordAt d 0)))
  | malformed {qs : List Question} {stop : Nat} {e : DecodeError} {rest : Reader} :
      AnswersSome address d qs stop →
      Question.read (Octets.wordAt d 0) ⟨d.toArray, stop⟩ = .error e rest →
      e.id? = some (Octets.wordAt d 0) → FirstFault address d (.malformed e)
  | overflow {qs : List Question} {q : Question} {stop next : Nat} :
      AnswersSome address d qs stop →
      Question.read (Octets.wordAt d 0) ⟨d.toArray, stop⟩ = .ok q ⟨d.toArray, next⟩ →
      512 < replySize address d (qs ++ [q]) →
      FirstFault address d (.overflow (.messageTooLong 512))

section Datagrams

variable {address : IPv4} {d r : Octets} {qs : List Question} {stop : Nat} {e : Dropped}

theorem respond_of_rejected {cause : Rejection} (h : Query.parse d = .error cause) :
    respond address d = .error (.rejected cause) := by
  rw [respond, h]
  rfl

theorem replyAfter_nil (address : IPv4) (d : Octets) :
    replyAfter address d [] = Reply.ofQuery (Query.ofOctets d) :=
  Reply.holding_nil _

/-- A query is answered as far as its questions stand in it and the answers fit; what comes
behind them decides. -/
theorem respond_of_isQuery (h : IsQuery d) {n : Nat}
    (hqs : QuestionsAt d (Octets.wordAt d 0) 12 qs stop)
    (hn : qs.length + n = (Octets.wordAt d 4).toNat) (hfit : replySize address d qs ≤ 512) :
    respond address d =
      ((Questions.startingAt d (Octets.wordAt d 0) stop n).toList.foldlM (answerNext address)
        (replyAfter address d qs)).map Reply.finish := by
  have hfold : (qs.map Except.ok).foldlM (answerNext address)
      (Reply.ofQuery (Query.ofOctets d)) = .ok (replyAfter address d qs) := by
    rw [← replyAfter_nil]
    exact foldlM_answerNext hfit
  rw [respond, Query.parse_of_isQuery h]
  simp only [Except.mapError, bind, Except.bind]
  rw [Questions.questions_ofOctets, ← hn, Questions.toList_of_questionsAt n hqs,
    List.foldlM_append, hfold]
  simp only [bind, Except.bind, Except.map, pure, Except.pure]

theorem finish_replyAfter (h : IsQuery d) (qs : List Question) :
    (replyAfter address d qs).finish = replyOctets address d qs := by
  have hlen := h.length_ge
  unfold replyAfter replyOctets
  rw [Reply.finish_holding (by simp only [Query.ofOctets]; omega), encode_answersTo,
    length_answersTo]
  rfl

theorem respond_of_answersAll (h : AnswersAll address d qs stop) :
    respond address d = .ok (replyOctets address d qs) := by
  rw [respond_of_isQuery h.isQuery h.questions (n := 0) h.promised h.fits, Questions.toList_zero,
    ← finish_replyAfter h.isQuery]
  rfl

theorem respond_of_malformed {e : DecodeError} {rest : Reader} (h : AnswersSome address d qs stop)
    (hread : Question.read (Octets.wordAt d 0) ⟨d.toArray, stop⟩ = .error e rest) :
    respond address d = .error (.malformed e) := by
  obtain ⟨n, hn⟩ := Nat.exists_eq_add_of_lt h.promised
  rw [respond_of_isQuery h.isQuery h.questions (n := n + 1) hn.symm h.fits,
    Questions.toList_of_error n hread]
  rfl

theorem respond_of_overflow {q : Question} {next : Nat} (h : AnswersSome address d qs stop)
    (hread : Question.read (Octets.wordAt d 0) ⟨d.toArray, stop⟩ = .ok q ⟨d.toArray, next⟩)
    (hover : 512 < replySize address d (qs ++ [q])) :
    respond address d = .error (.overflow (.messageTooLong 512)) := by
  obtain ⟨n, hn⟩ := Nat.exists_eq_add_of_lt h.promised
  rw [respond_of_isQuery h.isQuery h.questions (n := n + 1) hn.symm h.fits,
    Questions.toList_of_ok n hread, List.foldlM_cons, answerNext_of_overflow h.fits hover]
  rfl

theorem respond_of_firstFault (h : FirstFault address d e) : respond address d = .error e := by
  cases h with
  | tooShort h => exact respond_of_rejected (Query.parse_of_short h)
  | tooLong h => exact respond_of_rejected (Query.parse_of_long h)
  | notAQuery hge hle h => exact respond_of_rejected (Query.parse_of_records hge hle h)
  | truncated hge hle h hflags hcut =>
    exact respond_of_rejected (Query.parse_of_truncated hge hle h hflags hcut)
  | malformed h hread => exact respond_of_malformed h hread
  | overflow h hread hover => exact respond_of_overflow h hread hover

/-- Every datagram is answered in full, or a first fault is met. -/
theorem answersAll_or_firstFault (address : IPv4) (d : Octets) :
    (∃ qs stop, AnswersAll address d qs stop) ∨ ∃ e, FirstFault address d e := by
  by_cases hshort : d.length < 12
  · exact .inr ⟨_, .tooShort hshort⟩
  by_cases hlong : 512 < d.length
  · exact .inr ⟨_, .tooLong hlong⟩
  have hge : 12 ≤ d.length := by omega
  have hle : d.length ≤ 512 := by omega
  by_cases hrecords : ¬ ∀ i, 6 ≤ i → i ≤ 11 → d[i]? = some 0
  · exact .inr ⟨_, .notAQuery hge hle hrecords⟩
  rw [Classical.not_not] at hrecords
  obtain ⟨flags, hflags⟩ := Query.exists_flags hge
  by_cases hcut : flags &&& 0x02 ≠ 0
  · exact .inr ⟨_, .truncated hge hle hrecords hflags hcut⟩
  rw [Classical.not_not] at hcut
  have hquery : IsQuery d := .of_flags hge hle hrecords hflags hcut
  have hnone : replySize address d [] ≤ 512 := by simpa [replySize] using hle
  rcases exists_questionsAt d (Octets.wordAt d 0) 12 (replySize address d · ≤ 512) hnone
    (Octets.wordAt d 4).toNat with
    ⟨qs, stop, hqs, hfit, hlen | ⟨hlen, ⟨e, rest, hread⟩ | ⟨q, rest, hread, hover⟩⟩⟩
  · exact .inl ⟨qs, stop, hquery, hqs, hlen, hfit⟩
  · exact .inr ⟨_, .malformed ⟨hquery, hqs, hlen, hfit⟩ hread (Question.id?_of_read_error hread)⟩
  · obtain ⟨next, rfl⟩ := Question.exists_of_read hread
    exact .inr ⟨_, .overflow ⟨hquery, hqs, hlen, hfit⟩ hread (by omega)⟩

theorem respond_eq_ok_iff :
    respond address d = .ok r ↔
      ∃ qs stop, AnswersAll address d qs stop ∧ r = replyOctets address d qs := by
  constructor
  · intro h
    rcases answersAll_or_firstFault address d with ⟨qs, stop, hall⟩ | ⟨e, hfault⟩
    · rw [respond_of_answersAll hall] at h
      cases h
      exact ⟨qs, stop, hall, rfl⟩
    · rw [respond_of_firstFault hfault] at h
      cases h
  · rintro ⟨qs, stop, hall, rfl⟩
    exact respond_of_answersAll hall

theorem respond_eq_error_iff : respond address d = .error e ↔ FirstFault address d e := by
  constructor
  · intro h
    rcases answersAll_or_firstFault address d with ⟨qs, stop, hall⟩ | ⟨e', hfault⟩
    · rw [respond_of_answersAll hall] at h
      cases h
    · rw [respond_of_firstFault hfault] at h
      cases h
      exact hfault
  · exact respond_of_firstFault

/-- No answer takes fewer than ten octets, so there are few of them where they fit. -/
theorem countP_isAnswered_le (hfit : replySize address d qs ≤ 512) :
    qs.countP (IsAnswered ·) ≤ 51 := by
  have hcount := Reply.length_le_of_flatMap (answersTo address qs)
  rw [length_answersTo, encode_answersTo] at hcount
  unfold replySize at hfit
  omega

theorem toNat_countP_isAnswered (hfit : replySize address d qs ≤ 512) :
    (UInt16.ofNat (qs.countP (IsAnswered ·))).toNat = qs.countP (IsAnswered ·) := by
  have hcount := countP_isAnswered_le hfit
  rw [UInt16.toNat_ofNat']
  omega

end Datagrams

/-- A reply holds the query and the answers to all its questions, and comes exactly if all of
them can be read and all answers fit. Otherwise the fault that is met first decides. -/
theorem every_question_is_answered_or_the_first_fault_decides (address : IPv4) (d : Octets) :
    (∀ r, respond address d = .ok r ↔
      IsQuery d ∧ ∃ qs stop, QuestionsAt d (Octets.wordAt d 0) 12 qs stop ∧
        qs.length = (Octets.wordAt d 4).toNat ∧
        d.length + (qs.flatMap (answerOctets address)).length ≤ 512 ∧
        ∃ n : UInt16, n.toNat = qs.countP (IsAnswered ·) ∧
          r = Octets.setUInt16 (d.modify 2 (· ||| 0x80)) 6 n ++
            qs.flatMap (answerOctets address)) ∧
    ∀ e, respond address d = .error e ↔ FirstFault address d e := by
  refine ⟨fun r => ?_, fun e => respond_eq_error_iff⟩
  rw [respond_eq_ok_iff]
  constructor
  · rintro ⟨qs, stop, hall, rfl⟩
    exact ⟨hall.isQuery, qs, stop, hall.questions, hall.promised, hall.fits, _,
      toNat_countP_isAnswered hall.fits, rfl⟩
  · rintro ⟨hquery, qs, stop, hqs, hlen, hfit, n, hn, rfl⟩
    refine ⟨qs, stop, ⟨hquery, hqs, hlen, hfit⟩, ?_⟩
    rw [replyOctets, ← hn, UInt16.ofNat_toNat]
    rfl

end Portal

end PortalDns
