-- The laws of the portal's address: two portals that differ in their addresses
-- drop the same datagrams for the same faults, and their replies to all others
-- differ in nothing but the data of the records that tell an address.
import PortalDns.Proofs.NameRules
import PortalDns.Proofs.ReadBack

namespace PortalDns

namespace Portal

/-! ## The answers of two portals -/

/-- The answer to a question for an address, up to the address. -/
def addressFront (q : Question) : Octets :=
  q.name.encode ++ [0, 1, 0, 1, 0, 0, 0, 0, 0, 4]

/-- Where the data of the answer to `q` begin in the reply to `d`, behind the answers to the
questions before it. -/
def dataOffset (address : IPv4) (d : Octets) (before : List Question) (q : Question) : Nat :=
  replySize address d before + q.name.encode.length + 10

section Answers

variable {a b : IPv4} {q : Question} {qs : List Question} {i : Nat}

theorem length_addressFront (q : Question) :
    (addressFront q).length = q.name.encode.length + 10 :=
  List.length_append

theorem answerOctets_of_address (address : IPv4) (hq : q.qtype = .record .a) :
    answerOctets address q = addressFront q ++ address.octets := by
  have hdata : answerData? address (QueryType.record .a).code = some (1, address.octets) := rfl
  have hfour : address.octets.length = 4 := rfl
  simp only [answerOctets, hq, hdata, hfour, addressFront, List.append_assoc]
  rfl

theorem length_answerOctets_of_address (address : IPv4) (hq : q.qtype = .record .a) :
    (answerOctets address q).length = q.name.encode.length + 10 + 4 := by
  rw [answerOctets_of_address address hq, List.length_append, length_addressFront]
  rfl

theorem answerOctets_congr (a b : IPv4) (hq : q.qtype ≠ .record .a) :
    answerOctets a q = answerOctets b q := by
  have hdata : data? a q.qtype = data? b q.qtype := by
    unfold data?
    split
    · exact absurd ‹_› hq
    · rfl
    · rfl
    · rfl
  rw [answerOctets_eq, answerOctets_eq, answer?, answer?, hdata]

theorem length_answerOctets_congr (a b : IPv4) (q : Question) :
    (answerOctets a q).length = (answerOctets b q).length := by
  by_cases hq : q.qtype = .record .a
  · rw [length_answerOctets_of_address a hq, length_answerOctets_of_address b hq]
  · rw [answerOctets_congr a b hq]

theorem replySize_congr (a b : IPv4) (d : Octets) (qs : List Question) :
    replySize a d qs = replySize b d qs := by
  simp only [replySize, List.length_flatMap, length_answerOctets_congr a b]

/-- The answers of two portals to one question differ in its data alone, and only if it asks for an
address. -/
theorem address_of_answers_differ (h : (answerOctets a q)[i]? ≠ (answerOctets b q)[i]?) :
    q.qtype = .record .a ∧ q.name.encode.length + 10 ≤ i ∧ i < q.name.encode.length + 10 + 4 := by
  by_cases hq : q.qtype = .record .a
  · have hlen := length_answerOctets_congr a b q
    refine ⟨hq, ?_, ?_⟩
    · by_contra hfront
      rw [← length_addressFront, Nat.not_le] at hfront
      rw [answerOctets_of_address a hq, answerOctets_of_address b hq,
        List.getElem?_append_left hfront, List.getElem?_append_left hfront] at h
      exact h rfl
    · by_contra hend
      rw [← length_answerOctets_of_address a hq, Nat.not_lt] at hend
      rw [List.getElem?_eq_none hend, List.getElem?_eq_none (hlen ▸ hend)] at h
      exact h rfl
  · rw [answerOctets_congr a b hq] at h
    exact absurd rfl h

/-- The answers of two portals to several questions differ in the data of those to questions for an
address. -/
theorem exists_address_of_differ
    (h : (qs.flatMap (answerOctets a))[i]? ≠ (qs.flatMap (answerOctets b))[i]?) :
    ∃ before q after, qs = before ++ q :: after ∧ q.qtype = .record .a ∧
      (before.flatMap (answerOctets a)).length + q.name.encode.length + 10 ≤ i ∧
      i < (before.flatMap (answerOctets a)).length + q.name.encode.length + 10 + 4 := by
  induction qs generalizing i with
  | nil => exact absurd rfl h
  | cons q qs ih =>
    have hlen := length_answerOctets_congr a b q
    rw [List.flatMap_cons, List.flatMap_cons] at h
    by_cases hi : i < (answerOctets a q).length
    · rw [List.getElem?_append_left hi, List.getElem?_append_left (hlen ▸ hi)] at h
      obtain ⟨hq, hfront, hend⟩ := address_of_answers_differ h
      exact ⟨[], q, qs, rfl, hq, by simpa using hfront, by simpa using hend⟩
    · rw [Nat.not_lt] at hi
      rw [List.getElem?_append_right hi, List.getElem?_append_right (hlen ▸ hi), ← hlen] at h
      obtain ⟨before, q', after, rfl, hq, hfront, hend⟩ := ih h
      refine ⟨q :: before, q', after, rfl, hq, ?_, ?_⟩
      · rw [List.flatMap_cons, List.length_append]
        omega
      · rw [List.flatMap_cons, List.length_append]
        omega

end Answers

/-! ## The replies of two portals -/

section Replies

variable {a b : IPv4} {d : Octets} {q : Question} {qs : List Question} {stop i : Nat} {e : Dropped}

theorem AnswersAll.congr (h : AnswersAll a d qs stop) (b : IPv4) : AnswersAll b d qs stop :=
  { h with fits := replySize_congr a b d qs ▸ h.fits }

theorem AnswersSome.congr (h : AnswersSome a d qs stop) (b : IPv4) : AnswersSome b d qs stop :=
  { h with fits := replySize_congr a b d qs ▸ h.fits }

/-- Which fault is met first does not depend on the address. -/
theorem FirstFault.congr (h : FirstFault a d e) (b : IPv4) : FirstFault b d e := by
  cases h with
  | tooShort h => exact .tooShort h
  | tooLong h => exact .tooLong h
  | notAQuery hge hle h => exact .notAQuery hge hle h
  | truncated hge hle h hflags hcut => exact .truncated hge hle h hflags hcut
  | malformed h hread hid => exact .malformed (h.congr b) hread hid
  | overflow h hread hover => exact .overflow (h.congr b) hread (replySize_congr a b d _ ▸ hover)

theorem exists_address_of_replies_differ
    (h : (replyOctets a d qs)[i]? ≠ (replyOctets b d qs)[i]?) :
    ∃ before q after, qs = before ++ q :: after ∧ q.qtype = .record .a ∧
      dataOffset a d before q ≤ i ∧ i < dataOffset a d before q + 4 := by
  unfold replyOctets at h
  by_cases hi : i < d.length
  · rw [List.getElem?_append_left (by rwa [Reply.length_echo]),
      List.getElem?_append_left (by rwa [Reply.length_echo])] at h
    exact absurd rfl h
  · rw [Nat.not_lt] at hi
    rw [List.getElem?_append_right (by rwa [Reply.length_echo]),
      List.getElem?_append_right (by rwa [Reply.length_echo]), Reply.length_echo] at h
    obtain ⟨before, q, after, hqs, hq, hfront, hend⟩ := exists_address_of_differ h
    refine ⟨before, q, after, hqs, hq, ?_, ?_⟩
    · unfold dataOffset replySize
      omega
    · unfold dataOffset replySize
      omega

/-- The answer to a question stands behind the query and the answers to the questions before it. -/
theorem answerOctets_prefix (address : IPv4) (d : Octets) (before after : List Question)
    (q : Question) :
    answerOctets address q <+:
      (replyOctets address d (before ++ q :: after)).drop (replySize address d before) := by
  have hsplit : replyOctets address d (before ++ q :: after) =
      (Reply.echo d (UInt16.ofNat ((before ++ q :: after).countP (IsAnswered ·))) ++
        before.flatMap (answerOctets address)) ++
        (answerOctets address q ++ after.flatMap (answerOctets address)) := by
    simp only [replyOctets, List.flatMap_append, List.flatMap_cons, List.append_assoc]
  have hlen : (Reply.echo d (UInt16.ofNat ((before ++ q :: after).countP (IsAnswered ·))) ++
      before.flatMap (answerOctets address)).length = replySize address d before := by
    rw [List.length_append, Reply.length_echo, replySize]
  rw [hsplit, ← hlen, List.drop_left]
  exact List.prefix_append _ _

/-- A record that tells an address, as it is read. -/
def addressRecord (name : Name) (address : IPv4) : RawRecord :=
  ⟨name, 1, 1, 0, 4, address.octets⟩

/-- What a client reads in a reply as the answer to a question for an address. -/
theorem addressRecord_of_reply (address : IPv4) (d : Octets) (before after : List Question)
    (hname : q.name.WellFormed) (hq : q.qtype = .record .a) :
    RawRecord.decode? (replyOctets address d (before ++ q :: after)) (replySize address d before) =
        some (addressRecord q.name address, dataOffset address d before q + 4) ∧
      (replyOctets address d (before ++ q :: after)).extract (dataOffset address d before q)
        (dataOffset address d before q + 4) = address.octets := by
  have hstands := answerOctets_prefix address d before after q
  have hrecord : answerOctets address q = (Record.mk q.name (.a address) .internet 0).encode := by
    rw [answerOctets_eq, answer?, hq]
    rfl
  constructor
  · have hreadable : (Record.mk q.name (.a address) .internet 0).IsReadable :=
      ⟨hname, show 4 < 0x10000 by decide⟩
    have hread := Record.decode?_of_encode hreadable (hrecord ▸ hstands)
    rw [← hrecord, length_answerOctets_of_address address hq] at hread
    rw [hread, dataOffset]
    rfl
  · rw [answerOctets_of_address address hq, append_prefix_drop_iff, length_addressFront,
      ← Nat.add_assoc] at hstands
    exact Octets.extract_of_prefix hstands.2

end Replies

/-! ## The law of the address -/

/-- Whatever the datagram, portals at two addresses drop it for the same fault or reply with as many
octets. For each question for an address, both replies hold a record at the same offset, with the
address of the one and of the other in the four octets of its data; and there is no other octet in
which the replies differ. -/
theorem the_address_gets_to_the_data_of_address_records_alone (a b : IPv4) (d : Octets) :
    (∀ e, respond a d = .error e ↔ respond b d = .error e) ∧
    ∀ r, respond a d = .ok r → ∃ r' asked stop,
      respond b d = .ok r' ∧ r.length = r'.length ∧
      QuestionsAt d (Octets.wordAt d 0) 12 asked stop ∧
      asked.length = (Octets.wordAt d 4).toNat ∧
      (∀ before q after, asked = before ++ q :: after → q.qtype = .record .a →
        RawRecord.decode? r (replySize a d before) =
            some (addressRecord q.name a, dataOffset a d before q + 4) ∧
          RawRecord.decode? r' (replySize a d before) =
            some (addressRecord q.name b, dataOffset a d before q + 4) ∧
          r.extract (dataOffset a d before q) (dataOffset a d before q + 4) = a.octets ∧
          r'.extract (dataOffset a d before q) (dataOffset a d before q + 4) = b.octets) ∧
      ∀ i, r[i]? ≠ r'[i]? → ∃ before q after, asked = before ++ q :: after ∧
        q.qtype = .record .a ∧ dataOffset a d before q ≤ i ∧ i < dataOffset a d before q + 4 := by
  constructor
  · intro e
    rw [respond_eq_error_iff, respond_eq_error_iff]
    exact ⟨fun h => h.congr b, fun h => h.congr a⟩
  · intro r h
    obtain ⟨asked, stop, hall, rfl⟩ := respond_eq_ok_iff.mp h
    refine ⟨replyOctets b d asked, asked, stop, respond_of_answersAll (hall.congr b), ?_,
      hall.questions, hall.promised, ?_, fun i => exists_address_of_replies_differ⟩
    · rw [length_replyOctets, length_replyOctets, replySize_congr a b]
    · rintro before q after rfl hq
      have hname := Name.wellFormed_of_questionsAt hall.questions q (by simp)
      have hoffset : dataOffset b d before q = dataOffset a d before q := by
        rw [dataOffset, dataOffset, replySize_congr a b]
      obtain ⟨hrecord, hdata⟩ := addressRecord_of_reply a d before after hname hq
      obtain ⟨hrecord', hdata'⟩ := addressRecord_of_reply b d before after hname hq
      rw [hoffset, ← replySize_congr a b] at hrecord'
      rw [hoffset] at hdata'
      exact ⟨hrecord, hrecord', hdata, hdata'⟩

/-- Two portals are asked for the address of a name and for its server, by a pointer to the name. -/
theorem two_portals_differ_in_four_octets :
    ∃ r r', respond (.ofOctets 192 168 4 1) ([0, 1, 1, 0, 0, 2, 0, 0, 0, 0, 0, 0] ++
        [1, 97, 0, 0, 1, 0, 1] ++ [192, 12, 0, 2, 0, 1]) = .ok r ∧
      respond (.ofOctets 10 0 0 1) ([0, 1, 1, 0, 0, 2, 0, 0, 0, 0, 0, 0] ++
        [1, 97, 0, 0, 1, 0, 1] ++ [192, 12, 0, 2, 0, 1]) = .ok r' ∧
      r.length = r'.length ∧ r.extract 38 42 = [192, 168, 4, 1] ∧ r'.extract 38 42 = [10, 0, 0, 1] ∧
      ∀ i, r[i]? ≠ r'[i]? → 38 ≤ i ∧ i < 42 := by
  have hreply : respond (.ofOctets 192 168 4 1) ([0, 1, 1, 0, 0, 2, 0, 0, 0, 0, 0, 0] ++
      [1, 97, 0, 0, 1, 0, 1] ++ [192, 12, 0, 2, 0, 1]) =
        .ok ([0, 1, 129, 0, 0, 2, 0, 2, 0, 0, 0, 0] ++ [1, 97, 0, 0, 1, 0, 1] ++
          [192, 12, 0, 2, 0, 1] ++ [1, 97, 0, 0, 1, 0, 1, 0, 0, 0, 0, 0, 4, 192, 168, 4, 1] ++
          [1, 97, 0, 0, 2, 0, 1, 0, 0, 0, 0, 0, 4, 2, 110, 115, 0]) := by
    cbv
  have hstand : QuestionsAt ([0, 1, 1, 0, 0, 2, 0, 0, 0, 0, 0, 0] ++ [1, 97, 0, 0, 1, 0, 1] ++
      [192, 12, 0, 2, 0, 1]) 1 12 [
        ⟨⟨[⟨[97], by decide⟩, Label.empty], 3⟩, .record .a, .record .internet⟩,
        ⟨⟨[⟨[97], by decide⟩, Label.empty], 3⟩, .record .ns, .record .internet⟩] 25 :=
    .cons (by cbv) (show QuestionsAt _ 1 19 _ 25 from .cons (by cbv) .nil)
  obtain ⟨_, hreplies⟩ := the_address_gets_to_the_data_of_address_records_alone
    (.ofOctets 192 168 4 1) (.ofOctets 10 0 0 1) ([0, 1, 1, 0, 0, 2, 0, 0, 0, 0, 0, 0] ++
      [1, 97, 0, 0, 1, 0, 1] ++ [192, 12, 0, 2, 0, 1])
  obtain ⟨r', asked, stop, hreply', hlen, hqs, hpromised, hrecords, hdiffer⟩ := hreplies _ hreply
  obtain ⟨rfl, rfl⟩ := hstand.unique hqs hpromised
  obtain ⟨_, _, hdata, hdata'⟩ := hrecords [] _ _ rfl rfl
  refine ⟨_, r', hreply, hreply', hlen, hdata, hdata', ?_⟩
  intro i hi
  obtain ⟨before, q, after, hsplit, hq, hge, hlt⟩ := hdiffer i hi
  rcases before with _ | ⟨_, _ | ⟨_, before⟩⟩
  · cases hsplit
    exact ⟨hge, hlt⟩
  · cases hsplit
    cases hq
  · simp at hsplit

end Portal

end PortalDns
