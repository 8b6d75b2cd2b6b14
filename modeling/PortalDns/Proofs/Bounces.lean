-- The laws of bounces: what becomes of a reply that is sent back as if it were a
-- query. One that carries records is rejected. One that carries none is not, since
-- the bit that marks it as a response is not looked at: it is its own reply.
import PortalDns.Proofs.Echoes

namespace PortalDns

/-! ## Marking twice -/

theorem response_bit_twice (x : UInt8) : x ||| 0x80 ||| 0x80 = x ||| 0x80 := by
  rw [UInt8.or_assoc, UInt8.or_self]

/-- The bit of a response is not the one of a message that was cut short. -/
theorem response_bit_not_truncated (x : UInt8) : (x ||| 0x80) &&& 0x02 = x &&& 0x02 := by
  have hall : ∀ x : BitVec 8, (x ||| 0x80#8) &&& 0x02#8 = x &&& 0x02#8 := by decide
  rw [← UInt8.toBitVec_inj]
  exact hall x.toBitVec

namespace Reply

variable {d : Octets}

theorem echo_no_answers (h : 8 ≤ d.length) : (echo d 0)[6]? = some 0 ∧ (echo d 0)[7]? = some 0 :=
  echo_answers h

/-- A reply without answers is marked already. -/
theorem echo_echo (h : 8 ≤ d.length) : echo (echo d 0) 0 = echo d 0 := by
  obtain ⟨h6, h7⟩ := echo_no_answers h
  obtain ⟨h6', h7'⟩ := echo_no_answers (d := echo d 0) (by rwa [length_echo])
  apply List.ext_getElem?
  intro i
  by_cases hi2 : i = 2
  · subst hi2
    rw [echo_flags, echo_flags, Option.map_map]
    congr 1
    funext x
    exact response_bit_twice x
  by_cases hi6 : i = 6
  · subst hi6
    rw [h6, h6']
  by_cases hi7 : i = 7
  · subst hi7
    rw [h7, h7']
  · exact echo_same hi2 hi6 hi7

/-- Without answers, the echo of a query passes for a query. -/
theorem isQuery_echo (h : IsQuery d) : IsQuery (echo d 0) := by
  have hlen := h.length_ge
  obtain ⟨h6, h7⟩ := echo_no_answers (d := d) (by omega)
  refine ⟨by rwa [length_echo], by rw [length_echo]; exact h.length_le, ?_, ?_⟩
  · intro i hge hle
    by_cases hi6 : i = 6
    · rw [hi6, h6]
    by_cases hi7 : i = 7
    · rw [hi7, h7]
    · rw [echo_same (by omega) hi6 hi7]
      exact h.no_records i hge hle
  · intro flags hflags
    rw [echo_flags, Option.map_eq_some_iff] at hflags
    obtain ⟨x, hx, rfl⟩ := hflags
    rw [response_bit_not_truncated]
    exact h.not_truncated x hx

end Reply

/-! ## The types that a reply asks for -/

/-- Questions behind the header of a reply ask for the types that the query asks for, whatever
their names have become. -/
theorem Echoes.types_of_questions {d r : Octets} {id id' : UInt16} {o stop stop' : Nat}
    {qs qs' : List Question} (he : Echoes d r) (ho : 12 ≤ o) (h : QuestionsAt d id o qs stop)
    (h' : QuestionsAt r id' o qs' stop') (hlength : qs'.length ≤ qs.length) :
    qs'.map Question.qtype <+: qs.map Question.qtype := by
  induction qs generalizing o qs' with
  | nil =>
    rw [List.length_nil, Nat.le_zero, List.length_eq_zero_iff] at hlength
    subst hlength
    exact List.nil_prefix
  | cons q qs ih =>
    cases qs' with
    | nil => exact List.nil_prefix
    | cons q' qs' =>
      obtain ⟨next, hname, hfit, htype, _, hqs⟩ := questionsAt_cons_iff.mp h
      obtain ⟨next', hname', _, htype', _, hqs'⟩ := questionsAt_cons_iff.mp h'
      have hlt := Name.lt_of_decode hname
      cases he.next_eq ho hname hname'
      rw [he.wordAt_eq (by omega) (by omega), ← htype] at htype'
      rw [List.map_cons, List.map_cons, htype', List.prefix_cons_inj]
      rw [List.length_cons, List.length_cons, Nat.add_le_add_iff_right] at hlength
      exact ih (by omega) hqs hqs' hlength

namespace Portal

section Unanswered

variable {address : IPv4} {d : Octets} {qs qs' : List Question}

/-- No question among these is of a type that is answered. -/
def Unanswered (qs : List Question) : Prop := ∀ q ∈ qs, ¬ IsAnswered q

theorem answerOctets_of_unanswered (h : Unanswered qs) (address : IPv4) :
    qs.flatMap (answerOctets address) = [] := by
  rw [List.flatMap_eq_nil_iff]
  intro q hq
  have hq := h q hq
  unfold IsAnswered at hq
  unfold answerOctets answerData?
  simp [not_or.mp hq, not_or.mp (not_or.mp hq).2]

theorem replySize_of_unanswered (h : Unanswered qs) : replySize address d qs = d.length := by
  rw [replySize, answerOctets_of_unanswered h, List.length_nil, Nat.add_zero]

theorem countP_of_unanswered (h : Unanswered qs) : qs.countP (IsAnswered ·) = 0 := by
  rw [List.countP_eq_zero]
  intro q hq
  simpa using h q hq

theorem replyOctets_of_unanswered (h : Unanswered qs) :
    replyOctets address d qs = Reply.echo d 0 := by
  rw [replyOctets, countP_of_unanswered h, answerOctets_of_unanswered h, List.append_nil]
  rfl

theorem Unanswered.of_types (h : Unanswered qs)
    (hfront : qs'.map Question.qtype <+: qs.map Question.qtype) : Unanswered qs' := by
  intro q' hq' hanswered
  have hmem : q'.qtype ∈ qs.map Question.qtype :=
    hfront.subset (List.mem_map_of_mem (f := Question.qtype) hq')
  obtain ⟨q, hq, htype⟩ := List.mem_map.mp hmem
  refine h q hq ?_
  unfold IsAnswered at hanswered ⊢
  rwa [htype]

end Unanswered

/-! ## Replies sent back -/

section SentBack

variable {address : IPv4} {d : Octets} {qs qs' : List Question} {stop stop' : Nat}

/-- The number of answers shows that the reply comes from a server. -/
theorem respond_of_answered (h : AnswersAll address d qs stop) (hsome : ∃ q ∈ qs, IsAnswered q)
    (other : IPv4) :
    respond other (replyOctets address d qs) =
      .error (.rejected (.notAQuery (Octets.wordAt d 0))) := by
  have hlen := Nat.le_trans h.isQuery.length_ge (echoes_of_answersAll h).length_le
  have hle : (replyOctets address d qs).length ≤ 512 := by
    rw [length_replyOctets]
    exact h.fits
  rw [← id_of_reply h]
  apply respond_of_rejected
  apply Query.parse_of_records hlen hle
  intro h0
  have hzero : Octets.wordAt (replyOctets address d qs) 6 = 0 :=
    (Octets.wordAt_eq_zero_iff (by omega)).mpr
      ⟨h0 6 (by omega) (by omega), h0 7 (by omega) (by omega)⟩
  have hanswers := answers_of_reply h
  rw [hzero, length_answersTo, UInt16.toNat_zero] at hanswers
  have hpos : 0 < qs.countP (IsAnswered ·) := by
    rw [List.countP_pos_iff]
    simpa using hsome
  omega

/-- The header of a reply without records says that there are none. -/
theorem answers_of_unanswered (h : AnswersAll address d qs stop) (hnone : Unanswered qs) :
    Octets.wordAt (replyOctets address d qs) 6 = 0 := by
  rw [← UInt16.toNat_inj, answers_of_reply h, length_answersTo, countP_of_unanswered hnone,
    UInt16.toNat_zero]

theorem isQuery_of_unanswered (h : AnswersAll address d qs stop) (hnone : Unanswered qs) :
    IsQuery (replyOctets address d qs) := by
  rw [replyOctets_of_unanswered hnone]
  exact Reply.isQuery_echo h.isQuery

theorem unanswered_of_readBack (h : AnswersAll address d qs stop) (hnone : Unanswered qs)
    {id : UInt16} (hqs' : QuestionsAt (replyOctets address d qs) id 12 qs' stop')
    (hlength : qs'.length ≤ qs.length) : Unanswered qs' :=
  hnone.of_types
    ((echoes_of_answersAll h).types_of_questions (Nat.le_refl 12) h.questions hqs' hlength)

/-- A reply without records, from which all questions can be read, is its own reply. -/
theorem respond_of_readBack (h : AnswersAll address d qs stop) (hnone : Unanswered qs)
    (hqs' : QuestionsAt (replyOctets address d qs) (Octets.wordAt d 0) 12 qs' stop')
    (hlength : qs'.length = qs.length) (other : IPv4) :
    respond other (replyOctets address d qs) = .ok (replyOctets address d qs) := by
  have hlen := h.isQuery.length_ge
  have hquery := isQuery_of_unanswered h hnone
  have hnone' := unanswered_of_readBack h hnone hqs' hlength.le
  have hall : AnswersAll other (replyOctets address d qs) qs' stop' := by
    refine ⟨hquery, ?_, ?_, ?_⟩
    · rwa [id_of_reply h]
    · rw [questions_of_reply h, hlength, h.promised]
    · rw [replySize_of_unanswered hnone']
      exact hquery.length_le
  rw [respond_of_answersAll hall, replyOctets_of_unanswered hnone',
    replyOctets_of_unanswered hnone, Reply.echo_echo (by omega)]

/-- A reply without records has no fault but in its questions. -/
theorem readBack_or_malformed (h : AnswersAll address d qs stop) (hnone : Unanswered qs)
    (other : IPv4) :
    (∃ qs' stop', qs'.length = qs.length ∧
        QuestionsAt (replyOctets address d qs) (Octets.wordAt d 0) 12 qs' stop') ∨
      ∃ e, respond other (replyOctets address d qs) = .error (.malformed e) := by
  have hquery := isQuery_of_unanswered h hnone
  have hpromised := h.promised
  rw [← questions_of_reply h] at hpromised
  rcases answersAll_or_firstFault other (replyOctets address d qs) with
    ⟨qs', stop', hall⟩ | ⟨e, hfault⟩
  · exact .inl ⟨qs', stop', hall.promised.trans hpromised.symm, id_of_reply h ▸ hall.questions⟩
  · refine .inr ?_
    have hrespond := respond_of_firstFault hfault
    cases hfault with
    | tooShort hshort => exact absurd hquery.length_ge (Nat.not_le.mpr hshort)
    | tooLong hlong => exact absurd hquery.length_le (Nat.not_le.mpr hlong)
    | notAQuery _ _ hrecords => exact absurd hquery.no_records hrecords
    | truncated _ _ _ hflags hcut => exact absurd (hquery.not_truncated _ hflags) hcut
    | malformed _ _ _ => exact ⟨_, hrespond⟩
    | overflow hsome hread hover =>
      have hnone' := unanswered_of_readBack h hnone (hsome.questions.snoc hread) (by
        have := hsome.promised
        rw [List.length_append, List.length_singleton]
        omega)
      rw [replySize_of_unanswered hnone'] at hover
      exact absurd hquery.length_le (Nat.not_le.mpr hover)

end SentBack

/-- What comes of a reply that is sent back. If it answers a question it is rejected, as the
message of a server. If it answers none, which is what its header says, it is never rejected: it is
its own reply if its questions can be read, which they can if nothing was changed that leads through
their names, and it is malformed otherwise. -/
theorem a_reply_sent_back_is_rejected_only_if_it_answers_a_question {address : IPv4} {d r : Octets}
    (h : respond address d = .ok r) (other : IPv4) :
    ∃ (query : Query) (qs : List Question), Query.parse d = .ok query ∧
      query.questions.toList = qs.map .ok ∧
      ((∃ q ∈ qs, IsAnswered q) →
        respond other r = .error (.rejected (.notAQuery query.id))) ∧
      ((∀ q ∈ qs, ¬ IsAnswered q) → Octets.wordAt r 6 = 0 ∧
        (respond other r = .ok r ∨ ∃ e, respond other r = .error (.malformed e)) ∧
        (respond other r = .ok r ↔
          ∃ qs' stop, qs'.length = qs.length ∧ QuestionsAt r query.id 12 qs' stop) ∧
        ((∀ w ∈ Questions.trail d qs.length 12, NameWalk.LeadsAlike d r w) →
          respond other r = .ok r)) := by
  obtain ⟨qs, stop, hall, rfl⟩ := respond_eq_ok_iff.mp h
  refine ⟨Query.ofOctets d, qs, Query.parse_of_isQuery hall.isQuery, ?_, ?_, ?_⟩
  · rw [Questions.questions_ofOctets, ← hall.promised, ← Nat.add_zero qs.length,
      Questions.toList_of_questionsAt 0 hall.questions, Questions.toList_zero, List.append_nil]
  · intro hsome
    exact respond_of_answered hall hsome other
  · intro hnone
    have hback : ∀ {qs' stop'}, qs'.length = qs.length →
        QuestionsAt (replyOctets address d qs) (Octets.wordAt d 0) 12 qs' stop' →
        respond other (replyOctets address d qs) = .ok (replyOctets address d qs) :=
      fun hlength hqs' => respond_of_readBack hall hnone hqs' hlength other
    refine ⟨answers_of_unanswered hall hnone, ?_, ⟨?_, ?_⟩, ?_⟩
    · rcases readBack_or_malformed hall hnone other with ⟨qs', stop', hlength, hqs'⟩ | hmalformed
      · exact .inl (hback hlength hqs')
      · exact .inr hmalformed
    · intro hok
      rcases readBack_or_malformed hall hnone other with hread | ⟨e, he⟩
      · exact hread
      · rw [hok] at he
        cases he
    · rintro ⟨qs', stop', hlength, hqs'⟩
      exact hback hlength hqs'
    · intro hleads
      obtain ⟨qs', hlength, hqs'⟩ := (echoes_of_answersAll hall).exists_questions_of_leads
        (Nat.le_refl 12) hall.questions hleads (Octets.wordAt d 0)
      exact hback hlength hqs'

/-- The number of answers, which is one here, gives the reply away. -/
theorem a_reply_with_an_address_is_rejected :
    ∃ r, respond (.ofOctets 192 168 4 1)
        ([0, 1, 1, 0, 0, 1, 0, 0, 0, 0, 0, 0] ++ [1, 97, 0, 0, 1, 0, 1]) = .ok r ∧
      respond (.ofOctets 10 0 0 1) r = .error (.rejected (.notAQuery 1)) := by
  have hreply : respond (.ofOctets 192 168 4 1)
      ([0, 1, 1, 0, 0, 1, 0, 0, 0, 0, 0, 0] ++ [1, 97, 0, 0, 1, 0, 1]) =
        .ok ([0, 1, 129, 0, 0, 1, 0, 1, 0, 0, 0, 0] ++ [1, 97, 0, 0, 1, 0, 1] ++
          [1, 97, 0, 0, 1, 0, 1, 0, 0, 0, 0, 0, 4, 192, 168, 4, 1]) := by
    cbv
  obtain ⟨query, qs, hparse, hlist, hanswered, _⟩ :=
    a_reply_sent_back_is_rejected_only_if_it_answers_a_question hreply (.ofOctets 10 0 0 1)
  have hquery : Query.parse
      ([0, 1, 1, 0, 0, 1, 0, 0, 0, 0, 0, 0] ++ [1, 97, 0, 0, 1, 0, 1]) =
        .ok (Query.ofOctets ([0, 1, 1, 0, 0, 1, 0, 0, 0, 0, 0, 0] ++ [1, 97, 0, 0, 1, 0, 1])) := by
    cbv
  rw [hquery] at hparse
  cases hparse
  refine ⟨_, hreply, hanswered ?_⟩
  have hone : (Query.ofOctets ([0, 1, 1, 0, 0, 1, 0, 0, 0, 0, 0, 0] ++
      [1, 97, 0, 0, 1, 0, 1])).questions.toList =
        [.ok ⟨⟨[⟨[97], by decide⟩, Label.empty], 3⟩, .record .a, .record .internet⟩] := by
    cbv
  rw [hone] at hlist
  obtain ⟨q, rfl⟩ : ∃ q, qs = [q] := by
    rw [← List.length_eq_one_iff, ← List.length_map (f := Except.ok (ε := DecodeError)), ← hlist]
    rfl
  simp only [List.map_cons, List.map_nil, List.cons.injEq, Except.ok.injEq, and_true] at hlist
  subst hlist
  exact ⟨_, List.mem_singleton_self _, .inl rfl⟩

/-- A question for an address of the other version is echoed without an answer, and whoever gets
the echo echoes it again. -/
theorem an_echo_without_answers_is_not_rejected :
    ∃ r, respond (.ofOctets 192 168 4 1)
        ([0, 1, 1, 0, 0, 1, 0, 0, 0, 0, 0, 0] ++ [1, 97, 0, 0, 28, 0, 1]) = .ok r ∧
      respond (.ofOctets 10 0 0 1) r = .ok r ∧
      ∀ cause, respond (.ofOctets 10 0 0 1) r ≠ .error (.rejected cause) := by
  have hagain : respond (.ofOctets 10 0 0 1)
      ([0, 1, 129, 0, 0, 1, 0, 0, 0, 0, 0, 0] ++ [1, 97, 0, 0, 28, 0, 1]) =
        .ok ([0, 1, 129, 0, 0, 1, 0, 0, 0, 0, 0, 0] ++ [1, 97, 0, 0, 28, 0, 1]) := by
    cbv
  refine ⟨_, by cbv, hagain, ?_⟩
  intro cause hcause
  rw [hagain] at hcause
  cases hcause

end Portal

end PortalDns
