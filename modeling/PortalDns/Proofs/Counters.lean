-- The laws of counting: neither the number of answers nor the length of a
-- record's data ever gets too large for its field, because a message is full
-- long before.
import PortalDns.Proofs.Asking
import PortalDns.Proofs.Echoes
import PortalDns.Proofs.NameRules
import PortalDns.Proofs.Pushes
import PortalDns.Proofs.QuestionRuns

namespace PortalDns

/-! ## Counters of a reply -/

/-- Where no more octets may be written than a word counts, the data of a record are never too long
for their length: there is no room for them. -/
theorem Record.write_ne_counterTooLarge {w : Writer} (hlimit : w.limit ≤ 0xFFFF) (r : Record)
    (counter bits : Nat) (last : Writer) :
    r.write w ≠ .error (.counterTooLarge counter bits) last := by
  intro h
  by_cases hroom : w.size + r.encode.length ≤ w.limit
  · have hlen := r.length_encode
    rw [write_of_fits (by omega) hroom] at h
    cases h
  · obtain ⟨part, _, hwrite⟩ := write_of_overflow (r := r) (w := w) (by omega)
    rw [hwrite] at h
    cases h

namespace Reply

section Pushes

variable {q : Query} {record : Record} {records held : List Record}

theorem tryPush_cases (h : sizeWith q held ≤ 512) (record : Record) :
    sizeWith q (held ++ [record]) ≤ 512 ∧
        tryPush record (holding q held) = (.ok (), holding q (held ++ [record])) ∨
      tryPush record (holding q held) = (.error (.messageTooLong 512), holding q held) := by
  by_cases hfit : sizeWith q (held ++ [record]) ≤ 512
  · exact .inl ⟨hfit, tryPush_of_fits hfit⟩
  · exact .inr (tryPush_of_overflow h (by omega))

/-- Whatever is pushed is taken, or there is no room for it. -/
theorem results_of_pushAll (h : sizeWith q held ≤ 512) :
    ∀ result ∈ (pushAll records (holding q held)).1,
      result = .ok () ∨ result = .error (.messageTooLong 512) := by
  induction records generalizing held with
  | nil => simp [pushAll]
  | cons record records ih =>
    rw [pushAll_cons]
    rcases tryPush_cases h record with ⟨hfit, hpush⟩ | hpush
    · rw [hpush, List.forall_mem_cons]
      exact ⟨.inl rfl, ih hfit⟩
    · rw [hpush, List.forall_mem_cons]
      exact ⟨.inr rfl, ih h⟩

theorem results_of_pushAll_ofQuery (hquery : q.octets.length ≤ 512) (records : List Record) :
    ∀ result ∈ (pushAll records (ofQuery q)).1,
      result = .ok () ∨ result = .error (.messageTooLong 512) := by
  rw [← holding_nil]
  exact results_of_pushAll (by simpa [sizeWith] using hquery)

/-- Records that all fit are all taken. -/
theorem pushAll_of_fits (h : sizeWith q (held ++ records) ≤ 512) :
    (pushAll records (holding q held)).2 = holding q (held ++ records) := by
  induction records generalizing held with
  | nil => rw [List.append_nil]; rfl
  | cons record records ih =>
    rw [List.append_cons] at h ⊢
    have hfit : sizeWith q (held ++ [record]) ≤ 512 := by
      simp only [sizeWith, List.flatMap_append, List.length_append] at h ⊢
      omega
    rw [pushAll_cons, tryPush_of_fits hfit]
    exact ih h

theorem pushAll_ofQuery_of_fits (h : sizeWith q records ≤ 512) :
    (pushAll records (ofQuery q)).2 = holding q records := by
  rw [← holding_nil]
  exact pushAll_of_fits h

/-- A record takes ten octets and the header twelve, so that no more than fifty records fit. -/
theorem length_le_of_sizeWith (hquery : 12 ≤ q.octets.length) (h : sizeWith q records ≤ 512) :
    records.length ≤ 50 := by
  have hten := length_le_of_flatMap records
  unfold sizeWith at h
  omega

end Pushes

/-- A record without labels or data, the shortest that there is. -/
def shortest : Record := ⟨⟨[], 0⟩, .ns ⟨[], 0⟩, .internet, 0⟩

theorem exists_fifty_answers :
    ∃ d q records, Query.parse d = .ok q ∧ (pushAll records (ofQuery q)).2.answers.toNat = 50 := by
  have hquery : IsQuery (Query.compose 0 0 0 [] ++ []) :=
    Query.isQuery_compose (by decide) (by decide)
  have hfit : sizeWith (Query.ofOctets (Query.compose 0 0 0 [] ++ []))
      (List.replicate 50 shortest) ≤ 512 := by
    have htwelve : (Query.compose 0 0 0 [] ++ []).length = 12 := rfl
    have hten : shortest.encode.length = 10 := rfl
    simp only [sizeWith, Query.ofOctets, htwelve, List.length_flatMap, List.map_replicate, hten,
      List.sum_replicate_nat]
    decide
  refine ⟨_, _, List.replicate 50 shortest, Query.parse_of_isQuery hquery, ?_⟩
  rw [pushAll_ofQuery_of_fits hfit, toNat_answers hfit, List.length_replicate]

end Reply

/-! ## Answers of the portal -/

namespace Portal

section Answers

variable {address : IPv4} {d r : Octets} {qs : List Question} {stop : Nat}

/-- An answer takes fifteen octets at least: one for the name, ten for the fields and four for the
data. -/
theorem length_answerOctets_ge (address : IPv4) {q : Question} (hname : q.name.WellFormed)
    (hq : IsAnswered q) :
    15 ≤ (answerOctets address q).length := by
  have hpos := hname.length_pos
  have hdata : ∃ answerClass data, answerData? address q.qtype.code = some (answerClass, data) ∧
      4 ≤ data.length := by
    unfold answerData?
    rcases hq with hq | hq | hq
    · exact ⟨1, address.octets, by simp [hq], Nat.le_refl 4⟩
    · exact ⟨1, [2, 0x6E, 0x73, 0], by simp [hq], Nat.le_refl 4⟩
    · exact ⟨256, [0, 10, 0, 1] ++ target, by simp [hq], by simp⟩
  obtain ⟨answerClass, data, hsome, hfour⟩ := hdata
  rw [answerOctets, hsome]
  simp only [List.length_append, Octets.length_ofUInt16, List.length_cons, List.length_nil]
  omega

theorem length_answers_ge (address : IPv4) (hnames : ∀ q ∈ qs, q.name.WellFormed) :
    15 * qs.countP (IsAnswered ·) ≤ (qs.flatMap (answerOctets address)).length := by
  induction qs with
  | nil => simp
  | cons q qs ih =>
    rw [List.forall_mem_cons] at hnames
    have hrest := ih hnames.2
    rw [List.flatMap_cons, List.length_append, List.countP_cons]
    by_cases hq : IsAnswered q
    · have hone := length_answerOctets_ge address hnames.1 hq
      simp only [hq, decide_true, if_true]
      omega
    · simp only [hq, decide_false, Bool.false_eq_true, if_false]
      omega

/-- Every answer takes fifteen octets of the reply besides the five that its question takes. -/
theorem AnswersAll.countP_le (h : AnswersAll address d qs stop) :
    qs.countP (IsAnswered ·) ≤ 25 := by
  have hquestions := h.questions.length_le
  have hstop := h.questions.stop_le h.isQuery.length_ge
  have hcount := List.countP_le_length (p := (IsAnswered ·)) (l := qs)
  have hanswers := length_answers_ge address (Name.wellFormed_of_questionsAt h.questions)
  have hfits := h.fits
  unfold replySize at hfits
  omega

theorem answers_le_of_respond (h : respond address d = .ok r) :
    (Octets.wordAt r 6).toNat ≤ 25 := by
  obtain ⟨qs, stop, hall, rfl⟩ := respond_eq_ok_iff.mp h
  rw [answers_of_reply hall, length_answersTo]
  exact hall.countP_le

/-- Of the faults that may come first, the one overflow is that of the message. -/
theorem respond_ne_counterTooLarge (address : IPv4) (d : Octets) (counter bits : Nat) :
    respond address d ≠ .error (.overflow (.counterTooLarge counter bits)) := by
  rw [ne_eq, respond_eq_error_iff]
  intro h
  cases h

end Answers

/-- What is asked in a query that was put together is answered where the answers fit. -/
theorem answersAll_compose {address : IPv4} {id : UInt16} {flags low : UInt8} {asked : List Asked}
    (hcut : flags &&& 0x02 = 0) (hnames : ∀ a ∈ asked, a.name.WellFormed)
    (hfits : replySize address (Query.compose id flags low asked)
      (asked.map Asked.question) ≤ 512) :
    AnswersAll address (Query.compose id flags low asked) (asked.map Asked.question)
      (Query.compose id flags low asked).length := by
  have hlen : (Query.compose id flags low asked).length ≤ 512 :=
    Nat.le_trans (Nat.le_add_right _ _) hfits
  have hquery : IsQuery (Query.compose id flags low asked ++ []) :=
    Query.isQuery_compose hcut (by rwa [List.append_nil])
  rw [List.append_nil] at hquery
  obtain ⟨hstand, hcount⟩ := Query.questions_of_compose hnames hlen
    (Octets.wordAt (Query.compose id flags low asked) 0)
  exact ⟨hquery, hstand, hcount, hfits⟩

theorem exists_twenty_five_answers (address : IPv4) :
    ∃ d r, respond address d = .ok r ∧ (Octets.wordAt r 6).toNat = 25 := by
  have hfits : replySize address (Query.compose 0 0 0 (List.replicate 25 ⟨Name.root, 1, 1⟩))
      ((List.replicate 25 ⟨Name.root, 1, 1⟩).map Asked.question) ≤ 512 := by
    have hfive : (Asked.mk Name.root 1 1).encode.length = 5 := rfl
    have hfifteen : (answerOctets address (Asked.mk Name.root 1 1).question).length = 15 := rfl
    simp only [replySize, Query.length_compose, List.map_replicate, List.length_flatMap, hfive,
      hfifteen, List.sum_replicate_nat]
    decide
  have hall := answersAll_compose (by decide)
    (by simpa [List.mem_replicate] using Name.wellFormed_root) hfits
  refine ⟨_, _, respond_of_answersAll hall, ?_⟩
  rw [answers_of_reply hall, length_answersTo, List.map_replicate]
  rfl

end Portal

/-! ## The law of counting -/

/-- No push onto the reply to a query fails for a number that is too large, neither that of the
answers nor the length of a record's data, and there are never more than 50 answers. No datagram is
dropped for such a number, and no reply has more than 25 answers, whatever number of questions the
query promises. Neither bound can be lower. -/
theorem no_counter_gets_too_large_and_answers_are_few :
    (∀ d q, Query.parse d = .ok q → ∀ records results reply,
      Reply.pushAll records (Reply.ofQuery q) = (results, reply) →
        (∀ result ∈ results, ∀ counter bits, result ≠ .error (.counterTooLarge counter bits)) ∧
        (∃ answers, counterField (reply.answers.toNat + 1) = .ok answers) ∧
        (∀ (record : Record) counter bits last,
          record.write reply.writer ≠ .error (.counterTooLarge counter bits) last) ∧
        reply.answers.toNat ≤ 50) ∧
    (∀ address d,
      (∀ counter bits,
        Portal.respond address d ≠ .error (.overflow (.counterTooLarge counter bits))) ∧
      ∀ r, Portal.respond address d = .ok r → (Octets.wordAt r 6).toNat ≤ 25) ∧
    (∃ d q records, Query.parse d = .ok q ∧
      (Reply.pushAll records (Reply.ofQuery q)).2.answers.toNat = 50) ∧
    ∀ address, ∃ d r, Portal.respond address d = .ok r ∧ (Octets.wordAt r 6).toNat = 25 := by
  refine ⟨?_, ?_, Reply.exists_fifty_answers, Portal.exists_twenty_five_answers⟩
  · intro d q hparse records results reply hpushes
    obtain ⟨hquery, rfl⟩ := Query.isQuery_of_parse hparse
    have hresults := Reply.results_of_pushAll_ofQuery (q := Query.ofOctets d) hquery.length_le
      records
    obtain ⟨hreply, hsize⟩ := Reply.pushAll_ofQuery (q := Query.ofOctets d) hquery.length_le records
    simp only [hpushes] at hresults hreply hsize
    subst hreply
    refine ⟨?_, ⟨_, Reply.counterField_answers hsize⟩, ?_, ?_⟩
    · intro result hresult counter bits heq
      rcases hresults result hresult with hok | hfull
      · rw [hok] at heq
        cases heq
      · rw [hfull] at heq
        cases heq
    · exact Record.write_ne_counterTooLarge (show maxMessageLength ≤ 0xFFFF by decide)
    · rw [Reply.toNat_answers hsize]
      exact Reply.length_le_of_sizeWith hquery.length_ge hsize
  · intro address d
    exact ⟨Portal.respond_ne_counterTooLarge address d, fun r => Portal.answers_le_of_respond⟩

/-- A link whose length no word counts is pushed onto the reply to a query that promises 65535
questions, and a query for the address of the root is answered. -/
theorem a_link_is_too_long_for_the_message_and_not_for_a_counter :
    (∃ q results reply,
      Query.parse [0, 1, 1, 0, 255, 255, 0, 0, 0, 0, 0, 0] = .ok q ∧
      Reply.pushAll [⟨Name.root, .uri 0 0 (List.replicate 70000 0), .internet, 0⟩]
        (Reply.ofQuery q) = (results, reply) ∧
      (∀ result ∈ results, ∀ counter bits, result ≠ .error (.counterTooLarge counter bits)) ∧
      reply.answers.toNat ≤ 50) ∧
    ∃ r, Portal.respond (.ofOctets 192 168 4 1)
        ([0, 1, 1, 0, 0, 1, 0, 0, 0, 0, 0, 0] ++ [0, 0, 1, 0, 1]) = .ok r ∧
      (Octets.wordAt r 6).toNat ≤ 25 := by
  obtain ⟨hpushes, hreplies, _⟩ := no_counter_gets_too_large_and_answers_are_few
  have hparse : Query.parse [0, 1, 1, 0, 255, 255, 0, 0, 0, 0, 0, 0] =
      .ok (Query.ofOctets [0, 1, 1, 0, 255, 255, 0, 0, 0, 0, 0, 0]) := by
    cbv
  have hreply : Portal.respond (.ofOctets 192 168 4 1)
      ([0, 1, 1, 0, 0, 1, 0, 0, 0, 0, 0, 0] ++ [0, 0, 1, 0, 1]) =
        .ok ([0, 1, 129, 0, 0, 1, 0, 1, 0, 0, 0, 0] ++ [0, 0, 1, 0, 1] ++
          [0, 0, 1, 0, 1, 0, 0, 0, 0, 0, 4, 192, 168, 4, 1]) := by
    cbv
  obtain ⟨hresults, _, _, hfew⟩ := hpushes _ _ hparse
    [⟨Name.root, .uri 0 0 (List.replicate 70000 0), .internet, 0⟩] _ _ Prod.mk.eta.symm
  exact ⟨⟨_, _, _, hparse, Prod.mk.eta.symm, hresults, hfew⟩, _, hreply, (hreplies _ _).2 _ hreply⟩

end PortalDns
