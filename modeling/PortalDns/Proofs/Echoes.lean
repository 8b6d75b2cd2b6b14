-- The laws of echoes: what a reply has in common with its query, and how much
-- of the questions in the query is read back from the reply.
import PortalDns.Proofs.Answers
import PortalDns.Proofs.NameCopies

namespace PortalDns

/-! ## What is changed in a query -/

/-- `r` begins with the octets of `d`, but for the bit of a response in the flags, and for the
low octet of the number of answers, which no query has. -/
structure Echoes (d r : Octets) : Prop where
  length_le : d.length ≤ r.length
  flags : ∃ x, d[2]? = some x ∧ r[2]? = some (x ||| 0x80)
  no_answers : d[6]? = some 0 ∧ d[7]? = some 0
  few_answers : ∃ x, r[7]? = some x ∧ x.toNat < 0xC0
  same : ∀ i < d.length, i ≠ 2 → i ≠ 7 → r[i]? = d[i]?

theorem response_bit_stays {x : UInt8} (h : 0xC0 ≤ x.toNat) : x ||| 0x80 = x := by
  have hall : ∀ x : BitVec 8, 0xC0 ≤ x.toNat → x ||| 0x80#8 = x := by decide
  rw [← UInt8.toBitVec_inj]
  exact hall x.toBitVec h

theorem response_bit_le {x : UInt8} (h : x.toNat ≤ 63) : (x ||| 0x80).toNat < 0xC0 := by
  have hall : ∀ x : BitVec 8, x.toNat ≤ 63 → (x ||| 0x80#8).toNat < 0xC0 := by decide
  exact hall x.toBitVec h

theorem response_bit_ne (x : UInt8) : x ||| 0x80 ≠ 0 := by
  have hall : ∀ x : BitVec 8, x ||| 0x80#8 ≠ 0#8 := by decide
  intro h
  exact hall x.toBitVec (UInt8.toBitVec_inj.mpr h)

namespace Echoes

variable {d r : Octets} {c : Nat} {x : UInt8}

/-- The three things that an octet of the query becomes in the reply. -/
theorem octet_cases (h : Echoes d r) (hx : d[c]? = some x) :
    r[c]? = d[c]? ∨ c = 2 ∧ r[c]? = some (x ||| 0x80) ∨
      c = 7 ∧ x = 0 ∧ ∃ y, r[c]? = some y ∧ y.toNat < 0xC0 := by
  by_cases h2 : c = 2
  · subst h2
    obtain ⟨y, hy, hr⟩ := h.flags
    rw [hx] at hy
    cases hy
    exact .inr (.inl ⟨rfl, hr⟩)
  by_cases h7 : c = 7
  · subst h7
    have h0 := h.no_answers.2
    rw [hx] at h0
    cases h0
    exact .inr (.inr ⟨rfl, rfl, h.few_answers⟩)
  · have hin : c < d.length := (List.getElem?_eq_some_iff.mp hx).1
    exact .inl (h.same c hin h2 h7)

/-- No length octet becomes a pointer. -/
theorem not_pointerAt (h : Echoes d r) (hx : d[c]? = some x) (hle : x.toNat ≤ 63) (target : Nat) :
    ¬ PointerAt r c target := by
  rintro ⟨y, low, hy, _, htop, _, _⟩
  rw [topBits_eq_iff] at htop
  rcases h.octet_cases hx with hr | ⟨_, hr⟩ | ⟨_, _, z, hr, hz⟩
  · rw [hr, hx] at hy
    cases hy
    omega
  · rw [hr] at hy
    cases hy
    have := response_bit_le hle
    omega
  · rw [hr] at hy
    cases hy
    omega

/-- No label becomes the end of a name. -/
theorem ne_final (h : Echoes d r) (hx : d[c]? = some x) (hne : x ≠ 0) : r[c]? ≠ some 0 := by
  rcases h.octet_cases hx with hr | ⟨_, hr⟩ | ⟨_, h0, _⟩
  · rw [hr, hx]
    intro h0
    cases h0
    exact hne rfl
  · rw [hr]
    intro h0
    exact response_bit_ne x (Option.some.inj h0)
  · exact absurd h0 hne

/-- Every pointer stays, but for one from the second octet of the header. -/
theorem agree_of_pointerAt {target : Nat} (h : Echoes d r) (hp : PointerAt d c target)
    (hflags : c = 1 → r[2]? = d[2]?) : r[c]? = d[c]? ∧ r[c + 1]? = d[c + 1]? := by
  obtain ⟨x, y, hx, hy, htop, _, _⟩ := hp
  rw [topBits_eq_iff] at htop
  constructor
  · rcases h.octet_cases hx with hr | ⟨_, hr⟩ | ⟨_, h0, _⟩
    · exact hr
    · rw [hr, hx, response_bit_stays htop]
    · subst h0
      exact absurd htop (by decide)
  · rcases h.octet_cases hy with hr | ⟨h2, _⟩ | ⟨h7, _⟩
    · exact hr
    · have h1 : c = 1 := by omega
      subst h1
      exact hflags rfl
    · have h6 : c = 6 := by omega
      subst h6
      rw [h.no_answers.1] at hx
      cases hx
      exact absurd htop (by decide)

/-! ## Names that mean the same -/

section Names

open NameWalk

variable {w : NameWalk} {n : Name} {next next' : Nat}

theorem eq_of_snoc_prefixes {l l' : Label} {ls more : List Label} (h : ls ++ [l] <+: more)
    (h' : ls ++ [l'] <+: more) : l = l' := by
  have heq := List.prefix_of_prefix_length_le h h' (by simp)
  rw [List.prefix_append_right_inj] at heq
  simpa using heq

/-- Where the reply spells the same name, it has the labels of the query. -/
theorem label_of_ends {l : Label} (he : Echoes d r) (hl : ItemAt d w.cursor (.label l))
    (hpre : w.labels ++ [l] <+: n.labels) (h : Ends r w n next) :
    ItemAt r w.cursor (.label l) ∧ Ends r (w.pass l) n next := by
  have hsize : l.size ≤ 63 := l.length_le
  have hx := l.toNat_ofNat_size
  cases hl with
  | label hne hprefix =>
    have hfirst := (encode_prefix_iff.mp hprefix).1
    cases h with
    | final h0 _ =>
      refine absurd h0 (he.ne_final hfirst ?_)
      intro h0
      rw [h0] at hx
      exact hne (l.size_eq_zero_iff.mp hx.symm)
    | label hl' _ hroom hends =>
      cases eq_of_snoc_prefixes hpre (hends.labels_prefix hroom)
      exact ⟨hl', hends⟩
    | pointer hp _ _ => exact absurd hp (he.not_pointerAt hfirst (by omega) _)

/-- Where the reply spells the same name, it has the end that the name has in the query. -/
theorem final_of_ends (he : Echoes d r) (h0 : d[w.cursor]? = some 0)
    (hlabels : n.labels = w.labels ++ [Label.empty]) (h : Ends r w n next) :
    r[w.cursor]? = some 0 := by
  cases h with
  | final h0' _ => exact h0'
  | label hl _ hroom hends =>
    have hpre := hends.labels_prefix hroom
    rw [hlabels] at hpre
    cases hl with
    | label hne _ => exact absurd (eq_of_snoc_prefixes hpre (List.prefix_refl _)) hne
  | pointer hp _ _ => exact absurd hp (he.not_pointerAt h0 (by decide) _)

/-- At the cursor stands a pointer whose second octet is that of the flags, and was changed. -/
def Diverts (d r : Octets) (w : NameWalk) : Prop :=
  w.cursor = 1 ∧ (∃ target, PointerAt d 1 target) ∧ r[2]? ≠ d[2]?

theorem alike_or_diverts_of_step {v : NameWalk} (hstep : step d.toArray w = .ok (.next v))
    (hself : ReadsAlike d r w)
    (h : (∀ u ∈ trail d.toArray v, ReadsAlike d r u) ∨ ∃ u ∈ trail d.toArray v, Diverts d r u) :
    (∀ u ∈ trail d.toArray w, ReadsAlike d r u) ∨ ∃ u ∈ trail d.toArray w, Diverts d r u := by
  rw [trail_of_next hstep]
  rcases h with h | ⟨u, hu, hdiverts⟩
  · exact .inl (List.forall_mem_cons.mpr ⟨hself, h⟩)
  · exact .inr ⟨u, List.mem_cons_of_mem w hu, hdiverts⟩

/-- A name that is read alike in a query and in its reply has no octet that was changed, unless
it goes through a pointer that was. -/
theorem alike_or_diverts (he : Echoes d r) (h : Ends d w n next) (h' : Ends r w n next') :
    (∀ u ∈ trail d.toArray w, ReadsAlike d r u) ∨ ∃ u ∈ trail d.toArray w, Diverts d r u := by
  induction h with
  | @final w h0 hmax =>
    have h0' := he.final_of_ends h0 rfl h'
    have hself : ReadsAlike d r w := .of_agree (.final h0) fun i hge hlt => by
      have heq : i = w.cursor := by
        simp only [NameItem.width] at hlt
        omega
      rw [heq, h0, h0']
    rw [trail_of_done (step_of_final h0 hmax)]
    exact .inl (List.forall_mem_singleton.mpr hself)
  | @label w l n next hl hmax hroom hrest ih =>
    obtain ⟨hl', hends⟩ := he.label_of_ends hl (hrest.labels_prefix hroom) h'
    have hself : ReadsAlike d r w := .of_agree hl (hl.agree_of_label hl')
    exact alike_or_diverts_of_step (step_of_label hl hmax hroom) hself (ih hends)
  | @pointer w target n next hp hroom _ ih =>
    by_cases hdiverts : Diverts d r w
    · exact .inr ⟨w, mem_trail_self d w, hdiverts⟩
    have hflags : w.cursor = 1 → r[2]? = d[2]? := by
      intro h1
      rw [h1] at hp
      exact Classical.not_not.mp fun hne => hdiverts ⟨h1, ⟨target, hp⟩, hne⟩
    obtain ⟨hhigh, hlow⟩ := he.agree_of_pointerAt hp hflags
    have hself : ReadsAlike d r w := .of_agree (.pointer hp) fun i hge hlt => by
      simp only [NameItem.width] at hlt
      obtain rfl | rfl : i = w.cursor ∨ i = w.cursor + 1 := by omega
      · exact hhigh
      · exact hlow
    have hp' := hp.copy he.length_le hhigh hlow
    have hlen := he.length_le
    have hends := finish_of_ends h'
    rw [finish_of_next (step_of_pointer hp' (by omega))] at hends
    exact alike_or_diverts_of_step (step_of_pointer hp hroom) hself (ih (ends_of_finish hends))

end Names

end Echoes

/-! ## Questions in a reply -/

namespace Questions

/-- The walks of reading the names of so many questions, one question behind the other. -/
def trail (d : Octets) : Nat → Nat → List NameWalk
  | 0, _ => []
  | n + 1, o =>
    Name.trail d o ++
      match Name.decode d o with
      | .ok (_, next) => trail d n (next + 4)
      | .error _ => []

theorem trail_succ {d : Octets} {o next : Nat} {name : Name} (n : Nat)
    (h : Name.decode d o = .ok (name, next)) :
    trail d (n + 1) o = Name.trail d o ++ trail d n (next + 4) := by
  rw [trail, h]

end Questions

namespace Echoes

variable {d r : Octets} {id : UInt16} {o stop stop' : Nat} {qs qs' : List Question}

/-- Behind the header nothing is changed. -/
theorem wordAt_eq (he : Echoes d r) {i : Nat} (hi : 12 ≤ i) (hfit : i + 2 ≤ d.length) :
    Octets.wordAt r i = Octets.wordAt d i :=
  Octets.wordAt_congr hfit (he.same i (by omega) (by omega) (by omega))
    (he.same (i + 1) (by omega) (by omega) (by omega))

/-- A name behind the header ends in the same place, whether or not it is the same. -/
theorem next_eq (he : Echoes d r) (ho : 12 ≤ o) {n m : Name} {next next' : Nat}
    (h : Name.decode d o = .ok (n, next)) (h' : Name.decode r o = .ok (m, next')) :
    next' = next := by
  apply (Name.decode_eq_ok_iff.mp h).next_eq (Name.decode_eq_ok_iff.mp h') he.length_le rfl
  intro i hge hin
  have hge : o ≤ i := hge
  exact he.same i hin (by omega) (by omega)

/-- Questions are read back from the reply if nothing was changed that is read for their names. -/
theorem questions_of_alike (he : Echoes d r) (ho : 12 ≤ o) (h : QuestionsAt d id o qs stop)
    (halike : ∀ w ∈ Questions.trail d qs.length o, NameWalk.ReadsAlike d r w) (id' : UInt16) :
    QuestionsAt r id' o qs stop := by
  have hlen := he.length_le
  induction qs generalizing o with
  | nil =>
    cases h
    exact .nil
  | cons q qs ih =>
    obtain ⟨next, hname, hfit, htype, hclass, hqs⟩ := questionsAt_cons_iff.mp h
    have hlt := Name.lt_of_decode hname
    rw [List.length_cons, Questions.trail_succ _ hname, List.forall_mem_append] at halike
    rw [← he.wordAt_eq (by omega) (by omega)] at htype hclass
    have hname' := (Name.decode_eq_ok_iff.mp hname).copy hlen halike.1
    exact questionsAt_cons_iff.mpr ⟨next, Name.decode_eq_ok_iff.mpr hname', by omega, htype, hclass,
      ih (by omega) hqs halike.2⟩

/-- As many questions can be read from the reply, and end in the same place, if nothing was
changed that leads through their names. -/
theorem exists_questions_of_leads (he : Echoes d r) (ho : 12 ≤ o) (h : QuestionsAt d id o qs stop)
    (hleads : ∀ w ∈ Questions.trail d qs.length o, NameWalk.LeadsAlike d r w) (id' : UInt16) :
    ∃ qs', qs'.length = qs.length ∧ QuestionsAt r id' o qs' stop := by
  have hlen := he.length_le
  induction qs generalizing o with
  | nil =>
    cases h
    exact ⟨[], rfl, .nil⟩
  | cons q qs ih =>
    obtain ⟨next, hname, hfit, htype, hclass, hqs⟩ := questionsAt_cons_iff.mp h
    have hlt := Name.lt_of_decode hname
    rw [List.length_cons, Questions.trail_succ _ hname, List.forall_mem_append] at hleads
    rw [← he.wordAt_eq (by omega) (by omega)] at htype hclass
    obtain ⟨name, hname'⟩ := (Name.decode_eq_ok_iff.mp hname).exists_of_leads hlen hleads.1 []
    obtain ⟨qs', hqs', hrest⟩ := ih (by omega) hqs hleads.2
    refine ⟨{ q with name } :: qs', by rw [List.length_cons, List.length_cons, hqs'], ?_⟩
    exact questionsAt_cons_iff.mpr ⟨next, Name.decode_eq_ok_iff.mpr hname', by omega, htype,
      hclass, hrest⟩

/-- Wherever the names of the reply lead, its questions end where those of the query do. -/
theorem stop_eq (he : Echoes d r) (ho : 12 ≤ o) (h : QuestionsAt d id o qs stop) {id' : UInt16}
    (h' : QuestionsAt r id' o qs' stop') (hlength : qs'.length = qs.length) : stop' = stop := by
  induction qs generalizing o qs' with
  | nil =>
    rw [List.length_nil, List.length_eq_zero_iff] at hlength
    subst hlength
    cases h
    cases h'
    rfl
  | cons q qs ih =>
    obtain ⟨q', qs', rfl⟩ := List.exists_cons_of_length_eq_add_one hlength
    obtain ⟨next, hname, _, _, _, hqs⟩ := questionsAt_cons_iff.mp h
    obtain ⟨next', hname', _, _, _, hqs'⟩ := questionsAt_cons_iff.mp h'
    have hlt := Name.lt_of_decode hname
    cases he.next_eq ho hname hname'
    rw [List.length_cons, List.length_cons, Nat.add_right_cancel_iff] at hlength
    exact ih (by omega) hqs hqs' hlength

/-- Questions that the reply has like the query go through nothing that was changed, but for a
pointer that was. -/
theorem questions_alike_or_diverts (he : Echoes d r) (ho : 12 ≤ o)
    (h : QuestionsAt d id o qs stop) {id' : UInt16} (h' : QuestionsAt r id' o qs stop') :
    (∀ w ∈ Questions.trail d qs.length o, NameWalk.ReadsAlike d r w) ∨
      ∃ w ∈ Questions.trail d qs.length o, Diverts d r w := by
  induction qs generalizing o with
  | nil => exact .inl (by simp [Questions.trail])
  | cons q qs ih =>
    obtain ⟨next, hname, _, _, _, hqs⟩ := questionsAt_cons_iff.mp h
    obtain ⟨next', hname', _, _, _, hqs'⟩ := questionsAt_cons_iff.mp h'
    have hlt := Name.lt_of_decode hname
    cases he.next_eq ho hname hname'
    rw [List.length_cons, Questions.trail_succ _ hname, List.forall_mem_append]
    simp only [List.mem_append]
    rcases he.alike_or_diverts (Name.decode_eq_ok_iff.mp hname) (Name.decode_eq_ok_iff.mp hname')
      with hfirst | ⟨w, hw, hdiverts⟩
    · rcases ih (by omega) hqs hqs' with hrest | ⟨w, hw, hdiverts⟩
      · exact .inl ⟨hfirst, hrest⟩
      · exact .inr ⟨w, .inr hw, hdiverts⟩
    · exact .inr ⟨w, .inl hw, hdiverts⟩

end Echoes

/-! ## Replies echo their queries -/

namespace Portal

section Replies

variable {address : IPv4} {d r : Octets} {qs : List Question} {stop : Nat}

/-- The octets of the query come first in the reply. -/
theorem replyOctets_front (i : Nat) (hi : i < d.length) :
    (replyOctets address d qs)[i]? =
      (Reply.echo d (UInt16.ofNat (qs.countP (IsAnswered ·))))[i]? :=
  List.getElem?_append_left (by rwa [Reply.length_echo])

theorem echoes_of_answersAll (h : AnswersAll address d qs stop) :
    Echoes d (replyOctets address d qs) := by
  have hlen := h.isQuery.length_ge
  have hcount := countP_isAnswered_le h.fits
  have hnumber := toNat_countP_isAnswered h.fits
  obtain ⟨h6, h7⟩ := Reply.echo_answers (d := d)
    (n := UInt16.ofNat (qs.countP (IsAnswered ·))) (by omega)
  refine ⟨?_, ?_, ?_, ?_, ?_⟩
  · simp [replyOctets]
  · obtain ⟨flags, hflags⟩ := Query.exists_flags hlen
    refine ⟨flags, hflags, ?_⟩
    rw [replyOctets_front 2 (by omega), Reply.echo_flags, hflags]
    rfl
  · exact ⟨h.isQuery.no_records 6 (by omega) (by omega),
      h.isQuery.no_records 7 (by omega) (by omega)⟩
  · rw [← replyOctets_front 7 (by omega)] at h7
    refine ⟨_, h7, ?_⟩
    rw [hnumber, UInt8.toNat_ofNat']
    omega
  · intro i hi h2 h7'
    rw [replyOctets_front i hi]
    by_cases hi6 : i = 6
    · subst hi6
      rw [h6, hnumber, h.isQuery.no_records 6 (by omega) (by omega), Option.some.injEq,
        Nat.div_eq_of_lt (by omega)]
      rfl
    · exact Reply.echo_same h2 hi6 h7'

theorem id_of_reply (h : AnswersAll address d qs stop) :
    Octets.wordAt (replyOctets address d qs) 0 = Octets.wordAt d 0 := by
  have he := echoes_of_answersAll h
  have hlen := h.isQuery.length_ge
  exact Octets.wordAt_congr (by omega) (he.same 0 (by omega) (by omega) (by omega))
    (he.same 1 (by omega) (by omega) (by omega))

theorem questions_of_reply (h : AnswersAll address d qs stop) :
    Octets.wordAt (replyOctets address d qs) 4 = Octets.wordAt d 4 := by
  have he := echoes_of_answersAll h
  have hlen := h.isQuery.length_ge
  exact Octets.wordAt_congr (by omega) (he.same 4 (by omega) (by omega) (by omega))
    (he.same 5 (by omega) (by omega) (by omega))

theorem answers_of_reply (h : AnswersAll address d qs stop) :
    (Octets.wordAt (replyOctets address d qs) 6).toNat = (answersTo address qs).length := by
  have hlen := h.isQuery.length_ge
  obtain ⟨h6, h7⟩ := Reply.echo_answers (d := d)
    (n := UInt16.ofNat (qs.countP (IsAnswered ·))) (by omega)
  rw [← replyOctets_front 6 (by omega)] at h6
  rw [← replyOctets_front 7 (by omega)] at h7
  rw [Octets.wordAt, Octets.take_two_drop h6 h7, length_answersTo]
  have hword := Octets.toUInt16_ofUInt16 (UInt16.ofNat (qs.countP (IsAnswered ·)))
  rw [Octets.ofUInt16] at hword
  rw [hword, toNat_countP_isAnswered h.fits]

end Replies

/-! ## Where the questions of a reply end -/

/-- Whether or not the questions can be read from a reply, its records follow all octets of the
query. The questions end where those of the query do, so that the records follow them directly
exactly if nothing stands behind them in the query; and they can be read if nothing was changed
that leads through their names. -/
theorem the_records_of_a_reply_stand_behind_the_whole_query {address : IPv4} {d r : Octets}
    (h : respond address d = .ok r) :
    ∃ qs stop, Echoes d r ∧ QuestionsAt d (Octets.wordAt d 0) 12 qs stop ∧
      qs.length = (Octets.wordAt r 4).toNat ∧ stop ≤ d.length ∧
      (∀ id qs' stop', QuestionsAt r id 12 qs' stop' → qs'.length = qs.length → stop' = stop) ∧
      ((∀ w ∈ Questions.trail d qs.length 12, NameWalk.LeadsAlike d r w) →
        ∀ id, ∃ qs', qs'.length = qs.length ∧ QuestionsAt r id 12 qs' stop) ∧
      ∃ front, front.length = d.length ∧
        r = front ++ (answersTo address qs).flatMap Record.encode ∧
        (answersTo address qs).length = (Octets.wordAt r 6).toNat := by
  obtain ⟨qs, stop, hall, rfl⟩ := respond_eq_ok_iff.mp h
  have he := echoes_of_answersAll hall
  have hqs := hall.questions
  have hlen := hall.isQuery.length_ge
  refine ⟨qs, stop, he, hqs, ?_, hqs.stop_le hlen, ?_, ?_, ?_⟩
  · rw [questions_of_reply hall, hall.promised]
  · intro id qs' stop' hqs' hlength
    exact he.stop_eq (Nat.le_refl 12) hqs hqs' hlength
  · intro hleads id
    exact he.exists_questions_of_leads (Nat.le_refl 12) hqs hleads id
  · refine ⟨Reply.echo d (UInt16.ofNat (qs.countP (IsAnswered ·))), Reply.length_echo _ _, ?_, ?_⟩
    · rw [replyOctets, encode_answersTo]
    · exact (answers_of_reply hall).symm

/-- The name of this question has the flags in its label, so that the reply asks for another
name, but in the same place. -/
theorem the_record_stands_behind_a_name_of_flags :
    ∃ r qs stop, respond (.ofOctets 192 168 4 1)
        ([0, 1, 0, 0, 0, 1, 0, 0, 0, 0, 0, 0] ++ [192, 1, 0, 1, 0, 1]) = .ok r ∧
      qs.length = 1 ∧ QuestionsAt r 1 12 qs stop ∧ stop ≤ 18 := by
  have hreply : respond (.ofOctets 192 168 4 1)
      ([0, 1, 0, 0, 0, 1, 0, 0, 0, 0, 0, 0] ++ [192, 1, 0, 1, 0, 1]) =
        .ok ([0, 1, 128, 0, 0, 1, 0, 1, 0, 0, 0, 0] ++ [192, 1, 0, 1, 0, 1] ++
          [1, 0, 0, 0, 1, 0, 1, 0, 0, 0, 0, 0, 4, 192, 168, 4, 1]) := by
    cbv
  obtain ⟨qs, stop, he, _, hlen, hstop, _, hleads, _⟩ :=
    the_records_of_a_reply_stand_behind_the_whole_query hreply
  have hlen : qs.length = 1 := hlen
  rw [hlen] at hleads
  have hcursors : (Questions.trail
      ([0, 1, 0, 0, 0, 1, 0, 0, 0, 0, 0, 0] ++ [192, 1, 0, 1, 0, 1]) 1 12).map
        NameWalk.cursor = [12, 1, 3] := by
    cbv
  obtain ⟨qs', hlen', hqs'⟩ := hleads (by
    intro w hw
    have hcursor := List.mem_map_of_mem (f := NameWalk.cursor) hw
    rw [hcursors] at hcursor
    simp only [List.mem_cons, List.not_mem_nil, or_false] at hcursor
    refine ⟨he.same w.cursor (by simp; omega) (by omega) (by omega), ?_⟩
    intro target hp
    obtain ⟨hhigh, hlow⟩ := he.agree_of_pointerAt hp (by
      intro h1
      rw [h1] at hp
      obtain ⟨x, _, hx, _, htop, _⟩ := hp
      cases hx
      exact absurd htop (by decide))
    exact hp.copy he.length_le hhigh hlow) 1
  exact ⟨_, qs', stop, hreply, hlen', hqs', hstop⟩

/-- An octet behind the question stands between it and the record, and a name may end in the
flags, where its end is lost when the bit of a response is set. -/
theorem a_record_may_stand_behind_padding_or_a_question_that_is_lost :
    (∃ r, respond (.ofOctets 192 168 4 1)
        ([0, 1, 0, 0, 0, 1, 0, 0, 0, 0, 0, 0] ++ [0, 0, 1, 0, 1] ++ [255]) = .ok r ∧
      ∀ id qs, qs.length = (Octets.wordAt r 4).toNat → ¬ QuestionsAt r id 12 qs 18) ∧
    ∃ r, respond (.ofOctets 192 168 4 1)
        ([0, 1, 0, 0, 0, 1, 0, 0, 0, 0, 0, 0] ++ [192, 2, 0, 1, 0, 1]) = .ok r ∧
      ∀ id qs, qs.length = (Octets.wordAt r 4).toNat → ¬ QuestionsAt r id 12 qs 18 := by
  constructor
  · refine ⟨[0, 1, 128, 0, 0, 1, 0, 1, 0, 0, 0, 0] ++ [0, 0, 1, 0, 1] ++ [255] ++
      [0, 0, 1, 0, 1, 0, 0, 0, 0, 0, 4, 192, 168, 4, 1], by cbv, ?_⟩
    intro id qs hlen hqs
    obtain ⟨q, rfl⟩ := List.length_eq_one_iff.mp hlen
    obtain ⟨next, hname, _, _, _, hrest⟩ := questionsAt_cons_iff.mp hqs
    rw [show Name.decode _ 12 = .ok (Name.root, 13) by cbv] at hname
    simp only [Except.ok.injEq, Prod.mk.injEq] at hname
    obtain ⟨_, rfl⟩ := hname
    cases hrest
  · refine ⟨[0, 1, 128, 0, 0, 1, 0, 1, 0, 0, 0, 0] ++ [192, 2, 0, 1, 0, 1] ++
      [0, 0, 1, 0, 1, 0, 0, 0, 0, 0, 4, 192, 168, 4, 1], by cbv, ?_⟩
    intro id qs hlen
    have hfault : Name.decode
        ([0, 1, 128, 0, 0, 1, 0, 1, 0, 0, 0, 0] ++ [192, 2, 0, 1, 0, 1] ++
          [0, 0, 1, 0, 1, 0, 0, 0, 0, 0, 4, 192, 168, 4, 1]) 12 = .error .reservedLabel := by
      cbv
    exact QuestionsAt.not_of_fault hfault (hlen ▸ Nat.zero_lt_one)

/-! ## What the questions of a reply ask for -/

/-- The questions that are read back from a reply are those that were answered, if nothing was
changed that is read for their names. Otherwise they are others, or cannot be read at all, unless
one of the names goes through a pointer that was changed. -/
theorem a_reply_asks_the_same_unless_its_names_lead_through_changed_octets {address : IPv4}
    {d r : Octets} (h : respond address d = .ok r) :
    ∃ query qs, Query.parse d = .ok query ∧ query.questions.toList = qs.map .ok ∧
      Echoes d r ∧ qs.length = (Octets.wordAt r 4).toNat ∧
      ((∀ w ∈ Questions.trail d qs.length 12, NameWalk.ReadsAlike d r w) →
        ∀ id, ∃ stop, QuestionsAt r id 12 qs stop) ∧
      ∀ id stop, QuestionsAt r id 12 qs stop →
        (∀ w ∈ Questions.trail d qs.length 12, NameWalk.ReadsAlike d r w) ∨
          ∃ w ∈ Questions.trail d qs.length 12, Echoes.Diverts d r w := by
  obtain ⟨qs, stop, hall, rfl⟩ := respond_eq_ok_iff.mp h
  have he := echoes_of_answersAll hall
  have hqs := hall.questions
  refine ⟨Query.ofOctets d, qs, Query.parse_of_isQuery hall.isQuery, ?_, he, ?_, ?_, ?_⟩
  · rw [Questions.questions_ofOctets, ← hall.promised, ← Nat.add_zero qs.length,
      Questions.toList_of_questionsAt 0 hqs, Questions.toList_zero, List.append_nil]
  · rw [questions_of_reply hall, hall.promised]
  · intro halike id
    exact ⟨stop, he.questions_of_alike (Nat.le_refl 12) hqs halike id⟩
  · intro id stop' hqs'
    exact he.questions_alike_or_diverts (Nat.le_refl 12) hqs hqs'

/-- A pointer behind the header leads where nothing was changed. -/
theorem the_reply_asks_both_questions :
    ∃ r query qs stop,
      respond (.ofOctets 192 168 4 1)
        ([0, 1, 0, 0, 0, 2, 0, 0, 0, 0, 0, 0] ++ [1, 97, 0, 0, 1, 0, 1] ++
          [192, 12, 0, 28, 0, 1]) = .ok r ∧
      Query.parse ([0, 1, 0, 0, 0, 2, 0, 0, 0, 0, 0, 0] ++ [1, 97, 0, 0, 1, 0, 1] ++
        [192, 12, 0, 28, 0, 1]) = .ok query ∧
      query.questions.toList = qs.map .ok ∧ qs.length = 2 ∧ QuestionsAt r 1 12 qs stop := by
  have hreply : respond (.ofOctets 192 168 4 1)
      ([0, 1, 0, 0, 0, 2, 0, 0, 0, 0, 0, 0] ++ [1, 97, 0, 0, 1, 0, 1] ++ [192, 12, 0, 28, 0, 1]) =
        .ok ([0, 1, 128, 0, 0, 2, 0, 1, 0, 0, 0, 0] ++ [1, 97, 0, 0, 1, 0, 1] ++
          [192, 12, 0, 28, 0, 1] ++ [1, 97, 0, 0, 1, 0, 1, 0, 0, 0, 0, 0, 4, 192, 168, 4, 1]) := by
    cbv
  obtain ⟨query, qs, hparse, hlist, he, hlen, hsame, _⟩ :=
    a_reply_asks_the_same_unless_its_names_lead_through_changed_octets hreply
  have hlen : qs.length = 2 := hlen
  rw [hlen] at hsame
  have hbehind : (Questions.trail
      ([0, 1, 0, 0, 0, 2, 0, 0, 0, 0, 0, 0] ++ [1, 97, 0, 0, 1, 0, 1] ++ [192, 12, 0, 28, 0, 1])
        2 12).all (fun w => (NameWalk.offsets
      ([0, 1, 0, 0, 0, 2, 0, 0, 0, 0, 0, 0] ++ [1, 97, 0, 0, 1, 0, 1] ++
        [192, 12, 0, 28, 0, 1] : Octets).toArray w).all fun i => 12 ≤ i ∧ i < 25) = true := by
    cbv
  rw [List.all_eq_true] at hbehind
  obtain ⟨stop, hqs⟩ := hsame (by
    intro w hw i hi
    have hi' := of_decide_eq_true (List.all_eq_true.mp (hbehind w hw) i hi)
    exact he.same i hi'.2 (by omega) (by omega)) 1
  exact ⟨_, query, qs, stop, hreply, hparse, hlist, hlen, hqs⟩

/-- The only question asks for the root by a pointer to the flags, which are not zero any more in
the reply. -/
theorem a_question_that_ends_in_the_flags_is_not_read_back :
    ∃ r query, respond (.ofOctets 192 168 4 1)
        ([0, 1, 0, 0, 0, 1, 0, 0, 0, 0, 0, 0] ++ [192, 2, 0, 1, 0, 1]) = .ok r ∧
      Query.parse ([0, 1, 0, 0, 0, 1, 0, 0, 0, 0, 0, 0] ++ [192, 2, 0, 1, 0, 1]) = .ok query ∧
      query.questions.toList = [.ok ⟨Name.root, .record .a, .record .internet⟩] ∧
      ∀ id stop, ¬ QuestionsAt r id 12 [⟨Name.root, .record .a, .record .internet⟩] stop := by
  refine ⟨[0, 1, 128, 0, 0, 1, 0, 1, 0, 0, 0, 0] ++ [192, 2, 0, 1, 0, 1] ++
    [0, 0, 1, 0, 1, 0, 0, 0, 0, 0, 4, 192, 168, 4, 1], _, by cbv, by cbv, by cbv, ?_⟩
  intro id stop
  have hfault : Name.decode
      ([0, 1, 128, 0, 0, 1, 0, 1, 0, 0, 0, 0] ++ [192, 2, 0, 1, 0, 1] ++
        [0, 0, 1, 0, 1, 0, 0, 0, 0, 0, 4, 192, 168, 4, 1]) 12 = .error .reservedLabel := by
    cbv
  exact QuestionsAt.not_of_fault hfault Nat.zero_lt_one

end Portal

end PortalDns
