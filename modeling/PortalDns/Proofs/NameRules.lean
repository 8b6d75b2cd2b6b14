-- The laws of the rules of names: whichever way a name is made, out of labels,
-- a text or octets, it keeps the rules, and so do the names in every answer.
import PortalDns.Proofs.Answers
import PortalDns.Proofs.NameEncodings

namespace PortalDns

/-! ## Names out of labels and texts -/

namespace Name

theorem wellFormed_root : root.WellFormed :=
  ⟨by decide, by decide, by decide, by decide⟩

/-- Labels make one name at most: the one that has them and keeps the rules. -/
theorem ofLabels?_eq_some_iff {labels : List Label} {n : Name} :
    ofLabels? labels = some n ↔ n.WellFormed ∧ n.labels = labels := by
  unfold ofLabels?
  constructor
  · intro h
    split at h
    · rename_i hrules
      obtain ⟨hlast, hinner, hmax⟩ := hrules
      cases h
      exact ⟨⟨hlast, hinner, rfl, hmax⟩, rfl⟩
    · cases h
  · rintro ⟨⟨hlast, hinner, hlen, hmax⟩, rfl⟩
    rw [hlen] at hmax
    rw [if_pos ⟨hlast, hinner, hmax⟩, ← hlen]

theorem wellFormed_of_dotted {s : String} {n : Name} (h : ofDotted? s = some n) :
    n.WellFormed := by
  unfold ofDotted? at h
  split at h
  · cases h
    exact wellFormed_root
  · obtain ⟨labels, _, hn⟩ := Option.bind_eq_some_iff.mp h
    exact (ofLabels?_eq_some_iff.mp hn).1

end Name

/-! ## Names out of octets -/

namespace NameWalk

/-- What a walk keeps of the rules on its way: it has passed no empty label, and has counted what
the labels take. -/
structure Counted (w : NameWalk) : Prop where
  nonempty : ∀ l ∈ w.labels, l ≠ Label.empty
  len_eq : w.len = Name.wireLength w.labels

section Walks

variable {d : Octets} {w : NameWalk} {n : Name} {next : Nat}

theorem counted_start (o : Nat) : Counted { cursor := o } where
  nonempty := by simp
  len_eq := rfl

theorem Counted.pass {l : Label} (h : w.Counted) (hne : l ≠ Label.empty) : (w.pass l).Counted where
  nonempty := by
    simp only [NameWalk.pass, List.mem_append, List.mem_singleton]
    rintro l' (hl' | rfl)
    · exact h.nonempty l' hl'
    · exact hne
  len_eq := by
    simp only [NameWalk.pass, Name.wireLength_append, Name.wireLength_cons, Name.wireLength_nil,
      h.len_eq, Nat.add_zero]

theorem Counted.jump (h : w.Counted) (target : Nat) : (w.jump target).Counted where
  nonempty := h.nonempty
  len_eq := h.len_eq

/-- The zero that ends a name is its one empty label. -/
theorem Counted.wellFormed (h : w.Counted) (hmax : (w.pass Label.empty).len ≤ Name.maxLength) :
    (w.pass Label.empty).result.1.WellFormed where
  last_empty := by simp [result, NameWalk.pass]
  inner_nonempty := by
    simp only [result, NameWalk.pass, List.dropLast_concat]
    exact h.nonempty
  len_eq := by simp [result, NameWalk.pass, h.len_eq]
  len_le := hmax

/-- A walk that has counted its labels ends with a name that keeps the rules. -/
theorem Ends.wellFormed (h : Ends d w n next) (hw : w.Counted) : n.WellFormed := by
  induction h with
  | final _ hmax => exact hw.wellFormed hmax
  | label hl _ _ _ ih =>
    cases hl with
    | label hne _ => exact ih (hw.pass hne)
  | pointer _ _ _ ih => exact ih (hw.jump _)

end Walks

end NameWalk

namespace Name

theorem wellFormed_of_decode {d : Octets} {o next : Nat} {n : Name}
    (h : decode d o = .ok (n, next)) : n.WellFormed :=
  (decode_eq_ok_iff.mp h).wellFormed (NameWalk.counted_start o)

theorem wellFormed_of_read {id : UInt16} {r rest : Reader} {n : Name}
    (h : Name.read id r = .ok n rest) : n.WellFormed := by
  obtain ⟨_, hname, _⟩ := decode_of_read h
  exact wellFormed_of_decode hname

/-- The names of questions that stand in a datagram keep the rules. -/
theorem wellFormed_of_questionsAt {d : Octets} {id : UInt16} {o stop : Nat} {asked : List Question}
    (h : QuestionsAt d id o asked stop) : ∀ q ∈ asked, q.name.WellFormed := by
  induction h with
  | nil => simp
  | cons hread _ ih =>
    obtain ⟨next, hname, _⟩ := Question.read_eq_ok_iff.mp hread
    exact List.forall_mem_cons.mpr ⟨wellFormed_of_decode hname, ih⟩

/-! ## Every way to make a name -/

/-- The ways in which names come to be: the root, and what a text, labels or octets give. -/
inductive Made : Name → Prop
  | root : Made root
  | dotted {s : String} {n : Name} : ofDotted? s = some n → Made n
  | labels {labels : List Label} {n : Name} : ofLabels? labels = some n → Made n
  | decode {d : Octets} {o next : Nat} {n : Name} : decode d o = .ok (n, next) → Made n
  | read {id : UInt16} {r rest : Reader} {n : Name} : Name.read id r = .ok n rest → Made n

theorem Made.wellFormed {n : Name} (h : n.Made) : n.WellFormed := by
  cases h with
  | root => exact wellFormed_root
  | dotted h => exact wellFormed_of_dotted h
  | labels h => exact (ofLabels?_eq_some_iff.mp h).1
  | decode h => exact wellFormed_of_decode h
  | read h => exact wellFormed_of_read h

end Name

/-! ## The names in answers -/

/-- The names in a record: its own, and the one that its data may consist of. -/
def Record.names (r : Record) : List Name :=
  match r.data with
  | .ns server => [r.name, server]
  | _ => [r.name]

namespace Portal

variable {address : IPv4} {q : Question} {record : Record}

theorem wellFormed_of_answer? (h : answer? address q = some record) (hq : q.name.WellFormed) :
    ∀ n ∈ record.names, n.WellFormed := by
  obtain ⟨⟨data, recordClass⟩, hdata, rfl⟩ := Option.map_eq_some_iff.mp h
  unfold data? at hdata
  split at hdata
  · cases hdata
    simpa [Record.names] using hq
  · obtain ⟨server, hserver, heq⟩ := Option.map_eq_some_iff.mp hdata
    cases heq
    simpa [Record.names] using ⟨hq, Name.wellFormed_of_dotted hserver⟩
  · cases hdata
    simpa [Record.names] using hq
  · cases hdata

theorem name_of_answer? (h : answer? address q = some record) : record.name = q.name := by
  unfold answer? at h
  obtain ⟨_, _, rfl⟩ := Option.map_eq_some_iff.mp h
  rfl

theorem exists_answer (address : IPv4)
    (h : q.qtype = .record .a ∨ q.qtype = .record .ns ∨ q.qtype = .record .uri) :
    ∃ record, answer? address q = some record := by
  unfold answer?
  rcases h with h | h | h
  · rw [h]
    exact ⟨_, rfl⟩
  · rw [h, data?_ns]
    exact ⟨_, rfl⟩
  · rw [h]
    exact ⟨_, rfl⟩

end Portal

/-! ## The law of made names -/

/-- However a name is made: its last label is empty and no other is, none is longer than 63 octets,
its length is that on the wire, 255 at most, and its labels make the same name again. So every
question that is decoded and asks for an address, a server or a link has an answer, and the names in
that keep the rules. -/
theorem every_name_that_is_made_keeps_the_rules :
    (∀ n : Name, n.Made →
      (∃ inner, n.labels = inner ++ [Label.empty] ∧ ∀ l ∈ inner, l.octets ≠ []) ∧
      (∀ l ∈ n.labels, l.octets.length ≤ 63) ∧
      n.len = n.labels.length + (n.labels.map Label.size).sum ∧ n.len ≤ 255 ∧
      Name.ofLabels? n.labels = some n) ∧
    ∀ address d o id q rest, Question.read id ⟨List.toArray d, o⟩ = .ok q rest →
      q.qtype = .record .a ∨ q.qtype = .record .ns ∨ q.qtype = .record .uri →
      ∃ record, Portal.answer? address q = some record ∧ record.name = q.name ∧
        ∀ n ∈ record.names, n.WellFormed := by
  constructor
  · intro n hmade
    have hn := hmade.wellFormed
    refine ⟨⟨n.labels.dropLast, hn.labels_eq, ?_⟩, ?_, ?_, hn.len_le, ?_⟩
    · intro l hl hempty
      exact hn.inner_nonempty l hl (Label.ext hempty)
    · intro l _
      exact l.length_le
    · rw [hn.len_eq, Name.wireLength_eq]
    · exact Name.ofLabels?_eq_some_iff.mpr ⟨hn, rfl⟩
  · intro address d o id q rest hread htype
    obtain ⟨next, hname, _⟩ := Question.read_eq_ok_iff.mp hread
    obtain ⟨record, hanswer⟩ := Portal.exists_answer address htype
    have hq : q.name.WellFormed := Name.wellFormed_of_decode hname
    exact ⟨record, hanswer, Portal.name_of_answer? hanswer,
      Portal.wellFormed_of_answer? hanswer hq⟩

/-- A name in two segments makes itself again, and the question for a server whose name is only a
pointer is answered with the server that the text names. -/
theorem a_name_in_two_segments_keeps_the_rules_and_so_does_a_server :
    (∃ n, Name.decode [1, 97, 192, 5, 7, 1, 98, 0] 0 = .ok (n, 4) ∧
      n.labels = [⟨[97], by decide⟩, ⟨[98], by decide⟩, Label.empty] ∧ n.len = 5 ∧
      Name.ofLabels? n.labels = some n) ∧
    ∃ q rest server record,
      Question.read 7 ⟨#[0, 192, 0, 0, 2, 0, 1], 1⟩ = .ok q rest ∧ q.name = Name.root ∧
      q.qtype = .record .ns ∧ Name.ofDotted? "ns." = some server ∧
      Portal.answer? ⟨0⟩ q = some record ∧ record.name = Name.root ∧
      record.data = .ns server ∧ server.WellFormed := by
  obtain ⟨hmade, hanswers⟩ := every_name_that_is_made_keeps_the_rules
  have hdecode : Name.decode [1, 97, 192, 5, 7, 1, 98, 0] 0 =
      .ok (⟨[⟨[97], by decide⟩, ⟨[98], by decide⟩, Label.empty], 5⟩, 4) := by
    cbv
  obtain ⟨_, _, _, _, hagain⟩ := hmade _ (.decode hdecode)
  have hread : Question.read 7 ⟨#[0, 192, 0, 0, 2, 0, 1], 1⟩ =
      .ok ⟨Name.root, .record .ns, .record .internet⟩ ⟨#[0, 192, 0, 0, 2, 0, 1], 7⟩ := by
    cbv
  have hserver : Name.ofDotted? "ns." = some Portal.server := Portal.ofDotted?_serverText
  obtain ⟨record, hanswer, hname, hnames⟩ :=
    hanswers ⟨0⟩ [0, 192, 0, 0, 2, 0, 1] 1 7 _ _ hread (.inr (.inl rfl))
  have hdata : record.data = .ns Portal.server := by
    rw [Portal.answer?, Portal.data?_ns] at hanswer
    cases hanswer
    rfl
  have hmem : Portal.server ∈ record.names := by
    simp [Record.names, hdata]
  exact ⟨⟨_, hdecode, rfl, rfl, hagain⟩, _, _, _, record, hread, rfl, rfl, hserver, hanswer, hname,
    hdata, hnames _ hmem⟩

end PortalDns
