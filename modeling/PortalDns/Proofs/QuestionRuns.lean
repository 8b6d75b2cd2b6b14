-- The laws of taking questions one at a time: every call reads on from where
-- the one before it ended, the first question that cannot be read is the last
-- item, and no more items come than the bound before a call says.
import PortalDns.Proofs.Queries
import PortalDns.Proofs.NameChains

namespace PortalDns

namespace Questions

/-! ## Calls one after the other -/

/-- One call for the next item: what comes of it, if anything does, and the questions after it. A
call that nothing comes of leaves the questions as they are. -/
def call (qs : Questions) : Option (Except DecodeError Question) × Questions :=
  match qs.next? with
  | none => (none, qs)
  | some (item, rest) => (some item, rest)

/-- The questions after so many calls. -/
def after (qs : Questions) : Nat → Questions
  | 0 => qs
  | n + 1 => qs.call.2.after n

section Calls

variable {qs rest : Questions} {item : Except DecodeError Question}

theorem call_of_none (h : qs.next? = none) : qs.call = (none, qs) := by
  rw [call, h]

theorem call_of_some (h : qs.next? = some (item, rest)) : qs.call = (some item, rest) := by
  rw [call, h]

theorem after_of_none (h : qs.next? = none) (i : Nat) : qs.after (i + 1) = qs.after i := by
  rw [after, call_of_none h]

theorem after_of_some (h : qs.next? = some (item, rest)) (i : Nat) :
    qs.after (i + 1) = rest.after i := by
  rw [after, call_of_some h]

/-- A call takes the first of what is to come. -/
theorem call_toList (qs : Questions) :
    qs.call.1 = qs.toList.head? ∧ qs.call.2.toList = qs.toList.tail := by
  cases hnext : qs.next? with
  | none => simp [call_of_none hnext, toList_of_none hnext]
  | some pair => simp [call_of_some hnext, toList_of_some hnext]

theorem toList_after (qs : Questions) (i : Nat) : (qs.after i).toList = qs.toList.drop i := by
  induction i generalizing qs with
  | zero => rfl
  | succ i ih => rw [after, ih, qs.call_toList.2, List.drop_tail]

/-- The calls give what is to come, in order, and then nothing any more. -/
theorem call_after (qs : Questions) (i : Nat) : (qs.after i).call.1 = qs.toList[i]? := by
  rw [(qs.after i).call_toList.1, toList_after, List.head?_drop]

/-! ## The bound on what is to come -/

theorem after_of_failed (h : qs.failed = true) (i : Nat) : (qs.after i).failed = true := by
  induction i with
  | zero => exact h
  | succ i ih =>
    rw [after_of_none (next?_of_failed h)]
    exact ih

theorem failed_of_error {e : DecodeError} (h : qs.next? = some (.error e, rest)) :
    rest.failed = true := by
  unfold next? at h
  grind

/-- No more items come than are promised, since every item takes one of these. -/
theorem length_toList_le (qs : Questions) : qs.toList.length ≤ qs.remaining := by
  induction hn : qs.remaining generalizing qs with
  | zero =>
    have hnext : qs.next? = none := by simp [next?, hn]
    simp [toList_of_none hnext]
  | succ n ih =>
    cases hnext : qs.next? with
    | none => simp [toList_of_none hnext]
    | some pair =>
      have hremaining := remaining_of_next? hnext
      rw [toList_of_some hnext, List.length_cons]
      exact Nat.succ_le_succ (ih pair.2 (by omega))

/-- No more items come than the bound says. -/
theorem length_toList_le_upperBound (qs : Questions) : qs.toList.length ≤ qs.upperBound := by
  unfold upperBound
  split
  · rename_i hfailed
    simp [toList_of_none (next?_of_failed hfailed)]
  · exact qs.length_toList_le

/-- Every item that was given was one of those that were promised. -/
theorem remaining_after (qs : Questions) (i : Nat) :
    (qs.after i).remaining + (qs.toList.take i).length = qs.remaining := by
  induction i generalizing qs with
  | zero => simp [after]
  | succ i ih =>
    cases hnext : qs.next? with
    | none =>
      have hsame := ih qs
      rw [after_of_none hnext]
      simpa [toList_of_none hnext] using hsame
    | some pair =>
      obtain ⟨item, rest⟩ := pair
      have hremaining := remaining_of_next? hnext
      have hrest := ih rest
      rw [after_of_some hnext, toList_of_some hnext, List.take_succ_cons, List.length_cons]
      omega

theorem failed_after {e : DecodeError} {i : Nat} (h : .error e ∈ qs.toList.take i) :
    (qs.after i).failed = true := by
  induction i generalizing qs with
  | zero => simp at h
  | succ i ih =>
    cases hnext : qs.next? with
    | none => simp [toList_of_none hnext] at h
    | some pair =>
      obtain ⟨item, rest⟩ := pair
      rw [toList_of_some hnext, List.take_succ_cons, List.mem_cons] at h
      rw [after_of_some hnext]
      rcases h with rfl | h
      · exact after_of_failed (failed_of_error hnext) i
      · exact ih h

/-- Nothing is to come any more once an error was given, or all that was promised. -/
theorem upperBound_after_eq_zero {i : Nat}
    (h : (∃ e, .error e ∈ qs.toList.take i) ∨ (qs.toList.take i).length = qs.remaining) :
    (qs.after i).upperBound = 0 := by
  unfold upperBound
  rcases h with ⟨e, he⟩ | hall
  · rw [if_pos (failed_after he)]
  · have hremaining := qs.remaining_after i
    split <;> omega

end Calls

end Questions

/-! ## Where the questions are read -/

section Offsets

variable {d : Octets} {id : UInt16} {o next stop : Nat} {q : Question} {asked : List Question}

/-- A question takes five octets at least, whatever its name points to: one for the name, and two
words. -/
theorem Question.le_of_read (h : Question.read id ⟨d.toArray, o⟩ = .ok q ⟨d.toArray, next⟩) :
    o + 5 ≤ next := by
  obtain ⟨_, hname, _, _, _, hrest⟩ := Question.read_eq_ok_iff.mp h
  cases hrest
  have hlt := Name.lt_of_decode hname
  omega

theorem QuestionsAt.length_le (h : QuestionsAt d id o asked stop) :
    o + 5 * asked.length ≤ stop := by
  induction h with
  | nil => simp
  | cons hread _ ih =>
    have hle := Question.le_of_read hread
    rw [List.length_cons]
    omega

namespace Questions

/-- As long as questions can be read, each call reads from where the one before it ended. -/
theorem exists_offsets {n : Nat} (h : QuestionsAt d id o asked stop) (hle : asked.length ≤ n) :
    ∃ offset : Nat → Nat, offset 0 = o ∧ offset asked.length = stop ∧
      (∀ i ≤ asked.length,
        (startingAt d id o n).after i = startingAt d id (offset i) (n - i)) ∧
      ∀ i (hi : i < asked.length), Question.read id ⟨d.toArray, offset i⟩ =
        .ok asked[i] ⟨d.toArray, offset (i + 1)⟩ := by
  induction h generalizing n with
  | @nil o =>
    refine ⟨fun _ => o, rfl, rfl, ?_, by simp⟩
    rintro i hi
    obtain rfl := Nat.le_zero.mp hi
    rfl
  | @cons o next stop q asked hread _ ih =>
    obtain ⟨m, rfl⟩ := Nat.exists_eq_add_one.mpr (Nat.zero_lt_of_lt hle)
    obtain ⟨offset, hstart, hstop, hstates, hreads⟩ := ih (Nat.le_of_succ_le_succ hle)
    refine ⟨fun | 0 => o | i + 1 => offset i, rfl, hstop, ?_, ?_⟩
    · rintro (_ | i) hi
      · rfl
      · rw [after_of_some (next?_of_ok m hread) i, Nat.add_sub_add_right]
        exact hstates i (Nat.le_of_succ_le_succ hi)
    · rintro (_ | i) hi
      · simpa [hstart] using hread
      · exact hreads i (by simpa using hi)

/-- What is to come are the questions that stand in the datagram, as many as are promised, or fewer
and the error of the first that cannot be read. -/
theorem exists_toList (d : Octets) (id : UInt16) (o n : Nat) :
    ∃ (asked : List Question) (stop : Nat) (last : List (Except DecodeError Question)),
      QuestionsAt d id o asked stop ∧
      (startingAt d id o n).toList = asked.map .ok ++ last ∧
      (last = [] ∧ asked.length = n ∨
        ∃ e rest, last = [.error e] ∧ asked.length < n ∧
          Question.read id ⟨d.toArray, stop⟩ = .error e rest) := by
  obtain ⟨asked, stop, hstand, _, hlen | ⟨hlen, ⟨e, rest, hread⟩ | ⟨_, _, _, hnever⟩⟩⟩ :=
    exists_questionsAt d id o (fun _ => True) trivial n
  · refine ⟨asked, stop, [], hstand, ?_, .inl ⟨rfl, hlen⟩⟩
    have hlist := toList_of_questionsAt 0 hstand
    rwa [Nat.add_zero, hlen, toList_zero] at hlist
  · refine ⟨asked, stop, [.error e], hstand, ?_, .inr ⟨e, rest, rfl, hlen, hread⟩⟩
    obtain ⟨m, rfl⟩ := Nat.exists_eq_add_of_lt hlen
    have hlist := toList_of_questionsAt (m + 1) hstand
    rwa [toList_of_error m hread, ← Nat.add_assoc] at hlist
  · exact absurd trivial hnever

end Questions

end Offsets

/-! ## The law of taking questions -/

/-- The calls for the questions of a query give as many questions as its header promises, or fewer
and one error, which names the query; and then nothing any more. Each question is read from where
the one before it ended, the first from behind the header, and takes five octets at least, so that
there are never more of them than fit. Before every call the bound is no lower than what is still to
come, and it is zero after an error and after all that was promised. -/
theorem questions_are_read_in_order_until_one_is_at_fault {d : Octets} {q : Query}
    (h : Query.parse d = .ok q) :
    ∃ (items last : List (Except DecodeError Question)) (asked : List Question),
      items = asked.map .ok ++ last ∧
      (∀ i, (q.questions.after i).call.1 = items[i]?) ∧
      (last = [] ∧ asked.length = q.header.questions.toNat ∨
        ∃ e, last = [.error e] ∧ asked.length < q.header.questions.toNat ∧ e.id? = some q.id) ∧
      (∃ offset : Nat → Nat, offset 0 = 12 ∧
        (∀ i ≤ asked.length, (q.questions.after i).reader = ⟨d.toArray, offset i⟩) ∧
        (∀ i (hi : i < asked.length), offset i + 5 ≤ offset (i + 1) ∧
          Question.read q.id ⟨d.toArray, offset i⟩ = .ok asked[i] ⟨d.toArray, offset (i + 1)⟩) ∧
        ∀ e, last = [.error e] →
          ∃ rest, Question.read q.id ⟨d.toArray, offset asked.length⟩ = .error e rest) ∧
      asked.length ≤ (d.length - 12) / 5 ∧
      ∀ i, (items.drop i).length ≤ (q.questions.after i).upperBound ∧
        ((∃ e, .error e ∈ items.take i) ∨ (items.take i).length = q.header.questions.toNat →
          (q.questions.after i).upperBound = 0) := by
  obtain ⟨hquery, rfl⟩ := Query.isQuery_of_parse h
  have hge := hquery.length_ge
  obtain ⟨asked, stop, last, hstand, hlist, hend⟩ :=
    Questions.exists_toList d (Octets.wordAt d 0) 12 (Octets.wordAt d 4).toNat
  rw [← Questions.questions_ofOctets] at hlist
  have hpromised : asked.length ≤ (Octets.wordAt d 4).toNat := by
    rcases hend with ⟨_, hall⟩ | ⟨_, _, _, hlt, _⟩ <;> omega
  obtain ⟨offset, hstart, hstop, hstates, hreads⟩ := Questions.exists_offsets hstand hpromised
  rw [← Questions.questions_ofOctets] at hstates
  refine ⟨_, last, asked, hlist, Questions.call_after _, ?_, ⟨offset, hstart, ?_, ?_, ?_⟩, ?_, ?_⟩
  · rcases hend with ⟨hnone, hall⟩ | ⟨e, rest, he, hlt, hread⟩
    · exact .inl ⟨hnone, hall⟩
    · exact .inr ⟨e, he, hlt, Question.id?_of_read_error hread⟩
  · intro i hi
    rw [hstates i hi]
    rfl
  · intro i hi
    exact ⟨Question.le_of_read (hreads i hi), hreads i hi⟩
  · rintro e rfl
    rcases hend with ⟨hnone, _⟩ | ⟨e', rest, he, _, hread⟩
    · cases hnone
    · cases he
      exact ⟨rest, hstop ▸ hread⟩
  · have hlen := hstand.length_le
    have hle := hstand.stop_le hge
    omega
  · intro i
    refine ⟨?_, Questions.upperBound_after_eq_zero⟩
    rw [← Questions.toList_after]
    exact Questions.length_toList_le_upperBound _

/-- A query that promises three questions and has one: that is read, the next one is too short, and
nothing comes after it. -/
theorem of_three_questions_one_is_read_and_one_is_at_fault :
    ∃ q : Query,
      Query.parse [0, 1, 1, 0, 0, 3, 0, 0, 0, 0, 0, 0, 1, 97, 0, 0, 1, 0, 1] = .ok q ∧
      (∀ i, (q.questions.after i).call.1 =
        [.ok ⟨⟨[⟨[97], by decide⟩, Label.empty], 3⟩, .record .a, .record .internet⟩,
          .error (.name .tooShort 1)][i]?) ∧
      ∀ i, 2 ≤ i → (q.questions.after i).upperBound = 0 := by
  have hparse : Query.parse [0, 1, 1, 0, 0, 3, 0, 0, 0, 0, 0, 0, 1, 97, 0, 0, 1, 0, 1] =
      .ok ⟨[0, 1, 1, 0, 0, 3, 0, 0, 0, 0, 0, 0, 1, 97, 0, 0, 1, 0, 1], ⟨1, false, 3, 0, 0, 0⟩⟩ := by
    cbv
  have hfirst : Question.read 1 ⟨#[0, 1, 1, 0, 0, 3, 0, 0, 0, 0, 0, 0, 1, 97, 0, 0, 1, 0, 1], 12⟩ =
      .ok ⟨⟨[⟨[97], by decide⟩, Label.empty], 3⟩, .record .a, .record .internet⟩
        ⟨#[0, 1, 1, 0, 0, 3, 0, 0, 0, 0, 0, 0, 1, 97, 0, 0, 1, 0, 1], 19⟩ := by
    cbv
  have hsecond : Question.read 1 ⟨#[0, 1, 1, 0, 0, 3, 0, 0, 0, 0, 0, 0, 1, 97, 0, 0, 1, 0, 1], 19⟩ =
      .error (.name .tooShort 1)
        ⟨#[0, 1, 1, 0, 0, 3, 0, 0, 0, 0, 0, 0, 1, 97, 0, 0, 1, 0, 1], 19⟩ := by
    cbv
  obtain ⟨_, last, asked, rfl, hcalls, hend, ⟨offset, hstart, _, hreads, hfault⟩, hfew, hbounds⟩ :=
    questions_are_read_in_order_until_one_is_at_fault hparse
  obtain ⟨e, rfl⟩ : ∃ e, last = [.error e] := by
    rcases hend with ⟨_, hall⟩ | ⟨e, he, _⟩
    · have hone : asked.length ≤ 1 := hfew
      have hthree : asked.length = 3 := hall
      omega
    · exact ⟨e, he⟩
  obtain ⟨_, hlast⟩ := hfault e rfl
  cases asked with
  | nil =>
    rw [List.length_nil, hstart] at hlast
    cases hfirst.symm.trans hlast
  | cons question more =>
    obtain rfl : more = [] := by
      rw [← List.length_eq_zero_iff]
      exact Nat.le_zero.mp (Nat.le_of_succ_le_succ hfew)
    obtain ⟨_, hread⟩ := hreads 0 (Nat.zero_lt_one)
    rw [hstart] at hread
    obtain ⟨hquestion, hnext⟩ :
        ⟨⟨[⟨[97], by decide⟩, Label.empty], 3⟩, .record .a, .record .internet⟩ = question ∧
          offset 1 = 19 := by
      injection hfirst.symm.trans hread with hquestion hrest
      injection hrest with _ hposition
      exact ⟨hquestion, hposition.symm⟩
    rw [List.length_singleton, hnext] at hlast
    obtain rfl : DecodeError.name .tooShort 1 = e := by
      injection hsecond.symm.trans hlast
    subst hquestion
    refine ⟨_, hparse, hcalls, ?_⟩
    intro i hi
    refine (hbounds i).2 (.inl ⟨.name .tooShort 1, ?_⟩)
    rw [List.take_of_length_le hi]
    exact List.mem_concat_self

end PortalDns
