-- The laws of pushing: of the records that are pushed onto a reply, each that
-- fits behind those taken before it is appended, and each that does not fit
-- leaves no trace.
import PortalDns.Proofs.Queries
import PortalDns.Proofs.Replies

namespace PortalDns

namespace Reply

/-! ## Pushes one after the other -/

/-- Pushes a record, and goes on with what is left of the reply, whatever came of it. -/
def tryPush (record : Record) (reply : Reply) : Except WriteError Unit × Reply :=
  match push record reply with
  | .ok _ next => (.ok (), next)
  | .error e next => (.error e, next)

/-- Pushes records in order: what each push came to, and the reply after all of them. -/
def pushAll : List Record → Reply → List (Except WriteError Unit) × Reply
  | [], reply => ([], reply)
  | record :: more, reply =>
    let (result, next) := tryPush record reply
    let (results, last) := pushAll more next
    (result :: results, last)

/-- The records whose pushes succeeded. -/
def taken (records : List Record) (results : List (Except WriteError Unit)) : List Record :=
  ((records.zip results).filter (·.2.isOk)).map Prod.fst

section Runs

variable {q : Query} {record : Record} {records held more : List Record} {reply : Reply}

theorem pushAll_cons (record : Record) (more : List Record) (reply : Reply) :
    pushAll (record :: more) reply =
      ((tryPush record reply).1 :: (pushAll more (tryPush record reply).2).1,
        (pushAll more (tryPush record reply).2).2) := rfl

theorem pushAll_append (records more : List Record) (reply : Reply) :
    pushAll (records ++ more) reply =
      ((pushAll records reply).1 ++ (pushAll more (pushAll records reply).2).1,
        (pushAll more (pushAll records reply).2).2) := by
  induction records generalizing reply with
  | nil => rfl
  | cons record records ih => rw [List.cons_append, pushAll_cons, ih, pushAll_cons]; rfl

theorem length_pushAll (records : List Record) (reply : Reply) :
    (pushAll records reply).1.length = records.length := by
  induction records generalizing reply with
  | nil => rfl
  | cons record records ih => rw [pushAll_cons, List.length_cons, ih, List.length_cons]

theorem taken_cons (record : Record) (more : List Record) (result : Except WriteError Unit)
    (results : List (Except WriteError Unit)) :
    taken (record :: more) (result :: results) =
      (if result.isOk then [record] else []) ++ taken more results := by
  unfold taken
  rw [List.zip_cons_cons, List.filter_cons]
  split <;> rfl

/-- As many records were taken as pushes succeeded. -/
theorem length_taken (records : List Record) (reply : Reply) :
    (taken records (pushAll records reply).1).length =
      (pushAll records reply).1.countP (·.isOk) := by
  induction records generalizing reply with
  | nil => rfl
  | cons record records ih =>
    rw [pushAll_cons, taken_cons, List.length_append, ih, List.countP_cons, Nat.add_comm]
    split <;> rfl

/-! ## What a reply holds -/

theorem tryPush_of_fits (h : sizeWith q (held ++ [record]) ≤ 512) :
    tryPush record (holding q held) = (.ok (), holding q (held ++ [record])) := by
  rw [tryPush, push_of_fits h]

theorem tryPush_of_overflow (h : sizeWith q held ≤ 512)
    (hover : 512 < sizeWith q (held ++ [record])) :
    tryPush record (holding q held) = (.error (.messageTooLong 512), holding q held) := by
  rw [tryPush, push_of_overflow h hover]

/-- After any pushes, a reply holds what it held before and the records that were taken. -/
theorem pushAll_holding (h : sizeWith q held ≤ 512) :
    (pushAll records (holding q held)).2 =
        holding q (held ++ taken records (pushAll records (holding q held)).1) ∧
      sizeWith q (held ++ taken records (pushAll records (holding q held)).1) ≤ 512 := by
  induction records generalizing held with
  | nil => simpa [pushAll, taken] using h
  | cons record records ih =>
    rw [pushAll_cons, taken_cons]
    by_cases hfit : sizeWith q (held ++ [record]) ≤ 512
    · rw [tryPush_of_fits hfit]
      have hrest := ih hfit
      rw [List.append_assoc] at hrest
      exact hrest
    · rw [tryPush_of_overflow h (by omega)]
      exact ih h

theorem pushAll_ofQuery (hquery : q.octets.length ≤ 512) (records : List Record) :
    (pushAll records (ofQuery q)).2 =
        holding q (taken records (pushAll records (ofQuery q)).1) ∧
      sizeWith q (taken records (pushAll records (ofQuery q)).1) ≤ 512 := by
  have hnone : sizeWith q [] ≤ 512 := by simpa [sizeWith] using hquery
  rw [← holding_nil]
  exact pushAll_holding hnone

theorem octets_holding_snoc (q : Query) (held : List Record) (record : Record) :
    (holding q (held ++ [record])).writer.octets =
      (holding q held).writer.octets ++ record.encode := by
  simp [holding]

/-- What each push of a run comes to, and what the run comes to without it if it is refused. -/
theorem pushAll_split (hquery : q.octets.length ≤ 512) (before after : List Record)
    (record : Record) :
    ∃ earlier reply later last, pushAll before (ofQuery q) = (earlier, reply) ∧
      (reply.writer.size + record.encode.length ≤ 512 →
        (∃ next, push record reply = .ok () next ∧
          next.writer.octets = reply.writer.octets ++ record.encode ∧
          next.answers.toNat = reply.answers.toNat + 1 ∧ pushAll after next = (later, last)) ∧
        pushAll (before ++ record :: after) (ofQuery q) = (earlier ++ .ok () :: later, last)) ∧
      (512 < reply.writer.size + record.encode.length →
        push record reply = .error (.messageTooLong 512) reply ∧
        pushAll (before ++ record :: after) (ofQuery q) =
          (earlier ++ .error (.messageTooLong 512) :: later, last) ∧
        pushAll (before ++ after) (ofQuery q) = (earlier ++ later, last)) := by
  obtain ⟨hreply, hsize⟩ := pushAll_ofQuery hquery before
  generalize taken before (pushAll before (ofQuery q)).1 = held at hreply hsize
  refine ⟨(pushAll before (ofQuery q)).1, holding q held,
    (pushAll after (tryPush record (holding q held)).2).1,
    (pushAll after (tryPush record (holding q held)).2).2, by rw [← hreply], ?_⟩
  rw [size_holding, ← sizeWith_snoc, pushAll_append, pushAll_append, hreply, pushAll_cons]
  constructor
  · intro hfit
    rw [tryPush_of_fits hfit]
    refine ⟨⟨_, push_of_fits hfit, octets_holding_snoc q held record, ?_, rfl⟩, rfl⟩
    rw [toNat_answers hfit, toNat_answers hsize, List.length_append, List.length_singleton]
  · intro hover
    refine ⟨push_of_overflow hsize hover, ?_⟩
    rw [tryPush_of_overflow hsize hover]
    exact ⟨rfl, rfl⟩

end Runs

/-! ## The law of pushing -/

/-- Whatever records are pushed onto a reply: a push succeeds exactly if the record fits behind what
is there, and then appends it and counts it; otherwise it leaves the reply as it was, and the run
goes on as if it had not been made. In the end the reply is the query, marked as a response and with
the number of records in it, and then those records in order. -/
theorem a_reply_takes_what_fits_and_forgets_what_does_not {d : Octets} {q : Query}
    (h : Query.parse d = .ok q) (records : List Record) :
    (∀ before record after, records = before ++ record :: after →
      ∃ earlier reply later last, pushAll before (ofQuery q) = (earlier, reply) ∧
        (reply.writer.size + record.encode.length ≤ 512 →
          (∃ next, push record reply = .ok () next ∧
            next.writer.octets = reply.writer.octets ++ record.encode ∧
            next.answers.toNat = reply.answers.toNat + 1 ∧ pushAll after next = (later, last)) ∧
          pushAll records (ofQuery q) = (earlier ++ .ok () :: later, last)) ∧
        (512 < reply.writer.size + record.encode.length →
          push record reply = .error (.messageTooLong 512) reply ∧
          pushAll records (ofQuery q) = (earlier ++ .error (.messageTooLong 512) :: later, last) ∧
          pushAll (before ++ after) (ofQuery q) = (earlier ++ later, last))) ∧
    ∃ results reply, pushAll records (ofQuery q) = (results, reply) ∧
      results.length = records.length ∧ reply.answers.toNat = results.countP (·.isOk) ∧
      reply.finish = Octets.setUInt16 (d.modify 2 (· ||| 0x80)) 6 reply.answers ++
        (taken records results).flatMap Record.encode ∧
      reply.finish.length ≤ 512 ∧
      ∀ i < d.length, i ≠ 2 → i ≠ 6 → i ≠ 7 → reply.finish[i]? = d[i]? := by
  obtain ⟨hquery, rfl⟩ := Query.isQuery_of_parse h
  have hlen := hquery.length_ge
  constructor
  · rintro before record after rfl
    exact pushAll_split hquery.length_le before after record
  · obtain ⟨hreply, hsize⟩ := pushAll_ofQuery (q := Query.ofOctets d) hquery.length_le records
    have hheader : 8 ≤ (Query.ofOctets d).octets.length := Nat.le_trans (by omega) hlen
    have hfinish := congrArg finish hreply
    rw [finish_holding hheader] at hfinish
    refine ⟨_, _, rfl, length_pushAll records _, ?_, ?_, ?_, ?_⟩
    · rw [hreply, toNat_answers hsize, length_taken]
    · rw [hfinish, hreply]
      rfl
    · rw [hfinish, List.length_append, length_echo]
      exact hsize
    · intro i hi h2 h6 h7
      rw [hfinish, List.getElem?_append_left (by rwa [length_echo])]
      exact echo_same h2 h6 h7

/-- A record whose name is over all bounds is refused, and the next one, whose name has no end, is
taken as if it were the first. -/
theorem a_record_is_taken_after_one_that_is_refused :
    ∃ q last, Query.parse [0, 1, 0, 0, 0, 0, 0, 0, 0, 0, 0, 0] = .ok q ∧
      pushAll [
        ⟨⟨List.replicate 9 ⟨List.replicate 63 97, by decide⟩, 0⟩, .a ⟨0⟩, .internet, 0⟩,
        ⟨⟨[⟨[97], by decide⟩], 9⟩, .a ⟨0⟩, .internet, 0⟩] (ofQuery q) =
          ([.error (.messageTooLong 512), .ok ()], last) ∧
      last.finish = [0, 1, 128, 0, 0, 0, 0, 1, 0, 0, 0, 0] ++
        [1, 97, 0, 1, 0, 1, 0, 0, 0, 0, 0, 4, 0, 0, 0, 0] := by
  have hparse : Query.parse [0, 1, 0, 0, 0, 0, 0, 0, 0, 0, 0, 0] =
      .ok (Query.ofOctets [0, 1, 0, 0, 0, 0, 0, 0, 0, 0, 0, 0]) := by
    cbv
  obtain ⟨hpushes, _⟩ := a_reply_takes_what_fits_and_forgets_what_does_not hparse [
    ⟨⟨List.replicate 9 ⟨List.replicate 63 97, by decide⟩, 0⟩, .a ⟨0⟩, .internet, 0⟩,
    ⟨⟨[⟨[97], by decide⟩], 9⟩, .a ⟨0⟩, .internet, 0⟩]
  obtain ⟨earlier, reply, later, last, hbefore, _, hrefused⟩ := hpushes [] _ _ rfl
  cases hbefore
  obtain ⟨_, hall, hwithout⟩ := hrefused (by decide +kernel)
  have hsecond : pushAll [⟨⟨[⟨[97], by decide⟩], 9⟩, .a ⟨0⟩, .internet, 0⟩]
      (ofQuery (Query.ofOctets [0, 1, 0, 0, 0, 0, 0, 0, 0, 0, 0, 0])) =
        ([.ok ()], ⟨⟨[0, 1, 128, 0, 0, 0, 0, 0, 0, 0, 0, 0] ++
          [1, 97, 0, 1, 0, 1, 0, 0, 0, 0, 0, 4, 0, 0, 0, 0], 512⟩, 1⟩) := by
    cbv
  rw [List.nil_append, hsecond] at hwithout
  cases hwithout
  exact ⟨_, _, hparse, hall, rfl⟩

end Reply

end PortalDns
