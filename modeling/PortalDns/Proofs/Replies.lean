-- The laws of replies: a reply is the query with the records that were
-- accepted, in order, and a record is accepted exactly if it fits.
import PortalDns.Message.Reply
import PortalDns.Proofs.Writing

namespace PortalDns

namespace Reply

/-- The reply to a query that holds these records. -/
def holding (q : Query) (records : List Record) : Reply where
  writer := {
    octets := (ofQuery q).writer.octets ++ records.flatMap Record.encode
    limit := maxMessageLength }
  answers := UInt16.ofNat records.length

/-- A query as its reply echoes it: marked as a response, and with a number of answers. -/
def echo (d : Octets) (answers : UInt16) : Octets :=
  Octets.setUInt16 (d.modify 2 (· ||| 0x80)) 6 answers

section Echo

variable {d : Octets} {n : UInt16}

@[simp] theorem length_echo (d : Octets) (n : UInt16) : (echo d n).length = d.length := by
  simp [echo]

theorem echo_flags : (echo d n)[2]? = d[2]?.map (· ||| 0x80) := by
  simp [echo, Octets.setUInt16]

theorem echo_answers (h : 8 ≤ d.length) :
    (echo d n)[6]? = some (UInt8.ofNat (n.toNat / 256)) ∧
      (echo d n)[7]? = some (UInt8.ofNat n.toNat) := by
  have h6 : 6 < d.length := by omega
  have h7 : 7 < d.length := by omega
  constructor <;> simp [echo, Octets.setUInt16, h6, h7]

theorem echo_same {i : Nat} (h2 : i ≠ 2) (h6 : i ≠ 6) (h7 : i ≠ 7) : (echo d n)[i]? = d[i]? := by
  rw [echo, Octets.setUInt16, List.getElem?_set_ne h7.symm, List.getElem?_set_ne h6.symm,
    List.getElem?_modify_ne _ _ h2.symm]

/-- Behind the number of answers, an echo is the query. -/
theorem drop_echo (d : Octets) (n : UInt16) {i : Nat} (hi : 8 ≤ i) :
    (echo d n).drop i = d.drop i := by
  apply List.ext_getElem?
  intro k
  rw [List.getElem?_drop, List.getElem?_drop, echo_same (by omega) (by omega) (by omega)]

end Echo

variable {q : Query} {records : List Record} {record : Record}

theorem holding_nil (q : Query) : holding q [] = ofQuery q := by
  simp [holding, ofQuery]

/-- How many octets the reply with these records has. -/
def sizeWith (q : Query) (records : List Record) : Nat :=
  q.octets.length + (records.flatMap Record.encode).length

theorem size_holding (q : Query) (records : List Record) :
    (holding q records).writer.size = sizeWith q records := by
  simp [holding, ofQuery, Writer.size, sizeWith]

theorem sizeWith_snoc (q : Query) (records : List Record) (record : Record) :
    sizeWith q (records ++ [record]) = sizeWith q records + record.encode.length := by
  simp [sizeWith, Nat.add_assoc]

/-- No record takes fewer than ten octets. -/
theorem length_le_of_flatMap (records : List Record) :
    10 * records.length ≤ (records.flatMap Record.encode).length := by
  induction records with
  | nil => simp
  | cons r rs ih =>
    rw [List.flatMap_cons, List.length_append, List.length_cons, r.length_encode]
    omega

theorem toNat_answers (h : sizeWith q records ≤ 512) :
    (holding q records).answers.toNat = records.length := by
  have := length_le_of_flatMap records
  unfold sizeWith at h
  simp only [holding, UInt16.toNat_ofNat']
  omega

theorem counterField_answers (h : sizeWith q records ≤ 512) :
    counterField ((holding q records).answers.toNat + 1) =
      .ok (UInt16.ofNat (records.length + 1)) := by
  have := length_le_of_flatMap records
  rw [toNat_answers h, counterField]
  unfold sizeWith at h
  rw [if_pos (by omega)]

theorem push_of_fits (h : sizeWith q (records ++ [record]) ≤ 512) :
    push record (holding q records) = .ok () (holding q (records ++ [record])) := by
  rw [sizeWith_snoc] at h
  have hlength := record.length_encode
  have hwrite := Record.write_of_fits (r := record) (w := (holding q records).writer) (by omega)
    (by rw [size_holding]; exact h)
  simp only [push, counterField_answers (by omega : sizeWith q records ≤ 512), hwrite]
  simp [holding]

theorem push_of_overflow (h : sizeWith q records ≤ 512)
    (hover : 512 < sizeWith q (records ++ [record])) :
    push record (holding q records) = .error (.messageTooLong 512) (holding q records) := by
  rw [sizeWith_snoc] at hover
  obtain ⟨part, _, hwrite⟩ := Record.write_of_overflow (r := record)
    (w := (holding q records).writer) (by rw [size_holding]; exact hover)
  simp only [push, counterField_answers h, hwrite, Writer.truncate, Writer.size, List.take_left]
  rfl

/-- The finished datagram is the echo of the query, and then the records. -/
theorem finish_holding (h : 8 ≤ q.octets.length) :
    (holding q records).finish =
      echo q.octets (UInt16.ofNat records.length) ++ records.flatMap Record.encode := by
  simp only [finish, holding, ofQuery, echo, Octets.setUInt16, flagsIndex, answersIndex,
    Header.responseBit]
  rw [List.set_append_left _ _ (by simp; omega), List.set_append_left _ _ (by simp; omega)]

end Reply

end PortalDns
