-- The laws of writing under a limit: what fits is appended as it is encoded,
-- and what does not fit leaves a front part of itself behind.
import PortalDns.Proofs.NameItems
import PortalDns.Record.Basic

namespace PortalDns

/-! ## Writes that append -/

/-- A write appends `os` where they fit. Where they do not, it fails and leaves a front part of
them, unless there is nothing to write. -/
structure Appends (write : WriteM Unit) (os : Octets) : Prop where
  fits (w : Writer) : w.size + os.length ≤ w.limit →
    write w = .ok () { w with octets := w.octets ++ os }
  overflows (w : Writer) : w.limit < w.size + os.length →
    (os = [] ∧ write w = .ok () w) ∨ ∃ part, part <+: os ∧
      write w = .error (.messageTooLong w.limit) { w with octets := w.octets ++ part }

theorem appends_put (os : Octets) : Appends (Writer.put os) os where
  fits w h := by simp [Writer.put, h]
  overflows w h := by
    refine .inr ⟨[], List.nil_prefix, ?_⟩
    simp [Writer.put, Nat.not_le.mpr h]

theorem appends_pure : Appends (pure ()) [] where
  fits w _ := by simp [pure, EStateM.pure]
  overflows w _ := .inl ⟨rfl, rfl⟩

/-- Two writes one after the other append both. -/
theorem Appends.bind {write next : WriteM Unit} {os more : Octets} (h : Appends write os)
    (h' : Appends next more) : Appends (write >>= fun _ => next) (os ++ more) where
  fits w hfit := by
    rw [List.length_append] at hfit
    have hfit' : (w.octets ++ os).length + more.length ≤ w.limit := by
      simp only [Writer.size, List.length_append] at hfit ⊢
      omega
    rw [bind_of_ok (h.fits w (by omega)), h'.fits { w with octets := w.octets ++ os } hfit']
    simp only [List.append_assoc]
  overflows w hover := by
    rw [List.length_append] at hover
    by_cases hfit : w.size + os.length ≤ w.limit
    · rw [bind_of_ok (h.fits w hfit)]
      have hover' : w.limit < (w.octets ++ os).length + more.length := by
        simp only [Writer.size, List.length_append] at hover ⊢
        omega
      rcases h'.overflows { w with octets := w.octets ++ os } hover' with
        ⟨rfl, _⟩ | ⟨part, hpart, hwrite⟩
      · simp only [List.length_nil] at hover
        omega
      · refine .inr ⟨os ++ part, (List.prefix_append_right_inj os).mpr hpart, ?_⟩
        rw [hwrite, List.append_assoc]
    · rcases h.overflows w (by omega) with ⟨rfl, hwrite⟩ | ⟨part, hpart, hwrite⟩
      · rw [bind_of_ok hwrite]
        exact h'.overflows w (by simpa using hover)
      · exact .inr ⟨part, hpart.trans (List.prefix_append _ _), bind_of_error hwrite⟩

theorem appends_label (l : Label) : Appends l.write l.encode :=
  (appends_put [UInt8.ofNat l.size]).bind (appends_put l.octets)

theorem appends_name (n : Name) : Appends n.write n.encode := by
  unfold Name.write Name.encode
  induction n.labels with
  | nil => exact appends_pure
  | cons l ls ih => exact (appends_label l).bind ih

theorem appends_data (data : RecordData) : Appends data.write data.encode := by
  cases data with
  | a address => exact appends_put _
  | ns server => exact appends_name server
  | uri priority weight target =>
    simp only [RecordData.write, RecordData.encode, List.append_assoc]
    exact (appends_put _).bind ((appends_put _).bind (appends_put _))

/-! ## Records -/

namespace Record

/-- The octets of a record before the length of its data. -/
def front (r : Record) : Octets :=
  r.name.encode ++ Octets.ofUInt16 r.data.type.code ++ Octets.ofUInt16 r.recordClass.code ++
    Octets.ofUInt32 r.ttl

theorem encodeWith_eq (r : Record) (length : UInt16) :
    r.encodeWith length = r.front ++ (Octets.ofUInt16 length ++ r.data.encode) := by
  simp [encodeWith, front]

theorem length_encode (r : Record) :
    r.encode.length = r.name.encode.length + 10 + r.data.encode.length := by
  simp only [encode, encodeWith, List.length_append, Octets.length_ofUInt16,
    Octets.length_ofUInt32]

/-- Both writes of the length of the data stand apart from all that is appended. -/
theorem write_eq (r : Record) : r.write = (do
    (do r.name.write
        Writer.putUInt16 r.data.type.code
        Writer.putUInt16 r.recordClass.code
        Writer.putUInt32 r.ttl)
    let mark := (← get).size
    (do Writer.putUInt16 0
        r.data.write)
    let length ← ofExcept (counterField ((← get).size - mark - 2))
    Writer.overwrite mark length) := by
  simp only [write, bind_assoc]

theorem appends_front (r : Record) : Appends (do
    r.name.write
    Writer.putUInt16 r.data.type.code
    Writer.putUInt16 r.recordClass.code
    Writer.putUInt32 r.ttl) r.front := by
  simp only [front, List.append_assoc]
  exact (appends_name _).bind ((appends_put _).bind ((appends_put _).bind (appends_put _)))

theorem appends_back (r : Record) : Appends (do
    Writer.putUInt16 0
    r.data.write) (Octets.ofUInt16 0 ++ r.data.encode) :=
  (appends_put _).bind (appends_data r.data)

theorem setUInt16_append (a b : Octets) (x w : UInt16) :
    (a ++ (Octets.ofUInt16 x ++ b)).setUInt16 a.length w = a ++ (Octets.ofUInt16 w ++ b) := by
  simp [Octets.setUInt16, Octets.ofUInt16]

/-- A record that there is room for is appended, with the length of its data if that is a word, and
else with zero in its place. -/
theorem write_of_room {r : Record} {w : Writer} (hroom : w.size + r.encode.length ≤ w.limit) :
    r.write w = match counterField r.data.encode.length with
      | .ok length => .ok () { w with octets := w.octets ++ r.encodeWith length }
      | .error e => .error e { w with octets := w.octets ++ r.encodeWith 0 } := by
  simp only [encodeWith_eq]
  rw [encode, encodeWith_eq] at hroom
  simp only [List.length_append, Octets.length_ofUInt16] at hroom
  have hfront : w.size + r.front.length ≤ w.limit := by omega
  have hback : (w.octets ++ r.front).length + (Octets.ofUInt16 0 ++ r.data.encode).length ≤
      w.limit := by
    simp only [Writer.size, List.length_append, Octets.length_ofUInt16] at hroom ⊢
    omega
  have hlength : (w.octets ++ r.front ++ (Octets.ofUInt16 0 ++ r.data.encode)).length -
      (w.octets ++ r.front).length - 2 = r.data.encode.length := by
    simp only [List.length_append, Octets.length_ofUInt16]
    omega
  have hmark : (w.octets ++ r.front).length + 2 ≤
      (w.octets ++ r.front ++ (Octets.ofUInt16 0 ++ r.data.encode)).length := by
    simp only [List.length_append, Octets.length_ofUInt16]
    omega
  rw [write_eq, bind_of_ok (r.appends_front.fits w hfront), get_bind,
    bind_of_ok (r.appends_back.fits { w with octets := w.octets ++ r.front } hback), get_bind]
  simp only [Writer.size, hlength]
  cases counterField r.data.encode.length with
  | error e => simp only [← List.append_assoc]; rfl
  | ok length =>
    show Writer.overwrite _ _ _ = _
    simp only [Writer.overwrite, Writer.size, if_pos hmark, setUInt16_append]
    simp only [List.append_assoc]

/-- A record that fits is appended as it is encoded. -/
theorem write_of_fits {r : Record} {w : Writer} (hdata : r.data.encode.length < 0x10000)
    (hfit : w.size + r.encode.length ≤ w.limit) :
    r.write w = .ok () { w with octets := w.octets ++ r.encode } := by
  rw [write_of_room hfit, counterField, if_pos hdata]
  rfl

/-- Data that is longer than a word counts is refused once all of it is written. -/
theorem write_of_large_data {r : Record} {w : Writer} (hdata : 0xFFFF < r.data.encode.length)
    (hfit : w.size + r.encode.length ≤ w.limit) :
    r.write w = .error (.counterTooLarge r.data.encode.length 16)
      { w with octets := w.octets ++ r.encodeWith 0 } := by
  rw [write_of_room hfit, counterField, if_neg (by omega)]

/-- A record that does not fit leaves a front part of itself, in which the length of its data is
still zero. -/
theorem write_of_overflow {r : Record} {w : Writer} (h : w.limit < w.size + r.encode.length) :
    ∃ part, part <+: r.encodeWith 0 ∧
      r.write w = .error (.messageTooLong w.limit) { w with octets := w.octets ++ part } := by
  rw [encode, encodeWith_eq] at h
  simp only [List.length_append, Octets.length_ofUInt16] at h
  rw [write_eq, encodeWith_eq]
  by_cases hfront : w.size + r.front.length ≤ w.limit
  · have hback : w.limit <
        (w.octets ++ r.front).length + (Octets.ofUInt16 0 ++ r.data.encode).length := by
      simp only [Writer.size, List.length_append, Octets.length_ofUInt16] at h ⊢
      omega
    rw [bind_of_ok (r.appends_front.fits w hfront), get_bind]
    rcases r.appends_back.overflows { w with octets := w.octets ++ r.front } hback with
      ⟨hnil, _⟩ | ⟨part, hpart, hwrite⟩
    · simp [Octets.ofUInt16] at hnil
    · refine ⟨r.front ++ part, (List.prefix_append_right_inj _).mpr hpart, ?_⟩
      rw [bind_of_error hwrite, List.append_assoc]
  · rcases r.appends_front.overflows w (by omega) with ⟨hnil, _⟩ | ⟨part, hpart, hwrite⟩
    · simp [front, Octets.ofUInt16] at hnil
    · exact ⟨part, hpart.trans (List.prefix_append _ _), bind_of_error hwrite⟩

/-! ## The law of writing a record -/

/-- Writing a record succeeds exactly if all of it fits and its data is no longer than a word
counts. It then stands behind what was there, with the length of its data; otherwise a front part of
it does, or all of it, in which that length is zero. What was there is there still. -/
theorem a_record_is_written_with_its_length_or_fails_without (r : Record) (w : Writer) :
    ((∃ last, r.write w = .ok () last) ↔
      w.size + r.encode.length ≤ w.limit ∧ r.data.encode.length ≤ 65535) ∧
    (w.size + r.encode.length ≤ w.limit → r.data.encode.length ≤ 65535 →
      ∃ length : UInt16, length.toNat = r.data.encode.length ∧
        r.write w = .ok () { w with octets := w.octets ++ r.encodeWith length }) ∧
    (w.limit < w.size + r.encode.length →
      ∃ part, part <+: r.encodeWith 0 ∧
        r.write w = .error (.messageTooLong w.limit) { w with octets := w.octets ++ part }) ∧
    (w.size + r.encode.length ≤ w.limit → 65535 < r.data.encode.length →
      r.write w = .error (.counterTooLarge r.data.encode.length 16)
        { w with octets := w.octets ++ r.encodeWith 0 }) := by
  have hfits (hroom : w.size + r.encode.length ≤ w.limit) (hdata : r.data.encode.length ≤ 65535) :
      r.write w = .ok () { w with octets := w.octets ++ r.encode } :=
    write_of_fits (by omega) hroom
  refine ⟨⟨?_, ?_⟩, ?_, write_of_overflow, fun hroom hdata => write_of_large_data hdata hroom⟩
  · rintro ⟨last, hwrite⟩
    by_cases hroom : w.size + r.encode.length ≤ w.limit
    · by_cases hdata : r.data.encode.length ≤ 65535
      · exact ⟨hroom, hdata⟩
      · rw [write_of_large_data (by omega) hroom] at hwrite
        cases hwrite
    · obtain ⟨part, _, hfail⟩ := write_of_overflow (r := r) (w := w) (by omega)
      rw [hfail] at hwrite
      cases hwrite
  · rintro ⟨hroom, hdata⟩
    exact ⟨_, hfits hroom hdata⟩
  · intro hroom hdata
    refine ⟨UInt16.ofNat r.data.encode.length, ?_, hfits hroom hdata⟩
    rw [UInt16.toNat_ofNat']
    omega

/-- An address where it just fits, the same one octet short of that, and a link that is one octet
longer than a word counts. -/
theorem an_address_fits_or_not_and_a_link_is_too_long :
    (⟨⟨[⟨[97], by decide⟩, Label.empty], 3⟩, .a ⟨0⟩, .internet, 0⟩ : Record).write ⟨[7], 18⟩ =
        .ok () ⟨[7] ++ [1, 97, 0, 0, 1, 0, 1, 0, 0, 0, 0, 0, 4, 0, 0, 0, 0], 18⟩ ∧
      (∃ part, part <+: [1, 97, 0, 0, 1, 0, 1, 0, 0, 0, 0, 0, 0, 0, 0, 0, 0] ∧
        (⟨⟨[⟨[97], by decide⟩, Label.empty], 3⟩, .a ⟨0⟩, .internet, 0⟩ : Record).write ⟨[7], 17⟩ =
          .error (.messageTooLong 17) ⟨[7] ++ part, 17⟩) ∧
      ∃ last, (⟨⟨[], 0⟩, .uri 0 0 (List.replicate 65532 0), .internet, 0⟩ : Record).write
        ⟨[], 70000⟩ = .error (.counterTooLarge 65536 16) last := by
  obtain ⟨_, hfits, _⟩ := a_record_is_written_with_its_length_or_fails_without
    ⟨⟨[⟨[97], by decide⟩, Label.empty], 3⟩, .a ⟨0⟩, .internet, 0⟩ ⟨[7], 18⟩
  obtain ⟨_, _, hover, _⟩ := a_record_is_written_with_its_length_or_fails_without
    ⟨⟨[⟨[97], by decide⟩, Label.empty], 3⟩, .a ⟨0⟩, .internet, 0⟩ ⟨[7], 17⟩
  obtain ⟨_, _, _, hlarge⟩ := a_record_is_written_with_its_length_or_fails_without
    ⟨⟨[], 0⟩, .uri 0 0 (List.replicate 65532 0), .internet, 0⟩ ⟨[], 70000⟩
  have hlength : (RecordData.uri 0 0 (List.replicate 65532 0)).encode.length = 65536 := by
    simp only [RecordData.encode, List.length_append, Octets.length_ofUInt16, List.length_replicate]
  rw [hlength] at hlarge
  have hroom (data : RecordData) (hdata : data.encode.length = 65536) :
      (⟨[], 70000⟩ : Writer).size + (⟨⟨[], 0⟩, data, .internet, 0⟩ : Record).encode.length ≤
        70000 := by
    rw [length_encode, hdata]
    simp [Writer.size, Name.encode]
  refine ⟨?_, hover (by decide), _, hlarge (hroom _ hlength) (by decide)⟩
  obtain ⟨length, hfour, hwrite⟩ := hfits (by decide) (by decide)
  obtain rfl : length = 4 := UInt16.toNat_inj.mp hfour
  rw [hwrite]
  rfl

end Record

end PortalDns
