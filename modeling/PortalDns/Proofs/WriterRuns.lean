-- The laws of writers over whole runs: however much is written, taken back and
-- overwritten, a writer keeps to its limit, and a write adds to what is there
-- or leaves it as it is.
import PortalDns.Proofs.Writing

namespace PortalDns

/-! ## Actions on a writer -/

/-- What may be done with a writer. -/
inductive WriteAction where
  | octet (o : UInt8)
  | word (w : UInt16)
  | doubleWord (w : UInt32)
  | octets (os : Octets)
  | name (n : Name)
  | type (t : RecordType)
  | recordClass (c : RecordClass)
  | record (r : Record)
  | truncate (index : Nat)
  | overwrite (index : Nat) (value : UInt16)

namespace WriteAction

def perform : WriteAction → WriteM Unit
  | octet o => Writer.putOctet o
  | word w => Writer.putUInt16 w
  | doubleWord w => Writer.putUInt32 w
  | octets os => Writer.put os
  | name n => n.write
  | type t => Writer.putUInt16 t.code
  | recordClass c => Writer.putUInt16 c.code
  | record r => r.write
  | truncate index => modify (Writer.truncate index)
  | overwrite index value => Writer.overwrite index value

/-- Whether an action writes behind what is there. The others change what is there. -/
def isWrite : WriteAction → Bool
  | truncate _ => false
  | overwrite .. => false
  | _ => true

/-- Whether an action is one write. Names and records take several. -/
def isSingle : WriteAction → Bool
  | name _ => false
  | record _ => false
  | a => a.isWrite

end WriteAction

namespace Writer

/-- The writer that a step leaves, whatever comes of it. -/
def afterStep {α : Type} (step : WriteM α) (w : Writer) : Writer :=
  match step w with
  | .ok _ last => last
  | .error _ last => last

def after (w : Writer) (a : WriteAction) : Writer := afterStep a.perform w

/-- The writer after actions one by one, also after those that failed. -/
def afterAll (w : Writer) (actions : List WriteAction) : Writer := actions.foldl after w

end Writer

/-! ## Steps that keep to the limit -/

namespace Writer

/-- One writer may come of another: it has the same limit, and is over it no further than the other
was. -/
structure Within (w last : Writer) : Prop where
  limit_eq : last.limit = w.limit
  size_le : last.size ≤ max w.limit w.size

section Within

variable {w mid last : Writer}

theorem Within.refl (w : Writer) : w.Within w := ⟨rfl, Nat.le_max_right ..⟩

theorem Within.trans (h : w.Within mid) (h' : mid.Within last) : w.Within last where
  limit_eq := h'.limit_eq.trans h.limit_eq
  size_le := by
    have hmid := h.size_le
    have hlast := h'.size_le
    rw [h.limit_eq] at hlast
    omega

/-- Of a writer that is not over its limit comes none that is. -/
theorem Within.size_le_limit (h : w.Within last) (hw : w.size ≤ w.limit) : last.size ≤ w.limit := by
  have hsize := h.size_le
  omega

end Within

/-- Whatever comes of a step, the writer stays within its bounds. -/
def Bounded {α : Type} (step : WriteM α) : Prop := ∀ w : Writer, w.Within (w.afterStep step)

section Bounded

variable {α β : Type} {step : WriteM α} {next : α → WriteM β} {w last : Writer}

theorem afterStep_of_ok {a : α} (h : step w = .ok a last) : w.afterStep step = last := by
  rw [afterStep, h]

theorem afterStep_of_error {e : WriteError} (h : step w = .error e last) :
    w.afterStep step = last := by
  rw [afterStep, h]

theorem Bounded.of_unchanged (h : ∀ w, afterStep step w = w) : Bounded step := by
  intro w
  rw [h]
  exact Within.refl w

theorem bounded_pure (a : α) : Bounded (pure a) := .of_unchanged fun _ => rfl

theorem bounded_get : Bounded get := .of_unchanged fun _ => rfl

theorem bounded_ofExcept (x : Except WriteError α) : Bounded (ofExcept x) := by
  cases x <;> exact .of_unchanged fun _ => rfl

theorem Bounded.bind (h : Bounded step) (h' : ∀ a, Bounded (next a)) : Bounded (step >>= next) := by
  intro w
  have hstep := h w
  cases hs : step w with
  | ok a mid =>
    rw [afterStep_of_ok hs] at hstep
    have hnext := h' a mid
    have hboth : w.afterStep (step >>= next) = mid.afterStep (next a) := by
      rw [afterStep, bind_of_ok hs]
      rfl
    rw [hboth]
    exact hstep.trans hnext
  | error e mid =>
    rw [afterStep_of_error (bind_of_error hs)]
    rwa [afterStep_of_error hs] at hstep

theorem afterStep_put (os : Octets) (w : Writer) : w.afterStep (put os) =
    if w.size + os.length ≤ w.limit then { w with octets := w.octets ++ os } else w := by
  unfold afterStep put
  by_cases hfit : w.size + os.length ≤ w.limit <;> simp only [hfit, if_true, if_false]

theorem bounded_put (os : Octets) : Bounded (put os) := by
  intro w
  rw [afterStep_put]
  split
  · rename_i hfit
    refine ⟨rfl, ?_⟩
    rw [size, List.length_append]
    exact Nat.le_trans hfit (Nat.le_max_left ..)
  · exact Within.refl w

theorem afterStep_overwrite (index : Nat) (value : UInt16) (w : Writer) :
    w.afterStep (overwrite index value) =
      if index + 2 ≤ w.size then { w with octets := w.octets.setUInt16 index value } else w := by
  unfold afterStep overwrite
  by_cases hin : index + 2 ≤ w.size <;> simp only [hin, if_true, if_false]

theorem bounded_overwrite (index : Nat) (value : UInt16) : Bounded (overwrite index value) := by
  intro w
  rw [afterStep_overwrite]
  split
  · refine ⟨rfl, ?_⟩
    rw [size, Octets.length_setUInt16]
    exact Nat.le_max_right ..
  · exact Within.refl w

theorem bounded_truncate (index : Nat) : Bounded (modify (truncate index)) := by
  intro w
  refine ⟨rfl, ?_⟩
  show (w.octets.take index).length ≤ _
  rw [List.length_take]
  exact Nat.le_trans (Nat.min_le_right ..) (Nat.le_max_right ..)

end Bounded

end Writer

theorem Label.bounded_write (l : Label) : Writer.Bounded l.write :=
  (Writer.bounded_put _).bind fun _ => Writer.bounded_put _

theorem Name.bounded_write (n : Name) : Writer.Bounded n.write := by
  unfold Name.write
  induction n.labels with
  | nil => exact Writer.bounded_pure ()
  | cons l ls ih => exact l.bounded_write.bind fun _ => ih

theorem RecordData.bounded_write (data : RecordData) : Writer.Bounded data.write := by
  cases data with
  | a address => exact Writer.bounded_put _
  | ns server => exact server.bounded_write
  | uri priority weight target =>
    exact (Writer.bounded_put _).bind fun _ => (Writer.bounded_put _).bind fun _ =>
      Writer.bounded_put _

/-- Nothing in the writing of a record takes a writer out of its bounds: neither the octets that are
appended nor the length that is put in their midst. -/
theorem Record.bounded_write (r : Record) : Writer.Bounded r.write := by
  refine r.name.bounded_write.bind fun _ => ?_
  refine (Writer.bounded_put _).bind fun _ => ?_
  refine (Writer.bounded_put _).bind fun _ => ?_
  refine (Writer.bounded_put _).bind fun _ => ?_
  refine Writer.bounded_get.bind fun _ => ?_
  refine (Writer.bounded_put _).bind fun _ => ?_
  refine r.data.bounded_write.bind fun _ => ?_
  refine Writer.bounded_get.bind fun _ => ?_
  exact (Writer.bounded_ofExcept _).bind fun _ => Writer.bounded_overwrite _ _

theorem WriteAction.bounded_perform (a : WriteAction) : Writer.Bounded a.perform := by
  cases a with
  | octet | word | doubleWord | octets | type | recordClass => exact Writer.bounded_put _
  | name n => exact n.bounded_write
  | record r => exact r.bounded_write
  | truncate index => exact Writer.bounded_truncate index
  | overwrite index value => exact Writer.bounded_overwrite index value

/-- In the course of any actions, a writer stays within its bounds. -/
theorem Writer.within_afterAll (w : Writer) (actions : List WriteAction) :
    w.Within (w.afterAll actions) := by
  induction actions generalizing w with
  | nil => exact Within.refl w
  | cons a actions ih => exact (a.bounded_perform w).trans (ih (w.after a))

/-! ## What is there already -/

/-- A step that leaves what is there and some octets behind it, and fails, if it does, for want of
room or because a counter is too large. -/
def Adds (step : WriteM Unit) : Prop := ∀ w, ∃ part,
  step w = .ok () { w with octets := w.octets ++ part } ∨
    ∃ e, step w = .error e { w with octets := w.octets ++ part } ∧
      (e = .messageTooLong w.limit ∨ ∃ counter, e = .counterTooLarge counter 16)

theorem Appends.adds {step : WriteM Unit} {os : Octets} (h : Appends step os) : Adds step := by
  intro w
  by_cases hfit : w.size + os.length ≤ w.limit
  · exact ⟨os, .inl (h.fits w hfit)⟩
  · rcases h.overflows w (by omega) with ⟨_, hsame⟩ | ⟨part, _, hfail⟩
    · refine ⟨[], .inl ?_⟩
      rw [hsame, List.append_nil]
    · exact ⟨part, .inr ⟨_, hfail, .inl rfl⟩⟩

theorem Record.adds_write (r : Record) : Adds r.write := by
  intro w
  by_cases hroom : w.size + r.encode.length ≤ w.limit
  · by_cases hdata : r.data.encode.length < 0x10000
    · exact ⟨_, .inl (write_of_fits hdata hroom)⟩
    · exact ⟨_, .inr ⟨_, write_of_large_data (by omega) hroom, .inr ⟨_, rfl⟩⟩⟩
  · obtain ⟨part, _, hfail⟩ := write_of_overflow (r := r) (w := w) (by omega)
    exact ⟨part, .inr ⟨_, hfail, .inl rfl⟩⟩

/-- Every write adds to what is there, or leaves it as it is. -/
theorem WriteAction.adds_perform {a : WriteAction} (h : a.isWrite = true) : Adds a.perform := by
  cases a with
  | octet | word | doubleWord | octets | type | recordClass => exact (appends_put _).adds
  | name n => exact (appends_name n).adds
  | record r => exact r.adds_write
  | truncate | overwrite => cases h

theorem WriteAction.prefix_after {a : WriteAction} (h : a.isWrite = true) (w : Writer) :
    w.octets <+: (w.after a).octets := by
  obtain ⟨part, hok | ⟨e, herror, _⟩⟩ := adds_perform h w
  · rw [Writer.after, Writer.afterStep_of_ok hok]
    exact List.prefix_append _ _
  · rw [Writer.after, Writer.afterStep_of_error herror]
    exact List.prefix_append _ _

/-- No write overwrites what is not written. -/
theorem WriteAction.ne_notWritten {a : WriteAction} (h : a.isWrite = true) (w last : Writer)
    (index : Nat) : a.perform w ≠ .error (.notWritten index) last := by
  intro herror
  obtain ⟨part, hok | ⟨e, herror', rfl | ⟨counter, rfl⟩⟩⟩ := adds_perform h w
  · rw [hok] at herror
    cases herror
  · rw [herror'] at herror
    cases herror
  · rw [herror'] at herror
    cases herror

theorem Writer.put_eq_error {os : Octets} {w last : Writer} {e : WriteError}
    (h : put os w = .error e last) : e = .messageTooLong w.limit ∧ last = w := by
  unfold put at h
  split at h
  · cases h
  · cases h
    exact ⟨rfl, rfl⟩

/-- A single write that fails leaves nothing. -/
theorem WriteAction.eq_of_error {a : WriteAction} {w last : Writer} {e : WriteError}
    (h : a.isSingle = true) (herror : a.perform w = .error e last) :
    e = .messageTooLong w.limit ∧ last = w := by
  cases a with
  | octet | word | doubleWord | octets | type | recordClass => exact Writer.put_eq_error herror
  | name | record | truncate | overwrite => cases h

/-! ## What is overwritten -/

namespace Octets

variable {os : Octets} {i : Nat}

theorem getElem?_setUInt16_high (h : i + 2 ≤ os.length) (v : UInt16) :
    (os.setUInt16 i v)[i]? = some (UInt8.ofNat (v.toNat / 256)) := by
  rw [setUInt16, List.getElem?_set_ne (by omega), List.getElem?_set_self (by omega)]

theorem getElem?_setUInt16_low (h : i + 2 ≤ os.length) (v : UInt16) :
    (os.setUInt16 i v)[i + 1]? = some (UInt8.ofNat v.toNat) := by
  rw [setUInt16, List.getElem?_set_self]
  rw [List.length_set]
  omega

/-- The word stands where it was put. -/
theorem take_drop_setUInt16 (h : i + 2 ≤ os.length) (v : UInt16) :
    ((os.setUInt16 i v).drop i).take 2 = ofUInt16 v := by
  apply List.ext_getElem?
  intro k
  rw [List.getElem?_take, List.getElem?_drop]
  obtain rfl | rfl | hk : k = 0 ∨ k = 1 ∨ 2 ≤ k := by omega
  · exact getElem?_setUInt16_high h v
  · exact getElem?_setUInt16_low h v
  · rw [if_neg (by omega)]
    exact (List.getElem?_eq_none hk).symm

/-- No other octets are replaced. -/
theorem getElem?_setUInt16_ne {k : Nat} (v : UInt16) (hi : k ≠ i) (hi' : k ≠ i + 1) :
    (os.setUInt16 i v)[k]? = os[k]? := by
  rw [setUInt16, List.getElem?_set_ne hi'.symm, List.getElem?_set_ne hi.symm]

end Octets

namespace Writer

variable {w : Writer} {index : Nat} {value : UInt16}

theorem overwrite_of_written (h : index + 2 ≤ w.size) :
    overwrite index value w = .ok () { w with octets := w.octets.setUInt16 index value } := by
  rw [overwrite, if_pos h]

theorem overwrite_eq_error_iff :
    overwrite index value w = .error (.notWritten index) w ↔ w.size < index + 2 := by
  constructor
  · intro h
    by_contra hin
    rw [overwrite_of_written (by omega)] at h
    cases h
  · intro h
    rw [overwrite, if_neg (by omega)]

end Writer

/-! ## The law of writers -/

/-- Whatever is done with a writer, it gets over its limit no further than it was at the start, and
not at all once it is not over it. A single write that fails leaves nothing; every write, whatever
comes of it, leaves what was there before it. To truncate leaves a front part. To overwrite fails
exactly if there is no whole word to replace, and replaces that word alone, and the writing of a
record never fails like this. -/
theorem a_writer_keeps_to_its_limit_and_a_write_leaves_what_was_there :
    (∀ (w : Writer) (actions : List WriteAction),
      (w.afterAll actions).size ≤ max w.limit w.size ∧ (w.afterAll actions).limit = w.limit) ∧
    (∀ (w : Writer) (before more : List WriteAction), (w.afterAll before).size ≤ w.limit →
      (w.afterAll (before ++ more)).size ≤ w.limit) ∧
    (∀ (a : WriteAction) (w last : Writer) (e : WriteError), a.isSingle = true →
      a.perform w = .error e last → e = .messageTooLong w.limit ∧ last = w) ∧
    (∀ (a : WriteAction) (w : Writer), a.isWrite = true → w.octets <+: (w.after a).octets) ∧
    (∀ (w : Writer) (index : Nat),
      (w.after (.truncate index)).octets = w.octets.take index) ∧
    (∀ (w : Writer) (index : Nat) (value : UInt16),
      (Writer.overwrite index value w = .error (.notWritten index) w ↔ w.size < index + 2) ∧
      (index + 2 ≤ w.size → ∃ last, Writer.overwrite index value w = .ok () last ∧
        last.size = w.size ∧ (last.octets.drop index).take 2 = Octets.ofUInt16 value ∧
        ∀ k, k ≠ index → k ≠ index + 1 → last.octets[k]? = w.octets[k]?)) ∧
    ∀ (r : Record) (w last : Writer) (index : Nat), r.write w ≠ .error (.notWritten index) last := by
  refine ⟨?_, ?_, fun a w last e => WriteAction.eq_of_error,
    fun a w h => WriteAction.prefix_after h w, fun w index => rfl, ?_,
    fun r => WriteAction.ne_notWritten (a := .record r) rfl⟩
  · intro w actions
    have hwithin := w.within_afterAll actions
    exact ⟨hwithin.size_le, hwithin.limit_eq⟩
  · intro w before more hbefore
    have hlimit := (w.within_afterAll before).limit_eq
    have hmore := (w.afterAll before).within_afterAll more
    rw [Writer.afterAll, List.foldl_append, ← hlimit]
    exact hmore.size_le_limit (hlimit.symm ▸ hbefore)
  · intro w index value
    refine ⟨Writer.overwrite_eq_error_iff, ?_⟩
    intro hin
    refine ⟨_, Writer.overwrite_of_written hin, Octets.length_setUInt16 .., ?_, ?_⟩
    · exact Octets.take_drop_setUInt16 hin value
    · intro k
      exact Octets.getElem?_setUInt16_ne value

/-- A writer that starts over its limit is brought under it and stays there, a name that does not fit
leaves one of its labels, and a word is replaced only where it is written. -/
theorem a_writer_that_was_over_its_limit_stays_under_it :
    ((⟨[1, 2, 3, 4], 3⟩ : Writer).afterAll [.octet 9, .truncate 1]).size ≤ 3 ∧
      ((⟨[1, 2, 3, 4], 3⟩ : Writer).afterAll ([.octet 9, .truncate 1] ++
        [.name ⟨[⟨[97], by decide⟩, Label.empty], 3⟩, .word 7])).octets = [1, 1, 97] ∧
      ((⟨[1, 2, 3, 4], 3⟩ : Writer).afterAll ([.octet 9, .truncate 1] ++
        [.name ⟨[⟨[97], by decide⟩, Label.empty], 3⟩, .word 7])).size ≤ 3 ∧
      [1] <+: ((⟨[1], 3⟩ : Writer).after (.name ⟨[⟨[97], by decide⟩, Label.empty], 3⟩)).octets ∧
      (∃ e last, (WriteAction.word 7).perform ⟨[1, 1, 97], 3⟩ = .error e last ∧
        last = ⟨[1, 1, 97], 3⟩) ∧
      (∃ last, Writer.overwrite 1 0x0708 ⟨[1, 1, 97], 3⟩ = .ok () last ∧
        last.octets[0]? = some 1 ∧ (last.octets.drop 1).take 2 = [7, 8]) ∧
      Writer.overwrite 2 0x0708 ⟨[1, 1, 97], 3⟩ = .error (.notWritten 2) ⟨[1, 1, 97], 3⟩ := by
  obtain ⟨_, hlimit, hsingle, hprefix, _, hoverwrite, _⟩ :=
    a_writer_keeps_to_its_limit_and_a_write_leaves_what_was_there
  have hunder : ((⟨[1, 2, 3, 4], 3⟩ : Writer).afterAll [.octet 9, .truncate 1]).size ≤ 3 := by decide
  have hfail : (WriteAction.word 7).perform ⟨[1, 1, 97], 3⟩ =
      .error (.messageTooLong 3) ⟨[1, 1, 97], 3⟩ := rfl
  obtain ⟨last, hok, _, hword, hothers⟩ :=
    (hoverwrite ⟨[1, 1, 97], 3⟩ 1 0x0708).2 (by decide)
  exact ⟨hunder, rfl, hlimit _ _ _ hunder, hprefix _ ⟨[1], 3⟩ rfl,
    ⟨_, _, hfail, (hsingle _ _ _ _ rfl hfail).2⟩,
    ⟨last, hok, hothers 0 (by decide) (by decide), hword⟩,
    (hoverwrite ⟨[1, 1, 97], 3⟩ 2 0x0708).1.mpr (by decide)⟩

end PortalDns
