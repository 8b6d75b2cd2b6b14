-- The laws of names in a datagram that goes on: octets that are appended change
-- no name that could be read before, and mend neither a name that is too long
-- nor a reserved label.
import PortalDns.Proofs.NameReads

namespace PortalDns

/-- The faults that stay, whatever is appended. The others come from where the datagram ends: a name
that runs past it, a pointer that leads past it, and a budget that is its length. -/
def NameFault.Lasts (fault : NameFault) : Prop := fault = .tooLong ∨ fault = .reservedLabel

/-! ## One item -/

section Items

variable {d r : Octets} {o size : Nat}

theorem getElem?_extend (hr : d <+: r) {x : UInt8} (h : d[o]? = some x) : r[o]? = some x := by
  obtain ⟨hlt, rfl⟩ := List.getElem?_eq_some_iff.mp h
  exact List.prefix_iff_getElem?.mp hr o hlt

/-- An item stands in every datagram that goes on behind it. -/
theorem ItemAt.extend {item : NameItem} (h : ItemAt d o item) (hr : d <+: r) : ItemAt r o item := by
  have hle := h.le_length
  apply h.copy hr.length_le
  intro i _ hlt
  obtain ⟨t, rfl⟩ := hr
  exact List.getElem?_append_left (by omega)

theorem FaultAt.extend_reserved (h : FaultAt d o .reservedLabel size) (hr : d <+: r) :
    FaultAt r o .reservedLabel size := by
  cases h with
  | reserved hx h1 h2 => exact .reserved (getElem?_extend hr hx) h1 h2

/-- What stands at an offset is not too long by itself. -/
theorem FaultAt.reserved_of_lasts {fault : NameFault} (h : FaultAt d o fault size)
    (hlasts : fault.Lasts) : fault = .reservedLabel := by
  unfold NameFault.Lasts at hlasts
  cases h <;> simp_all

end Items

namespace NameWalk

section Runs

variable {d r : Octets} {w : NameWalk}

/-! ## One turn -/

/-- A turn that the datagram allows, or that ends with a fault that lasts, is the same where the
datagram goes on: the budget only grows. -/
theorem step_extend (hr : d <+: r)
    (hlasts : ∀ fault, step d.toArray w = .error fault → fault.Lasts) :
    step r.toArray w = step d.toArray w := by
  have hle := hr.length_le
  rcases NameItem.itemAt_or_faultAt d w.cursor with ⟨item, hitem⟩ | ⟨fault, size, hfault⟩
  · have hitem' := hitem.extend hr
    cases item with
    | label l =>
      rw [step_label hitem] at hlasts ⊢
      rw [step_label hitem']
      by_cases hlen : Name.maxLength < (w.pass l).len
      · simp only [if_pos hlen]
      by_cases hroom : d.length < (w.pass l).consumed
      · simp [hlen, hroom, NameFault.Lasts] at hlasts
      · simp only [if_neg hlen, if_neg hroom]
        rw [if_neg (by omega)]
    | pointer target =>
      cases hitem with
      | pointer hp =>
        cases hitem' with
        | pointer hp' =>
          rw [step_pointer hp] at hlasts ⊢
          rw [step_pointer hp']
          by_cases hroom : d.length < (w.jump target).consumed
          · simp [hroom, NameFault.Lasts] at hlasts
          · simp only [if_neg hroom]
            rw [if_neg (by omega)]
    | final =>
      cases hitem with
      | final h0 => rw [step_final h0, step_final (getElem?_extend hr h0)]
  · have hstep := step_of_fault (NameItem.read_of_faultAt hfault)
    obtain rfl := hfault.reserved_of_lasts (hlasts _ hstep)
    rw [hstep]
    exact step_of_fault (NameItem.read_of_faultAt (hfault.extend_reserved hr))

/-! ## A whole walk -/

/-- A walk that ends with a name, or with a fault that lasts, takes the same way to the same end
where the datagram goes on. -/
theorem finish_extend (hr : d <+: r)
    (hlasts : ∀ fault, finish d.toArray w = .error fault → fault.Lasts) :
    finish r.toArray w = finish d.toArray w ∧ trail r.toArray w = trail d.toArray w := by
  induction w using NameWalk.finish.induct (d := d.toArray) with
  | case1 w fault hstep =>
    rw [finish_of_error hstep] at hlasts ⊢
    have hstep' : step r.toArray w = .error fault := by
      rw [step_extend hr (by simpa [hstep] using hlasts), hstep]
    exact ⟨finish_of_error hstep', by rw [trail_of_error hstep, trail_of_error hstep']⟩
  | case2 w n next hstep =>
    have hstep' : step r.toArray w = .ok (.done n next) := by
      rw [step_extend hr (by simp [hstep]), hstep]
    rw [finish_of_done hstep, finish_of_done hstep', trail_of_done hstep, trail_of_done hstep']
    exact ⟨rfl, rfl⟩
  | case3 w v hstep ih =>
    have hstep' : step r.toArray w = .ok (.next v) := by
      rw [step_extend hr (by simp [hstep]), hstep]
    rw [finish_of_next hstep] at hlasts ⊢
    rw [finish_of_next hstep', trail_of_next hstep, trail_of_next hstep']
    obtain ⟨hfinish, htrail⟩ := ih hlasts
    exact ⟨hfinish, congrArg (w :: ·) htrail⟩

end Runs

end NameWalk

theorem Name.decode_extend {d r : Octets} {o : Nat} (hr : d <+: r)
    (hlasts : ∀ fault, Name.decode d o = .error fault → fault.Lasts) :
    Name.decode r o = Name.decode d o ∧ Name.trail r o = Name.trail d o :=
  NameWalk.finish_extend hr hlasts

/-! ## The law of padding -/

/-- Whatever is appended to a datagram, a name that could be read in it is read as the same name,
along the same way and to the same offset behind it. A name that was too long is too long still, and
one that was refused for a reserved label is refused for that again. -/
theorem a_name_stays_what_it_was_whatever_is_appended (d x : Octets) (o : Nat) :
    (∀ n next, Name.decode d o = .ok (n, next) →
      Name.decode (d ++ x) o = .ok (n, next) ∧ Name.trail (d ++ x) o = Name.trail d o) ∧
    ∀ fault, fault = .tooLong ∨ fault = .reservedLabel → Name.decode d o = .error fault →
      Name.decode (d ++ x) o = .error fault ∧ Name.trail (d ++ x) o = Name.trail d o := by
  have hfront : d <+: d ++ x := List.prefix_append d x
  constructor
  · intro n next h
    obtain ⟨hsame, htrail⟩ := Name.decode_extend hfront (o := o) (by simp [h])
    exact ⟨hsame.trans h, htrail⟩
  · intro fault hlasts h
    obtain ⟨hsame, htrail⟩ := Name.decode_extend hfront (o := o) (by
      intro fault' h'
      rw [h, Except.error.injEq] at h'
      exact h' ▸ hlasts)
    exact ⟨hsame.trans h, htrail⟩

/-- A name, a reserved label and a name of five long labels, each with a pointer appended. A pointer
that leads outside is not among the faults that last: with the octet that it leads to, it is a
name. -/
theorem a_name_and_two_faults_stay_before_a_pointer :
    Name.decode ([1, 97, 192, 4, 0] ++ [192, 0]) 0 =
        .ok (⟨[⟨[97], by decide⟩, Label.empty], 3⟩, 4) ∧
      Name.decode ([1, 97, 64] ++ [192, 0]) 0 = .error .reservedLabel ∧
      Name.decode ((List.replicate 5 (63 :: List.replicate 63 120)).flatten ++ [192, 0]) 0 =
        .error .tooLong ∧
      Name.decode [192, 2] 0 = .error .pointerOutside ∧
      Name.decode ([192, 2] ++ [0]) 0 = .ok (Name.root, 2) := by
  obtain ⟨hread, _⟩ := a_name_stays_what_it_was_whatever_is_appended [1, 97, 192, 4, 0] [192, 0] 0
  obtain ⟨_, hreserved⟩ := a_name_stays_what_it_was_whatever_is_appended [1, 97, 64] [192, 0] 0
  obtain ⟨_, hlong⟩ := a_name_stays_what_it_was_whatever_is_appended
    (List.replicate 5 (63 :: List.replicate 63 120)).flatten [192, 0] 0
  have hname := hread ⟨[⟨[97], by decide⟩, Label.empty], 3⟩ 4 (by cbv)
  have hfault := hreserved .reservedLabel (.inr rfl) (by cbv)
  have hfault' := hlong .tooLong (.inl rfl) (by decide +kernel)
  exact ⟨hname.1, hfault.1, hfault'.1, by cbv, by cbv⟩

end PortalDns
