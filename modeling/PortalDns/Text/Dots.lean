-- Texts whose parts are set apart by dots.

namespace PortalDns

/-- The stretches of a text before, between and after its dots. -/
def splitDots : List Char → List (List Char)
  | [] => [[]]
  | c :: cs => if c = '.' then [] :: splitDots cs else (splitDots cs).modifyHead (c :: ·)

/-- Parts with a dot between each two. -/
def joinDots (parts : List (List Char)) : List Char :=
  ['.'].intercalate parts

/-- A text without the dot at its end, if there is one. -/
def dropEndDot (cs : List Char) : List Char :=
  if cs.getLast? = some '.' then cs.dropLast else cs

theorem mem_of_mem_dropEndDot {cs : List Char} {c : Char} (h : c ∈ dropEndDot cs) : c ∈ cs := by
  unfold dropEndDot at h
  split at h
  · exact (List.dropLast_sublist cs).subset h
  · exact h

theorem joinDots_singleton (part : List Char) : joinDots [part] = part := by
  simp [joinDots]

theorem joinDots_cons (part next : List Char) (more : List (List Char)) :
    joinDots (part :: next :: more) = part ++ '.' :: joinDots (next :: more) := by
  simp [joinDots, List.intercalate]

/-- A text has one stretch more than it has dots. -/
theorem length_splitDots (cs : List Char) : (splitDots cs).length = cs.count '.' + 1 := by
  induction cs with
  | nil => rfl
  | cons c cs ih => by_cases h : c = '.' <;> simp [splitDots, h, ih]

theorem splitDots_ne_nil (cs : List Char) : splitDots cs ≠ [] := by
  rw [← List.length_pos_iff, length_splitDots]
  exact Nat.succ_pos _

theorem dot_notMem_of_mem_splitDots {cs chunk : List Char} (h : chunk ∈ splitDots cs) :
    '.' ∉ chunk := by
  induction cs generalizing chunk with
  | nil => simp_all [splitDots]
  | cons c cs ih =>
    by_cases hc : c = '.'
    · grind [splitDots]
    · rw [splitDots, if_neg hc] at h
      cases hs : splitDots cs with
      | nil => simp_all
      | cons first rest => grind [List.modifyHead]

theorem joinDots_splitDots (cs : List Char) : joinDots (splitDots cs) = cs := by
  induction cs with
  | nil => rfl
  | cons c cs ih =>
    cases hs : splitDots cs with
    | nil => exact absurd hs (splitDots_ne_nil cs)
    | cons first rest =>
      rw [hs] at ih
      by_cases hc : c = '.'
      · rw [splitDots, if_pos hc, hs, hc, joinDots_cons, ih]
        rfl
      · rw [splitDots, if_neg hc, hs, ← ih, List.modifyHead_cons]
        cases rest with
        | nil => rw [joinDots_singleton, joinDots_singleton]
        | cons next more => rw [joinDots_cons, joinDots_cons, List.cons_append]

end PortalDns
