import Mathlib.Data.List.Basic
import Mathlib.Tactic.Common

namespace List

variable {α : Type}

/-- Puts elements over those from an index on. What would lie past the end is left
out. -/
def overwrite (data : List α) (index : Nat) (elements : List α) : List α :=
  (data.take index ++ (elements ++ data.drop (index + elements.length))).take data.length

@[simp] theorem length_overwrite (data : List α) (index : Nat) (elements : List α) :
    (data.overwrite index elements).length = data.length := by
  simp only [overwrite, length_take, length_append, length_drop]
  omega

theorem getElem?_overwrite_before {data : List α} {index i : Nat} {elements : List α} (hbefore : i < index) :
    (data.overwrite index elements)[i]? = data[i]? := by
  by_cases hi : i < data.length
  · rw [overwrite, getElem?_take_of_lt hi, getElem?_append_left (by rw [length_take]; omega),
      getElem?_take_of_lt hbefore]
  · rw [getElem?_eq_none (by simpa using hi), getElem?_eq_none (by simpa using hi)]

/-- What lies at the index or after it. -/
theorem getElem?_overwrite_add (data : List α) (index i : Nat) (elements : List α) :
    (data.overwrite index elements)[index + i]? =
      if index + i < data.length then (elements ++ data.drop (index + elements.length))[i]? else none := by
  by_cases hi : index + i < data.length
  · have hlength : (data.take index).length = index := by
      rw [length_take]
      omega
    rw [if_pos hi, overwrite, getElem?_take_of_lt hi, getElem?_append_right (by omega), hlength,
      Nat.add_sub_cancel_left]
  · rw [if_neg hi]
    exact getElem?_eq_none (by simpa using hi)

theorem getElem?_overwrite_after {data : List α} {index i : Nat} {elements : List α}
    (hafter : index + elements.length ≤ i) : (data.overwrite index elements)[i]? = data[i]? := by
  obtain ⟨k, rfl⟩ := Nat.exists_eq_add_of_le hafter
  rw [Nat.add_assoc, getElem?_overwrite_add, getElem?_append_right (Nat.le_add_right _ _),
    Nat.add_sub_cancel_left, getElem?_drop, Nat.add_assoc]
  by_cases hk : index + (elements.length + k) < data.length
  · rw [if_pos hk]
  · rw [if_neg hk, getElem?_eq_none (by omega)]

@[simp] theorem overwrite_nil (data : List α) (index : Nat) : data.overwrite index [] = data := by
  apply List.ext_getElem?
  intro i
  by_cases hbefore : i < index
  · exact getElem?_overwrite_before hbefore
  · exact getElem?_overwrite_after (Nat.le_of_not_lt hbefore)

theorem getElem?_overwrite {data : List α} {index i : Nat} {elements : List α} (hi : i < elements.length)
    (hfits : index + elements.length ≤ data.length) : (data.overwrite index elements)[index + i]? = elements[i]? := by
  rw [getElem?_overwrite_add, if_pos (by omega), getElem?_append_left hi]

/-- What is read from the index on. -/
theorem drop_overwrite {data : List α} {index : Nat} {elements : List α}
    (hfits : index + elements.length ≤ data.length) :
    (data.overwrite index elements).drop index = elements ++ data.drop (index + elements.length) := by
  apply List.ext_getElem?
  intro i
  rw [getElem?_drop, getElem?_append, getElem?_drop]
  by_cases hi : i < elements.length
  · rw [if_pos hi, getElem?_overwrite hi hfits]
  · rw [if_neg hi, getElem?_overwrite_after (by omega)]
    congr 1
    omega

/-- Elements that are put one behind the other are put at once. -/
theorem overwrite_overwrite {data : List α} {index : Nat} {first second : List α} :
    (data.overwrite index first).overwrite (index + first.length) second =
      data.overwrite index (first ++ second) := by
  apply List.ext_getElem?
  intro i
  by_cases hbefore : i < index
  · rw [getElem?_overwrite_before (by omega), getElem?_overwrite_before hbefore, getElem?_overwrite_before hbefore]
  · obtain ⟨k, rfl⟩ := Nat.exists_eq_add_of_le (Nat.le_of_not_lt hbefore)
    by_cases hfirst : k < first.length
    · rw [getElem?_overwrite_before (by omega), getElem?_overwrite_add, getElem?_overwrite_add, append_assoc,
        getElem?_append_left hfirst, getElem?_append_left hfirst]
    · obtain ⟨j, rfl⟩ := Nat.exists_eq_add_of_le (Nat.le_of_not_lt hfirst)
      by_cases hsecond : j < second.length
      · rw [← Nat.add_assoc, getElem?_overwrite_add, Nat.add_assoc, getElem?_overwrite_add, length_overwrite,
          append_assoc, getElem?_append_left hsecond, getElem?_append_right (Nat.le_add_right _ _),
          Nat.add_sub_cancel_left, getElem?_append_left hsecond]
      · rw [getElem?_overwrite_after (by omega), getElem?_overwrite_after (by omega),
          getElem?_overwrite_after (by rw [length_append]; omega)]

end List
