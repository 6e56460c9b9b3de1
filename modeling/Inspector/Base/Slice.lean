import Mathlib.Data.List.Basic
import Mathlib.Tactic.Common

/-! The parts of a stream. -/

namespace stream

variable {α : Type} {whole data : List α} {offset n : Nat}

/-- The elements of the stream from an offset on. -/
def Slice (whole : List α) (offset : Nat) (data : List α) : Prop := data <+: whole.drop offset

theorem Slice.drop (hslice : Slice whole offset data) (n : Nat) : Slice whole (offset + n) (data.drop n) := by
  obtain ⟨more, hmore⟩ := hslice
  rcases Nat.le_total n data.length with hle | hle
  · refine ⟨more, ?_⟩
    rw [← List.drop_drop, ← hmore, List.drop_append_of_le_length hle]
  · rw [List.drop_eq_nil_of_le hle]
    exact List.nil_prefix

theorem Slice.take (hslice : Slice whole offset data) (n : Nat) : Slice whole offset (data.take n) :=
  (List.take_prefix n data).trans hslice

/-- What begins where the first elements end continues them. -/
theorem Slice.take_append (hslice : Slice whole offset data) :
    whole.take offset ++ data = whole.take (offset + data.length) := by
  rw [List.take_add, ← List.prefix_iff_eq_take.mp hslice]

end stream
