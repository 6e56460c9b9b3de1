import Mathlib.Data.List.Basic
import Mathlib.Data.Nat.ModEq
import Mathlib.Tactic.Common

/-! Sums of 16-bit words in which the carries are added again. They do not depend on the
order of the bytes within the words. -/

namespace onesComplement

/-- The sum of the words, low byte first. An odd last byte is a word of its own. -/
def wordSum : List UInt8 → Nat
  | [] => 0
  | [a] => a.toNat
  | a :: b :: rest => a.toNat + 256 * b.toNat + wordSum rest

/-- The sum of the words, high byte first. An odd last byte is followed by a zero. -/
def networkSum : List UInt8 → Nat
  | [] => 0
  | [a] => 256 * a.toNat
  | a :: b :: rest => 256 * a.toNat + b.toNat + networkSum rest

/-- Adds the carries until there are none. -/
def fold (sum : Nat) : Nat :=
  if sum < 65536 then sum else fold (sum % 65536 + sum / 65536)
termination_by sum
decreasing_by omega

/-- What a receiver asks for: all bits of the sum are set. -/
def Valid (bytes : List UInt8) : Prop := fold (networkSum bytes) = 65535

/-- A sum is folded to its residue. Only nothing is folded to zero. -/
theorem fold_eq (sum : Nat) : fold sum = if sum = 0 then 0 else (sum - 1) % 65535 + 1 := by
  induction sum using fold.induct with
  | case1 sum hlt =>
    rw [fold, if_pos hlt]
    split <;> omega
  | case2 sum hlt ih =>
    rw [fold, if_neg hlt, ih, if_neg (by omega), if_neg (by omega)]
    have hsum : sum = 65536 * (sum / 65536) + sum % 65536 := by omega
    omega

theorem fold_lt (sum : Nat) : fold sum < 65536 := by
  rw [fold_eq]
  split <;> omega

theorem fold_eq_ones_iff {sum : Nat} : fold sum = 65535 ↔ sum ≠ 0 ∧ sum % 65535 = 0 := by
  rw [fold_eq]
  split <;> omega

theorem fold_add_fold (a b : Nat) : fold (fold a + b) = fold (a + b) := by
  rw [fold_eq (fold a + b), fold_eq (a + b), fold_eq a]
  by_cases ha : a = 0
  · rw [if_pos ha, ha]
  · rw [if_neg ha, if_neg (by omega), if_neg (by omega)]
    omega

/-- The complement of a sum fills it up. -/
theorem fold_add_complement (sum : Nat) : fold (sum + (65535 - fold sum)) = 65535 := by
  rw [fold_eq_ones_iff, fold_eq]
  split <;> omega

@[simp] theorem wordSum_append {first : List UInt8} (heven : first.length % 2 = 0) (second : List UInt8) :
    wordSum (first ++ second) = wordSum first + wordSum second := by
  induction first using wordSum.induct with
  | case1 => simp [wordSum]
  | case2 a => simp at heven
  | case3 a b rest ih =>
    have hrest : rest.length % 2 = 0 := by
      rw [List.length_cons, List.length_cons] at heven
      omega
    rw [List.cons_append, List.cons_append, wordSum, wordSum, ih hrest]
    omega

/-- To swap the bytes of every word is to multiply with 256. -/
theorem networkSum_modEq (bytes : List UInt8) : networkSum bytes ≡ 256 * wordSum bytes [MOD 65535] := by
  induction bytes using wordSum.induct with
  | case1 => rfl
  | case2 a => rfl
  | case3 a b rest ih =>
    rw [networkSum, wordSum]
    unfold Nat.ModEq at ih ⊢
    omega

theorem wordSum_eq_zero_iff {bytes : List UInt8} : wordSum bytes = 0 ↔ networkSum bytes = 0 := by
  induction bytes using wordSum.induct with
  | case1 => rfl
  | case2 a =>
    rw [wordSum, networkSum]
    omega
  | case3 a b rest ih =>
    rw [networkSum, wordSum]
    omega

/-- The sum of a receiver is all ones in either order of the bytes. -/
theorem valid_iff (bytes : List UInt8) : Valid bytes ↔ fold (wordSum bytes) = 65535 := by
  have hmod := networkSum_modEq bytes
  unfold Nat.ModEq at hmod
  have hzero : wordSum bytes = 0 ↔ networkSum bytes = 0 := wordSum_eq_zero_iff
  rw [Valid, fold_eq_ones_iff, fold_eq_ones_iff]
  constructor
  · rintro ⟨hne, hnetwork⟩
    refine ⟨fun hword => hne (hzero.mp hword), ?_⟩
    omega
  · rintro ⟨hne, hword⟩
    refine ⟨fun hnetwork => hne (hzero.mpr hnetwork), ?_⟩
    omega

theorem wordSum_le (bytes : List UInt8) : wordSum bytes ≤ 65535 * ((bytes.length + 1) / 2) := by
  induction bytes using wordSum.induct with
  | case1 => exact Nat.zero_le _
  | case2 a =>
    have ha := a.toNat_lt
    rw [wordSum, List.length_singleton]
    omega
  | case3 a b rest ih =>
    have ha := a.toNat_lt
    have hb := b.toNat_lt
    rw [wordSum, List.length_cons, List.length_cons]
    omega

end onesComplement
