import Inspector.Base.SerialNumber
import Inspector.Base.Slice

open serial stream

namespace inspector.netguard.jni

/-- `compare_u32`. Both of two numbers that are `0x7FFFFFFF` apart compare above
the other. -/
def compare_u32 (s1 s2 : BitVec 32) : Int :=
  if s1 = s2 then 0
  else if s1 < s2 ∧ s2 - s1 < 0x7FFFFFFF ∨ s1 > s2 ∧ s1 - s2 > 0x7FFFFFFF then -1
  else 1

/-- `struct segment`. Its length is the number of its bytes. -/
structure Segment where
  seq : BitVec 32
  sent : Nat
  psh : Bool
  data : List UInt8
  deriving DecidableEq, Repr

/-- The search of `queue_tcp` for the place of a segment, and what it does there:
it inserts a new segment, or replaces the data of one with the same number but
another length. The bytes already sent of it stay counted. -/
def place (seq : BitVec 32) (psh : Bool) (data : List UInt8) : List Segment → List Segment
  | [] => [{ seq, sent := 0, psh, data }]
  | s :: rest =>
    if compare_u32 s.seq seq < 0 then s :: place seq psh data rest
    else if compare_u32 s.seq seq > 0 then { seq, sent := 0, psh, data } :: s :: rest
    else if s.data.length = data.length then s :: rest
    else { s with data } :: rest

/-- `queue_tcp`. -/
def queue_tcp (remote_seq seq : BitVec 32) (psh : Bool) (data : List UInt8) (forward : List Segment) : List Segment :=
  if compare_u32 seq remote_seq < 0 then forward else place seq psh data forward

section compare

variable {start : BitVec 32} {i j : Int}

@[simp] theorem compare_u32_self (s : BitVec 32) : compare_u32 s s = 0 := if_pos rfl

theorem compare_u32_lt {s1 s2 : BitVec 32} (hpos : 0 < (s2 - s1).toNat) (hnear : (s2 - s1).toNat < 0x7FFFFFFF) :
    compare_u32 s1 s2 = -1 := by
  have hne : s1 ≠ s2 := by
    rintro rfl
    simp at hpos
  rw [compare_u32, if_neg hne, if_pos]
  have hmax : (0x7FFFFFFF : BitVec 32).toNat = 0x7FFFFFFF := rfl
  simp only [BitVec.toNat_sub, BitVec.lt_def, gt_iff_lt, hmax] at *
  omega

theorem compare_u32_gt {s1 s2 : BitVec 32} (hpos : 0 < (s1 - s2).toNat) (hnear : (s1 - s2).toNat < 0x7FFFFFFF) :
    compare_u32 s1 s2 = 1 := by
  have hne : s1 ≠ s2 := by
    rintro rfl
    simp at hpos
  rw [compare_u32, if_neg hne, if_neg]
  have hmax : (0x7FFFFFFF : BitVec 32).toNat = 0x7FFFFFFF := rfl
  simp only [BitVec.toNat_sub, BitVec.lt_def, gt_iff_lt, hmax] at *
  omega

/-- The numbers of positions that are less than `0x7FFFFFFF` apart compare as the
positions do. -/
theorem compare_number_lt (hlt : i < j) (hnear : j < i + 0x7FFFFFFF) :
    compare_u32 (number start i) (number start j) = -1 := by
  have hdiff := toNat_number_sub start (Int.le_of_lt hlt) (by omega)
  exact compare_u32_lt (by omega) (by omega)

theorem compare_number_gt (hgt : j < i) (hnear : i < j + 0x7FFFFFFF) :
    compare_u32 (number start i) (number start j) = 1 := by
  have hdiff := toNat_number_sub start (Int.le_of_lt hgt) (by omega)
  exact compare_u32_gt (by omega) (by omega)

theorem compare_number_neg_iff (hbelow : i < j + 0x7FFFFFFF) (habove : j < i + 0x7FFFFFFF) :
    compare_u32 (number start i) (number start j) < 0 ↔ i < j := by
  rcases Int.lt_trichotomy i j with hlt | rfl | hgt
  · simp [compare_number_lt hlt habove, hlt]
  · simp
  · simp [compare_number_gt hgt hbelow, Int.not_lt.mpr (Int.le_of_lt hgt)]

theorem compare_number_pos_iff (hbelow : i < j + 0x7FFFFFFF) (habove : j < i + 0x7FFFFFFF) :
    compare_u32 (number start i) (number start j) > 0 ↔ j < i := by
  rcases Int.lt_trichotomy i j with hlt | rfl | hgt
  · simp [compare_number_lt hlt habove, Int.not_lt.mpr (Int.le_of_lt hlt)]
  · simp
  · simp [compare_number_gt hgt hbelow, hgt]

end compare

end inspector.netguard.jni
