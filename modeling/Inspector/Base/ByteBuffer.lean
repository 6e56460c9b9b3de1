import Mathlib.Data.List.Basic
import Mathlib.Tactic.Common

namespace nio

/-- A heap buffer with a position and a limit, as `java.nio` has it. The two
bounds are fields, so a buffer that points outside its array cannot be built. -/
structure ByteBuffer (α : Type) where
  array : List α
  position : Nat
  limit : Nat
  position_le_limit : position ≤ limit
  limit_le_capacity : limit ≤ array.length

namespace ByteBuffer

variable {α : Type}

def capacity (b : ByteBuffer α) : Nat := b.array.length

def remaining (b : ByteBuffer α) : Nat := b.limit - b.position

def hasRemaining (b : ByteBuffer α) : Bool := b.position < b.limit

/-- The elements between the position and the limit: what a reader still gets. -/
def toList (b : ByteBuffer α) : List α := (b.array.drop b.position).take b.remaining

/-- `ByteBuffer.allocate(size)`. -/
def allocate (size : Nat) (zero : α) : ByteBuffer α where
  array := List.replicate size zero
  position := 0
  limit := size
  position_le_limit := Nat.zero_le size
  limit_le_capacity := by simp

/-- `position(capacity)` on a buffer whose limit is its capacity. -/
def exhausted (b : ByteBuffer α) : ByteBuffer α where
  array := b.array
  position := b.array.length
  limit := b.array.length
  position_le_limit := Nat.le_refl _
  limit_le_capacity := Nat.le_refl _

def flip (b : ByteBuffer α) : ByteBuffer α where
  array := b.array
  position := 0
  limit := b.position
  position_le_limit := Nat.zero_le _
  limit_le_capacity := Nat.le_trans b.position_le_limit b.limit_le_capacity

/-- The elements between position and limit are as many as remain. -/
theorem length_toList (b : ByteBuffer α) : b.toList.length = b.remaining := by
  have hlimit := b.limit_le_capacity
  simp only [toList, remaining, List.length_take, List.length_drop]
  omega

/-- The remaining elements move to the front; the array behind them keeps its
old elements, and the whole rest of it becomes writable. -/
def compact (b : ByteBuffer α) : ByteBuffer α where
  array := b.toList ++ b.array.drop b.remaining
  position := b.remaining
  limit := b.array.length
  position_le_limit := by
    have hlimit := b.limit_le_capacity
    simp only [remaining]
    omega
  limit_le_capacity := by
    have hlimit := b.limit_le_capacity
    have hlength := b.length_toList
    simp only [List.length_append, List.length_drop, hlength, remaining]
    omega

/-- Writes elements known to fit at the position and moves past them. -/
def store (b : ByteBuffer α) (data : List α) (hfits : data.length ≤ b.remaining) : ByteBuffer α where
  array := b.array.take b.position ++ data ++ b.array.drop (b.position + data.length)
  position := b.position + data.length
  limit := b.limit
  position_le_limit := by
    have hposition := b.position_le_limit
    simp only [remaining] at hfits
    omega
  limit_le_capacity := by
    have hposition := b.position_le_limit
    have hlimit := b.limit_le_capacity
    simp only [remaining] at hfits
    simp only [List.length_append, List.length_take, List.length_drop]
    omega

/-- Relative bulk `put`: `none` is a `BufferOverflowException`. -/
def put (b : ByteBuffer α) (data : List α) : Option (ByteBuffer α) :=
  if hfits : data.length ≤ b.remaining then some (b.store data hfits) else none

/-- What a channel does when it reads into the buffer: it stores as many of the
offered elements as there is room for. -/
def fill (b : ByteBuffer α) (data : List α) : ByteBuffer α :=
  b.store (data.take b.remaining) (List.length_take_le _ _)

/-- Relative bulk `get` of at most `count` elements; the position moves past
what is returned. -/
def get (b : ByteBuffer α) (count : Nat) : List α × ByteBuffer α :=
  (b.toList.take count, {
    array := b.array
    position := b.position + min count b.remaining
    limit := b.limit
    position_le_limit := by
      have hposition := b.position_le_limit
      simp only [remaining]
      omega
    limit_le_capacity := b.limit_le_capacity })

/-- There are none exactly if nothing remains. -/
theorem toList_eq_nil_iff (b : ByteBuffer α) : b.toList = [] ↔ b.hasRemaining = false := by
  rw [← List.length_eq_zero_iff, length_toList]
  simp only [remaining, hasRemaining, decide_eq_false_iff_not]
  omega

/-- No more than the capacity can remain. -/
theorem remaining_le_capacity (b : ByteBuffer α) : b.remaining ≤ b.capacity := by
  have hlimit := b.limit_le_capacity
  simp only [remaining, capacity]
  omega

@[simp] theorem capacity_allocate (size : Nat) (zero : α) : (allocate size zero).capacity = size := by
  simp [capacity, allocate]

@[simp] theorem capacity_exhausted (b : ByteBuffer α) : b.exhausted.capacity = b.capacity := rfl

/-- A buffer that is read to its end has nothing left. -/
@[simp] theorem toList_exhausted (b : ByteBuffer α) : b.exhausted.toList = [] := by
  simp [toList, exhausted, remaining]

@[simp] theorem capacity_flip (b : ByteBuffer α) : b.flip.capacity = b.capacity := rfl

@[simp] theorem capacity_compact (b : ByteBuffer α) : b.compact.capacity = b.capacity := by
  have hlimit := b.limit_le_capacity
  have hlength := b.length_toList
  simp only [capacity, compact, List.length_append, List.length_drop, hlength, remaining]
  omega

/-- Compacting leaves room for all but the elements that were there. -/
theorem remaining_compact (b : ByteBuffer α) :
    b.compact.remaining = b.capacity - b.toList.length := by
  rw [length_toList]
  rfl

/-- Compacting and flipping back leaves the readable elements alone. -/
@[simp] theorem toList_flip_compact (b : ByteBuffer α) : b.compact.flip.toList = b.toList := by
  have hlength := b.length_toList
  simp only [toList, flip, compact, remaining, Nat.sub_zero, List.drop_zero]
  rw [← remaining, ← toList, ← hlength]
  simp

@[simp] theorem capacity_get (b : ByteBuffer α) (count : Nat) : (b.get count).2.capacity = b.capacity := rfl

@[simp] theorem fst_get (b : ByteBuffer α) (count : Nat) : (b.get count).1 = b.toList.take count := rfl

/-- What a bulk `get` leaves is the tail of what was there. -/
@[simp] theorem toList_get (b : ByteBuffer α) (count : Nat) :
    (b.get count).2.toList = b.toList.drop count := by
  simp only [toList, get, remaining]
  rw [List.drop_take, List.drop_drop]
  rcases Nat.le_total count (b.limit - b.position) with hle | hle
  · rw [Nat.min_eq_left hle]
    congr 1
    omega
  · rw [Nat.min_eq_right hle]
    have hfirst : b.limit - (b.position + (b.limit - b.position)) = 0 := by omega
    have hsecond : b.limit - b.position - count = 0 := by omega
    rw [hfirst, hsecond, List.take_zero, List.take_zero]

/-- Appending after compaction: the new elements follow the remaining ones. -/
theorem toList_flip_store_compact (b : ByteBuffer α) (data : List α)
    (hfits : data.length ≤ b.compact.remaining) :
    (b.compact.store data hfits).flip.toList = b.toList ++ data := by
  have hlength := b.length_toList
  simp only [store, toList, flip, compact, remaining, Nat.sub_zero, List.drop_zero]
  rw [← remaining, ← toList, ← hlength, List.take_left, ← List.length_append]
  exact List.take_left

/-- Storing what fits keeps the capacity. -/
theorem capacity_store (b : ByteBuffer α) (data : List α) (hfits : data.length ≤ b.remaining) :
    (b.store data hfits).capacity = b.capacity := by
  have hposition := b.position_le_limit
  have hlimit := b.limit_le_capacity
  simp only [remaining] at hfits
  simp only [capacity, store, List.length_append, List.length_take, List.length_drop]
  omega

/-- Elements that are added go behind those that were there, as far as there is room. -/
@[simp] theorem toList_flip_fill_compact (b : ByteBuffer α) (data : List α) :
    (b.compact.fill data).flip.toList = b.toList ++ data.take b.compact.remaining :=
  b.toList_flip_store_compact _ _

@[simp] theorem capacity_fill (b : ByteBuffer α) (data : List α) : (b.fill data).capacity = b.capacity :=
  b.capacity_store _ _

/-- A successful `put` after compaction appends, and there was room for it. -/
theorem put_compact_eq_some {b filled : ByteBuffer α} {data : List α}
    (hput : b.compact.put data = some filled) :
    filled.flip.toList = b.toList ++ data ∧ filled.capacity = b.capacity := by
  unfold put at hput
  split at hput
  · cases hput
    exact ⟨b.toList_flip_store_compact _ _, by rw [capacity_store, capacity_compact]⟩
  · cases hput

/-- Elements can be put behind the others unless they exceed the capacity. -/
theorem put_compact_eq_none_iff (b : ByteBuffer α) (data : List α) :
    b.compact.put data = none ↔ b.capacity < b.toList.length + data.length := by
  have hbound := b.remaining_le_capacity
  have hlength := b.length_toList
  unfold put
  split
  · rename_i hfits
    rw [remaining_compact] at hfits
    simp only [reduceCtorEq, false_iff]
    omega
  · rename_i hfull
    rw [remaining_compact] at hfull
    simp only [true_iff]
    omega

end ByteBuffer

end nio
