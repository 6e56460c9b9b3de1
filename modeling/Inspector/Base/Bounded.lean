import Inspector.Base.Overwrite

/-! Arrays of a fixed length. An access outside of one is a fault. -/

namespace bounded

inductive Fault where
  | load
  | store
  deriving DecidableEq, Repr

variable {α β : Type} {data : List α} {i n : Nat}

def load (data : List α) (i : Nat) : Except Fault α :=
  match data[i]? with
  | some a => .ok a
  | none => .error .load

/-- So many elements from an index on. -/
def slice (data : List α) (i n : Nat) : Except Fault (List α) :=
  if i + n ≤ data.length then .ok ((data.drop i).take n) else .error .load

def store (data : List α) (i : Nat) (elements : List α) : Except Fault (List α) :=
  if i + elements.length ≤ data.length then .ok (data.overwrite i elements) else .error .store

/-- A load answers with the element at its index. -/
theorem load_eq_ok {a : α} : load data i = .ok a ↔ data[i]? = some a := by
  rw [load]
  cases data[i]? <;> simp

/-- A load inside of the array does not fault. -/
theorem load_of_lt (hi : i < data.length) : load data i = .ok (data.get ⟨i, hi⟩) :=
  load_eq_ok.mpr (List.getElem?_eq_getElem hi)

/-- A slice inside of the array does not fault. -/
theorem slice_of_le (hi : i + n ≤ data.length) : slice data i n = .ok ((data.drop i).take n) := if_pos hi

/-- A store inside of the array overwrites it. -/
theorem store_of_le {elements : List α} (hi : i + elements.length ≤ data.length) :
    store data i elements = .ok (data.overwrite i elements) := if_pos hi

/-- A program that makes no access outside of its arrays, with what holds of its result. -/
def Safe (program : Except Fault α) (P : α → Prop) : Prop := ∃ a, program = .ok a ∧ P a

theorem Safe.ok {P : α → Prop} {a : α} (ha : P a) : Safe (.ok a) P := ⟨a, rfl, ha⟩

/-- Two programs one behind the other are safe if both are. -/
theorem Safe.bind {program : Except Fault α} {next : α → Except Fault β} {P : α → Prop} {Q : β → Prop}
    (hprogram : Safe program P) (hnext : ∀ a, P a → Safe (next a) Q) : Safe (program >>= next) Q := by
  obtain ⟨a, rfl, ha⟩ := hprogram
  exact hnext a ha

/-- A safe program ensures all that follows from what it ensures. -/
theorem Safe.mono {program : Except Fault α} {P Q : α → Prop} (hprogram : Safe program P) (hmono : ∀ a, P a → Q a) :
    Safe program Q := by
  obtain ⟨a, ha, hp⟩ := hprogram
  exact ⟨a, ha, hmono a hp⟩

/-- A load inside of the array is safe. -/
theorem Safe.load (hi : i < data.length) : Safe (load data i) (data[i]? = some ·) :=
  ⟨data.get ⟨i, hi⟩, load_of_lt hi, List.getElem?_eq_getElem hi⟩

/-- A slice inside of the array is safe, and has its length. -/
theorem Safe.slice (hi : i + n ≤ data.length) : Safe (slice data i n) (·.length = n) := by
  have hlength : ((data.drop i).take n).length = n := by
    rw [List.length_take, List.length_drop]
    omega
  exact ⟨_, slice_of_le hi, hlength⟩

/-- A store inside of the array is safe, and keeps the length. -/
theorem Safe.store {elements : List α} (hi : i + elements.length ≤ data.length) :
    Safe (store data i elements) (·.length = data.length) :=
  ⟨data.overwrite i elements, store_of_le hi, List.length_overwrite data i elements⟩

end bounded
