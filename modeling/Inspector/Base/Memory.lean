import Mathlib.Algebra.Ring.Nat
import Mathlib.Data.List.Basic
import Mathlib.Tactic.Common

/-- The memory of a 32-bit process. -/
abbrev Memory := BitVec 32 → UInt8

namespace Memory

/-- The bytes from an address on. -/
def slice (m : Memory) (address : BitVec 32) (length : Nat) : List UInt8 :=
  (List.range length).map fun i => m (address + BitVec.ofNat 32 i)

@[simp] theorem length_slice (m : Memory) (address : BitVec 32) (length : Nat) :
    (m.slice address length).length = length := by
  simp [slice]

/-- `memcpy` of some bytes to an address. -/
def copy (m : Memory) (address : BitVec 32) (bytes : List UInt8) : Memory :=
  fun a => bytes.getD (a - address).toNat (m a)

def u1 (m : Memory) (address : BitVec 32) : BitVec 32 := (m address).toBitVec.setWidth 32

def u2 (m : Memory) (address : BitVec 32) : BitVec 16 :=
  (m (address + 1)).toBitVec ++ (m address).toBitVec

def u4 (m : Memory) (address : BitVec 32) : BitVec 32 :=
  m.u2 (address + 2) ++ m.u2 address

def bytes2 (word : BitVec 16) : List UInt8 := [⟨word.extractLsb' 0 8⟩, ⟨word.extractLsb' 8 8⟩]

/-- The four bytes of a word, the lowest first. -/
def bytes4 (word : BitVec 32) : List UInt8 :=
  [⟨word.extractLsb' 0 8⟩, ⟨word.extractLsb' 8 8⟩, ⟨word.extractLsb' 16 8⟩, ⟨word.extractLsb' 24 8⟩]

/-- How many bytes come before the first one of some kind, if it is one of so many. -/
def find (m : Memory) (p : UInt8 → Bool) : Nat → BitVec 32 → Option Nat
  | 0, _ => none
  | count + 1, address => if p (m address) then some 0 else (find m p count (address + 1)).map (· + 1)

/-- How many bytes come before the first one of some kind, in the whole memory. -/
def findFrom (m : Memory) (p : UInt8 → Bool) (address : BitVec 32) : Option Nat := m.find p (2 ^ 32) address

/-- The string that begins at an address. -/
def cString (m : Memory) (address : BitVec 32) : Option (List UInt8) :=
  (m.findFrom (· = 0) address).map (m.slice address)

/-- A memory with some bytes from an address on. -/
def Holds (m : Memory) (address : BitVec 32) (bytes : List UInt8) : Prop := m.slice address bytes.length = bytes

variable {m : Memory} {p : UInt8 → Bool} {n : Nat}

theorem add_one_add_ofNat (address : BitVec 32) (i : Nat) :
    address + 1 + BitVec.ofNat 32 i = address + BitVec.ofNat 32 (i + 1) := by
  rw [BitVec.add_assoc, BitVec.add_comm 1, BitVec.ofNat_add]
  rfl

theorem add_one_add_one (address : BitVec 32) : address + 1 + 1 = address + 2 := BitVec.add_assoc address 1 1

/-- A longer slice has the first byte in front. -/
theorem slice_succ (m : Memory) (address : BitVec 32) (n : Nat) :
    m.slice address (n + 1) = m address :: m.slice (address + 1) n := by
  rw [slice, List.range_succ_eq_map, List.map_cons, List.map_map, BitVec.add_zero]
  apply congrArg (m address :: ·)
  apply List.map_congr_left
  intro i _
  rw [Function.comp_apply, add_one_add_ofNat]

/-- The memory holds bytes if it has the first one and holds the others behind it. -/
theorem holds_cons {address : BitVec 32} {byte : UInt8} {bytes : List UInt8} :
    m.Holds address (byte :: bytes) ↔ m address = byte ∧ m.Holds (address + 1) bytes := by
  rw [Holds, List.length_cons, slice_succ, List.cons_eq_cons]
  exact Iff.rfl

/-- The memory holds two parts if it holds the second behind the first. -/
theorem holds_append {address : BitVec 32} {first rest : List UInt8} :
    m.Holds address (first ++ rest) ↔
      m.Holds address first ∧ m.Holds (address + BitVec.ofNat 32 first.length) rest := by
  induction first generalizing address with
  | nil =>
    rw [List.nil_append, List.length_nil, BitVec.add_zero]
    exact (and_iff_right rfl).symm
  | cons byte first ih =>
    rw [List.cons_append, holds_cons, holds_cons, ih, and_assoc, add_one_add_ofNat, List.length_cons]

section Copy

variable {a b : Nat} {bytes other : List UInt8}

/-- The memory holds bytes if it has each of them at its place. -/
theorem holds_iff {address : BitVec 32} :
    m.Holds address bytes ↔ ∀ i (hi : i < bytes.length), m (address + BitVec.ofNat 32 i) = bytes[i] := by
  rw [Holds, List.ext_getElem_iff]
  simp [slice]

/-- What is copied is there. -/
theorem holds_copy (m : Memory) (address : BitVec 32) (hlength : bytes.length ≤ 2 ^ 32) :
    (m.copy address bytes).Holds address bytes := by
  rw [holds_iff]
  intro i hi
  have hoffset : (address + BitVec.ofNat 32 i - address).toNat = i := by
    rw [BitVec.add_comm, BitVec.add_sub_cancel, BitVec.toNat_ofNat, Nat.mod_eq_of_lt (by omega)]
  rw [copy, hoffset, List.getD_eq_getElem?_getD, List.getElem?_eq_getElem hi, Option.getD_some]

/-- What is elsewhere stays. -/
theorem holds_copy_of_disjoint (ha : a + bytes.length ≤ 2 ^ 32) (hb : b + other.length ≤ 2 ^ 32)
    (hdisjoint : a + bytes.length ≤ b ∨ b + other.length ≤ a) (hheld : m.Holds (BitVec.ofNat 32 b) other) :
    (m.copy (BitVec.ofNat 32 a) bytes).Holds (BitVec.ofNat 32 b) other := by
  rw [holds_iff] at *
  intro i hi
  have houtside : bytes.length ≤ (BitVec.ofNat 32 b + BitVec.ofNat 32 i - BitVec.ofNat 32 a).toNat := by
    rw [← BitVec.ofNat_add, BitVec.toNat_sub, BitVec.toNat_ofNat, BitVec.toNat_ofNat]
    omega
  rw [copy, List.getD_eq_getElem?_getD, List.getElem?_eq_none houtside, Option.getD_none, hheld i hi]

end Copy

/-- Two bytes in memory are read as the word they hold. -/
theorem u2_of_holds {address : BitVec 32} {word : BitVec 16} (hbytes : m.Holds address (bytes2 word)) :
    m.u2 address = word := by
  rw [bytes2, holds_cons, holds_cons] at hbytes
  obtain ⟨hfirst, hsecond, -⟩ := hbytes
  rw [u2, hfirst, hsecond]
  apply BitVec.eq_of_getLsbD_eq
  intro i hi
  simp only [BitVec.getLsbD_append, BitVec.getLsbD_extractLsb']
  by_cases hbyte : i < 8
  · simp [hbyte]
  · simp [hbyte, show i - 8 < 8 by omega, show 8 + (i - 8) = i by omega]

/-- Four bytes in memory are read as the word they hold. -/
theorem u4_of_holds {address word : BitVec 32} (hbytes : m.Holds address (bytes4 word)) : m.u4 address = word := by
  rw [bytes4, holds_cons, holds_cons, holds_cons, holds_cons, add_one_add_one] at hbytes
  obtain ⟨hfirst, hsecond, hthird, hfourth, -⟩ := hbytes
  rw [u4, u2, u2, hfirst, hsecond, hthird, hfourth]
  apply BitVec.eq_of_getLsbD_eq
  intro i hi
  simp only [BitVec.getLsbD_append, BitVec.getLsbD_extractLsb']
  by_cases hlow : i < 16
  · by_cases hbyte : i < 8
    · simp [hlow, hbyte]
    · simp [hlow, hbyte, show i - 8 < 8 by omega, show 8 + (i - 8) = i by omega]
  · by_cases hbyte : i - 16 < 8
    · simp [hlow, hbyte, show 16 + (i - 16) = i by omega]
    · simp [hlow, hbyte, show i - 16 - 8 < 8 by omega, show 24 + (i - 16 - 8) = i by omega]

/-- The first byte that a search looks for is found if it is within the count. -/
theorem find_eq_some {count : Nat} {address : BitVec 32}
    (hbefore : ∀ i < n, p (m (address + BitVec.ofNat 32 i)) = false)
    (hlast : p (m (address + BitVec.ofNat 32 n)) = true)
    (hcount : n < count) : m.find p count address = some n := by
  induction n generalizing address count with
  | zero =>
    cases count with
    | zero => exact absurd hcount (Nat.not_lt_zero 0)
    | succ count =>
      rw [BitVec.add_zero] at hlast
      rw [find, if_pos hlast]
  | succ n ih =>
    cases count with
    | zero => exact absurd hcount (Nat.not_lt_zero _)
    | succ count =>
      have hfirst : ¬ p (m address) = true := by
        have hzero := hbefore 0 (Nat.succ_pos n)
        rw [BitVec.add_zero] at hzero
        rw [hzero]
        exact Bool.false_ne_true
      have hrest : m.find p count (address + 1) = some n := by
        refine ih (fun i hi => ?_) ?_ (Nat.lt_of_succ_lt_succ hcount)
        · rw [add_one_add_ofNat]
          exact hbefore (i + 1) (Nat.succ_lt_succ hi)
        · rw [add_one_add_ofNat]
          exact hlast
      rw [find, if_neg hfirst, hrest]
      rfl

/-- The addresses wrap around, so that the first one is within reach. -/
theorem findFrom_eq_some {address : BitVec 32} (hbefore : ∀ i < n, p (m (address + BitVec.ofNat 32 i)) = false)
    (hlast : p (m (address + BitVec.ofNat 32 n)) = true) : m.findFrom p address = some n := by
  apply find_eq_some hbefore hlast
  by_contra hlarge
  have hwrap : BitVec.ofNat 32 (n - 2 ^ 32) = BitVec.ofNat 32 n := by
    apply BitVec.eq_of_toNat_eq
    rw [BitVec.toNat_ofNat, BitVec.toNat_ofNat]
    omega
  have hearlier := hbefore (n - 2 ^ 32) (by omega)
  rw [hwrap, hlast] at hearlier
  cases hearlier

/-- Bytes without a NUL are a string up to the NUL behind them. -/
theorem cString_eq_some {address : BitVec 32} {bytes : List UInt8} (hbytes : m.slice address bytes.length = bytes)
    (hnul : 0 ∉ bytes) (hend : m (address + BitVec.ofNat 32 bytes.length) = 0) : m.cString address = some bytes := by
  have hfind : m.findFrom (· = 0) address = some bytes.length := by
    refine findFrom_eq_some (fun i hi => ?_) (decide_eq_true hend)
    apply decide_eq_false
    intro hzero
    have hget : bytes[i] = m (address + BitVec.ofNat 32 i) := by
      have hsame := congrArg (·[i]?) hbytes
      simpa [slice, hi] using hsame.symm
    rw [hzero] at hget
    exact hnul (hget ▸ List.getElem_mem hi)
  rw [cString, hfind, Option.map_some, hbytes]

end Memory
