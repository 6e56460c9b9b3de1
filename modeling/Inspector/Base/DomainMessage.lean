import Mathlib.Algebra.Order.Ring.Int
import Mathlib.Data.List.Basic
import Mathlib.Tactic.Common

/-! Messages of the domain name system. All offsets are those of the message. -/

namespace domain

/-- Two bytes of a message, the first of them the high one. -/
def U16 (m : List UInt8) (i n : Nat) : Prop :=
  ∃ hi lo, m[i]? = some hi ∧ m[i + 1]? = some lo ∧ n = hi.toNat * 2 ^ 8 + lo.toNat

def U32 (m : List UInt8) (i n : Nat) : Prop :=
  ∃ hi lo, U16 m i hi ∧ U16 m (i + 2) lo ∧ n = hi * 2 ^ 16 + lo

/-- So many bytes of a message. -/
def Bytes (m : List UInt8) (i n : Nat) (w : List UInt8) : Prop := w.length = n ∧ w <+: m.drop i

/-- A name at an offset: its labels, and where its own bytes end. -/
inductive Name (m : List UInt8) : Nat → List (List UInt8) → Nat → Prop where
  | root {i : Nat} (hroot : m[i]? = some 0) : Name m i [] (i + 1)
  | label {i e : Nat} {n : UInt8} {w : List UInt8} {labels : List (List UInt8)} (hn : m[i]? = some n)
    (hpositive : 0 < n.toNat) (hlength : n.toNat < 64) (hw : Bytes m (i + 1) n.toNat w)
    (hrest : Name m (i + 1 + n.toNat) labels e) : Name m i (w :: labels) e
  | pointer {i e : Nat} {hi lo : UInt8} {labels : List (List UInt8)} (hhi : m[i]? = some hi) (hpointer : 192 ≤ hi.toNat)
    (hlo : m[i + 1]? = some lo) (hrest : Name m (hi.toNat % 64 * 256 + lo.toNat) labels e) : Name m i labels (i + 2)

structure Question where
  start : Nat
  labels : List (List UInt8)
  type : Nat
  queryClass : Nat
  deriving DecidableEq, Repr

/-- What the data of a record is. -/
inductive RData where
  | address (bytes : List UInt8)
  | canonicalName (labels : List (List UInt8))
  | other
  deriving DecidableEq, Repr

/-- A record. Its data begins at an offset and has a length. -/
structure Resource extends Question where
  ttl : Nat
  rdataStart : Nat
  rdlength : Nat
  rdata : RData
  deriving DecidableEq, Repr

structure IsQuestion (m : List UInt8) (q : Question) (e : Nat) : Prop where
  name : Name m q.start q.labels e
  type : U16 m e q.type
  queryClass : U16 m (e + 2) q.queryClass

/-- The data of a type. Addresses have four or sixteen bytes. -/
inductive IsRData (m : List UInt8) (i : Nat) : Nat → Nat → RData → Prop where
  | a {bytes : List UInt8} (hbytes : Bytes m i 4 bytes) : IsRData m i 1 4 (.address bytes)
  | cname {n : Nat} {labels : List (List UInt8)} (hname : Name m i labels (i + n)) :
      IsRData m i 5 n (.canonicalName labels)
  | aaaa {bytes : List UInt8} (hbytes : Bytes m i 16 bytes) : IsRData m i 28 16 (.address bytes)
  | other {type n : Nat} (ha : type ≠ 1) (hcname : type ≠ 5) (haaaa : type ≠ 28) (hlength : i + n ≤ m.length) :
    IsRData m i type n .other

structure IsResource (m : List UInt8) (r : Resource) (e : Nat) : Prop where
  question : IsQuestion m r.toQuestion e
  ttl : U32 m (e + 4) r.ttl
  rdlength : U16 m (e + 8) r.rdlength
  rdataStart : r.rdataStart = e + 10
  rdata : IsRData m r.rdataStart r.type r.rdlength r.rdata

/-- Questions in a row from an offset on, up to another. -/
inductive Questions (m : List UInt8) : Nat → List Question → Nat → Prop where
  | nil (i : Nat) : Questions m i [] i
  | cons {q : Question} {qs : List Question} {e last : Nat} (hq : IsQuestion m q e)
    (hqs : Questions m (e + 4) qs last) :
    Questions m q.start (q :: qs) last

/-- Records in a row. Each begins where the data of the one before it ends. -/
inductive Resources (m : List UInt8) : Nat → List Resource → Nat → Prop where
  | nil (i : Nat) : Resources m i [] i
  | cons {r : Resource} {rs : List Resource} {e last : Nat} (hr : IsResource m r e)
    (hrs : Resources m (r.rdataStart + r.rdlength) rs last) : Resources m r.start (r :: rs) last

/-- A message with its questions and its answers. What comes behind them is left open. -/
structure Message (m : List UInt8) (questions : List Question) (answers : List Resource) : Prop where
  header : 12 ≤ m.length
  questionCount : U16 m 4 questions.length
  answerCount : U16 m 6 answers.length
  records : ∃ i last, Questions m 12 questions i ∧ Resources m i answers last

variable {m : List UInt8} {i e n : Nat}

theorem U16.unique {n' : Nat} (hn : U16 m i n) (hn' : U16 m i n') : n = n' := by
  obtain ⟨hi, lo, hhi, hlo, rfl⟩ := hn
  obtain ⟨hi', lo', hhi', hlo', rfl⟩ := hn'
  rw [Option.some_inj.mp (hhi.symm.trans hhi'), Option.some_inj.mp (hlo.symm.trans hlo')]

theorem U32.unique {n' : Nat} (hn : U32 m i n) (hn' : U32 m i n') : n = n' := by
  obtain ⟨hi, lo, hhi, hlo, rfl⟩ := hn
  obtain ⟨hi', lo', hhi', hlo', rfl⟩ := hn'
  rw [hhi.unique hhi', hlo.unique hlo']

theorem Bytes.getElem? {w : List UInt8} {k : Nat} (hw : Bytes m i n w) (hk : k < n) : m[i + k]? = w[k]? := by
  obtain ⟨hlength, more, hmore⟩ := hw
  rw [← List.getElem?_drop, ← hmore, List.getElem?_append_left (by omega)]

theorem Bytes.tail {b : UInt8} {w : List UInt8} (hw : Bytes m i (n + 1) (b :: w)) : Bytes m (i + 1) n w := by
  obtain ⟨hlength, more, hmore⟩ := hw
  refine ⟨Nat.succ.inj hlength, more, ?_⟩
  have htail := congrArg List.tail hmore
  rwa [List.cons_append, List.tail_cons, List.tail_drop] at htail

/-- Behind a header nothing changes but the offsets. -/
theorem getElem?_header (header : List UInt8) (m : List UInt8) (i : Nat) :
    (header ++ m)[header.length + i]? = m[i]? := by
  rw [List.getElem?_append_right (Nat.le_add_right ..), Nat.add_sub_cancel_left]

theorem U16.behind (header : List UInt8) (hn : U16 m i n) : U16 (header ++ m) (header.length + i) n := by
  obtain ⟨hi, lo, hhi, hlo, rfl⟩ := hn
  exact ⟨hi, lo, by rwa [getElem?_header], by rwa [Nat.add_assoc, getElem?_header], rfl⟩

theorem U32.behind (header : List UInt8) (hn : U32 m i n) : U32 (header ++ m) (header.length + i) n := by
  obtain ⟨hi, lo, hhi, hlo, rfl⟩ := hn
  exact ⟨hi, lo, hhi.behind header, hlo.behind header, rfl⟩

theorem Bytes.behind (header : List UInt8) {w : List UInt8} (hw : Bytes m i n w) :
    Bytes (header ++ m) (header.length + i) n w := by
  obtain ⟨hlength, hbegin⟩ := hw
  refine ⟨hlength, ?_⟩
  rwa [← List.drop_drop, List.drop_left]

end domain
