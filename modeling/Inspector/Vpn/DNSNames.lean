import Inspector.Base.DomainMessage
import Inspector.Vpn.HostnameText

open domain

namespace inspector.vpn.DNS

/-- The text of a name. Its characters are the bytes of the labels. -/
def nameText (labels : List (List UInt8)) : List (BitVec 16) :=
  (labels.flatMap fun w => BitVec.ofNat 16 '.'.toNat :: w.map fun b => BitVec.ofNat 16 b.toNat).tail

/-- The name at an offset has the same text when the bytes behind its first pointer are
taken with their signs. -/
def SameText (data : List UInt8) (i : Nat) (labels : List (List UInt8)) : Prop :=
  ∃ read, Name data (false, ((28 + i : Nat) : Int)) read ∧ text read = nameText labels

variable {header m : List UInt8} {e i n : Nat}

theorem byteAt_message (hheader : header.length = 28) (signed : Bool) {b : UInt8} (hb : m[i]? = some b) :
    byteAt (header ++ m) (signed, ((28 + i : Nat) : Int)) = some (value signed b) := by
  simp only [byteAt, getAt_natCast]
  rw [← hheader, getElem?_header, hb]
  rfl

theorem field_of_name (hheader : header.length = 28) {labels : List (List UInt8)} (hname : domain.Name m i labels e) :
    Field (header ++ m) (28 + i) (28 + e) := by
  induction hname with
  | root hroot => exact .root (byteAt_message hheader false hroot)
  | @label i e b w labels hb hpositive hlength _ _ ih =>
    have hpointer : isPointer b.toNat = false := by
      simp only [isPointer, decide_eq_false_iff_not]
      omega
    refine .label (byteAt_message hheader false hb) hpositive hpointer ?_
    rwa [Nat.add_assoc 28, Nat.add_assoc 28]
  | @pointer i e hi lo labels hhi hpointer _ _ _ =>
    have hlt := hi.toNat_lt
    refine .pointer (byteAt_message hheader false hhi) ?_
    change isPointer (hi.toNat : Int) = true
    simp only [isPointer, decide_eq_true_eq]
    omega

/-- A name that is reached through a pointer and has no bytes with a sign but those that
mark pointers. -/
inductive Plain (m : List UInt8) : Nat → List (List UInt8) → Prop where
  | root {i : Nat} (hroot : m[i]? = some 0) : Plain m i []
  | label {i : Nat} {n : UInt8} {w : List UInt8} {labels : List (List UInt8)} (hn : m[i]? = some n)
    (hpositive : 0 < n.toNat) (hlength : n.toNat < 64) (hw : Bytes m (i + 1) n.toNat w)
    (hplain : ∀ b ∈ w, b.toNat < 128)
    (hrest : Plain m (i + 1 + n.toNat) labels) : Plain m i (w :: labels)
  | pointer {i : Nat} {hi lo : UInt8} {labels : List (List UInt8)} (hhi : m[i]? = some hi) (hpointer : 192 ≤ hi.toNat)
    (hlo : m[i + 1]? = some lo) (hplain : lo.toNat < 128) (hrest : Plain m (hi.toNat % 64 * 256 + lo.toNat) labels) :
    Plain m i labels

/-- A name whose first pointer leads to such a name. -/
inductive Safe (m : List UInt8) : Nat → List (List UInt8) → Prop where
  | root {i : Nat} (hroot : m[i]? = some 0) : Safe m i []
  | label {i : Nat} {n : UInt8} {w : List UInt8} {labels : List (List UInt8)} (hn : m[i]? = some n)
    (hpositive : 0 < n.toNat) (hlength : n.toNat < 64) (hw : Bytes m (i + 1) n.toNat w)
    (hrest : Safe m (i + 1 + n.toNat) labels) : Safe m i (w :: labels)
  | pointer {i : Nat} {hi lo : UInt8} {labels : List (List UInt8)} (hhi : m[i]? = some hi) (hpointer : 192 ≤ hi.toNat)
    (hlo : m[i + 1]? = some lo) (hrest : Plain m (hi.toNat % 64 * 256 + lo.toNat) labels) : Safe m i labels

theorem value_signed (b : UInt8) : value true b = if b.toNat < 128 then (b.toNat : Int) else b.toNat - 256 := by
  have hsigned := b.toBitVec.toInt_eq_toNat_cond
  change b.toBitVec.toInt = _
  rw [hsigned, UInt8.toNat_toBitVec]
  split <;> split <;> omega

theorem value_eq (signed : Bool) {b : UInt8} (hb : signed = true → b.toNat < 128) : value signed b = b.toNat := by
  cases signed with
  | true => rw [value_signed, if_pos (hb rfl)]
  | false => rfl

/-- The labels with their bytes as numbers. -/
def unsigned (w : List UInt8) : List Int := w.map fun b => (b.toNat : Int)

theorem bytesAt_message (hheader : header.length = 28) (signed : Bool) {w : List UInt8} (hw : Bytes m i n w)
    (hplain : signed = true → ∀ b ∈ w, b.toNat < 128) :
    bytesAt (header ++ m) signed ((28 + i : Nat) : Int) n = some (unsigned w) := by
  induction n generalizing i w with
  | zero =>
    obtain rfl := List.length_eq_zero_iff.mp hw.1
    rfl
  | succ n ih =>
    cases w with
    | nil => cases hw.1
    | cons b w =>
      have hfirst : m[i]? = some b := hw.getElem? (Nat.succ_pos n)
      have hb := byteAt_message hheader signed hfirst
      rw [value_eq signed fun hsigned => hplain hsigned b (by simp)] at hb
      have hrest := ih hw.tail fun hsigned b hb => hplain hsigned b (by simp [hb])
      rw [bytesAt, hb, show ((28 + i : Nat) : Int) + 1 = ((28 + (i + 1) : Nat) : Int) by omega, hrest]
      rfl

/-- A label is read as it is. -/
theorem name_label (hheader : header.length = 28) (signed : Bool) {b : UInt8} {w : List UInt8}
    {labels : List (List Int)}
    (hb : m[i]? = some b) (hpositive : 0 < b.toNat) (hlength : b.toNat < 64) (hw : Bytes m (i + 1) b.toNat w)
    (hplain : signed = true → ∀ b ∈ w, b.toNat < 128)
    (hrest : Name (header ++ m) (signed, ((28 + (i + 1 + b.toNat) : Nat) : Int)) labels) :
    Name (header ++ m) (signed, ((28 + i : Nat) : Int)) (unsigned w :: labels) := by
  have hc := byteAt_message hheader signed hb
  rw [value_eq signed fun _ => by omega] at hc
  have hbytes := bytesAt_message hheader signed hw hplain
  have hpointer : isPointer b.toNat = false := by
    simp only [isPointer, decide_eq_false_iff_not]
    omega
  refine .label hc (by omega) hpointer ?_ ?_
  · rwa [Int.toNat_natCast, show ((28 + i : Nat) : Int) + 1 = ((28 + (i + 1) : Nat) : Int) by omega]
  · rwa [show ((28 + i : Nat) : Int) + 1 + b.toNat = ((28 + (i + 1 + b.toNat) : Nat) : Int) by omega]

/-- A pointer is followed to where it points, but for the sign of its low byte. -/
theorem name_pointer (hheader : header.length = 28) (signed : Bool) {hi lo : UInt8} {labels : List (List Int)}
    (hhi : m[i]? = some hi) (hpointer : 192 ≤ hi.toNat) (hlo : m[i + 1]? = some lo)
    (hplain : signed = true → lo.toNat < 128)
    (hrest : Name (header ++ m) (true, ((28 + (hi.toNat % 64 * 256 + lo.toNat) : Nat) : Int)) labels) :
    Name (header ++ m) (signed, ((28 + i : Nat) : Int)) labels := by
  have hc := byteAt_message hheader signed hhi
  have hch := byteAt_message hheader signed hlo
  rw [value_eq signed hplain] at hch
  have hlt := hi.toNat_lt
  have hvalue : value signed hi = hi.toNat ∨ value signed hi = hi.toNat - 256 := by
    cases signed with
    | true => exact .inr (by rw [value_signed, if_neg (by omega)])
    | false => exact .inl rfl
  refine .pointer hc ?_ (by rwa [show ((28 + i : Nat) : Int) + 1 = ((28 + (i + 1) : Nat) : Int) by omega]) ?_
  · simp only [isPointer, decide_eq_true_eq]
    omega
  · have htarget : target (value signed hi) lo.toNat = ((28 + (hi.toNat % 64 * 256 + lo.toNat) : Nat) : Int) := by
      simp only [target]
      omega
    rwa [htarget]

theorem name_of_plain (hheader : header.length = 28) {labels : List (List UInt8)} (hplain : Plain m i labels) :
    Name (header ++ m) (true, ((28 + i : Nat) : Int)) (labels.map unsigned) := by
  induction hplain with
  | root hroot => exact .root (byteAt_message hheader true hroot)
  | label hn hpositive hlength hw hbytes _ ih =>
    exact name_label hheader true hn hpositive hlength hw (fun _ => hbytes) ih
  | pointer hhi hpointer hlo hsmall _ ih => exact name_pointer hheader true hhi hpointer hlo (fun _ => hsmall) ih

theorem text_unsigned (labels : List (List UInt8)) : text (labels.map unsigned) = nameText labels := by
  unfold text dotted nameText
  rw [List.flatMap_map]
  congr 2
  funext w
  rw [unsigned, List.map_map]
  congr 2

/-- A safe name is read as it is. -/
theorem sameText_of_safe (hheader : header.length = 28) {labels : List (List UInt8)} (hsafe : Safe m i labels) :
    SameText (header ++ m) i labels := by
  suffices hname : Name (header ++ m) (false, ((28 + i : Nat) : Int)) (labels.map unsigned) from
    ⟨_, hname, text_unsigned labels⟩
  induction hsafe with
  | root hroot => exact .root (byteAt_message hheader false hroot)
  | label hn hpositive hlength hw _ ih =>
    exact name_label hheader false hn hpositive hlength hw (fun hsigned => by cases hsigned) ih
  | pointer hhi hpointer hlo hrest =>
    exact name_pointer hheader false hhi hpointer hlo (fun hsigned => by cases hsigned) (name_of_plain hheader hrest)

end inspector.vpn.DNS
