import Mathlib.Logic.Relation
import Inspector.Vpn.DNS

open Relation

namespace inspector.vpn.DNS

/-- Where the loop reads: in the index mode or not, and an index of the packet. -/
abbrev Place := Bool × Int

def byteAt (data : List UInt8) (p : Place) : Option Int := (getAt data p.2).map (value p.1)

/-- So many bytes in a row. -/
def bytesAt (data : List UInt8) (signed : Bool) : Int → Nat → Option (List Int)
  | _, 0 => some []
  | i, n + 1 => do return (← byteAt data (signed, i)) :: (← bytesAt data signed (i + 1) n)

/-- At an index that is not negative the bytes are those of the list. -/
@[simp] theorem getAt_natCast (data : List UInt8) (i : Nat) : getAt data i = data[i]? := by
  simp [getAt]

/-- A byte that can be read lies within the data. -/
theorem lt_of_byteAt {data : List UInt8} {p : Place} {c : Int} (hc : byteAt data p = some c) :
    0 ≤ p.2 ∧ p.2 < data.length := by
  unfold byteAt getAt at hc
  split at hc
  · obtain ⟨b, hb, -⟩ := Option.map_eq_some_iff.mp hc
    obtain ⟨hlt, -⟩ := List.getElem?_eq_some_iff.mp hb
    omega
  · cases hc

namespace Hostname

variable {data : List UInt8} {s s' : Hostname} {c ch : Int}

def place (s : Hostname) : Place := (s.indexMode, if s.indexMode then s.indexPacket else s.position)

/-- Behind the byte that is read. -/
def advance (s : Hostname) : Hostname :=
  if s.indexMode then { s with indexPacket := s.indexPacket + 1 } else { s with position := s.position + 1 }

/-- The next byte is the length of a label, a pointer or the end. -/
def AtLabel (s : Hostname) : Prop := s.len = -1 ∨ s.len = 0

/-- A read that moves on does not change whether a pointer was followed. -/
@[simp] theorem indexMode_advance : s.advance.indexMode = s.indexMode := by
  unfold advance
  split <;> rfl

/-- A read that moves on leaves the rest of the label to be read. -/
@[simp] theorem len_advance : s.advance.len = s.len := by
  unfold advance
  split <;> rfl

/-- A read that moves on writes no text. -/
@[simp] theorem sb_advance : s.advance.sb = s.sb := by
  unfold advance
  split <;> rfl

/-- A read moves to the next byte of the same kind of place. -/
@[simp] theorem place_advance : s.advance.place = (s.indexMode, s.place.2 + 1) := by
  unfold place
  rw [indexMode_advance]
  unfold advance
  cases hmode : s.indexMode <;> simp

/-- Behind a pointer, reads no longer move the position of the decoder. -/
theorem position_advance (hmode : s.indexMode = true) : s.advance.position = s.position := by
  simp [advance, hmode]

/-- A byte within the data is read, and the place moves on. -/
theorem get8BitsStream_eq_ok (hc : byteAt data s.place = some c) : s.get8BitsStream data = .ok (c, s.advance) := by
  unfold get8BitsStream advance
  unfold byteAt place at hc
  cases hmode : s.indexMode with
  | true =>
    obtain ⟨b, hb, rfl⟩ := Option.map_eq_some_iff.mp hc
    simp only [hmode, if_true] at hb ⊢
    rw [hb]
  | false =>
    obtain ⟨b, hb, rfl⟩ := Option.map_eq_some_iff.mp hc
    simp only [hmode, Bool.false_eq_true, if_false, getAt_natCast] at hb ⊢
    rw [hb]

/-- There is an exception for a place outside of the data. -/
theorem get8BitsStream_eq_error (hc : byteAt data s.place = none) : ∃ e, s.get8BitsStream data = .error e := by
  unfold get8BitsStream
  unfold byteAt place at hc
  rw [Option.map_eq_none_iff] at hc
  cases hmode : s.indexMode with
  | true =>
    simp only [hmode, if_true] at hc ⊢
    rw [hc]
    exact ⟨_, rfl⟩
  | false =>
    simp only [hmode, Bool.false_eq_true, if_false, getAt_natCast] at hc ⊢
    rw [hc]
    exact ⟨_, rfl⟩

/-- What a label is preceded by. -/
def separated (s : Hostname) : List (BitVec 16) := if s.len = 0 then s.sb ++ [BitVec.ofNat 16 '.'.toNat] else s.sb

/-- Behind the length of a label. -/
def afterLength (s : Hostname) (c : Int) : Hostname := { s.advance with sb := s.separated, len := c }

/-- Behind a character of a label. -/
def afterChar (s : Hostname) (c : Int) : Hostname :=
  { s.advance with sb := s.sb ++ [BitVec.ofInt 16 c], len := s.len - 1 }

/-- At the target of a pointer. -/
def afterPointer (s : Hostname) (c ch : Int) : Hostname :=
  { s.advance.advance with indexPacket := target c ch, indexMode := true }

/-- The characters of a label follow its length. -/
@[simp] theorem place_afterLength : (s.afterLength c).place = (s.indexMode, s.place.2 + 1) := place_advance

/-- The next character follows a character. -/
@[simp] theorem place_afterChar : (s.afterChar c).place = (s.indexMode, s.place.2 + 1) := place_advance

/-- The loop ends with an exception where there is no byte to read. -/
theorem body_error (hc : byteAt data s.place = none) : ∃ e, s.body data = .error e := by
  obtain ⟨e, he⟩ := get8BitsStream_eq_error hc
  exact ⟨e, by rw [body, he]; rfl⟩

/-- A length of zero ends the loop. -/
theorem body_end (hlabel : s.AtLabel) (hc : byteAt data s.place = some 0) : s.body data = .ok (s.advance, true) := by
  have hlen : s.advance.len = -1 ∨ s.advance.len = 0 := by rwa [len_advance]
  rw [body, get8BitsStream_eq_ok hc]
  simp only [bind, Except.bind]
  rw [if_pos hlen]
  rfl

/-- Another length begins a label. -/
theorem body_label (hlabel : s.AtLabel) (hc : byteAt data s.place = some c) (hne : c ≠ 0)
    (hpointer : isPointer c = false) :
    s.body data = .ok (s.afterLength c, false) := by
  have hlen : s.advance.len = -1 ∨ s.advance.len = 0 := by rwa [len_advance]
  rw [body, get8BitsStream_eq_ok hc]
  simp only [bind, Except.bind]
  rw [if_pos hlen, if_neg hne, hpointer]
  simp [afterLength, separated, pure, Except.pure]

/-- A pointer moves the place of the next label. -/
theorem body_pointer (hlabel : s.AtLabel) (hc : byteAt data s.place = some c) (hpointer : isPointer c = true)
    (hch : byteAt data (s.indexMode, s.place.2 + 1) = some ch) :
    s.body data = .ok (s.afterPointer c ch, false) := by
  have hlen : s.advance.len = -1 ∨ s.advance.len = 0 := by rwa [len_advance]
  have hne : c ≠ 0 := by
    rintro rfl
    cases hpointer
  rw [← place_advance] at hch
  rw [body, get8BitsStream_eq_ok hc]
  simp only [bind, Except.bind]
  rw [if_pos hlen, if_neg hne, if_pos hpointer, get8BitsStream_eq_ok hch]
  rfl

/-- A pointer without its second byte ends the loop with an exception. -/
theorem body_pointer_error (hlabel : s.AtLabel) (hc : byteAt data s.place = some c) (hpointer : isPointer c = true)
    (hch : byteAt data (s.indexMode, s.place.2 + 1) = none) : ∃ e, s.body data = .error e := by
  have hlen : s.advance.len = -1 ∨ s.advance.len = 0 := by rwa [len_advance]
  have hne : c ≠ 0 := by
    rintro rfl
    cases hpointer
  rw [← place_advance] at hch
  obtain ⟨e, he⟩ := get8BitsStream_eq_error hch
  refine ⟨e, ?_⟩
  rw [body, get8BitsStream_eq_ok hc]
  simp only [bind, Except.bind]
  rw [if_pos hlen, if_neg hne, if_pos hpointer, he]

/-- Within a label a byte is a character. -/
theorem body_char (hlabel : ¬ s.AtLabel) (hc : byteAt data s.place = some c) :
    s.body data = .ok (s.afterChar c, false) := by
  have hlen : ¬ (s.advance.len = -1 ∨ s.advance.len = 0) := by rwa [len_advance]
  rw [body, get8BitsStream_eq_ok hc]
  simp only [bind, Except.bind]
  rw [if_neg hlen]
  simp [afterChar, pure, Except.pure]

/-- A pass that does not break. -/
def Passes (data : List UInt8) (s s' : Hostname) : Prop := s.body data = .ok (s', false)

/-- What the loop ends with after some number of passes. -/
def Returns (data : List UInt8) (s : Hostname) (r : Except BufferException Hostname) : Prop :=
  ∃ fuel, getHostname data fuel s = some r

variable {r r' : Except BufferException Hostname}

/-- A pass that goes on costs one unit of fuel. -/
theorem getHostname_pass (hpass : Passes data s s') (fuel : Nat) :
    getHostname data (fuel + 1) s = getHostname data fuel s' := by
  rw [getHostname, hpass]

/-- A pass that throws ends the loop with its exception. -/
theorem returns_error {e : BufferException} (hbody : s.body data = .error e) : Returns data s (.error e) :=
  ⟨1, by rw [getHostname, hbody]⟩

/-- The last pass ends the loop with its state. -/
theorem returns_end (hbody : s.body data = .ok (s', true)) : Returns data s (.ok s') :=
  ⟨1, by rw [getHostname, hbody]⟩

/-- What the loop returns from a later state it returns from the states before that one. -/
theorem Returns.of_walk (hreturns : Returns data s' r) (hwalk : ReflTransGen (Passes data) s s') :
    Returns data s r := by
  induction hwalk with
  | refl => exact hreturns
  | tail _ hpass ih =>
    obtain ⟨fuel, hfuel⟩ := hreturns
    exact ih ⟨fuel + 1, (getHostname_pass hpass fuel).trans hfuel⟩

/-- The rest of the loop takes fewer passes. -/
theorem exists_fuel_lt (hwalk : TransGen (Passes data) s s') {fuel : Nat} (hfuel : getHostname data fuel s = some r) :
    ∃ fuel' < fuel, getHostname data fuel' s' = some r := by
  induction hwalk with
  | single hpass =>
    cases fuel with
    | zero => cases hfuel
    | succ fuel => exact ⟨fuel, Nat.lt_succ_self fuel, (getHostname_pass hpass fuel).symm.trans hfuel⟩
  | tail _ hpass ih =>
    obtain ⟨middle, hlt, hmiddle⟩ := ih
    cases middle with
    | zero => cases hmiddle
    | succ middle => exact ⟨middle, by omega, (getHostname_pass hpass middle).symm.trans hmiddle⟩

/-- The loop returns one result, whatever the fuel. -/
theorem Returns.unique (hr : Returns data s r) (hr' : Returns data s r') : r = r' := by
  obtain ⟨fuel, hfuel⟩ := hr
  obtain ⟨fuel', hfuel'⟩ := hr'
  induction fuel generalizing s fuel' with
  | zero => cases hfuel
  | succ fuel ih =>
    cases fuel' with
    | zero => cases hfuel'
    | succ fuel' =>
      rw [getHostname] at hfuel hfuel'
      rcases hbody : s.body data with e | ⟨s', _ | _⟩
      · rw [hbody] at hfuel hfuel'
        exact Option.some_inj.mp (hfuel.symm.trans hfuel')
      · rw [hbody] at hfuel hfuel'
        exact ih hfuel fuel' hfuel'
      · rw [hbody] at hfuel hfuel'
        exact Option.some_inj.mp (hfuel.symm.trans hfuel')

/-- A place is where the loop reads from and the index there. -/
theorem place_eq (s : Hostname) : s.place = (s.indexMode, s.place.2) := rfl

/-- The first of several bytes and the others behind it. -/
theorem byteAt_of_bytesAt {data : List UInt8} {signed : Bool} {i : Int} {n : Nat} {w : List Int}
    (hw : bytesAt data signed i (n + 1) = some w) :
    ∃ c rest, byteAt data (signed, i) = some c ∧ bytesAt data signed (i + 1) n = some rest ∧ w = c :: rest := by
  rw [bytesAt] at hw
  obtain ⟨c, hc, hrest⟩ := Option.bind_eq_some_iff.mp hw
  obtain ⟨rest, hrest, hsome⟩ := Option.bind_eq_some_iff.mp hrest
  exact ⟨c, rest, hc, hrest, (Option.some_inj.mp hsome).symm⟩

/-- The characters of a label. -/
theorem walk_chars {n : Nat} {w : List Int} (hlen : s.len = n) (hw : bytesAt data s.indexMode s.place.2 n = some w) :
    ∃ s', ReflTransGen (Passes data) s s' ∧ s'.len = 0 ∧ s'.sb = s.sb ++ w.map (BitVec.ofInt 16) ∧
      s'.place = (s.indexMode, s.place.2 + n) ∧ (s.indexMode = true → s'.position = s.position) := by
  induction n generalizing s w with
  | zero =>
    cases hw
    exact ⟨s, .refl, hlen, by simp, by simp [← place_eq], fun _ => rfl⟩
  | succ n ih =>
    obtain ⟨c, rest, hc, hrest, rfl⟩ := byteAt_of_bytesAt hw
    have hpass : Passes data s (s.afterChar c) := body_char (by unfold AtLabel; omega) hc
    have hless : (s.afterChar c).len = n := by
      simp only [afterChar]
      omega
    have hmode : (s.afterChar c).indexMode = s.indexMode := indexMode_advance
    obtain ⟨s', hwalk, hend, hsb, hplace, hposition⟩ := ih hless (by rw [hmode, place_afterChar]; exact hrest)
    refine ⟨s', .head hpass hwalk, hend, by simp [hsb, afterChar], ?_, fun hindex => ?_⟩
    · rw [hplace, hmode, place_afterChar, Int.natCast_add_one, Int.add_assoc, Int.add_comm 1]
    · rw [hposition (hmode.trans hindex)]
      exact position_advance hindex

/-- A label that goes beyond the packet. -/
theorem error_of_chars {n : Nat} (hlen : s.len = n) (hw : bytesAt data s.indexMode s.place.2 n = none) :
    ∃ e, Returns data s (.error e) := by
  induction n generalizing s with
  | zero => cases hw
  | succ n ih =>
    cases hc : byteAt data s.place with
    | none =>
      obtain ⟨e, he⟩ := body_error hc
      exact ⟨e, returns_error he⟩
    | some c =>
      have hpass : Passes data s (s.afterChar c) := body_char (by unfold AtLabel; omega) hc
      have hmode : (s.afterChar c).indexMode = s.indexMode := indexMode_advance
      have hrest : bytesAt data s.indexMode (s.place.2 + 1) n = none := by
        rw [bytesAt, ← place_eq, hc] at hw
        cases hrest : bytesAt data s.indexMode (s.place.2 + 1) n with
        | none => rfl
        | some rest =>
          rw [hrest] at hw
          cases hw
      obtain ⟨e, he⟩ := ih (s := s.afterChar c) (by simp only [afterChar]; omega)
        (by rw [hmode, place_afterChar]; exact hrest)
      exact ⟨e, he.of_walk (.single hpass)⟩

/-- The length of a label may be negative in the index mode. Then the label never ends. -/
theorem error_of_negative (hlen : s.len < -1) : ∃ e, Returns data s (.error e) := by
  induction hn : (data.length - s.place.2).toNat generalizing s with
  | zero =>
    have hnone : byteAt data s.place = none := by
      rw [Option.eq_none_iff_forall_ne_some]
      intro c hc
      have hlt := lt_of_byteAt hc
      omega
    obtain ⟨e, he⟩ := body_error hnone
    exact ⟨e, returns_error he⟩
  | succ n ih =>
    cases hc : byteAt data s.place with
    | none =>
      obtain ⟨e, he⟩ := body_error hc
      exact ⟨e, returns_error he⟩
    | some c =>
      have hpass : Passes data s (s.afterChar c) := body_char (by unfold AtLabel; omega) hc
      obtain ⟨e, he⟩ := ih (s := s.afterChar c) (by simp only [afterChar]; omega)
        (by rw [place_afterChar]; dsimp only; omega)
      exact ⟨e, he.of_walk (.single hpass)⟩

/-- A label, from its length on. -/
theorem walk_label {w : List Int} (hlabel : s.AtLabel) (hc : byteAt data s.place = some c) (hpositive : 0 < c)
    (hpointer : isPointer c = false) (hw : bytesAt data s.indexMode (s.place.2 + 1) c.toNat = some w) :
    ∃ s', TransGen (Passes data) s s' ∧ s'.len = 0 ∧ s'.sb = s.separated ++ w.map (BitVec.ofInt 16) ∧
      s'.place = (s.indexMode, s.place.2 + 1 + c) ∧ (s.indexMode = true → s'.position = s.position) := by
  have hpass : Passes data s (s.afterLength c) := body_label hlabel hc (by omega) hpointer
  have hmode : (s.afterLength c).indexMode = s.indexMode := indexMode_advance
  have hlen : (s.afterLength c).len = c.toNat := by
    simp only [afterLength]
    omega
  obtain ⟨s', hwalk, hend, hsb, hplace, hposition⟩ := walk_chars hlen (by rw [hmode, place_afterLength]; exact hw)
  refine ⟨s', TransGen.head' hpass hwalk, hend, hsb, ?_, fun hindex => ?_⟩
  · rw [hplace, hmode, place_afterLength, Int.toNat_of_nonneg (by omega)]
  · rw [hposition (hmode.trans hindex)]
    exact position_advance hindex

/-- A pointer takes a single pass of the loop. -/
theorem walk_pointer (hlabel : s.AtLabel) (hc : byteAt data s.place = some c) (hpointer : isPointer c = true)
    (hch : byteAt data (s.indexMode, s.place.2 + 1) = some ch) :
    TransGen (Passes data) s (s.afterPointer c ch) := .single (body_pointer hlabel hc hpointer hch)

end Hostname

end inspector.vpn.DNS
