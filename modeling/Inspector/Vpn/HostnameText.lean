import Inspector.Vpn.HostnameLoop

open Relation

namespace inspector.vpn.DNS

/-- A name as the loop reads it: the labels from some place on. Behind a pointer the
bytes keep their signs. -/
inductive Name (data : List UInt8) : Place → List (List Int) → Prop where
  | root {p : Place} (hroot : byteAt data p = some 0) : Name data p []
  | label {signed : Bool} {i c : Int} {w : List Int} {labels : List (List Int)}
    (hc : byteAt data (signed, i) = some c) (hpositive : 0 < c) (hpointer : isPointer c = false)
    (hw : bytesAt data signed (i + 1) c.toNat = some w) (hrest : Name data (signed, i + 1 + c) labels) :
    Name data (signed, i) (w :: labels)
  | pointer {signed : Bool} {i c ch : Int} {labels : List (List Int)} (hc : byteAt data (signed, i) = some c)
    (hpointer : isPointer c = true) (hch : byteAt data (signed, i + 1) = some ch)
    (hrest : Name data (true, target c ch) labels) : Name data (signed, i) labels

/-- Where the bytes of a name end before any pointer is followed. -/
inductive Field (data : List UInt8) : Nat → Nat → Prop where
  | root {i : Nat} (hroot : byteAt data (false, i) = some 0) : Field data i (i + 1)
  | label {i c e : Nat} (hc : byteAt data (false, i) = some (c : Int)) (hpositive : 0 < c)
    (hpointer : isPointer c = false)
    (hrest : Field data (i + 1 + c) e) : Field data i e
  | pointer {i : Nat} {c : Int} (hc : byteAt data (false, i) = some c) (hpointer : isPointer c = true) :
    Field data i (i + 2)

/-- The labels with a dot before each. -/
def dotted (labels : List (List Int)) : List (BitVec 16) :=
  labels.flatMap fun w => BitVec.ofNat 16 '.'.toNat :: w.map (BitVec.ofInt 16)

def text (labels : List (List Int)) : List (BitVec 16) := (dotted labels).tail

namespace Hostname

variable {data : List UInt8} {s s' : Hostname}

/-- What happens at the beginning of a label. -/
theorem label_cases (data : List UInt8) (hlabel : s.AtLabel) :
    byteAt data s.place = some 0 ∨
    (∃ c ch, byteAt data s.place = some c ∧ isPointer c = true ∧ byteAt data (s.indexMode, s.place.2 + 1) = some ch) ∨
    (∃ c w, byteAt data s.place = some c ∧ 0 < c ∧ isPointer c = false ∧
      bytesAt data s.indexMode (s.place.2 + 1) c.toNat = some w) ∨
    ∃ e, Returns data s (.error e) := by
  cases hc : byteAt data s.place with
  | none =>
    obtain ⟨e, he⟩ := body_error hc
    exact .inr (.inr (.inr ⟨e, returns_error he⟩))
  | some c =>
    by_cases hzero : c = 0
    · exact .inl (by rw [hzero])
    cases hpointer : isPointer c with
    | true =>
      cases hch : byteAt data (s.indexMode, s.place.2 + 1) with
      | some ch => exact .inr (.inl ⟨c, ch, rfl, hpointer, rfl⟩)
      | none =>
        obtain ⟨e, he⟩ := body_pointer_error hlabel hc hpointer hch
        exact .inr (.inr (.inr ⟨e, returns_error he⟩))
    | false =>
      have hpass : Passes data s (s.afterLength c) := body_label hlabel hc hzero hpointer
      have hmode : (s.afterLength c).indexMode = s.indexMode := indexMode_advance
      rcases Int.lt_trichotomy c 0 with hnegative | rfl | hpositive
      · have hother : c ≠ -1 := by
          rintro rfl
          cases hpointer
        have herror : ∃ e, Returns data (s.afterLength c) (.error e) := error_of_negative (show c < -1 by omega)
        obtain ⟨e, he⟩ := herror
        exact .inr (.inr (.inr ⟨e, he.of_walk (.single hpass)⟩))
      · exact absurd rfl hzero
      · cases hw : bytesAt data s.indexMode (s.place.2 + 1) c.toNat with
        | some w => exact .inr (.inr (.inl ⟨c, w, rfl, hpositive, hpointer, hw⟩))
        | none =>
          have hlen : (s.afterLength c).len = c.toNat := by
            simp only [afterLength]
            omega
          have herror : ∃ e, Returns data (s.afterLength c) (.error e) :=
            error_of_chars hlen (by rw [hmode, place_afterLength]; exact hw)
          obtain ⟨e, he⟩ := herror
          exact .inr (.inr (.inr ⟨e, he.of_walk (.single hpass)⟩))

/-- What the loop adds for the labels that are left. -/
def rest (s : Hostname) (labels : List (List Int)) : List (BitVec 16) :=
  if s.len = 0 then dotted labels else text labels

theorem place_stream (hmode : s.indexMode = false) : s.place = (false, (s.position : Int)) := by
  simp [place, hmode]

/-- A name is read to its end. -/
theorem returns_of_name {p : Place} {labels : List (List Int)} (hname : Name data p labels) (hlabel : s.AtLabel)
    (hplace : s.place = p) :
    ∃ s', Returns data s (.ok s') ∧ s'.sb = s.sb ++ s.rest labels ∧ (s.indexMode = true → s'.position = s.position) ∧
      (s.indexMode = false → Field data s.position s'.position) := by
  induction hname generalizing s with
  | @root p hroot =>
    subst hplace
    refine ⟨s.advance, returns_end (body_end hlabel hroot), by simp [rest, dotted, text], position_advance,
      fun hmode => ?_⟩
    have hposition : s.advance.position = s.position + 1 := by simp [advance, hmode]
    rw [place_stream hmode] at hroot
    exact hposition ▸ .root hroot
  | @label signed i c w labels hc hpositive hpointer hw _ ih =>
    obtain ⟨rfl, rfl⟩ := Prod.ext_iff.mp hplace
    obtain ⟨s₁, hwalk, hend, hsb, hplace₁, hposition₁⟩ := walk_label hlabel hc hpositive hpointer hw
    obtain ⟨s', hreturns, hsb', hposition, hfield⟩ := ih (.inr hend) hplace₁
    have hmode : s₁.indexMode = s.indexMode := congrArg Prod.fst hplace₁
    refine ⟨s', hreturns.of_walk hwalk.to_reflTransGen, ?_, fun hindex => ?_, fun hstream => ?_⟩
    · rw [hsb', hsb]
      unfold rest separated
      rw [if_pos hend]
      by_cases hzero : s.len = 0
      · simp [hzero, dotted]
      · simp [hzero, dotted, text]
    · rw [hposition (hmode.trans hindex), hposition₁ hindex]
    · have hat : (s₁.position : Int) = s.position + 1 + c := by
        have hboth := (place_stream (hmode.trans hstream)).symm.trans hplace₁
        rw [place_stream hstream] at hboth
        exact congrArg Prod.snd hboth
      have hc' : byteAt data (false, (s.position : Int)) = some (c.toNat : Int) := by
        rw [← place_stream hstream, Int.toNat_of_nonneg (by omega)]
        exact hc
      have hposition' : s₁.position = s.position + 1 + c.toNat := by omega
      refine .label hc' (by omega) (by rwa [Int.toNat_of_nonneg (by omega)]) ?_
      rw [← hposition']
      exact hfield (hmode.trans hstream)
  | @pointer signed i c ch labels hc hpointer hch _ ih =>
    obtain ⟨rfl, rfl⟩ := Prod.ext_iff.mp hplace
    have hwalk := walk_pointer hlabel hc hpointer hch
    have hlen : (s.afterPointer c ch).len = s.len := by simp [afterPointer]
    obtain ⟨s', hreturns, hsb', hposition, -⟩ := ih (s := s.afterPointer c ch)
      (by unfold AtLabel; rwa [hlen]) rfl
    refine ⟨s', hreturns.of_walk hwalk.to_reflTransGen, ?_, fun hindex => ?_, fun hstream => ?_⟩
    · rw [hsb']
      simp [rest, afterPointer]
    · rw [hposition rfl]
      simp only [afterPointer]
      rw [position_advance (by simpa using hindex), position_advance hindex]
    · have hat : s'.position = s.position + 2 := by
        rw [hposition rfl]
        simp [afterPointer, advance, hstream]
      rw [hat]
      have hc' : byteAt data s.place = some c := hc
      rw [place_stream hstream] at hc'
      exact .pointer hc' hpointer

/-- What is read to its end is a name. -/
theorem name_of_returns {fuel : Nat} (hlabel : s.AtLabel) (hfuel : getHostname data fuel s = some (.ok s')) :
    ∃ labels, Name data s.place labels := by
  induction fuel using Nat.strong_induction_on generalizing s with
  | _ fuel ih =>
    rcases label_cases data hlabel with hend | ⟨c, ch, hc, hpointer, hch⟩ | ⟨c, w, hc, hpositive, hpointer, hw⟩ |
      ⟨e, he⟩
    · exact ⟨[], .root hend⟩
    · obtain ⟨fuel', hlt, hfuel'⟩ := exists_fuel_lt (walk_pointer hlabel hc hpointer hch) hfuel
      have hlen : (s.afterPointer c ch).len = s.len := by simp [afterPointer]
      obtain ⟨labels, hname⟩ := ih fuel' hlt (by unfold AtLabel; rwa [hlen]) hfuel'
      exact ⟨labels, .pointer hc hpointer hch hname⟩
    · obtain ⟨s₁, hwalk, hend, -, hplace, -⟩ := walk_label hlabel hc hpositive hpointer hw
      obtain ⟨fuel', hlt, hfuel'⟩ := exists_fuel_lt hwalk hfuel
      obtain ⟨labels, hname⟩ := ih fuel' hlt (.inr hend) hfuel'
      exact ⟨w :: labels, .label hc hpositive hpointer hw (hplace ▸ hname)⟩
    · cases he.unique ⟨fuel, hfuel⟩

end Hostname

end inspector.vpn.DNS
