import Inspector.Base.Throwing
import Inspector.Dex.After

open throwing

namespace inspector.dex

namespace BufferM

variable {b : DirectBuffer}

/-- A byte before the limit is read without moving. -/
theorem getAt_run {index : Nat} (hindex : index < b.limit) :
    (getAt index).run.run b = (.ok (b.bytes.getD index 0), b) := by
  have hget : (getAt index).run.run b =
      (if index < b.limit then pure (b.bytes.getD index 0) else throw .indexOutOfBounds : BufferM UInt8).run.run b :=
  rfl
  rw [hget, if_pos hindex]
  rfl

/-- A read at the limit or behind it throws. -/
theorem getAt_error {index : Nat} (hindex : ¬ index < b.limit) :
    (getAt index).run.run b = (.error .indexOutOfBounds, b) := by
  have hget : (getAt index).run.run b =
      (if index < b.limit then pure (b.bytes.getD index 0) else throw .indexOutOfBounds : BufferM UInt8).run.run b :=
  rfl
  rw [hget, if_neg hindex]
  rfl

/-- The positions that a buffer can be set to. -/
abbrev InLimit (newPosition : BitVec 32) (most : Nat) : Prop := ¬ newPosition.msb ∧ newPosition.toNat ≤ most

/-- A position up to the limit is taken. -/
theorem position_run {newPosition : BitVec 32} (hlimit : InLimit newPosition b.limit) :
    (position newPosition).run.run b = (.ok (), b.setPosition newPosition.toNat hlimit.2) := by
  have hposition : (position newPosition).run.run b =
      (if hlimit : ¬ newPosition.msb ∧ newPosition.toNat ≤ b.limit then
        set (b.setPosition newPosition.toNat hlimit.2) else throw .illegalArgument : BufferM Unit).run.run b := rfl
  rw [hposition, dif_pos hlimit]
  rfl

/-- A position behind the limit is refused, and the buffer stays as it was. -/
theorem position_error {newPosition : BitVec 32} (hlimit : ¬ InLimit newPosition b.limit) :
    (position newPosition).run.run b = (.error .illegalArgument, b) := by
  have hposition : (position newPosition).run.run b =
      (if hlimit : ¬ newPosition.msb ∧ newPosition.toNat ≤ b.limit then
        set (b.setPosition newPosition.toNat hlimit.2) else throw .illegalArgument : BufferM Unit).run.run b := rfl
  rw [hposition, dif_neg hlimit]
  rfl

/-- A limit up to the capacity is taken. -/
theorem limit_run {newLimit : BitVec 32} (hcapacity : InLimit newLimit b.bytes.length) :
    (limit newLimit).run.run b = (.ok (), b.setLimit newLimit.toNat hcapacity.2) := by
  have hlimit : (limit newLimit).run.run b =
      (if hcapacity : ¬ newLimit.msb ∧ newLimit.toNat ≤ b.bytes.length then
        set (b.setLimit newLimit.toNat hcapacity.2) else throw .illegalArgument : BufferM Unit).run.run b := rfl
  rw [hlimit, dif_pos hcapacity]
  rfl

/-- A limit behind the capacity is refused, and the buffer stays as it was. -/
theorem limit_error {newLimit : BitVec 32} (hcapacity : ¬ InLimit newLimit b.bytes.length) :
    (limit newLimit).run.run b = (.error .illegalArgument, b) := by
  have hlimit : (limit newLimit).run.run b =
      (if hcapacity : ¬ newLimit.msb ∧ newLimit.toNat ≤ b.bytes.length then
        set (b.setLimit newLimit.toNat hcapacity.2) else throw .illegalArgument : BufferM Unit).run.run b := rfl
  rw [hlimit, dif_neg hcapacity]
  rfl

end BufferM

/-- The number at an index, which is zero where there is none. -/
def intAt (bytes : List UInt8) (index : Nat) : BitVec 32 :=
  match (Section.readInt index).run bytes with
  | .ok (i, _) => i
  | .error _ => 0

/-- A section reads a byte that it has. -/
theorem readByte_run {data : List UInt8} {position : Nat} (hposition : position < data.length) :
    (Section.readByte position).run data = .ok (data[position], position + 1) := by
  unfold Section.readByte
  rw [Reader.run, List.getElem?_eq_getElem hposition]
  rfl

/-- A section reads an int of which it has all bytes. -/
theorem readInt_run {data : List UInt8} {position : Nat} (hroom : position + 4 ≤ data.length) :
    (Section.readInt position).run data = .ok (intAt data position, position + 4) := by
  have hread : ∃ i, (Section.readInt position).run data = .ok (i, position + 4) := by
    refine ⟨_, Section.run_bind_eq_ok.mpr ⟨_, _, Section.run_bind_eq_ok.mpr ⟨_, _, readByte_run (by omega),
      Section.run_bind_eq_ok.mpr ⟨_, _, readByte_run (by omega), rfl⟩⟩,
      Section.run_bind_eq_ok.mpr ⟨_, _, Section.run_bind_eq_ok.mpr ⟨_, _, readByte_run (by omega),
        Section.run_bind_eq_ok.mpr ⟨_, _, readByte_run (by omega), rfl⟩⟩, rfl⟩⟩⟩
  obtain ⟨i, hi⟩ := hread
  rw [intAt, hi]

namespace BufferM

variable {b : DirectBuffer}

/-- The buffer reads an int before its limit and moves behind it. -/
theorem getInt_run (hroom : b.position + 4 ≤ b.limit) :
    getInt.run.run b = (.ok (intAt b.bytes b.position), b.setPosition (b.position + 4) hroom) := by
  have hread := readInt_run (Nat.le_trans hroom b.limit_le)
  have hget : getInt.run.run b = (if hroom : b.position + 4 ≤ b.limit then do
      set (b.setPosition (b.position + 4) hroom)
      match (Section.readInt b.position).run b.bytes with
      | .ok (i, _) => return i
      | .error e => throw e
    else throw .bufferUnderflow : BufferM (BitVec 32)).run.run b := rfl
  rw [hget, dif_pos hroom, hread]
  rfl

/-- Less than four bytes before the limit are an underflow. -/
theorem getInt_error (hroom : ¬ b.position + 4 ≤ b.limit) : getInt.run.run b = (.error .bufferUnderflow, b) := by
  have hget : getInt.run.run b = (if hroom : b.position + 4 ≤ b.limit then do
      set (b.setPosition (b.position + 4) hroom)
      match (Section.readInt b.position).run b.bytes with
      | .ok (i, _) => return i
      | .error e => throw e
    else throw .bufferUnderflow : BufferM (BitVec 32)).run.run b := rfl
  rw [hget, dif_neg hroom]
  rfl

end BufferM

/-- The magic number of an `.odex` file. -/
def DirectBuffer.OdexMagic (b : DirectBuffer) : Prop :=
  4 ≤ b.limit ∧ b.bytes.getD 0 0 = 0x64 ∧ b.bytes.getD 1 0 = 0x65 ∧ b.bytes.getD 2 0 = 0x79 ∧ b.bytes.getD 3 0 = 0x0a

/-- The header of an `.odex` file, as far as it is read, leaves the mark and the limit of a buffer
where they are. -/
def DirectBuffer.Keeps (b : DirectBuffer) : Prop :=
  b.OdexMagic → 8 ≤ b.limit → b.position ≤ 8 ∧
    (16 ≤ b.limit → BufferM.InLimit (intAt b.bytes 8) b.limit → b.position ≤ (intAt b.bytes 8).toNat ∧
      (BufferM.InLimit (intAt b.bytes 8 + intAt b.bytes 12) b.bytes.length →
        (intAt b.bytes 8 + intAt b.bytes 12).toNat = b.limit))

namespace Dex

variable {b : DirectBuffer}

/-- One byte of the magic number. -/
theorem byte_run (index : Nat) (c : UInt8) {rest : BufferM Bool} {P : Prop}
    (hrest : ∃ r, rest.run.run b = (r, b) ∧ (r = .ok true ↔ P)) :
    ∃ r, (BufferM.getAt index >>= fun byte => if byte ≠ c then pure false else rest).run.run b = (r, b) ∧
      (r = .ok true ↔ index < b.limit ∧ b.bytes.getD index 0 = c ∧ P) := by
  by_cases hindex : index < b.limit
  · rw [Block.run_bind (BufferM.getAt_run hindex), and_iff_right hindex]
    by_cases hbyte : b.bytes.getD index 0 = c
    · rw [if_neg (not_not.mpr hbyte), and_iff_right hbyte]
      exact hrest
    · rw [if_pos hbyte]
      exact ⟨.ok false, rfl, iff_of_false (by simp) fun h => hbyte h.1⟩
  · exact ⟨_, Block.run_bind_error (BufferM.getAt_error hindex), iff_of_false (by simp) fun h => hindex h.1⟩

/-- The magic is looked at without moving, and found or not. -/
theorem isOdex_run (b : DirectBuffer) : ∃ r, isOdex.run.run b = (r, b) ∧ (r = .ok true ↔ b.OdexMagic) := by
  have hlast : ∃ r, (BufferM.getAt 3 >>= fun byte => pure (decide (byte = 0x0a)) : BufferM Bool).run.run b = (r, b) ∧
      (r = .ok true ↔ 3 < b.limit ∧ b.bytes.getD 3 0 = 0x0a) := by
    by_cases hindex : 3 < b.limit
    · rw [Block.run_bind (BufferM.getAt_run hindex), and_iff_right hindex]
      exact ⟨_, rfl, by simp⟩
    · exact ⟨_, Block.run_bind_error (BufferM.getAt_error hindex), iff_of_false (by simp) fun h => hindex h.1⟩
  obtain ⟨r, hrun, hr⟩ := byte_run 0 0x64 (byte_run 1 0x65 (byte_run 2 0x79 hlast))
  refine ⟨r, hrun, hr.trans ?_⟩
  unfold DirectBuffer.OdexMagic
  constructor
  · rintro ⟨-, hd, -, he, -, hy, hlimit, hnewline⟩
    exact ⟨hlimit, hd, he, hy, hnewline⟩
  · rintro ⟨hlimit, hd, he, hy, hnewline⟩
    exact ⟨by omega, hd, by omega, he, by omega, hy, hlimit, hnewline⟩

/-- A buffer that has been read. Its mark is there while some condition holds. -/
structure Frame (b : DirectBuffer) (kept : Prop) (s : DirectBuffer) : Prop where
  bytes : s.bytes = b.bytes
  limit : s.limit = b.limit
  mark : s.mark = some b.position ↔ kept
  only : ∀ m ∈ s.mark, m = b.position

variable {s : DirectBuffer} {kept : Prop}

/-- Setting the mark is all that happens before the buffer is opened. -/
theorem frame_setMark (b : DirectBuffer) : Frame b True b.setMark :=
  ⟨rfl, rfl, iff_of_true rfl trivial, fun _ hm => (Option.mem_some.mp hm).symm⟩

/-- What keeps the mark may be said in other words. -/
theorem Frame.congr {other : Prop} (hframe : Frame b kept s) (hiff : kept ↔ other) : Frame b other s :=
  ⟨hframe.bytes, hframe.limit, hframe.mark.trans hiff, hframe.only⟩

/-- A position before the marked one discards the mark. -/
theorem Frame.setPosition (hframe : Frame b kept s) (p : Nat) (hp : p ≤ s.limit) :
    Frame b (kept ∧ b.position ≤ p) (s.setPosition p hp) := by
  refine ⟨hframe.bytes, hframe.limit, ?_, fun m hm => hframe.only m (Option.filter_eq_some_iff.mp hm).1⟩
  rw [← hframe.mark, DirectBuffer.setPosition, Option.filter_eq_some_iff, decide_eq_true_eq]

/-- The same for a position that is asked for. -/
theorem Frame.position (hframe : Frame b kept s) {p : BitVec 32} (hp : BufferM.InLimit p b.limit) :
    ∃ after, (BufferM.position p).run.run s = (.ok (), after) ∧ Frame b (kept ∧ b.position ≤ p.toNat) after ∧
      after.position = p.toNat := by
  rw [← hframe.limit] at hp
  exact ⟨_, BufferM.position_run hp, hframe.setPosition p.toNat hp.2, rfl⟩

/-- Reading an int moves on by four bytes. -/
theorem Frame.getInt (hframe : Frame b kept s) {p : Nat} (hp : s.position = p) (hroom : p + 4 ≤ b.limit) :
    ∃ after, BufferM.getInt.run.run s = (.ok (intAt b.bytes p), after) ∧ Frame b (kept ∧ b.position ≤ p + 4) after ∧
      after.position = p + 4 := by
  subst hp
  rw [← hframe.limit] at hroom
  rw [← hframe.bytes]
  exact ⟨_, BufferM.getInt_run hroom, hframe.setPosition _ hroom, rfl⟩

/-- What the opening of the dex section does to a marked buffer. -/
structure SectionOpened (b after : DirectBuffer) : Prop where
  bytes : after.bytes = b.bytes
  same : after.mark = some b.position ∧ after.limit = b.limit ↔ b.Keeps
  only : ∀ m ∈ after.mark, m = b.position

/-- Once the section is opened, the mark is kept exactly under the condition on entry. -/
theorem Frame.opened (hframe : Frame b kept s) (hkeeps : b.Keeps ↔ kept) : SectionOpened b s := by
  refine ⟨hframe.bytes, ?_, hframe.only⟩
  rw [hkeeps, ← hframe.mark]
  exact and_iff_left hframe.limit

/-- A section that is a part of a buffer. -/
structure Part (bytes : List UInt8) (section_ : DexSection) : Prop where
  data : section_.data = (bytes.drop section_.start).take section_.data.length
  fits : section_.start + section_.data.length ≤ bytes.length

/-- The section between the position and the limit. -/
def remaining (s : DirectBuffer) : DexSection where
  start := s.position
  data := (s.bytes.drop s.position).take (s.limit - s.position)
  limit := ((s.bytes.drop s.position).take (s.limit - s.position)).length

/-- What remains of a buffer is a part of its bytes. -/
theorem part_remaining (s : DirectBuffer) : Part s.bytes (remaining s) := by
  have hposition := s.position_le
  have hlimit := s.limit_le
  have hlength : (remaining s).data.length = s.limit - s.position := by
    rw [remaining, List.length_take, List.length_drop]
    omega
  constructor
  · rw [hlength]
    rfl
  · rw [hlength]
    change s.position + (s.limit - s.position) ≤ s.bytes.length
    omega

/-- Taking what remains leaves the buffer as it is. -/
theorem remaining_run (s : DirectBuffer) :
    (do let b ← get
        let data := (b.bytes.drop b.position).take (b.limit - b.position)
        return { start := b.position, data, limit := data.length } : BufferM DexSection).run.run s =
      (.ok (remaining s), s) := rfl

/-- The mark is lost where the position is set to less, and the limit is left where it is set. -/
theorem dexSection_run (b : DirectBuffer) : ∃ r after, dexSection.run.run b.setMark = (r, after) ∧
    SectionOpened b after ∧ ∀ section_, r = .ok section_ → Part b.bytes section_ := by
  have hstart := frame_setMark b
  obtain ⟨r, hrun, hmagic⟩ := isOdex_run b.setMark
  by_cases hodex : b.OdexMagic
  swap
  · have hopened := hstart.opened (iff_of_true (fun h => absurd h hodex) trivial)
    cases r with
    | error e => exact ⟨_, _, Block.run_bind_error hrun, hopened, fun _ h => by cases h⟩
    | ok odex =>
      cases odex with
      | true => exact absurd (hmagic.mp rfl) hodex
      | false =>
        refine ⟨_, _, Block.run_bind hrun, hopened, fun section_ hsection => ?_⟩
        cases hsection
        exact ⟨by simp [DirectBuffer.setMark], by simp [DirectBuffer.setMark]⟩
  rw [hmagic.mpr hodex] at hrun
  unfold dexSection
  rw [Block.run_bind hrun, if_pos rfl]
  by_cases height : 8 ≤ b.limit
  swap
  · have hnot : ¬ BufferM.InLimit 8 b.setMark.limit := fun h => height h.2
    exact ⟨_, _, Block.run_bind_error (BufferM.position_error hnot),
      hstart.opened (iff_of_true (fun _ h => absurd h height) trivial), fun _ h => by cases h⟩
  have hkeeps : b.Keeps ↔ b.position ≤ 8 ∧ _ := (forall_prop_of_true hodex).trans (forall_prop_of_true height)
  obtain ⟨first, hrun, hfirst, hposition⟩ := hstart.position (p := 8) ⟨by decide, height⟩
  rw [Block.run_bind hrun]
  -- the two numbers behind the magic
  have hshort (hnot : ¬ 16 ≤ b.limit) : b.Keeps ↔ b.position ≤ 8 :=
    hkeeps.trans (and_iff_left fun h => absurd h hnot)
  have hfirst : Frame b (b.position ≤ 8) first := hfirst.congr (and_iff_right trivial)
  have hposition : first.position = 8 := hposition
  by_cases htwelve : 12 ≤ b.limit
  swap
  · have hnot : ¬ first.position + 4 ≤ first.limit := by
      rw [hposition, hfirst.limit]
      exact htwelve
    refine ⟨_, _, Block.run_bind_error (BufferM.getInt_error hnot), hfirst.opened ?_, fun _ h => by cases h⟩
    exact hshort (by omega)
  obtain ⟨second, hrun, hsecond, hposition⟩ := hfirst.getInt hposition htwelve
  have hsecond : Frame b (b.position ≤ 8) second := hsecond.congr (by omega)
  rw [Block.run_bind hrun]
  by_cases hsixteen : 16 ≤ b.limit
  swap
  · have hnot : ¬ second.position + 4 ≤ second.limit := by
      rw [hposition, hsecond.limit]
      exact hsixteen
    refine ⟨_, _, Block.run_bind_error (BufferM.getInt_error hnot), hsecond.opened ?_, fun _ h => by cases h⟩
    exact hshort hsixteen
  obtain ⟨third, hrun, hthird, -⟩ := hsecond.getInt (p := 12) hposition hsixteen
  have hthird : Frame b (b.position ≤ 8) third := hthird.congr (by omega)
  rw [Block.run_bind hrun]
  rw [forall_prop_of_true hsixteen] at hkeeps
  -- the section that they are the bounds of
  by_cases hoffset : BufferM.InLimit (intAt b.bytes 8) b.limit
  swap
  · have hnot : ¬ BufferM.InLimit (intAt b.bytes 8) third.limit := by rwa [hthird.limit]
    refine ⟨_, _, Block.run_bind_error (BufferM.position_error hnot), hthird.opened ?_, fun _ h => by cases h⟩
    rw [hkeeps, and_iff_left fun h => absurd h hoffset]
  obtain ⟨fourth, hrun, hfourth, -⟩ := hthird.position hoffset
  rw [Block.run_bind hrun]
  rw [forall_prop_of_true hoffset] at hkeeps
  by_cases hlength : BufferM.InLimit (intAt b.bytes 8 + intAt b.bytes 12) b.bytes.length
  swap
  · have hnot : ¬ BufferM.InLimit (intAt b.bytes 8 + intAt b.bytes 12) fourth.bytes.length := by
      rwa [hfourth.bytes]
    refine ⟨_, _, Block.run_bind_error (BufferM.limit_error hnot), hfourth.opened ?_, fun _ h => by cases h⟩
    rw [hkeeps, and_iff_left fun h => absurd h hlength]
  have hcapacity : BufferM.InLimit (intAt b.bytes 8 + intAt b.bytes 12) fourth.bytes.length := by
    rwa [hfourth.bytes]
  rw [Block.run_bind (BufferM.limit_run hcapacity)]
  rw [forall_prop_of_true hlength] at hkeeps
  refine ⟨_, _, remaining_run _, ⟨hfourth.bytes, ?_, ?_⟩, fun section_ hsection => ?_⟩
  rotate_left
  · exact fun m hm => hfourth.only m (Option.filter_eq_some_iff.mp hm).1
  · have hpart := part_remaining (fourth.setLimit _ hcapacity.2)
    have hbytes : (fourth.setLimit _ hcapacity.2).bytes = b.bytes := hfourth.bytes
    rw [hbytes, Except.ok.inj hsection] at hpart
    exact hpart
  rw [hkeeps]
  constructor
  · rintro ⟨hmark, hlimit⟩
    have hkept := hfourth.mark.mp (Option.filter_eq_some_iff.mp hmark).1
    exact ⟨hkept.1, hkept.2, hlimit⟩
  · rintro ⟨hposition, hle, hlimit⟩
    refine ⟨Option.filter_eq_some_iff.mpr ⟨hfourth.mark.mpr ⟨hposition, hle⟩, decide_eq_true ?_⟩, hlimit⟩
    have hend := b.position_le
    omega

/-- Whatever becomes of a dex, the bytes of the buffer stay the same and its section is a part
of them. -/
theorem create_run (b : DirectBuffer) : ∃ r after, create.run.run b.setMark = (r, after) ∧
    SectionOpened b after ∧ ∀ dex section_, r = .ok (dex, section_) → Part b.bytes section_ := by
  obtain ⟨r, after, hrun, hopened, hpart⟩ := dexSection_run b
  unfold create
  cases r with
  | error e => exact ⟨_, _, Block.run_bind_error hrun, hopened, fun _ _ h => by cases h⟩
  | ok section_ =>
    rw [Block.run_bind hrun]
    dsimp only
    split
    · refine ⟨_, _, rfl, hopened, fun dex other hother => ?_⟩
      cases hother
      exact hpart section_ rfl
    · exact ⟨_, _, rfl, hopened, fun _ _ h => by cases h⟩

end Dex

end inspector.dex
