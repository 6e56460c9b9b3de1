import Inspector.Base.Long
import Inspector.Unicorn.AssemblyCodeDumper

open throwing long

namespace inspector.unicorn

section Record

variable {Alt : Type} («begin» «end» : BitVec 64) (alts : List Alt) (memory : CodeMemory)

/-- An instruction that lies in the range, as the addresses are numbers. -/
def Callback.Inside (c : Callback Alt) : Prop :=
  «begin».toInt ≤ c.address.toInt ∧ c.address.toInt + c.size ≤ «end».toInt

/-- The instruction has the byte at an offset of the range, and is executed as it is. -/
structure Callback.Executes (c : Callback Alt) (i : Nat) : Prop where
  kept : alts.any c.replaceFunction = false
  inside : c.Inside «begin» «end»
  first : c.address.toInt ≤ «begin».toInt + i
  last : «begin».toInt + i < c.address.toInt + c.size

/-- An instruction that is not the last one of the range. The address behind it is at
most the greatest one, unless the instruction is out of the range all the same. -/
structure Callback.Before (c : Callback Alt) : Prop where
  ends : «begin».toInt ≤ c.address.toInt → 0 < c.size → c.address.toInt + c.size ≠ «end».toInt
  behind : «begin».toInt ≤ c.address.toInt → c.address.toInt + c.size < 2 ^ 63 ∨
    «end».toInt ≤ c.address.toInt + c.size - 2 ^ 64

/-- The range has the bytes of the executed instructions, and is unchanged elsewhere. -/
structure Recorded (callbacks : List (Callback Alt)) (before after : List UInt8) : Prop where
  length : after.length = before.length
  executed : ∀ i < before.length, (∃ c ∈ callbacks, c.Executes «begin» «end» alts i) →
    after[i]? = some (memory («begin» + BitVec.ofNat 64 i))
  others : ∀ i < before.length, (¬ ∃ c ∈ callbacks, c.Executes «begin» «end» alts i) → after[i]? = before[i]?

end Record

namespace Recorded

variable {Alt : Type} {«begin» «end» : BitVec 64} {alts : List Alt} {memory : CodeMemory}
  {first second : List (Callback Alt)} {old middle data : List UInt8} {c : Callback Alt}

theorem nil : Recorded «begin» «end» alts memory [] data data where
  length := rfl
  executed i _ := by
    rintro ⟨c, hc, -⟩
    cases hc
  others i _ _ := rfl

/-- The bytes of a memory that does not change are the same at any time. -/
theorem append (hfirst : Recorded «begin» «end» alts memory first old middle)
    (hsecond : Recorded «begin» «end» alts memory second middle data) :
    Recorded «begin» «end» alts memory (first ++ second) old data where
  length := hsecond.length.trans hfirst.length
  executed i hi := by
    rintro ⟨c, hc, hexecutes⟩
    have himiddle : i < middle.length := hfirst.length ▸ hi
    by_cases hlater : ∃ c ∈ second, c.Executes «begin» «end» alts i
    · exact hsecond.executed i himiddle hlater
    · rw [hsecond.others i himiddle hlater]
      rcases List.mem_append.mp hc with hc | hc
      · exact hfirst.executed i hi ⟨c, hc, hexecutes⟩
      · exact absurd ⟨c, hc, hexecutes⟩ hlater
  others i hi hnot := by
    have himiddle : i < middle.length := hfirst.length ▸ hi
    rw [hsecond.others i himiddle, hfirst.others i hi]
    · rintro ⟨c, hc, hexecutes⟩
      exact hnot ⟨c, List.mem_append_left _ hc, hexecutes⟩
    · rintro ⟨c, hc, hexecutes⟩
      exact hnot ⟨c, List.mem_append_right _ hc, hexecutes⟩

/-- An instruction without a byte in the range records nothing. -/
theorem skip (hskip : ∀ i < data.length, ¬ c.Executes «begin» «end» alts i) :
    Recorded «begin» «end» alts memory [c] data data where
  length := rfl
  executed i hi := by
    rintro ⟨d, hd, hexecutes⟩
    rw [List.mem_singleton] at hd
    subst hd
    exact absurd hexecutes (hskip i hi)
  others i _ _ := rfl

/-- An instruction that is copied to its place. -/
theorem overwrite {k : Nat} (hkept : alts.any c.replaceFunction = false) (hinside : c.Inside «begin» «end»)
    (hlength : «end».toInt = «begin».toInt + data.length) (hk : c.address.toInt = «begin».toInt + k) :
    Recorded «begin» «end» alts memory [c] data (data.overwrite k (mem_read memory c.address c.size)) where
  length := List.length_overwrite _ _ _
  executed i hi := by
    rintro ⟨d, hd, hexecutes⟩
    rw [List.mem_singleton] at hd
    subst hd
    have hfirst := hexecutes.first
    have hlast := hexecutes.last
    have hend := hinside.2
    obtain ⟨j, rfl⟩ := Nat.exists_eq_add_of_le (show k ≤ i by omega)
    have hj : j < d.size := by omega
    rw [List.getElem?_overwrite (by simpa [mem_read] using hj)
      (by simp only [mem_read, List.length_map, List.length_range]; omega)]
    simp [mem_read, hj, eq_add_ofNat hk, BitVec.ofNat_add, BitVec.add_assoc]
  others i hi hnot := by
    have hexecutes : ¬ c.Executes «begin» «end» alts i := fun h => hnot ⟨c, List.mem_singleton_self c, h⟩
    by_cases hbefore : i < k
    · exact List.getElem?_overwrite_before hbefore
    · apply List.getElem?_overwrite_after
      simp only [mem_read, List.length_map, List.length_range]
      by_contra hlast
      exact hexecutes ⟨hkept, hinside, by omega, by omega⟩

end Recorded

namespace AssemblyCodeDumper
variable {Alt : Type} {memory : CodeMemory} {s : AssemblyCodeDumper Alt} {c : Callback Alt} {data copied : List UInt8}
  {«begin» «end» : BitVec 64}

theorem run_get (s : AssemblyCodeDumper Alt) : (get : M Alt (AssemblyCodeDumper Alt)).run.run s = (.ok s, s) := rfl

theorem run_set (s next : AssemblyCodeDumper Alt) : (set next : M Alt PUnit).run.run s = (.ok (), next) := rfl

/-- Whether the hook copies an instruction. -/
def covers (s : AssemblyCodeDumper Alt) (c : Callback Alt) : Bool :=
  s.dumpBegin.sle c.address && (c.address + BitVec.ofNat 64 c.size).slt s.dumpEnd

/-- An instruction outside of the range is not copied. -/
theorem run_record_of_not (hnot : s.covers c = false) : (record memory c).run.run s = (.ok (), s) := by
  unfold covers at hnot
  unfold record
  rw [Block.run_bind (run_get s)]
  cases hbuffer : s.dumpBuffer with
  | none => rfl
  | some data =>
    simp only [hnot]
    rfl

/-- An instruction within the range is copied to its place. -/
theorem run_record (hbuffer : s.dumpBuffer = some data) (hcovers : s.covers c = true)
    (hcopy : arraycopy (mem_read memory c.address c.size) data ((c.address - s.dumpBegin).setWidth 32) = some copied) :
    (record memory c).run.run s = (.ok (), { s with dumpBuffer := some copied }) := by
  unfold covers at hcovers
  unfold record
  rw [Block.run_bind (run_get s), hbuffer]
  simp only [hcovers, if_true, hcopy]
  rfl

/-- An array that is put back changes nothing. -/
theorem setBuffer_eq (hbuffer : s.dumpBuffer = some data) : { s with dumpBuffer := some data } = s := by
  rw [← hbuffer]

/-- What the hook copies lies in the range. -/
theorem inside_of_covers (hbefore : c.Before s.dumpBegin s.dumpEnd) (hcovers : s.covers c = true) :
    c.Inside s.dumpBegin s.dumpEnd := by
  have hlt := c.size_lt
  have hbounds := c.address.toInt_lt
  rw [covers, Bool.and_eq_true, BitVec.sle_iff_toInt_le, BitVec.slt_iff_toInt_lt] at hcovers
  obtain ⟨hbegin, hend⟩ := hcovers
  refine ⟨hbegin, ?_⟩
  by_cases hsum : c.address.toInt + c.size < 2 ^ 63
  · rw [toInt_add_ofNat (by omega) hsum] at hend
    omega
  · rw [toInt_add_ofNat_wrapped (by omega) (by omega)] at hend
    have hbehind := hbefore.behind hbegin
    omega

/-- The hook copies the instructions that end before the range does. -/
theorem covers_of_inside (hbefore : c.Before s.dumpBegin s.dumpEnd) (hsize : 0 < c.size)
    (hinside : c.Inside s.dumpBegin s.dumpEnd) : s.covers c = true := by
  obtain ⟨hbegin, hend⟩ := hinside
  have hlt := c.size_lt
  have hbounds := s.dumpEnd.toInt_lt
  have hnot := hbefore.ends hbegin hsize
  rw [covers, Bool.and_eq_true, BitVec.sle_iff_toInt_le, BitVec.slt_iff_toInt_lt]
  refine ⟨hbegin, ?_⟩
  rw [toInt_add_ofNat (by omega) (by omega)]
  omega

/-- A copy that fits takes the place of the bytes before it. -/
theorem arraycopy_eq {k : Nat} {src : List UInt8} (hk : k + src.length ≤ data.length) (hlt : k < 2 ^ 31) :
    arraycopy src data ((BitVec.ofNat 64 k).setWidth 32) = some (data.overwrite k src) := by
  unfold arraycopy
  rw [toInt_setWidth_ofNat hlt, toNat_setWidth_ofNat (by omega), if_pos (by omega)]

/-- The array is as long as the range. -/
structure Fits (s : AssemblyCodeDumper Alt) (data : List UInt8) : Prop where
  buffer : s.dumpBuffer = some data
  length : s.dumpEnd.toInt = s.dumpBegin.toInt + data.length
  small : data.length ≤ 0x1000000

/-- The copy of an instruction that is not the last one of the range stays within the array. -/
theorem record_spec (memory : CodeMemory) (hfits : s.Fits data) (hkept : s.alts.any c.replaceFunction = false)
    (hbefore : c.Before s.dumpBegin s.dumpEnd) :
    ∃ copied, (record memory c).run.run s = (.ok (), { s with dumpBuffer := some copied }) ∧
      Recorded s.dumpBegin s.dumpEnd s.alts memory [c] data copied := by
  obtain ⟨hbuffer, hlength, hsmall⟩ := hfits
  by_cases hcovers : s.covers c = true
  · have hinside := inside_of_covers hbefore hcovers
    have hbegin := hinside.1
    have hend := hinside.2
    obtain ⟨k, hk⟩ := Int.eq_ofNat_of_zero_le (show 0 ≤ c.address.toInt - s.dumpBegin.toInt by omega)
    have haddress : c.address.toInt = s.dumpBegin.toInt + k := by omega
    refine ⟨_, run_record hbuffer hcovers ?_, Recorded.overwrite hkept hinside hlength haddress⟩
    rw [sub_eq_ofNat haddress]
    refine arraycopy_eq ?_ (by omega)
    simp only [mem_read, List.length_map, List.length_range]
    omega
  · refine ⟨data, ?_, Recorded.skip fun i hi hexecutes => hcovers ?_⟩
    · rw [setBuffer_eq hbuffer]
      exact run_record_of_not (by simpa using hcovers)
    · have hfirst := hexecutes.first
      have hlast := hexecutes.last
      exact covers_of_inside hbefore (by omega) hexecutes.inside

/-- Whichever way the hook ends, nothing is copied outside the array. -/
theorem hook_spec (memory : CodeMemory) (hfits : s.Fits data)
    (hbefore : s.alts.any c.replaceFunction = false → c.Before s.dumpBegin s.dumpEnd) :
    ∃ ends copied, (hook memory c).run.run s = (ends, { s with dumpBuffer := some copied }) ∧
      ends ≠ .error .arraycopy ∧ Recorded s.dumpBegin s.dumpEnd s.alts memory [c] data copied := by
  unfold hook
  rw [Block.run_bind (run_get s)]
  by_cases hreplaced : s.alts.any c.replaceFunction = true
  · rw [if_pos hreplaced]
    refine ⟨.ok (), data, ?_, by simp, Recorded.skip fun i hi hexecutes => ?_⟩
    · rw [setBuffer_eq hfits.buffer]
      rfl
    · rw [hexecutes.kept] at hreplaced
      cases hreplaced
  · rw [if_neg hreplaced]
    rw [Bool.not_eq_true] at hreplaced
    obtain ⟨copied, hrun, hrecorded⟩ := record_spec memory hfits hreplaced (hbefore hreplaced)
    rw [Block.run_bind hrun]
    by_cases htraced : (s.canTrace c.address && !c.disassembled) = true
    · rw [if_pos htraced]
      exact ⟨.error .disassemble, copied, rfl, by simp, hrecorded⟩
    · rw [if_neg htraced]
      exact ⟨.ok (), copied, rfl, by simp, hrecorded⟩

/-- An array of the same length fits as well. -/
theorem Fits.setBuffer (hfits : s.Fits data) (hlength : copied.length = data.length) :
    { s with dumpBuffer := some copied }.Fits copied where
  buffer := rfl
  length := hlength ▸ hfits.length
  small := hlength ▸ hfits.small

/-- The hooks of a run, one after the other. -/
theorem emulate_spec (memory : CodeMemory) (callbacks : List (Callback Alt)) (hfits : s.Fits data)
    (hbefore : ∀ c ∈ callbacks, s.alts.any c.replaceFunction = false → c.Before s.dumpBegin s.dumpEnd) :
    ∃ copied, emulate memory s callbacks = { s with dumpBuffer := some copied } ∧
      Recorded s.dumpBegin s.dumpEnd s.alts memory callbacks data copied := by
  induction callbacks generalizing s data with
  | nil => exact ⟨data, (setBuffer_eq hfits.buffer).symm, Recorded.nil⟩
  | cons c rest ih =>
    obtain ⟨hc, hrest⟩ := List.forall_mem_cons.mp hbefore
    obtain ⟨ends, middle, hrun, -, hfirst⟩ := hook_spec memory hfits hc
    have hafter : (hook memory c).after s = { s with dumpBuffer := some middle } := congrArg Prod.snd hrun
    obtain ⟨copied, hemulate, hrecorded⟩ := ih (hfits.setBuffer hfirst.length) hrest
    refine ⟨copied, ?_, Recorded.append hfirst hrecorded⟩
    rw [emulate, List.foldl_cons, hafter]
    exact hemulate

/-- All that `setDump` can do. -/
inductive SetDump (s : AssemblyCodeDumper Alt) («begin» «end» : BitVec 64) :
    Except DumperException Unit → AssemblyCodeDumper Alt → Prop where
  | illegalArgument (h : «end».toInt ≤ «begin».toInt ∨ 0x1000000 < («end» - «begin»).toInt) :
    SetDump s «begin» «end» (.error .IllegalArgumentException) s
  | again (hbounds : «begin».toInt < «end».toInt) (hbegin : «begin» = s.dumpBegin) (hend : «end» = s.dumpEnd)
    (hbuffer : s.dumpBuffer.isSome = true) : SetDump s «begin» «end» (.ok ()) s
  | negativeArraySize (hbounds : «begin».toInt < «end».toInt) (hsize : («end» - «begin»).toInt ≤ 0x1000000)
    (hnew : ¬ («begin» = s.dumpBegin ∧ «end» = s.dumpEnd ∧ s.dumpBuffer.isSome = true))
    (hnegative : ((«end» - «begin»).setWidth 32).toInt < 0) :
    SetDump s «begin» «end» (.error .NegativeArraySizeException) { s with dumpBegin := «begin», dumpEnd := «end» }
  | fresh (hbounds : «begin».toInt < «end».toInt) (hsize : («end» - «begin»).toInt ≤ 0x1000000)
    (hnew : ¬ («begin» = s.dumpBegin ∧ «end» = s.dumpEnd ∧ s.dumpBuffer.isSome = true)) :
    SetDump s «begin» «end» (.ok ()) { s with
      dumpBegin := «begin»
      dumpEnd := «end»
      dumpBuffer := some (List.replicate ((«end» - «begin»).setWidth 32).toNat 0) }

/-- These are all the ways in which a range can be set. -/
theorem setDump_cases (s : AssemblyCodeDumper Alt) («begin» «end» : BitVec 64) :
    SetDump s «begin» «end» ((setDump «begin» «end»).run.run s).1 ((setDump «begin» «end»).run.run s).2 := by
  unfold setDump
  by_cases hbounds : «end».sle «begin» = true
  · rw [if_pos hbounds]
    exact .illegalArgument (.inl (BitVec.sle_iff_toInt_le.mp hbounds))
  rw [if_neg hbounds]
  rw [BitVec.sle_iff_toInt_le, Int.not_le] at hbounds
  by_cases hlarge : (0x1000000#64).slt («end» - «begin») = true
  · simp only [if_pos hlarge]
    exact .illegalArgument (.inr (BitVec.slt_iff_toInt_lt.mp hlarge))
  simp only [if_neg hlarge]
  have hsize : («end» - «begin»).toInt ≤ 0x1000000 := by
    rw [BitVec.slt_iff_toInt_lt, Int.not_lt] at hlarge
    exact hlarge
  rw [Block.run_bind (run_get s)]
  by_cases hagain : «begin» = s.dumpBegin ∧ «end» = s.dumpEnd ∧ s.dumpBuffer.isSome = true
  · rw [if_pos hagain]
    exact .again hbounds hagain.1 hagain.2.1 hagain.2.2
  rw [if_neg hagain, Block.run_bind (run_set s _)]
  by_cases hnegative : ((«end» - «begin»).setWidth 32).slt 0 = true
  · rw [if_pos hnegative]
    exact .negativeArraySize hbounds hsize hagain (BitVec.slt_iff_toInt_lt.mp hnegative)
  · rw [if_neg hnegative]
    exact .fresh hbounds hsize hagain

/-- The array of any range that is no longer than the addresses reach is as long as the
range. -/
def Sized (s : AssemblyCodeDumper Alt) : Prop :=
  s.dumpBegin.toInt < s.dumpEnd.toInt → s.dumpEnd.toInt - s.dumpBegin.toInt < 2 ^ 63 →
    ∀ data, s.dumpBuffer = some data → s.Fits data

/-- The length of a range as `setDump` computes it. -/
theorem length_eq (hbounds : «begin».toInt < «end».toInt) (hreach : «end».toInt - «begin».toInt < 2 ^ 63)
    (hsize : («end» - «begin»).toInt ≤ 0x1000000) :
    ∃ n ≤ 0x1000000, «end».toInt = «begin».toInt + (n : Nat) ∧ («end» - «begin»).setWidth 32 = BitVec.ofNat 32 n := by
  obtain ⟨n, hn⟩ := Int.eq_ofNat_of_zero_le (show 0 ≤ «end».toInt - «begin».toInt by omega)
  have hend : «end».toInt = «begin».toInt + n := by omega
  rw [sub_eq_ofNat hend, BitVec.toInt_ofNat', bmod_eq (by omega) (by omega)] at hsize
  refine ⟨n, by omega, hend, ?_⟩
  rw [sub_eq_ofNat hend, BitVec.setWidth_ofNat_of_le (by decide)]

/-- A range that is set has an array of its length. -/
theorem sized_setDump («begin» «end» : BitVec 64) (hs : s.Sized) : ((setDump «begin» «end»).after s).Sized := by
  have hcases := setDump_cases s «begin» «end»
  unfold Block.after
  generalize (setDump «begin» «end»).run.run s = ended at hcases ⊢
  obtain ⟨ends, next⟩ := ended
  cases hcases with
  | illegalArgument => exact hs
  | again => exact hs
  | negativeArraySize hbounds hsize hnew hnegative =>
    intro _ hreach
    obtain ⟨n, hn, hend, hcut⟩ := length_eq hbounds hreach hsize
    rw [hcut, BitVec.toInt_ofNat', Int.bmod_eq_of_le (by omega) (by omega)] at hnegative
    omega
  | fresh hbounds hsize hnew =>
    intro _ hreach data hdata
    obtain ⟨n, hn, hend, hcut⟩ := length_eq hbounds hreach hsize
    cases hdata
    rw [hcut, BitVec.toNat_ofNat, Nat.mod_eq_of_lt (by omega)]
    exact ⟨rfl, by simpa using hend, by simpa using hn⟩

/-- The array changes, but not its length. -/
def Copies (s next : AssemblyCodeDumper Alt) : Prop :=
  ∃ buffer, next = { s with dumpBuffer := buffer } ∧ buffer.map List.length = s.dumpBuffer.map List.length

/-- A copy of an instruction keeps the length of the array. -/
theorem Sized.copies {next : AssemblyCodeDumper Alt} (hs : s.Sized) (hcopies : s.Copies next) : next.Sized := by
  obtain ⟨buffer, rfl, hlength⟩ := hcopies
  intro hbounds hreach copied hcopied
  obtain rfl : buffer = some copied := hcopied
  obtain ⟨data, hdata, hsame⟩ := Option.map_eq_some_iff.mp hlength.symm
  exact (hs hbounds hreach data hdata).setBuffer hsame.symm

/-- A copy keeps the length of the array it goes to. -/
theorem length_of_arraycopy {src : List UInt8} {destPos : BitVec 32}
    (hcopy : arraycopy src data destPos = some copied) :
    copied.length = data.length := by
  unfold arraycopy at hcopy
  split at hcopy
  · cases hcopy
    exact List.length_overwrite _ _ _
  · cases hcopy

/-- The `finally` of the hook copies, or throws without a copy. -/
theorem copies_record (memory : CodeMemory) (s : AssemblyCodeDumper Alt) (c : Callback Alt) :
    s.Copies ((record memory c).after s) := by
  have hsame : s.Copies s := ⟨s.dumpBuffer, rfl, rfl⟩
  unfold Block.after record
  rw [Block.run_bind (run_get s)]
  cases hbuffer : s.dumpBuffer with
  | none => exact hsame
  | some data =>
    by_cases hcovers : s.covers c = true
    · unfold covers at hcovers
      simp only [hcovers, if_true]
      cases hcopy : arraycopy (mem_read memory c.address c.size) data ((c.address - s.dumpBegin).setWidth 32) with
      | none => exact hsame
      | some copied => exact ⟨some copied, rfl, by simp [hbuffer, length_of_arraycopy hcopy]⟩
    · unfold covers at hcovers
      simp only [if_neg hcovers]
      exact hsame

/-- Whichever way the hook ends, it does no more than the `finally` does. -/
theorem copies_hook (memory : CodeMemory) (s : AssemblyCodeDumper Alt) (c : Callback Alt) :
    s.Copies ((hook memory c).after s) := by
  have hrecord := copies_record memory s c
  unfold Block.after at hrecord ⊢
  unfold hook
  rw [Block.run_bind (run_get s)]
  by_cases hreplaced : s.alts.any c.replaceFunction = true
  · rw [if_pos hreplaced]
    exact ⟨s.dumpBuffer, rfl, rfl⟩
  · rw [if_neg hreplaced]
    rcases hrun : (record memory c).run.run s with ⟨e | _, next⟩
    · rw [hrun] at hrecord
      rw [Block.run_bind_error hrun]
      exact hrecord
    · rw [hrun] at hrecord
      rw [Block.run_bind hrun]
      split <;> exact hrecord

/-- Every step keeps the array as long as the range. -/
theorem sized_step (hs : s.Sized) (a : Step Alt) : (s.step a).Sized := by
  cases a with
  | setDump «begin» «end» => exact sized_setDump «begin» «end» hs
  | initializeHook traceInstruction traceBegin traceEnd alts =>
    intro hbounds hreach data hdata
    obtain ⟨hbuffer, hlength, hsmall⟩ := hs hbounds hreach data hdata
    exact ⟨hbuffer, hlength, hsmall⟩
  | hook memory c => exact hs.copies (copies_hook memory s c)

/-- So in every state the array is as long as the range. -/
theorem sized_after (alloc : Alt) (steps : List (Step Alt)) : (after alloc steps).Sized := by
  refine List.foldlRecOn steps step (motive := Sized) ?_ fun s hs a _ => sized_step hs a
  intro hbounds
  exact absurd hbounds (Int.lt_irrefl 0)

/-- What `setDump` has accepted. -/
theorem fits_of_setDump {next : AssemblyCodeDumper Alt} (hs : s.Sized)
    (hset : (setDump «begin» «end»).run.run s = (.ok (), next)) (hreach : «end».toInt - «begin».toInt < 2 ^ 63) :
    «begin».toInt < «end».toInt ∧ next.dumpBegin = «begin» ∧ next.dumpEnd = «end» ∧ ∃ data, next.Fits data := by
  have hcases := setDump_cases s «begin» «end»
  have hsized : next.Sized := by
    have hafter := sized_setDump «begin» «end» hs
    rw [Block.after, hset] at hafter
    exact hafter
  rw [hset] at hcases
  cases hcases with
  | again hbounds hbegin hend hbuffer =>
    subst hbegin hend
    obtain ⟨data, hdata⟩ := Option.isSome_iff_exists.mp hbuffer
    exact ⟨hbounds, rfl, rfl, data, hsized hbounds hreach data hdata⟩
  | fresh hbounds hsize hnew => exact ⟨hbounds, rfl, rfl, _, hsized hbounds hreach _ rfl⟩

/-- A range that is set again. -/
theorem setDump_again (hbounds : s.dumpBegin.toInt < s.dumpEnd.toInt) (hfits : s.Fits data) :
    (setDump s.dumpBegin s.dumpEnd).run.run s = (.ok (), s) := by
  obtain ⟨hbuffer, hlength, hsmall⟩ := hfits
  have hsize : (s.dumpEnd - s.dumpBegin).toInt = data.length := by
    rw [sub_eq_ofNat hlength, BitVec.toInt_ofNat', bmod_eq (by omega) (by omega)]
  have hagain : s.dumpBegin = s.dumpBegin ∧ s.dumpEnd = s.dumpEnd ∧ s.dumpBuffer.isSome = true := by simp [hbuffer]
  have hcases := setDump_cases s s.dumpBegin s.dumpEnd
  generalize (setDump s.dumpBegin s.dumpEnd).run.run s = ended at hcases ⊢
  obtain ⟨ends, next⟩ := ended
  cases hcases with
  | illegalArgument h => omega
  | again => rfl
  | negativeArraySize _ _ hnew => exact absurd hagain hnew
  | fresh _ _ hnew => exact absurd hagain hnew

/-- In a run whose instructions come before the end, no copy fails. -/
theorem hook_after_emulate (callbacks : List (Callback Alt)) (hfits : s.Fits data)
    (hbefore : ∀ c ∈ callbacks, s.alts.any c.replaceFunction = false → c.Before s.dumpBegin s.dumpEnd)
    {first rest : List (Callback Alt)} (hsplit : callbacks = first ++ c :: rest) :
    ((hook memory c).run.run (emulate memory s first)).1 ≠ .error .arraycopy := by
  subst hsplit
  obtain ⟨copied, hemulate, hrecorded⟩ := emulate_spec memory first hfits fun d hd => hbefore d (by simp [hd])
  rw [hemulate]
  obtain ⟨ends, last, hrun, hends, -⟩ := hook_spec memory (hfits.setBuffer hrecorded.length)
    (hbefore c (by simp))
  rw [hrun]
  exact hends

/-- In a run whose instructions all come before the end of the range, the array takes
the bytes of those that are executed, and no others. -/
theorem dump_recorded (alloc : Alt) (steps : List (Step Alt)) («begin» «end» : BitVec 64)
    (hset : (setDump «begin» «end»).run.run (after alloc steps) = (.ok (), s))
    (hreach : «end».toInt - «begin».toInt < 2 ^ 63) (traceInstruction : Bool) (traceBegin traceEnd : BitVec 64)
    (alts : List Alt) (memory : CodeMemory) (callbacks : List (Callback Alt))
    (hbefore : ∀ c ∈ callbacks, (s.alloc :: alts).any c.replaceFunction = false → c.Before «begin» «end») :
    let started := s.initializeHook traceInstruction traceBegin traceEnd alts
    let ended := emulate memory started callbacks
    ∃ old new, s.dumpBuffer = some old ∧ ended.dumpBuffer = some new ∧
      «end».toInt = «begin».toInt + old.length ∧
      Recorded «begin» «end» (s.alloc :: alts) memory callbacks old new ∧
      (∀ first c rest, callbacks = first ++ c :: rest →
        ((hook memory c).run.run (emulate memory started first)).1 ≠ .error .arraycopy) ∧
      (setDump «begin» «end»).run.run ended = (.ok (), ended) := by
  intro started ended
  obtain ⟨hbounds, rfl, rfl, old, hold⟩ := fits_of_setDump (sized_after alloc steps) hset hreach
  have hfits : started.Fits old := ⟨hold.buffer, hold.length, hold.small⟩
  obtain ⟨new, hemulate, hrecorded⟩ := emulate_spec memory callbacks hfits hbefore
  refine ⟨old, new, hold.buffer, ?_, hold.length, hrecorded, fun first c rest hsplit =>
    hook_after_emulate callbacks hfits hbefore hsplit, ?_⟩
  · exact congrArg dumpBuffer hemulate
  · have hended : ended = { started with dumpBuffer := some new } := hemulate
    rw [hended]
    exact setDump_again (s := { started with dumpBuffer := some new }) hbounds (hfits.setBuffer hrecorded.length)

/-- The only instruction of a short range. -/
def onlyInstruction : Callback Unit where
  address := 0x1000
  size := 4
  size_lt := by decide
  replaceFunction _ := false
  disassembled := true

/-- Instructions before the range, in it, replaced in it, in it again and behind it. -/
def someInstructions : List (Callback Unit) :=
  [{ onlyInstruction with address := 0xff0 }, onlyInstruction,
    { onlyInstruction with address := 0x1004, replaceFunction := fun _ => true },
    { onlyInstruction with address := 0x1008 }, { onlyInstruction with address := 0x2000 }]

/-- A memory that has the number of each byte in it. -/
def numbered : CodeMemory := fun address => ⟨address.setWidth 8⟩

/-- Two instructions of five are in the range and executed as they are. -/
theorem dump_recorded_some : ∃ s, (setDump 0x1000 0x1010).run.run (after () []) = (.ok (), s) ∧
    let started := s.initializeHook false 0 0 []
    let ended := emulate numbered started someInstructions
    ended.dumpBuffer = some [0, 1, 2, 3, 0, 0, 0, 0, 8, 9, 10, 11, 0, 0, 0, 0] ∧
    ∃ old new, s.dumpBuffer = some old ∧ ended.dumpBuffer = some new ∧
      (0x1010#64).toInt = (0x1000#64).toInt + old.length ∧
      Recorded 0x1000 0x1010 [s.alloc] numbered someInstructions old new ∧
      (∀ first c rest, someInstructions = first ++ c :: rest →
        ((hook numbered c).run.run (emulate numbered started first)).1 ≠ .error .arraycopy) ∧
      (setDump 0x1000 0x1010).run.run ended = (.ok (), ended) := by
  refine ⟨_, rfl, rfl, dump_recorded () [] 0x1000 0x1010 rfl (by decide) false 0 0 [] numbered someInstructions ?_⟩
  intro c hc hkept
  simp only [someInstructions, List.mem_cons, List.not_mem_nil, or_false] at hc
  obtain rfl | rfl | rfl | rfl | rfl := hc
  · exact ⟨by decide, by decide⟩
  · exact ⟨by decide, by decide⟩
  · cases hkept
  · exact ⟨by decide, by decide⟩
  · exact ⟨by decide, by decide⟩

/-- The only instruction of the range is executed, and its bytes are not in the array. -/
theorem only_instruction_lost : ∃ s, (setDump 0x1000 0x1004).run.run (after () []) = (.ok (), s) ∧
    s.dumpBuffer = some [0, 0, 0, 0] ∧
    (emulate (fun _ => 0xAA) (s.initializeHook false 0 0 []) [onlyInstruction]).dumpBuffer = some [0, 0, 0, 0] ∧
    ¬ Recorded 0x1000 0x1004 [s.alloc] (fun _ => 0xAA) [onlyInstruction] [0, 0, 0, 0] [0, 0, 0, 0] := by
  refine ⟨_, rfl, rfl, rfl, fun hrecorded => ?_⟩
  have hexecutes : onlyInstruction.Executes 0x1000 0x1004 [()] 0 :=
    ⟨rfl, ⟨by decide, by decide⟩, by decide, by decide⟩
  have hbyte := hrecorded.executed 0 (by decide) ⟨onlyInstruction, List.mem_singleton_self _, hexecutes⟩
  revert hbyte
  decide

end AssemblyCodeDumper

end inspector.unicorn
