import Inspector.Base.Alignment
import Inspector.Maps.NativeLibraryMapInfo

open alignment

namespace inspector.maps

/-- The first byte of the buffer has this address, and the last one comes before the end. -/
def DirectBuffer.Holds (buffer : DirectBuffer) (address : Int) : Prop :=
  buffer.address.toInt ≤ address ∧ address < buffer.address.toInt + buffer.capacity.toInt

/-- The range that a call makes accessible ends here. -/
def ProtectCall.last (call : ProtectCall) : Int := call.addr.toInt + call.len.toInt

/-- One call is made, for the smallest range of pages that holds the bytes, and every byte
of a buffer that is returned lies in it. -/
def Protection.Covers (protection : Protection) (first last : Int) : Prop :=
  ∃ call, protection.calls = [call] ∧ Smallest 4096 call.addr.toInt call.last first last ∧
    ∀ buffer, protection.result = .ok buffer → ∀ address, buffer.Holds address →
      call.addr.toInt ≤ address ∧ address < call.last

/-- The call for the pages of some bytes fails. -/
def CLibrary.Refuses (libc : CLibrary) (first last : Int) : Prop :=
  libc.mprotect {
    addr := BitVec.ofInt 64 (down 4096 first)
    len := BitVec.ofInt 32 (up 4096 last - down 4096 first)
    prot := PROT_READ ||| PROT_WRITE ||| PROT_EXEC } ≠ 0

namespace NativeLibraryMapInfo

/-- No sum on the way to the address or to the length in the call overflows. -/
structure Fits (first len : Int) : Prop where
  low : -2 ^ 63 < first
  high : first + 4095 < 2 ^ 63
  length : (first - 1) % 4096 + 1 + len ≤ 2 ^ 31 - 4096

variable {libc : CLibrary} {info : NativeLibraryMapInfo} {offset start : BitVec 64} {len : BitVec 32} {first n : Int}

theorem page_pos : (0 : Int) < 4096 := by omega

theorem toInt_pageAddress (hlow : -2 ^ 63 < start.toInt) (hhigh : start.toInt + 4095 < 2 ^ 63) :
    (pageAddress start).toInt = up 4096 start.toInt - 4096 := by
  have hsum : (start + PAGESIZE.signExtend 64 - 1).toInt = start.toInt + 4096 - 1 := by
    have hless : PAGESIZE.signExtend 64 + -1 = BitVec.ofNat 64 4095 := by decide
    have hadd := long.toInt_add_ofNat (n := 4095) (by omega) hhigh
    rw [BitVec.sub_eq_add_neg, BitVec.add_assoc, hless, hadd]
    omega
  have hmask : (~~~(PAGESIZE - 1)).signExtend 64 = ~~~(BitVec.ofNat 64 (2 ^ 12 - 1)) := by decide
  have hrounded : ((start + PAGESIZE.signExtend 64 - 1) &&& (~~~(PAGESIZE - 1)).signExtend 64).toInt =
    up 4096 start.toInt := by
    rw [hmask, toInt_and_not (by omega), hsum]
    rfl
  have hpage : (PAGESIZE.signExtend 64).toInt = 4096 := by decide
  have hle := le_up page_pos start.toInt
  have hlt := up_lt page_pos start.toInt
  have hdvd := dvd_up 4096 start.toInt
  rw [pageAddress, BitVec.toInt_sub, hrounded, hpage]
  exact long.bmod_eq (by omega) (by omega)

theorem toInt_pageLength (hlen : 0 < len.toInt) (hfits : len.toInt ≤ 2 ^ 31 - 4096) :
    (pageLength len).toInt = up 4096 len.toInt := by
  have hpage : PAGESIZE.toInt = 4096 := by decide
  have hrem : (len.srem PAGESIZE).toInt = len.toInt % 4096 := by
    rw [BitVec.toInt_srem, hpage, Int.tmod_eq_emod_of_nonneg (by omega)]
  have hquot : (len.sdiv PAGESIZE).toInt = len.toInt / 4096 := by
    rw [BitVec.toInt_sdiv, hpage, Int.tdiv_eq_ediv_of_nonneg (by omega)]
    exact Int.bmod_eq_of_le (by omega) (by omega)
  unfold pageLength up
  split
  · rename_i hzero
    have hmod : len.toInt % 4096 = 0 := by
      rw [← hrem, hzero]
      rfl
    omega
  · rename_i hzero
    have hmod : len.toInt % 4096 ≠ 0 := by
      intro hmod
      exact hzero (BitVec.eq_of_toInt_eq (hrem.trans hmod))
    rw [BitVec.toInt_add, BitVec.toInt_mul, hquot, hpage, Int.bmod_add_bmod]
    rw [Int.bmod_eq_of_le (by omega) (by omega)]
    omega

/-- The length from the address in the call to the end of the bytes. -/
theorem toInt_lead (hlow : -2 ^ 63 < start.toInt) (hhigh : start.toInt + 4095 < 2 ^ 63) (hlen : 0 < len.toInt)
    (hlength : (start.toInt - 1) % 4096 + 1 + len.toInt ≤ 2 ^ 31 - 4096) :
    ((start - pageAddress start).setWidth 32 + len).toInt = start.toInt - (up 4096 start.toInt - 4096) + len.toInt := by
  have hpage := toInt_pageAddress hlow hhigh
  have hlead : start.toInt - (up 4096 start.toInt - 4096) = (start.toInt - 1) % 4096 + 1 := by
    unfold up
    omega
  obtain ⟨n, hn⟩ := Int.eq_ofNat_of_zero_le (show 0 ≤ start.toInt - (up 4096 start.toInt - 4096) by omega)
  have hdiff : start.toInt = (pageAddress start).toInt + n := by omega
  rw [long.sub_eq_ofNat hdiff, BitVec.toInt_add, long.toInt_setWidth_ofNat (by omega), hn]
  exact Int.bmod_eq_of_le (by omega) (by omega)

theorem toInt_protectCall_addr (len : BitVec 32) (hlow : -2 ^ 63 < start.toInt) (hhigh : start.toInt + 4095 < 2 ^ 63) :
    (protectCall start len).addr.toInt = up 4096 start.toInt - 4096 :=
  toInt_pageAddress hlow hhigh

section Call

variable (hlow : -2 ^ 63 < start.toInt) (hhigh : start.toInt + 4095 < 2 ^ 63) (hlen : 0 < len.toInt)
  (hlength : (start.toInt - 1) % 4096 + 1 + len.toInt ≤ 2 ^ 31 - 4096)

include hlow hhigh hlen hlength

theorem toInt_protectCall_len :
    (protectCall start len).len.toInt = up 4096 (start.toInt + len.toInt) - (up 4096 start.toInt - 4096) := by
  have hlead := toInt_lead hlow hhigh hlen hlength
  have hup := le_up page_pos start.toInt
  have hlt := up_lt page_pos start.toInt
  have hdvd : (4096 : Int) ∣ 4096 - up 4096 start.toInt := Int.dvd_sub (dvd_refl 4096) (dvd_up 4096 start.toInt)
  have hsum : start.toInt - (up 4096 start.toInt - 4096) + len.toInt =
      (4096 - up 4096 start.toInt) + (start.toInt + len.toInt) := by omega
  have hfits : start.toInt - (up 4096 start.toInt - 4096) + len.toInt ≤ 2 ^ 31 - 4096 := by
    unfold up
    omega
  change (pageLength ((start - pageAddress start).setWidth 32 + len)).toInt = _
  rw [toInt_pageLength (by omega) (by omega), hlead, hsum, up_add page_pos hdvd]
  omega

theorem protectCall_last : (protectCall start len).last = up 4096 (start.toInt + len.toInt) := by
  have haddr := toInt_protectCall_addr len hlow hhigh
  have hcall := toInt_protectCall_len hlow hhigh hlen hlength
  unfold ProtectCall.last
  omega

/-- An extra page comes before bytes that begin at a page. -/
theorem protectCall_smallest_iff :
    Smallest 4096 (protectCall start len).addr.toInt (protectCall start len).last start.toInt
        (start.toInt + len.toInt) ↔
      ¬ (4096 : Int) ∣ start.toInt := by
  have haddr := toInt_protectCall_addr len hlow hhigh
  have hlast := protectCall_last hlow hhigh hlen hlength
  rw [smallest_iff page_pos, haddr, up_sub_size_eq_down_iff page_pos]
  exact and_iff_left hlast

/-- The buffer is as long as the pages but begins behind the first byte of them. -/
theorem not_within_protectCall {buffer : DirectBuffer} (haddress : buffer.address = start)
    (hcapacity : buffer.capacity = (protectCall start len).len.signExtend 64) :
    ¬ ∀ address, buffer.Holds address →
      (protectCall start len).addr.toInt ≤ address ∧ address < (protectCall start len).last := by
  have haddr := toInt_protectCall_addr len hlow hhigh
  have hcall := toInt_protectCall_len hlow hhigh hlen hlength
  have hlt := up_lt page_pos start.toInt
  have hend := le_up page_pos (start.toInt + len.toInt)
  have hlast : (protectCall start len).last = (protectCall start len).addr.toInt + (protectCall start len).len.toInt :=
    rfl
  have hbuffer : buffer.capacity.toInt = (protectCall start len).len.toInt := by
    rw [hcapacity, BitVec.toInt_signExtend_of_le (by omega)]
  intro hwithin
  obtain ⟨-, hbelow⟩ := hwithin (buffer.address.toInt + buffer.capacity.toInt - 1) ⟨by omega, by omega⟩
  rw [haddress] at hbelow
  omega

/-- The call for bytes that do not begin at a page. -/
theorem protectCall_eq (hunaligned : ¬ (4096 : Int) ∣ start.toInt) :
    protectCall start len = {
      addr := BitVec.ofInt 64 (down 4096 start.toInt)
      len := BitVec.ofInt 32 (up 4096 (start.toInt + len.toInt) - down 4096 start.toInt)
      prot := PROT_READ ||| PROT_WRITE ||| PROT_EXEC } := by
  have hdown := (up_sub_size_eq_down_iff page_pos).mpr hunaligned
  have haddr := toInt_pageAddress hlow hhigh
  have hcall := toInt_protectCall_len hlow hhigh hlen hlength
  rw [hdown] at haddr hcall
  have haddrEq : BitVec.ofInt 64 (down 4096 start.toInt) = pageAddress start := by rw [← haddr, BitVec.ofInt_toInt]
  rw [← hcall, haddrEq, BitVec.ofInt_toInt]
  rfl

end Call

/-- What the caller asks for is met when the bytes do not begin at a page and the system
does not make their pages accessible. -/
theorem mprotect_covers_iff (libc : CLibrary) (info : NativeLibraryMapInfo) (offset : BitVec 64) (len : BitVec 32)
    (hlen : 1 ≤ len.toInt) (hfits : Fits (info.mStartAddr + offset.toInt) len.toInt) :
    (mprotect libc info offset len).Covers (info.mStartAddr + offset.toInt)
        (info.mStartAddr + offset.toInt + len.toInt) ↔
      ¬ (4096 : Int) ∣ info.mStartAddr + offset.toInt ∧
        libc.Refuses (info.mStartAddr + offset.toInt) (info.mStartAddr + offset.toInt + len.toInt) := by
  obtain ⟨hlow, hhigh, hlength⟩ := hfits
  obtain ⟨start, hstart⟩ : ∃ start, start = BitVec.ofInt 64 info.mStartAddr + offset := ⟨_, rfl⟩
  have hfirst : info.mStartAddr + offset.toInt = start.toInt := by
    rw [hstart, BitVec.toInt_add, BitVec.toInt_ofInt, Int.bmod_add_bmod]
    exact (long.bmod_eq (by omega) (by omega)).symm
  rw [hfirst] at hlow hhigh hlength ⊢
  have hpositive : ¬ len.toInt < 1 := by omega
  simp only [mprotect, if_neg hpositive, ← hstart, Protection.Covers]
  constructor
  · rintro ⟨call, hcalls, hsmallest, hwithin⟩
    cases hcalls
    have hunaligned := (protectCall_smallest_iff hlow hhigh hlen hlength).mp hsmallest
    refine ⟨hunaligned, fun hanswer => ?_⟩
    rw [← protectCall_eq hlow hhigh hlen hlength hunaligned] at hanswer
    have hbuffer := hwithin _ (if_pos hanswer)
    exact not_within_protectCall hlow hhigh hlen hlength hstart.symm rfl hbuffer
  · rintro ⟨hunaligned, hrefuses⟩
    rw [CLibrary.Refuses, ← protectCall_eq hlow hhigh hlen hlength hunaligned] at hrefuses
    refine ⟨_, rfl, (protectCall_smallest_iff hlow hhigh hlen hlength).mpr hunaligned, fun buffer hbuffer => ?_⟩
    rw [if_neg hrefuses] at hbuffer
    cases hbuffer

/-- A system that makes no memory accessible. -/
def outOfMemory : CLibrary := { mprotect := fun _ => -1, getLastError := fun _ => 12 }

/-- A system that makes all memory accessible. -/
def permissive : CLibrary := { mprotect := fun _ => 0, getLastError := fun _ => 0 }

def library : NativeLibraryMapInfo :=
  { mStartAddr := 0x8000, mEndAddr := 0xa000, mLibrary := "/system/lib/libc.so".toList }

theorem mprotect_covers_behind_page : (mprotect outOfMemory library 0x10 1).Covers 0x8010 0x8011 := by
  have hiff := mprotect_covers_iff outOfMemory library 0x10 1 (by decide) ⟨by decide, by decide, by decide⟩
  refine hiff.mpr ⟨by decide, ?_⟩
  change (-1 : BitVec 32) ≠ 0
  decide

/-- The call begins a page too early. -/
theorem not_mprotect_covers_page : ¬ (mprotect permissive library 0 1).Covers 0x8000 0x8001 := by
  rintro ⟨call, hcalls, hsmallest, -⟩
  have hcall : (mprotect permissive library 0 1).calls = [⟨0x7000, 0x2000, 7⟩] := by decide
  rw [hcall] at hcalls
  cases hcalls
  obtain ⟨hle, -⟩ := hsmallest.within 0x8000 0x9000 (by decide) (by decide) (by decide) (by decide)
  exact absurd hle (by decide)

end NativeLibraryMapInfo

end inspector.maps
