import Mathlib.Data.List.Forall2
import Inspector.DexHunter.ClassLoop

open machine

namespace inspector.dexhunter

@[simp] theorem DexClassDef.length_bytes (d : DexClassDef) : d.bytes.length = 32 := rfl

/-- Each entry takes 32 bytes. -/
theorem length_classDefBytes (classdef : List DexClassDef) :
    (classdef.flatMap DexClassDef.bytes).length = 32 * classdef.length := by
  simp [List.length_flatMap, Nat.mul_comm]

@[simp] theorem length_header (image : DexImage) (m : Memory) :
    (saveHeaderAndData image m).header.length = image.base + image.classDefsOff :=
  Memory.length_slice _ _ _

@[simp] theorem length_data (image : DexImage) (m : Memory) : (saveHeaderAndData image m).data.length =
    image.length - (image.base + image.classDefsOff + 32 * image.classDefs.length) :=
  Memory.length_slice _ _ _

/-- Fixing the bytecode keeps the length. -/
theorem length_fixData {offset : Nat} {data fixed : List UInt8} {next : BytecodeFix}
    (hfix : fixData offset data next = .ok fixed) : fixed.length = data.length := by
  unfold fixData at hfix
  dsimp only at hfix
  split at hfix
  · split at hfix
    · cases hfix
      simp only [List.length_append, List.length_take, List.length_drop]
      omega
    · cases hfix
  · cases hfix
    rfl

/-- The parts of a produced buffer. -/
theorem assemble_eq_ok {cookieMap : CookieMap} {d : Dump} {dex : List UInt8}
    (hassemble : assemble cookieMap d = .ok dex) : ∃ data : List UInt8,
      dex = cookieMap.header ++ d.classdef.flatMap DexClassDef.bytes ++ data ++ d.extra ∧
      data.length = cookieMap.data.length ∧ dex.length < 2 ^ 31 := by
  unfold assemble at hassemble
  dsimp only at hassemble
  split at hassemble
  · rename_i hbound
    obtain ⟨data, hrun, hdex⟩ := bind_eq_ok.mp hassemble
    have hlength : data.length = cookieMap.data.length := by
      refine run_invariant (I := fun data => data.length = cookieMap.data.length) ?_ rfl hrun
      intro s next fixed hs hfix
      exact (length_fixData hfix).trans hs
    cases hdex
    refine ⟨data, rfl, hlength, ?_⟩
    simp only [List.length_append, hlength]
    exact hbound
  · cases hassemble

/-- With nothing to fix, the parts are put together as they are. -/
theorem DumpClass_of_fix_eq_nil {image : DexImage} {vm : Vm} {process : Process} {d : Dump} (saved : Memory)
    (hloop : classLoop image vm process = .ok d) (hfix : d.fix = [])
    (hsize : image.base + image.classDefsOff + 32 * d.classdef.length +
      (image.length - (image.base + image.classDefsOff + 32 * image.classDefs.length)) + d.extra.length < 2 ^ 31) :
    DumpClass image vm (saveHeaderAndData image saved) process =
      .ok (d, (saveHeaderAndData image saved).header ++ d.classdef.flatMap DexClassDef.bytes ++
        (saveHeaderAndData image saved).data ++ d.extra) := by
  refine bind_eq_ok.mpr ⟨d, hloop, bind_eq_ok.mpr ⟨_, ?_, rfl⟩⟩
  rw [← length_data image saved, ← length_header image saved, ← length_classDefBytes] at hsize
  unfold assemble
  dsimp only
  rw [if_pos hsize, hfix]
  rfl

variable (image : DexImage) (vm : Vm)

/-- The class loop writes a definition for each class that does not skip. -/
theorem run_classDefs {d final : Dump} {entries : List (DexClassDef × Nat)}
    (hrun : machine.run (dumpClass image vm) d entries = .ok final) :
    ∃ written, final.classdef = d.classdef ++ written ∧
      (Along (dumpClass image vm) (fun d entry => skips image vm d entry = false) d entries →
        List.Forall₂ (fun pClassDef temp => Describes pClassDef temp ∧ Recorded image final pClassDef temp)
          (entries.map Prod.fst) written) ∧
      (¬ Along (dumpClass image vm) (fun d entry => skips image vm d entry = false) d entries →
        written.length < entries.length) ∧ written.length ≤ entries.length := by
  induction entries generalizing d with
  | nil =>
    cases hrun
    exact ⟨[], by simp, fun _ => .nil, fun hnot => absurd trivial hnot, Nat.le_refl _⟩
  | cons entry rest ih =>
    obtain ⟨next, hstep, hrest⟩ := run_cons_ok.mp hrun
    have hspec := dumpClass_spec image vm hstep
    obtain ⟨written, hfinal, hall, hmissing, hbound⟩ := ih hrest
    have halong : Along (dumpClass image vm) (fun d entry => skips image vm d entry = false) d (entry :: rest) ↔
        skips image vm d entry = false ∧
          Along (dumpClass image vm) (fun d entry => skips image vm d entry = false) next rest := by
      rw [Along]
      refine and_congr_right fun _ => ⟨fun h => h next hstep, fun h other hother => ?_⟩
      rw [hstep] at hother
      cases hother
      exact h
    rw [halong]
    cases hskips : skips image vm d entry with
    | true =>
      refine ⟨written, ?_, by simp, fun _ => ?_, ?_⟩
      · rw [hfinal, hspec.skipped hskips]
      · rw [List.length_cons]
        omega
      · rw [List.length_cons]
        omega
    | false =>
      obtain ⟨temp, ⟨hdescribes, hrecorded⟩, hwritten⟩ := hspec.written hskips
      refine ⟨temp :: written, ?_, ?_, ?_, ?_⟩
      · rw [hfinal, hwritten, List.append_assoc, List.singleton_append]
      · rintro ⟨-, hothers⟩
        exact .cons ⟨hdescribes, hrecorded.effects (run_effects image vm hrest)⟩ (hall hothers)
      · intro hnot
        have hless := hmissing fun hothers => hnot ⟨rfl, hothers⟩
        rw [List.length_cons, List.length_cons]
        omega
      · rw [List.length_cons, List.length_cons]
        omega

/-- The class-def region of a produced buffer: one definition for each class, in
order, and the saved data right after them, where it was in the mapping. -/
structure Aligned (cookieMap : CookieMap) (d : Dump) (dex : List UInt8) : Prop where
  described : List.Forall₂ Describes image.classDefs d.classdef
  placed : ∃ before data, dex = before ++ data ++ d.extra ∧ data.length = cookieMap.data.length ∧
    before.drop (image.base + image.classDefsOff) = d.classdef.flatMap DexClassDef.bytes ∧
    before.length = image.base + image.classDefsOff + 32 * image.classDefs.length

variable {image vm} {saved : Memory} {process : Process} {d : Dump} {dex : List UInt8}

/-- The class-def region of a produced buffer is aligned with the table of the input
exactly when no class leaves the loop before its definition is written. -/
theorem classDefs_aligned_iff
    (hdump : DumpClass image vm (saveHeaderAndData image saved) process = .ok (d, dex)) :
    Aligned image (saveHeaderAndData image saved) d dex ↔
      Along (dumpClass image vm) (fun d entry => skips image vm d entry = false) (initial image process)
        image.classDefs.zipIdx := by
  obtain ⟨final, hloop, hrest⟩ := bind_eq_ok.mp hdump
  obtain ⟨out, hassemble, hpair⟩ := bind_eq_ok.mp hrest
  cases hpair
  obtain ⟨data, hdex, hdata, -⟩ := assemble_eq_ok hassemble
  obtain ⟨written, hwritten, hall, hmissing, -⟩ := run_classDefs image vm hloop
  have hclassdef : d.classdef = written := hwritten
  have hfst : image.classDefs.zipIdx.map Prod.fst = image.classDefs := by simp
  rw [hfst] at hall
  constructor
  · rintro ⟨hdescribed, -⟩
    by_contra hnot
    have hless := hmissing hnot
    have hsame := hdescribed.length_eq
    rw [hclassdef] at hsame
    rw [List.length_zipIdx] at hless
    omega
  · intro halong
    have hdescribed : List.Forall₂ Describes image.classDefs d.classdef :=
      hclassdef ▸ (hall halong).imp fun _ _ hboth => hboth.1
    refine ⟨hdescribed, (saveHeaderAndData image saved).header ++ d.classdef.flatMap DexClassDef.bytes, data,
      hdex, hdata, ?_, ?_⟩
    · rw [← length_header image saved, List.drop_left]
    · rw [List.length_append, length_header, length_classDefBytes, hdescribed.length_eq]

def mainClass (classDataOff : BitVec 32) : DexClassDef where
  classIdx := 0
  accessFlags := 1
  superclassIdx := 1
  interfacesOff := 0
  sourceFileIdx := 0
  annotationsOff := 0
  classDataOff
  staticValuesOff := 0

/-- A mapping whose only class has its data at `classDataOff`. -/
def soleClass (classDataOff : BitVec 32) : DexImage where
  addr := 0x40000000
  length := 192
  base := 40
  classDefsOff := 112
  classDefs := [mainClass classDataOff]
  descriptor _ := "LMain;".toList.map Char.toUInt8
  fits := by simp
  bounded := by decide

/-- A virtual machine that loads no class. -/
def noClass : Vm where
  load _ process := (process, none)
  malloc _ := true

/-- A process whose memory is zero and that has collected nothing. -/
def blank : Process where
  mem _ := 0
  allBytecodeMap := []

/-- A mapping with a class of the framework, a class without data, one whose data stays
where it is, and one whose data lies outside. -/
def fourClasses : DexImage where
  addr := 0x40000000
  length := 304
  base := 40
  classDefsOff := 112
  classDefs := [{ mainClass 244 with classIdx := 1 }, mainClass 0, mainClass 240, mainClass 1000]
  descriptor classIdx := (if classIdx = 1 then "Landroid/R;" else "LMain;").toList.map Char.toUInt8
  fits := by simp
  bounded := by decide

/-- The class data of the last class has one direct method. -/
def oneMethod : Process where
  mem address := if address = fourClasses.baseAddr + 1002 then 1 else 0
  allBytecodeMap := []

/-- A method whose code item lies outside of the mapping. -/
def distant : Method where
  address := 0x1000
  accessFlags := 1
  insns := 0x50000010

/-- A virtual machine that loads every class. -/
def everyClass : Vm where
  load _ process := (process, some { directMethods _ := distant, virtualMethods _ := distant })
  malloc _ := true

/-- The dump behind the loop over the direct methods of the last class. -/
def relocated : Dump :=
  let kept := ((((initial fourClasses oneMethod).writeClassDef
    { mainClass 0 with classIdx := 1 }).writeClassDef (mainClass 0)).writeClassDef (mainClass 240))
  let codeitem_off := distant.insns - 16 - fourClasses.baseAddr
  let checked := { kept with log := kept.log ++ [Event.checked distant 0 codeitem_off none none] }
  checked.place (List.replicate 16 0) 16

/-- What is encoded for the last class. -/
def relocatedData : DexClassData where
  staticFields := []
  instanceFields := []
  directMethods := [{ methodIdx := 0, accessFlags := 1, codeOff := (initial fourClasses oneMethod).total_pointer }]
  virtualMethods := []

def fourDump : Dump :=
  let placed := relocated.place (relocatedData.values.flatMap writeLeb128) (BitVec.ofNat 32 relocatedData.encodedLength)
  placed.writeClassDef { mainClass 1000 with classDataOff := relocated.total_pointer }

theorem length_relocatedData : (relocatedData.values.flatMap writeLeb128).length = 8 := by
  have hpointer : (initial fourClasses oneMethod).total_pointer = 264 := by
    have hpadding : padding fourClasses.end = 0 := (padding_eq_zero_iff _).mpr rfl
    change fourClasses.end + BitVec.ofNat 32 (padding fourClasses.end) = 264
    rw [hpadding]
    rfl
  simp [relocatedData, hpointer, DexClassData.values, length_writeLeb128, unsignedLeb128Size]

theorem DumpClass_fourClasses : ∃ dex,
    DumpClass fourClasses everyClass (saveHeaderAndData fourClasses oneMethod.mem) oneMethod = .ok (fourDump, dex) := by
  have hloop : classLoop fourClasses everyClass oneMethod = .ok fourDump := rfl
  refine ⟨_, DumpClass_of_fix_eq_nil oneMethod.mem hloop rfl ?_⟩
  have hcode : relocated.extra.length < 16 + 4 := by
    unfold relocated
    rw [Dump.length_extra_place]
    exact Nat.add_lt_add_left (padding_lt _) 16
  have hextra : fourDump.extra.length < 20 + 8 + 4 := by
    change (relocated.place _ _).extra.length < 20 + 8 + 4
    rw [Dump.length_extra_place, length_relocatedData]
    exact Nat.add_lt_add (Nat.add_lt_add_right hcode 8) (padding_lt _)
  change 152 + 32 * 4 + (304 - (152 + 32 * 4)) + fourDump.extra.length < 2 ^ 31
  omega

theorem fourClasses_aligned : ∃ dex,
    DumpClass fourClasses everyClass (saveHeaderAndData fourClasses oneMethod.mem) oneMethod = .ok (fourDump, dex) ∧
      Aligned fourClasses (saveHeaderAndData fourClasses oneMethod.mem) fourDump dex := by
  obtain ⟨dex, hdump⟩ := DumpClass_fourClasses
  exact ⟨dex, hdump, (classDefs_aligned_iff hdump).mpr (by decide)⟩

theorem classDefs_misaligned : ∃ d dex,
    DumpClass (soleClass 148) noClass (saveHeaderAndData (soleClass 148) blank.mem) blank = .ok (d, dex) ∧
      ¬ Aligned (soleClass 148) (saveHeaderAndData (soleClass 148) blank.mem) d dex := by
  have hloop : classLoop (soleClass 148) noClass blank = .ok (initial (soleClass 148) blank) := rfl
  refine ⟨_, _, DumpClass_of_fix_eq_nil blank.mem hloop rfl (by decide), fun haligned => ?_⟩
  have hlength := haligned.described.length_eq
  cases hlength

end inspector.dexhunter
