import Inspector.DexHunter.DumpClass

open machine

namespace inspector.dexhunter

/-- The offset of the code item a method runs. -/
def DexImage.codeitemOff (image : DexImage) (method : Method) : BitVec 32 :=
  method.insns - 16 - image.baseAddr

/-- Whether the code item of a method lies outside the saved image. -/
def DexImage.relocates (image : DexImage) (method : Method) : Bool :=
  method.hasCode && !(image.inside (image.codeitemOff method) || image.codeitemOff method = 0)

/-- Whether the record of a method has to change. -/
def DexImage.changes (image : DexImage) (method : Method) (record : DexMethod) : Bool :=
  if method.hasCode then
    image.relocates method || method.flags ≠ record.accessFlags || image.codeitemOff method ≠ record.codeOff
  else record.codeOff ≠ 0

/-- The padding loop ends at the next multiple of four. -/
theorem padding_aligned (pointer : BitVec 32) : (pointer + BitVec.ofNat 32 (padding pointer)).toNat % 4 = 0 := by
  induction pointer using padding.induct with
  | case1 pointer haligned =>
    rw [padding, if_pos haligned, ← and_three_toNat]
    simpa using congrArg BitVec.toNat haligned
  | case2 pointer hunaligned ih =>
    rw [padding, if_neg hunaligned, Nat.add_comm, BitVec.ofNat_add, ← BitVec.add_assoc]
    exact ih

/-- No padding is needed exactly at a multiple of four. -/
theorem padding_eq_zero_iff (pointer : BitVec 32) : padding pointer = 0 ↔ pointer.toNat % 4 = 0 := by
  rw [padding, ← and_three_toNat]
  split
  · rename_i haligned
    rw [haligned]
    exact iff_of_true rfl rfl
  · rename_i hunaligned
    constructor
    · intro hzero
      omega
    · intro hzero
      exact absurd (BitVec.eq_of_toNat_eq (by simpa using hzero)) hunaligned

/-- The padding is at most three bytes. -/
theorem padding_lt (pointer : BitVec 32) : padding pointer < 4 := by
  have hbound : padding pointer ≤ (4 - pointer.toNat % 4) % 4 := by
    induction pointer using padding.induct with
    | case1 pointer haligned =>
      rw [padding, if_pos haligned]
      omega
    | case2 pointer hunaligned ih =>
      have hless := padding_decreases hunaligned
      rw [padding, if_neg hunaligned]
      omega
  omega

namespace Dump

/-- The items that went to the extra file: offset, position and bytes. -/
def placements (d : Dump) : List (BitVec 32 × Nat × List UInt8) :=
  d.log.filterMap fun
    | .placed offset position item => some (offset, position, item)
    | .checked _ _ _ _ _ => none

@[simp] theorem placements_place (d : Dump) (item : List UInt8) (len : BitVec 32) :
    (d.place item len).placements = d.placements ++ [(d.total_pointer, d.extra.length, item)] := by
  simp [placements, place]

/-- The extra file grows by an item and its padding. -/
theorem length_extra_place (d : Dump) (item : List UInt8) (len : BitVec 32) :
    (d.place item len).extra.length = d.extra.length + item.length + padding (d.total_pointer + len) := by
  simp only [place, List.length_append, List.length_replicate]

@[simp] theorem placements_writeClassDef (d : Dump) (temp : DexClassDef) :
    (d.writeClassDef temp).placements = d.placements := rfl

end Dump

/-- The single effects on a dump: the virtual machine or the fix of a method changes
the process, an item is placed, a class definition is written. -/
inductive Effect : Dump → Dump → Prop where
  | load (d : Dump) (process : Process) : Effect d { d with process }
  | checked (d : Dump) (process : Process) (method : Method) (recorded codeitem_off : BitVec 32)
      (found : Option BytecodeMap) (registered : Option BytecodeFix) :
      Effect d { d with
        process
        fix := d.fix ++ registered.toList
        log := d.log ++ [.checked method recorded codeitem_off found registered] }
  | place (d : Dump) (item : List UInt8) (len : BitVec 32) (hlen : len = BitVec.ofNat 32 item.length) :
      Effect d (d.place item len)
  | writeClassDef (d : Dump) (temp : DexClassDef) : Effect d (d.writeClassDef temp)

/-- No effect takes an item back. -/
theorem Effect.placements_subset {d next : Dump} (heffect : Effect d next) : d.placements ⊆ next.placements := by
  cases heffect with
  | load process => exact List.Subset.refl _
  | checked process method recorded codeitem_off found registered => simp [Dump.placements]
  | place item len hlen =>
    rw [Dump.placements_place]
    exact List.subset_append_left _ _
  | writeClassDef temp => exact List.Subset.refl _

open Relation

/-- What went to the extra file stays placed. -/
theorem placements_subset_of_effects {d next : Dump} (heffects : ReflTransGen Effect d next) :
    d.placements ⊆ next.placements := by
  refine invariant_of_reflTransGen (I := fun later => d.placements ⊆ later.placements) ?_ (List.Subset.refl _) heffects
  intro s next hsubset heffect
  exact List.Subset.trans hsubset heffect.placements_subset

variable (image : DexImage) (vm : Vm)

/-- What a method loop leaves in the record of a method: no offset for a method without
code, the offset of a code item within the saved image, or that of a copy of the
code item in the extra file. -/
inductive Settled (d : Dump) (method : Method) (record : DexMethod) : Prop where
  | without (hcode : method.hasCode = false) (hoff : record.codeOff = 0)
  | kept (hstays : image.relocates method = false) (hoff : record.codeOff = image.codeitemOff method)
  | placed (hrelocates : image.relocates method = true) (m : Memory) (position : Nat)
      (hmem : (record.codeOff, position, m.slice (method.insns - 16) (codeItemLen m (method.insns - 16)).toNat) ∈
        d.placements)

variable {image} in
/-- A settled record stays so, whatever goes to the extra file behind it. -/
theorem Settled.effects {d next : Dump} {method : Method} {record : DexMethod}
    (hsettled : Settled image d method record)
    (heffects : ReflTransGen Effect d next) : Settled image next method record := by
  cases hsettled with
  | without hcode hoff => exact .without hcode hoff
  | kept hstays hoff => exact .kept hstays hoff
  | placed hrelocates m position hmem =>
    exact .placed hrelocates m position (placements_subset_of_effects heffects hmem)

/-- A comparison is a single effect, whether it fixes something or not. -/
theorem checkBytecode_effect (d : Dump) (method : Method) (recorded compared codeitem_off : BitVec 32) :
    Effect d (checkBytecode vm d method recorded compared codeitem_off) := by
  unfold checkBytecode
  dsimp only
  split
  · exact .checked d _ method recorded codeitem_off _ _
  · have hnone := Effect.checked d d.process method recorded codeitem_off (d.process.findBytecode method) none
    rw [Option.toList_none, List.append_nil] at hnone
    exact hnone

/-- A comparison places nothing. -/
theorem placements_checkBytecode (d : Dump) (method : Method) (recorded compared codeitem_off : BitVec 32) :
    (checkBytecode vm d method recorded compared codeitem_off).placements = d.placements := by
  unfold checkBytecode
  dsimp only
  split <;> simp [Dump.placements]

/-- Nor does it write a definition. -/
theorem classdef_checkBytecode (d : Dump) (method : Method) (recorded compared codeitem_off : BitVec 32) :
    (checkBytecode vm d method recorded compared codeitem_off).classdef = d.classdef := by
  unfold checkBytecode
  dsimp only
  split <;> rfl

/-- What one pass of a method loop does, whatever offset it compares with. -/
structure MethodSpec (d : Dump) (method : Method) (record : DexMethod) (result : Dump × DexMethod × Bool) :
    Prop where
  effects : ReflTransGen Effect d result.1
  classdef : result.1.classdef = d.classdef
  changed : result.2.2 = image.changes method record
  placed : result.1.placements = [] ↔ d.placements = [] ∧ image.relocates method = false
  settled : Settled image result.1 method result.2.1

/-- A method is compared and then settled, with its code item copied if it lies outside. -/
theorem processMethod_spec (d : Dump) (method : Method) (record : DexMethod) (compared : BitVec 32) :
    MethodSpec image d method record (processMethod image vm d method record compared) := by
  by_cases hcode : method.hasCode = true
  · have hcheck := checkBytecode_effect vm d method record.codeOff compared (image.codeitemOff method)
    have hplaced := placements_checkBytecode vm d method record.codeOff compared (image.codeitemOff method)
    have hclassdef := classdef_checkBytecode vm d method record.codeOff compared (image.codeitemOff method)
    simp only [processMethod, hcode, Bool.not_true, Bool.false_eq_true, ↓reduceIte]
    change MethodSpec image d method record (if image.inside (image.codeitemOff method) ||
      image.codeitemOff method = 0 then _ else _)
    split
    · rename_i hinside
      have hrelocates : image.relocates method = false := by
        rw [DexImage.relocates, hcode, hinside]
        rfl
      refine ⟨.single hcheck, hclassdef, ?_, ?_, .kept hrelocates rfl⟩
      · rw [DexImage.changes, if_pos hcode, hrelocates, Bool.false_or]
        rfl
      · rw [hrelocates, eq_self, and_true]
        exact Eq.congr_left hplaced
    · rename_i houtside
      have hrelocates : image.relocates method = true := by
        rw [DexImage.relocates, hcode, Bool.eq_false_iff.mpr houtside]
        rfl
      let checked := checkBytecode vm d method record.codeOff compared (image.codeitemOff method)
      refine ⟨.head hcheck (.single ?_), hclassdef, ?_, ?_,
        .placed hrelocates checked.process.mem checked.extra.length ?_⟩
      · apply Effect.place
        rw [Memory.length_slice, BitVec.ofNat_toNat, BitVec.setWidth_eq]
      · rw [DexImage.changes, if_pos hcode, hrelocates]
        rfl
      · rw [hrelocates]
        simp
      · rw [Dump.placements_place]
        exact List.mem_append_right _ (List.mem_singleton_self _)
  · have hrelocates : image.relocates method = false := by simp [DexImage.relocates, hcode]
    simp only [processMethod, hcode, Bool.not_false, ↓reduceIte]
    split
    · rename_i hoff
      refine ⟨.refl, rfl, ?_, by simp [hrelocates], .without (eq_false_of_ne_true hcode) rfl⟩
      rw [DexImage.changes, if_neg hcode]
      exact (decide_eq_true hoff).symm
    · rename_i hoff
      refine ⟨.refl, rfl, ?_, by simp [hrelocates], .without (eq_false_of_ne_true hcode) (not_not.mp hoff)⟩
      rw [DexImage.changes, if_neg hcode]
      exact (decide_eq_false hoff).symm

/-- One pass of a method loop, on the records and methods it goes over. -/
structure LoopStep (records : ClassLocals → List DexMethod) (methods : Nat → Method) (l : ClassLocals) (i : Nat)
    (next : ClassLocals) : Prop where
  pass : ∃ compared updated, processMethod image vm l.dump (methods i) ((records l).getD i default) compared =
    (next.dump, updated, image.changes (methods i) ((records l).getD i default)) ∧
    records next = (records l).set i updated
  need_extra : next.need_extra = (l.need_extra || image.changes (methods i) ((records l).getD i default))

/-- A pass of the direct loop, which leaves the virtual records alone. -/
theorem directMethod_step {clazz : ClassObject} {l next : ClassLocals} {i : Nat}
    (hstep : directMethod image vm clazz l i = .ok next) :
    LoopStep image vm (fun l => l.pData.directMethods) clazz.directMethods l i next ∧
      next.pData.virtualMethods = l.pData.virtualMethods := by
  unfold directMethod at hstep
  dsimp only at hstep
  have hspec := processMethod_spec image vm l.dump (clazz.directMethods i) (l.pData.directMethods.getD i default)
    (l.pData.directMethods.getD i default).codeOff
  generalize hresult : processMethod image vm l.dump (clazz.directMethods i)
    (l.pData.directMethods.getD i default) (l.pData.directMethods.getD i default).codeOff = result at hstep hspec
  obtain ⟨dump, updated, changed⟩ := result
  have hchanged : changed = _ := hspec.changed
  subst hchanged
  cases hstep
  exact ⟨⟨⟨_, updated, hresult, rfl⟩, rfl⟩, rfl⟩

/-- A pass of the virtual loop, which leaves the direct records alone. -/
theorem virtualMethod_step {clazz : ClassObject} {l next : ClassLocals} {i : Nat}
    (hstep : virtualMethod image vm clazz l i = .ok next) :
    LoopStep image vm (fun l => l.pData.virtualMethods) clazz.virtualMethods l i next ∧
      next.pData.directMethods = l.pData.directMethods := by
  unfold virtualMethod at hstep
  dsimp only at hstep
  split at hstep
  · cases hstep
  · generalize ((l.pData.directMethods ++ l.pData.virtualMethods).getD i default).codeOff = compared at hstep
    have hspec := processMethod_spec image vm l.dump (clazz.virtualMethods i)
      (l.pData.virtualMethods.getD i default) compared
    generalize hresult : processMethod image vm l.dump (clazz.virtualMethods i)
      (l.pData.virtualMethods.getD i default) compared = result at hstep hspec
    obtain ⟨dump, updated, changed⟩ := result
    have hchanged : changed = _ := hspec.changed
    subst hchanged
    cases hstep
    exact ⟨⟨⟨_, updated, hresult, rfl⟩, rfl⟩, rfl⟩

/-- What a method loop has done after its first `n` methods. The records it has not
come to are as they were, the others are settled. -/
structure LoopSpec (records : ClassLocals → List DexMethod) (methods : Nat → Method) (l : ClassLocals) (n : Nat)
    (next : ClassLocals) : Prop where
  length : (records next).length = (records l).length
  rest : ∀ i ≥ n, (records next).getD i default = (records l).getD i default
  settled : ∀ i < n, i < (records next).length → Settled image next.dump (methods i) ((records next).getD i default)
  need_extra : next.need_extra =
    (l.need_extra || (List.range n).any fun i => image.changes (methods i) ((records l).getD i default))
  effects : ReflTransGen Effect l.dump next.dump
  classdef : next.dump.classdef = l.dump.classdef
  placed : next.dump.placements = [] ↔
    l.dump.placements = [] ∧ ∀ i < n, image.relocates (methods i) = false

/-- One more pass settles one more record. -/
theorem LoopSpec.step {records : ClassLocals → List DexMethod} {methods : Nat → Method}
    {l middle next : ClassLocals} {n : Nat} (hspec : LoopSpec image records methods l n middle)
    (hstep : LoopStep image vm records methods middle n next) : LoopSpec image records methods l (n + 1) next := by
  obtain ⟨⟨compared, updated, hpass, hrecords⟩, hneed⟩ := hstep
  have hmethod := processMethod_spec image vm middle.dump (methods n) ((records middle).getD n default) compared
  rw [hpass] at hmethod
  have hrecord := hspec.rest n (Nat.le_refl n)
  refine ⟨?_, fun i hi => ?_, fun i hi hlength => ?_, ?_, hspec.effects.trans hmethod.effects,
    hmethod.classdef.trans hspec.classdef, ?_⟩
  · rw [hrecords, List.length_set, hspec.length]
  · rw [hrecords, ← hspec.rest i (by omega)]
    simp [List.getD_eq_getElem?_getD, List.getElem?_set_ne (show n ≠ i by omega)]
  · rw [hrecords, List.length_set] at hlength
    rw [hrecords]
    rcases Nat.lt_succ_iff_lt_or_eq.mp hi with hlt | rfl
    · have hbefore := (hspec.settled i hlt hlength).effects hmethod.effects
      simpa [List.getD_eq_getElem?_getD, List.getElem?_set_ne (show n ≠ i by omega)] using hbefore
    · simpa [List.getD_eq_getElem?_getD, List.getElem?_set_self hlength] using hmethod.settled
  · rw [hneed, hspec.need_extra, hrecord, List.range_succ, List.any_append, Bool.or_assoc]
    simp
  · rw [hmethod.placed, hspec.placed, and_assoc]
    refine and_congr_right fun _ => ?_
    constructor
    · rintro ⟨hbefore, hlast⟩ i hi
      rcases Nat.lt_succ_iff_lt_or_eq.mp hi with hlt | rfl
      · exact hbefore i hlt
      · exact hlast
    · intro hall
      exact ⟨fun i hi => hall i (by omega), hall n (by omega)⟩

/-- Before its first pass a loop has done nothing. -/
theorem LoopSpec.zero (records : ClassLocals → List DexMethod) (methods : Nat → Method) (l : ClassLocals) :
    LoopSpec image records methods l 0 l :=
  ⟨rfl, fun _ _ => rfl, fun _ hi => absurd hi (Nat.not_lt_zero _), by simp, .refl, rfl, by simp⟩

/-- What a whole method loop does. -/
theorem LoopSpec.run {records : ClassLocals → List DexMethod} {methods : Nat → Method}
    {step : ClassLocals → Nat → Except Crash ClassLocals}
    (hstep : ∀ s i next, step s i = .ok next → LoopStep image vm records methods s i next)
    {l next : ClassLocals} {n : Nat} (hrun : machine.run step l (List.range n) = .ok next) :
    LoopSpec image records methods l n next := by
  refine run_range (.zero image records methods l) ?_ hrun
  intro k _ s next hspec hnext
  exact hspec.step image vm (hstep s k next hnext)

/-- The direct loop leaves the virtual records as they are. -/
theorem directLoop_virtualMethods {clazz : ClassObject} {l next : ClassLocals} {indices : List Nat}
    (hrun : machine.run (directMethod image vm clazz) l indices = .ok next) :
    next.pData.virtualMethods = l.pData.virtualMethods := by
  refine run_invariant (I := fun s => s.pData.virtualMethods = l.pData.virtualMethods) ?_ rfl hrun
  intro s i next hs hstep
  exact (directMethod_step image vm hstep).2.trans hs

/-- The virtual loop leaves the direct records as they are. -/
theorem virtualLoop_directMethods {clazz : ClassObject} {l next : ClassLocals} {indices : List Nat}
    (hrun : machine.run (virtualMethod image vm clazz) l indices = .ok next) :
    next.pData.directMethods = l.pData.directMethods := by
  refine run_invariant (I := fun s => s.pData.directMethods = l.pData.directMethods) ?_ rfl hrun
  intro s i next hs hstep
  exact (virtualMethod_step image vm hstep).2.trans hs

end inspector.dexhunter
