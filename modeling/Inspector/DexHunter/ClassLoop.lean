import Inspector.DexHunter.MethodLoop

open machine Relation

namespace inspector.dexhunter

/-- Whether the record of some method of a class has to change. -/
def DexImage.methodsChange (image : DexImage) (clazz : ClassObject) (pData : DexClassData) : Bool :=
  ((List.range pData.directMethods.length).any fun i =>
    image.changes (clazz.directMethods i) (pData.directMethods.getD i default)) ||
  (List.range pData.virtualMethods.length).any fun i =>
    image.changes (clazz.virtualMethods i) (pData.virtualMethods.getD i default)

/-- Whether the code item of some method of a class lies outside the saved image. -/
def DexImage.methodsRelocate (image : DexImage) (clazz : ClassObject) (pData : DexClassData) : Bool :=
  ((List.range pData.directMethods.length).any fun i => image.relocates (clazz.directMethods i)) ||
  (List.range pData.virtualMethods.length).any fun i => image.relocates (clazz.virtualMethods i)

variable (image : DexImage) (vm : Vm)

/-- The records of all methods of a class are settled. -/
structure SettledClass (d : Dump) (clazz : ClassObject) (pData : DexClassData) : Prop where
  direct : ∀ i < pData.directMethods.length,
    Settled image d (clazz.directMethods i) (pData.directMethods.getD i default)
  virtual : ∀ i < pData.virtualMethods.length,
    Settled image d (clazz.virtualMethods i) (pData.virtualMethods.getD i default)

variable {image} in
/-- A class that is settled stays so, whatever is written behind. -/
theorem SettledClass.effects {d next : Dump} {clazz : ClassObject} {pData : DexClassData}
    (hsettled : SettledClass image d clazz pData) (heffects : ReflTransGen Effect d next) :
    SettledClass image next clazz pData :=
  ⟨fun i hi => (hsettled.direct i hi).effects heffects, fun i hi => (hsettled.virtual i hi).effects heffects⟩

/-- What both method loops of a class do. -/
structure MethodsSpec (clazz : ClassObject) (l next : ClassLocals) : Prop where
  need_extra : next.need_extra = (l.need_extra || image.methodsChange clazz l.pData)
  effects : ReflTransGen Effect l.dump next.dump
  classdef : next.dump.classdef = l.dump.classdef
  placed : next.dump.placements = [] ↔
    l.dump.placements = [] ∧ image.methodsRelocate clazz l.pData = false
  settled : SettledClass image next.dump clazz next.pData

/-- The loops over the direct and the virtual methods keep the items of the class settled. -/
theorem processMethods_spec {clazz : ClassObject} {l next : ClassLocals}
    (hmethods : processMethods image vm clazz l = .ok next) : MethodsSpec image clazz l next := by
  obtain ⟨middle, hdirect, hvirtual⟩ := bind_eq_ok.mp hmethods
  have hvirtualMethods := directLoop_virtualMethods image vm hdirect
  have hfirst := LoopSpec.run image vm (fun _ _ _ hstep => (directMethod_step image vm hstep).1) hdirect
  have hdirectMethods := virtualLoop_directMethods image vm hvirtual
  have hsecond := LoopSpec.run image vm (fun _ _ _ hstep => (virtualMethod_step image vm hstep).1) hvirtual
  have hneed := hsecond.need_extra
  have hplaced := hsecond.placed
  rw [hfirst.need_extra] at hneed
  rw [hfirst.placed] at hplaced
  rw [hvirtualMethods] at hneed hplaced
  refine ⟨?_, hfirst.effects.trans hsecond.effects, hsecond.classdef.trans hfirst.classdef, ?_, ?_, ?_⟩
  · rw [hneed, DexImage.methodsChange, Bool.or_assoc]
  · rw [hplaced, DexImage.methodsRelocate, and_assoc]
    simp
  · rw [hdirectMethods]
    intro i hi
    exact (hfirst.settled i (hfirst.length ▸ hi) hi).effects hsecond.effects
  · intro i hi
    exact hsecond.settled i (hsecond.length ▸ hi) hi

/-- What a class that is not passed over is processed with, when it can be loaded
and its data can be read. -/
def DexImage.loads (d : Dump) (entry : DexClassDef × Nat) : Option (ClassObject × DexClassData) :=
  let (process, clazz) := vm.load entry.2 d.process
  clazz.bind fun clazz =>
    (ReadClassData process.mem (image.baseAddr + entry.1.classDataOff) (vm.malloc (.classData entry.2))).map
      fun read => (clazz, read.1)

/-- The locals with which a class that can be read enters the method loops. -/
def enter (d : Dump) (entry : DexClassDef × Nat) (pData : DexClassData) : ClassLocals where
  dump := { d with process := (vm.load entry.2 d.process).1 }
  pData
  need_extra := !image.inside entry.1.classDataOff

/-- The entry of a passed-over class loses its data and annotations. -/
theorem dumpClass_pass {d : Dump} {entry : DexClassDef × Nat} (hpass : image.pass entry.1 = true) :
    dumpClass image vm d entry =
      .ok (d.writeClassDef { entry.1 with classDataOff := 0, annotationsOff := 0 }) := by
  simp only [dumpClass, hpass, ↓reduceIte]

/-- A class that cannot be loaded or read leaves no entry. -/
theorem dumpClass_unread {d : Dump} {entry : DexClassDef × Nat} (hpass : image.pass entry.1 = false)
    (hloads : image.loads vm d entry = none) :
    dumpClass image vm d entry = .ok { d with process := (vm.load entry.2 d.process).1 } := by
  unfold DexImage.loads at hloads
  simp only [dumpClass, hpass, Bool.false_eq_true, ↓reduceIte]
  cases hclazz : (vm.load entry.2 d.process).2 with
  | none => rfl
  | some clazz =>
    simp only [hclazz, Option.bind_some, Option.map_eq_none_iff] at hloads
    simp only [hloads]

/-- A class that was read runs through its methods and is finished. -/
theorem dumpClass_read {d : Dump} {entry : DexClassDef × Nat} {read : ClassObject × DexClassData}
    (hpass : image.pass entry.1 = false) (hloads : image.loads vm d entry = some read) :
    dumpClass image vm d entry = do
      let l ← processMethods image vm read.1 (enter image vm d entry read.2)
      return finishClass vm l entry.1 entry.2 := by
  unfold DexImage.loads at hloads
  obtain ⟨clazz, hclazz, hmap⟩ := Option.bind_eq_some_iff.mp hloads
  obtain ⟨data, hread, rfl⟩ := Option.map_eq_some_iff.mp hmap
  simp only [dumpClass, hpass, Bool.false_eq_true, ↓reduceIte]
  simp only [hclazz, hread]
  rfl

/-- Whether the class data of a class has to be encoded anew. -/
def DexImage.needsExtra (pClassDef : DexClassDef) (clazz : ClassObject) (pData : DexClassData) : Bool :=
  !image.inside pClassDef.classDataOff || image.methodsChange clazz pData

/-- Whether a class leaves the loop before its definition is written. -/
def skips (d : Dump) (entry : DexClassDef × Nat) : Bool :=
  !image.pass entry.1 &&
    match image.loads vm d entry with
    | none => true
    | some (clazz, pData) => image.needsExtra entry.1 clazz pData && !vm.malloc (.encoded entry.2)

/-- Whether a class has something to go to the extra file. -/
def places (d : Dump) (entry : DexClassDef × Nat) : Bool :=
  !image.pass entry.1 &&
    match image.loads vm d entry with
    | none => false
    | some (clazz, pData) =>
      image.methodsRelocate clazz pData ||
        (image.needsExtra entry.1 clazz pData && vm.malloc (.encoded entry.2))

/-- A written definition describes a class: only its offsets of annotations and
class data may differ. -/
def Describes (pClassDef temp : DexClassDef) : Prop :=
  temp = { pClassDef with annotationsOff := temp.annotationsOff, classDataOff := temp.classDataOff }

/-- What a written definition leads to: nothing for a class that is passed over, the
class data within the saved image, or class data that went to the extra file and
whose records are settled. -/
inductive Recorded (d : Dump) (pClassDef temp : DexClassDef) : Prop where
  | passed (hpass : image.pass pClassDef = true) (hoff : temp.classDataOff = 0)
  | kept (hinside : image.inside pClassDef.classDataOff = true) (hoff : temp.classDataOff = pClassDef.classDataOff)
  | encoded (clazz : ClassObject) (pData : DexClassData) (position : Nat) (hsettled : SettledClass image d clazz pData)
      (hmem : (temp.classDataOff, position, pData.values.flatMap writeLeb128) ∈ d.placements)

variable {image} in
/-- An entry that is recorded stays so. -/
theorem Recorded.effects {d next : Dump} {pClassDef temp : DexClassDef} (hrecorded : Recorded image d pClassDef temp)
    (heffects : ReflTransGen Effect d next) : Recorded image next pClassDef temp := by
  cases hrecorded with
  | passed hpass hoff => exact .passed hpass hoff
  | kept hinside hoff => exact .kept hinside hoff
  | encoded clazz pData position hsettled hmem =>
    exact .encoded clazz pData position (hsettled.effects heffects) (placements_subset_of_effects heffects hmem)

/-- What one pass of the class loop does. -/
structure ClassSpec (d : Dump) (entry : DexClassDef × Nat) (next : Dump) : Prop where
  effects : ReflTransGen Effect d next
  skipped : skips image vm d entry = true → next.classdef = d.classdef
  written : skips image vm d entry = false →
    ∃ temp, (Describes entry.1 temp ∧ Recorded image next entry.1 temp) ∧ next.classdef = d.classdef ++ [temp]
  placed : next.placements = [] ↔ d.placements = [] ∧ places image vm d entry = false

/-- Finishing a class writes an item at most and the entry. -/
theorem finishClass_effects (l : ClassLocals) (pClassDef : DexClassDef) (i : Nat) :
    ReflTransGen Effect l.dump (finishClass vm l pClassDef i) := by
  unfold finishClass
  split
  · split
    · exact .refl
    · rename_i out class_data_len hencode
      refine .head (.place _ out _ ?_) (.single (.writeClassDef _ _))
      rw [length_EncodeClassData hencode]
  · exact .single (.writeClassDef _ _)

/-- The tail of the loop for a class that has gone through both method loops. -/
theorem finishClass_spec {d : Dump} {entry : DexClassDef × Nat} {read : ClassObject × DexClassData}
    {l : ClassLocals} (hpass : image.pass entry.1 = false) (hloads : image.loads vm d entry = some read)
    (hmethods : MethodsSpec image read.1 (enter image vm d entry read.2) l) :
    ClassSpec image vm d entry (finishClass vm l entry.1 entry.2) := by
  obtain ⟨pClassDef, i⟩ := entry
  obtain ⟨clazz, pData⟩ := read
  unfold enter at hmethods
  obtain ⟨hneed, heffects, hclassdef, hplaced, hsettled⟩ := hmethods
  have hskips : skips image vm d (pClassDef, i) = (l.need_extra && !vm.malloc (.encoded i)) := by
    simp [skips, hpass, hloads, DexImage.needsExtra, hneed]
  have hplaces : places image vm d (pClassDef, i) =
      (image.methodsRelocate clazz pData || (l.need_extra && vm.malloc (.encoded i))) := by
    simp [places, hpass, hloads, DexImage.needsExtra, hneed]
  have hbefore : ({ d with process := (vm.load i d.process).1 } : Dump).placements = d.placements := rfl
  refine ⟨.head (.load d _) (heffects.trans (finishClass_effects vm l pClassDef i)), ?_, ?_, ?_⟩
  · rw [hskips]
    intro hskip
    obtain ⟨hextra, hmalloc⟩ := Bool.and_eq_true_iff.mp hskip
    rw [Bool.not_eq_true'] at hmalloc
    simp only [finishClass, hextra, EncodeClassData, hmalloc]
    exact hclassdef
  · rw [hskips]
    intro hwrite
    unfold finishClass
    split
    · rename_i hextra
      have hmalloc : vm.malloc (.encoded i) = true := by simpa [hextra] using hwrite
      simp only [EncodeClassData, hmalloc, ↓reduceIte]
      refine ⟨{ pClassDef with classDataOff := l.dump.total_pointer }, ⟨rfl, ?_⟩, congrArg (· ++ [_]) hclassdef⟩
      have hencode : EncodeClassData l.pData true =
        some (l.pData.values.flatMap writeLeb128, l.pData.encodedLength) := rfl
      have hplace : Effect l.dump (l.dump.place (l.pData.values.flatMap writeLeb128)
          (BitVec.ofNat 32 l.pData.encodedLength)) := by
        refine .place _ _ _ ?_
        rw [length_EncodeClassData hencode]
      refine .encoded clazz l.pData l.dump.extra.length
        (hsettled.effects (.head hplace (.single (.writeClassDef _ _)))) ?_
      rw [Dump.placements_writeClassDef, Dump.placements_place]
      exact List.mem_append_right _ (List.mem_singleton_self _)
    · rename_i hextra
      rw [hneed] at hextra
      have hinside : image.inside pClassDef.classDataOff = true := by
        by_contra hnot
        simp [hnot] at hextra
      exact ⟨pClassDef, ⟨rfl, .kept hinside rfl⟩, congrArg (· ++ [_]) hclassdef⟩
  · rw [hplaces]
    rw [hbefore] at hplaced
    unfold finishClass
    cases hextra : l.need_extra with
    | true =>
      cases hmalloc : vm.malloc (.encoded i) with
      | true => simp [EncodeClassData]
      | false => simpa [EncodeClassData] using hplaced
    | false => simpa using hplaced

/-- A class that cannot be loaded or read leaves nothing but the changes of the
virtual machine. -/
theorem ClassSpec.unread {d : Dump} {entry : DexClassDef × Nat} (process : Process)
    (hpass : image.pass entry.1 = false) (hloads : image.loads vm d entry = none) :
    ClassSpec image vm d entry { d with process } := by
  have hskips : skips image vm d entry = true := by simp [skips, hpass, hloads]
  have hplaces : places image vm d entry = false := by simp [places, hloads]
  refine ⟨.single (.load d process), fun _ => rfl, by simp [hskips], ?_⟩
  rw [hplaces, eq_self, and_true]
  exact Iff.rfl

/-- What one round of the class loop does. -/
theorem dumpClass_spec {d next : Dump} {entry : DexClassDef × Nat}
    (hstep : dumpClass image vm d entry = .ok next) : ClassSpec image vm d entry next := by
  by_cases hpass : image.pass entry.1 = true
  · have hskips : skips image vm d entry = false := by simp [skips, hpass]
    have hplaces : places image vm d entry = false := by simp [places, hpass]
    rw [dumpClass_pass image vm hpass] at hstep
    cases hstep
    refine ⟨.single (.writeClassDef _ _), by simp [hskips], fun _ => ⟨_, ⟨?_, .passed hpass rfl⟩, rfl⟩,
      by simp [hplaces]⟩
    rfl
  · rw [Bool.not_eq_true] at hpass
    cases hloads : image.loads vm d entry with
    | none =>
      rw [dumpClass_unread image vm hpass hloads] at hstep
      cases hstep
      exact .unread image vm _ hpass hloads
    | some read =>
      rw [dumpClass_read image vm hpass hloads] at hstep
      obtain ⟨l, hmethods, hfinish⟩ := bind_eq_ok.mp hstep
      cases hfinish
      exact finishClass_spec image vm hpass hloads (processMethods_spec image vm hmethods)

/-- The class loop is a sequence of effects. -/
theorem run_effects {d final : Dump} {entries : List (DexClassDef × Nat)}
    (hrun : machine.run (dumpClass image vm) d entries = .ok final) : ReflTransGen Effect d final := by
  refine run_invariant (I := ReflTransGen Effect d) ?_ .refl hrun
  intro s entry next hs hstep
  exact hs.trans (dumpClass_spec image vm hstep).effects

end inspector.dexhunter
