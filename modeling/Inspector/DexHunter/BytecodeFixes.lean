import Inspector.DexHunter.ClassDefs

open machine Relation

namespace inspector.dexhunter

/-- A method whose offset is its own recorded one gets a fix with that offset and
the map found for it. A method whose offset is another gets none. -/
def Event.Lawful : Event → Prop
  | .checked _ recorded codeitem_off found registered =>
    (codeitem_off = recorded → ∀ map, found = some map →
      registered = some { codeOff := codeitem_off, bytecode := map }) ∧
    (codeitem_off ≠ recorded → registered = none)
  | .placed _ _ _ => True

def Event.registered : Event → Option BytecodeFix
  | .checked _ _ _ _ registered => registered
  | .placed _ _ _ => none

namespace Dump

def Lawful (d : Dump) : Prop := ∀ event ∈ d.log, event.Lawful

/-- The methods whose bytecode was compared, each with its recorded and its actual
offset. -/
def checks (d : Dump) : List (Method × BitVec 32 × BitVec 32) :=
  d.log.filterMap fun
    | .checked method recorded codeitem_off _ _ => some (method, recorded, codeitem_off)
    | .placed _ _ _ => none

/-- The list of fixes is what has been registered, in order. -/
def Registered (d : Dump) : Prop := d.fix = d.log.filterMap Event.registered

/-- What goes to the extra file does not bear on the comparisons. -/
@[simp] theorem lawful_place (d : Dump) (item : List UInt8) (len : BitVec 32) :
    (d.place item len).Lawful ↔ d.Lawful := by
  unfold Lawful place
  dsimp only
  rw [List.forall_mem_append]
  apply and_iff_left
  intro event hevent
  rw [List.mem_singleton] at hevent
  subst hevent
  trivial

@[simp] theorem lawful_writeClassDef (d : Dump) (temp : DexClassDef) :
    (d.writeClassDef temp).Lawful ↔ d.Lawful := Iff.rfl

/-- Nor does it add one. -/
@[simp] theorem checks_place (d : Dump) (item : List UInt8) (len : BitVec 32) :
    (d.place item len).checks = d.checks := by
  simp [checks, place]

/-- Each effect keeps the list of fixes and the log in step. -/
theorem Registered.effect {d next : Dump} (hregistered : d.Registered) (heffect : Effect d next) :
    next.Registered := by
  unfold Registered at hregistered
  cases heffect with
  | load process => exact hregistered
  | checked process method recorded codeitem_off found registered =>
    unfold Registered
    dsimp only
    rw [List.filterMap_append, hregistered]
    cases registered <;> rfl
  | place item len hlen =>
    unfold Registered place
    dsimp only
    rw [List.filterMap_append, hregistered]
    exact (List.append_nil _).symm
  | writeClassDef temp => exact hregistered

end Dump

variable (image : DexImage) (vm : Vm)

/-- So the fixes of a run are those that its log has, in order. -/
theorem classLoop_registered {process : Process} {d : Dump} (hloop : classLoop image vm process = .ok d) :
    d.Registered := by
  refine run_invariant (I := Dump.Registered) (s := initial image process) ?_ rfl hloop
  intro s entry next hs hstep
  exact invariant_of_reflTransGen (fun _ _ hbefore => hbefore.effect) hs (dumpClass_spec image vm hstep).effects

/-- What one comparison logs. -/
theorem log_checkBytecode (d : Dump) (method : Method) (recorded compared codeitem_off : BitVec 32) :
    (checkBytecode vm d method recorded compared codeitem_off).log =
      d.log ++ [.checked method recorded codeitem_off (d.process.findBytecode method)
        (if codeitem_off = compared then (d.process.findBytecode method).bind fun map =>
          createFix codeitem_off map (vm.malloc (.fix method.address)) else none)] := by
  unfold checkBytecode fixMethodBytecode
  by_cases hsame : codeitem_off = compared
  · rw [if_pos hsame, if_pos hsame]
    cases d.process.findBytecode method <;> rfl
  · rw [if_neg hsame, if_neg hsame]

/-- When a comparison leads to the right fix: it comes out like one with the
method's own record. -/
def Fixes (d : Dump) (method : Method) (recorded compared codeitem_off : BitVec 32) : Prop :=
  ∀ map, d.process.findBytecode method = some map →
    (codeitem_off = recorded ↔ codeitem_off = compared ∧ vm.malloc (.fix method.address) = true)

/-- One more comparison is lawful when its outcome is that of the method's own record. -/
theorem lawful_checkBytecode (d : Dump) (method : Method) (recorded compared codeitem_off : BitVec 32) :
    (checkBytecode vm d method recorded compared codeitem_off).Lawful ↔
      d.Lawful ∧ Fixes vm d method recorded compared codeitem_off := by
  unfold Dump.Lawful Fixes
  rw [log_checkBytecode, List.forall_mem_append, List.forall_mem_singleton]
  apply and_congr_right
  intro _
  cases d.process.findBytecode method with
  | none => simp [Event.Lawful]
  | some map =>
    by_cases hown : codeitem_off = recorded <;> by_cases hsame : codeitem_off = compared <;>
      cases hmalloc : vm.malloc (.fix method.address) <;>
      simp [Event.Lawful, createFix, hown, hsame]

/-- Each call logs one comparison, whether it fixes something or not. -/
theorem checks_checkBytecode (d : Dump) (method : Method) (recorded compared codeitem_off : BitVec 32) :
    (checkBytecode vm d method recorded compared codeitem_off).checks =
      d.checks ++ [(method, recorded, codeitem_off)] := by
  unfold Dump.checks
  rw [log_checkBytecode, List.filterMap_append]
  rfl

/-- What the body of a method loop does to the log. -/
theorem processMethod_log (d : Dump) (method : Method) (record : DexMethod) (compared : BitVec 32) :
    ((processMethod image vm d method record compared).1.Lawful ↔ d.Lawful ∧ (method.hasCode = true →
      Fixes vm d method record.codeOff compared (image.codeitemOff method))) ∧
    (processMethod image vm d method record compared).1.checks = d.checks ++
      if method.hasCode then [(method, record.codeOff, image.codeitemOff method)] else [] := by
  by_cases hcode : method.hasCode = true
  · have hlawful := lawful_checkBytecode vm d method record.codeOff compared (image.codeitemOff method)
    have hchecks := checks_checkBytecode vm d method record.codeOff compared (image.codeitemOff method)
    simp only [processMethod, hcode, Bool.not_true, Bool.false_eq_true, ↓reduceIte, true_imp_iff]
    rw [← hlawful, ← hchecks]
    split
    · exact ⟨Iff.rfl, rfl⟩
    · exact ⟨Dump.lawful_place _ _ _, Dump.checks_place _ _ _⟩
  · simp only [processMethod, hcode, Bool.not_false, ↓reduceIte]
    split <;> simp

/-- The offset that the virtual loop compares with at an index. -/
def ClassLocals.compared (l : ClassLocals) (i : Nat) : BitVec 32 :=
  ((l.pData.directMethods ++ l.pData.virtualMethods).getD i default).codeOff

/-- The condition on one pass of the direct loop. -/
def DirectFixes (clazz : ClassObject) (l : ClassLocals) (i : Nat) : Prop :=
  let method := clazz.directMethods i
  let recorded := (l.pData.directMethods.getD i default).codeOff
  method.hasCode = true → Fixes vm l.dump method recorded recorded (image.codeitemOff method)

/-- The condition on one pass of the virtual loop. -/
def VirtualFixes (clazz : ClassObject) (l : ClassLocals) (i : Nat) : Prop :=
  let method := clazz.virtualMethods i
  let recorded := (l.pData.virtualMethods.getD i default).codeOff
  method.hasCode = true → l.pData.directMethods ≠ [] ∧
    Fixes vm l.dump method recorded (l.compared i) (image.codeitemOff method)

/-- A pass of the direct loop completes, and stays lawful exactly when it compares rightly. -/
theorem directMethod_lawful_iff (clazz : ClassObject) (l : ClassLocals) (i : Nat) :
    (∃ next, directMethod image vm clazz l i = .ok next ∧ next.dump.Lawful) ↔
      l.dump.Lawful ∧ DirectFixes image vm clazz l i := by
  have hlog := (processMethod_log image vm l.dump (clazz.directMethods i) (l.pData.directMethods.getD i default)
    (l.pData.directMethods.getD i default).codeOff).1
  unfold DirectFixes
  dsimp only
  rw [← hlog]
  simp [directMethod]

/-- A pass of the virtual loop also has to find an array to read its offset from. -/
theorem virtualMethod_lawful_iff (clazz : ClassObject) (l : ClassLocals) (i : Nat) :
    (∃ next, virtualMethod image vm clazz l i = .ok next ∧ next.dump.Lawful) ↔
      l.dump.Lawful ∧ VirtualFixes image vm clazz l i := by
  have hlog := (processMethod_log image vm l.dump (clazz.virtualMethods i) (l.pData.virtualMethods.getD i default)
    (l.compared i)).1
  unfold VirtualFixes
  dsimp only
  by_cases hcode : (clazz.virtualMethods i).hasCode = true
  · simp only [hcode, true_imp_iff] at hlog ⊢
    by_cases hempty : l.pData.directMethods = []
    · simp [virtualMethod, hcode, hempty]
    · rw [and_left_comm, ← hlog]
      simp [virtualMethod, hcode, hempty, ClassLocals.compared]
  · simp only [hcode, Bool.false_eq_true, false_imp_iff, and_true] at hlog ⊢
    rw [← hlog]
    simp [virtualMethod, hcode, ClassLocals.compared]

/-- The condition on the method loops of a class. -/
def MethodsFix (clazz : ClassObject) (l : ClassLocals) : Prop :=
  Along (directMethod image vm clazz) (DirectFixes image vm clazz) l (List.range l.pData.directMethods.length) ∧
  ∀ middle, machine.run (directMethod image vm clazz) l (List.range l.pData.directMethods.length) = .ok middle →
    Along (virtualMethod image vm clazz) (VirtualFixes image vm clazz) middle
      (List.range middle.pData.virtualMethods.length)

/-- Both loops of a class complete and stay lawful exactly when all their passes do. -/
theorem processMethods_lawful_iff (clazz : ClassObject) (l : ClassLocals) :
    (∃ next, processMethods image vm clazz l = .ok next ∧ next.dump.Lawful) ↔
      l.dump.Lawful ∧ MethodsFix image vm clazz l := by
  have hdirect := run_completes_iff (directMethod_lawful_iff image vm clazz) l
    (List.range l.pData.directMethods.length)
  have hvirtual := fun middle : ClassLocals => run_completes_iff (virtualMethod_lawful_iff image vm clazz) middle
    (List.range middle.pData.virtualMethods.length)
  unfold MethodsFix
  rw [← and_assoc, ← hdirect]
  constructor
  · rintro ⟨next, hmethods, hlawful⟩
    obtain ⟨middle, hfirst, hsecond⟩ := bind_eq_ok.mp hmethods
    obtain ⟨hmiddle, halong⟩ := (hvirtual middle).mp ⟨next, hsecond, hlawful⟩
    refine ⟨⟨middle, hfirst, hmiddle⟩, fun other hother => ?_⟩
    rw [hfirst] at hother
    cases hother
    exact halong
  · rintro ⟨⟨middle, hfirst, hmiddle⟩, halong⟩
    obtain ⟨next, hsecond, hlawful⟩ := (hvirtual middle).mpr ⟨hmiddle, halong middle hfirst⟩
    exact ⟨next, bind_eq_ok.mpr ⟨middle, hfirst, hsecond⟩, hlawful⟩

/-- The tail of the class loop compares nothing. -/
theorem finishClass_log (l : ClassLocals) (pClassDef : DexClassDef) (i : Nat) :
    (finishClass vm l pClassDef i).Lawful ↔ l.dump.Lawful := by
  unfold finishClass
  split
  · split
    · exact Iff.rfl
    · rw [Dump.lawful_writeClassDef, Dump.lawful_place]
  · exact Dump.lawful_writeClassDef _ _

/-- The condition on one pass of the class loop. -/
def ClassFixes (d : Dump) (entry : DexClassDef × Nat) : Prop :=
  image.pass entry.1 = false → ∀ clazz pData, image.loads vm d entry = some (clazz, pData) →
    MethodsFix image vm clazz (enter image vm d entry pData)

/-- A class completes and stays lawful exactly when both its loops do. -/
theorem dumpClass_lawful_iff (d : Dump) (entry : DexClassDef × Nat) :
    (∃ next, dumpClass image vm d entry = .ok next ∧ next.Lawful) ↔ d.Lawful ∧ ClassFixes image vm d entry := by
  unfold ClassFixes
  by_cases hpass : image.pass entry.1 = true
  · rw [dumpClass_pass image vm hpass]
    simp [hpass]
  · rw [Bool.not_eq_true] at hpass
    cases hloads : image.loads vm d entry with
    | none =>
      rw [dumpClass_unread image vm hpass hloads]
      simp only [Except.ok.injEq, exists_eq_left', reduceCtorEq, false_imp_iff, implies_true, and_true]
      exact Iff.rfl
    | some read =>
      rw [dumpClass_read image vm hpass hloads]
      have hmethods := processMethods_lawful_iff image vm read.1 (enter image vm d entry read.2)
      constructor
      · rintro ⟨next, hstep, hlawful⟩
        obtain ⟨l, hl, hfinish⟩ := bind_eq_ok.mp hstep
        cases hfinish
        rw [finishClass_log] at hlawful
        obtain ⟨hd, hfix⟩ := hmethods.mp ⟨l, hl, hlawful⟩
        refine ⟨hd, fun _ clazz pData hread => ?_⟩
        cases hread
        exact hfix
      · rintro ⟨hd, hfix⟩
        obtain ⟨l, hl, hlawful⟩ := hmethods.mpr ⟨hd, hfix hpass read.1 read.2 rfl⟩
        refine ⟨_, bind_eq_ok.mpr ⟨l, hl, rfl⟩, ?_⟩
        rw [finishClass_log]
        exact hlawful

/-- The methods of a class with their own records. -/
def records (clazz : ClassObject) (pData : DexClassData) : List (Method × DexMethod) :=
  (List.range pData.directMethods.length).map (fun i =>
    (clazz.directMethods i, pData.directMethods.getD i default)) ++
  (List.range pData.virtualMethods.length).map fun i =>
    (clazz.virtualMethods i, pData.virtualMethods.getD i default)

/-- The comparisons that methods with these records call for. -/
def DexImage.checksOf (image : DexImage) (pairs : List (Method × DexMethod)) :
    List (Method × BitVec 32 × BitVec 32) :=
  (pairs.filter fun pair => pair.1.hasCode).map fun pair =>
    (pair.1, pair.2.codeOff, image.codeitemOff pair.1)

/-- The comparisons that a row of records calls for are those of its parts. -/
theorem DexImage.checksOf_append (image : DexImage) (first second : List (Method × DexMethod)) :
    image.checksOf (first ++ second) = image.checksOf first ++ image.checksOf second := by
  rw [checksOf, List.filter_append, List.map_append]
  rfl

/-- A pass logs the comparison that its own method and record call for. -/
theorem LoopStep.checks {records : ClassLocals → List DexMethod} {methods : Nat → Method}
    {l middle next : ClassLocals} {n : Nat} (hspec : LoopSpec image records methods l n middle)
    (hstep : LoopStep image vm records methods middle n next) :
    next.dump.checks = middle.dump.checks ++ image.checksOf [(methods n, (records l).getD n default)] := by
  obtain ⟨⟨compared, updated, hpass, -⟩, -⟩ := hstep
  have hlog := (processMethod_log image vm middle.dump (methods n) ((records middle).getD n default) compared).2
  rw [hpass, hspec.rest n (Nat.le_refl n)] at hlog
  rw [hlog, DexImage.checksOf]
  cases hcode : (methods n).hasCode <;> simp [hcode]

/-- A loop logs the comparisons of all its methods, in order. -/
theorem loop_checks {records : ClassLocals → List DexMethod} {methods : Nat → Method}
    {step : ClassLocals → Nat → Except Crash ClassLocals}
    (hstep : ∀ s i next, step s i = .ok next → LoopStep image vm records methods s i next)
    {l next : ClassLocals} {n : Nat} (hrun : machine.run step l (List.range n) = .ok next) :
    next.dump.checks = l.dump.checks ++
      image.checksOf ((List.range n).map fun i => (methods i, (records l).getD i default)) := by
  have hboth : LoopSpec image records methods l n next ∧ next.dump.checks = l.dump.checks ++
      image.checksOf ((List.range n).map fun i => (methods i, (records l).getD i default)) := by
    refine run_range (P := fun n next => LoopSpec image records methods l n next ∧ next.dump.checks =
      l.dump.checks ++ image.checksOf ((List.range n).map fun i => (methods i, (records l).getD i default)))
      ⟨.zero image records methods l, (List.append_nil _).symm⟩ ?_ hrun
    rintro k - s next ⟨hspec, hchecks⟩ hnext
    have hloop := hstep s k next hnext
    refine ⟨hspec.step image vm hloop, ?_⟩
    rw [hloop.checks image vm hspec, hchecks, List.append_assoc, ← DexImage.checksOf_append, List.range_succ,
      List.map_append]
    rfl
  exact hboth.2

/-- Each method with code is compared once, in order, under its own record. -/
theorem processMethods_checks {clazz : ClassObject} {l next : ClassLocals}
    (hmethods : processMethods image vm clazz l = .ok next) :
    next.dump.checks = l.dump.checks ++ image.checksOf (records clazz l.pData) := by
  obtain ⟨middle, hdirect, hvirtual⟩ := bind_eq_ok.mp hmethods
  have hfirst := loop_checks image vm (fun _ _ _ hstep => (directMethod_step image vm hstep).1) hdirect
  have hsecond := loop_checks image vm (fun _ _ _ hstep => (virtualMethod_step image vm hstep).1) hvirtual
  rw [hsecond, hfirst, directLoop_virtualMethods image vm hdirect, List.append_assoc,
    ← DexImage.checksOf_append]
  rfl

/-- The tail of the class loop logs no comparison. -/
theorem finishClass_checks (l : ClassLocals) (pClassDef : DexClassDef) (i : Nat) :
    (finishClass vm l pClassDef i).checks = l.dump.checks := by
  unfold finishClass
  split
  · split
    · rfl
    · rename_i out class_data_len hencode
      exact l.dump.checks_place out (BitVec.ofNat 32 class_data_len)
  · rfl

/-- The comparisons that a class calls for. -/
def classChecks (d : Dump) (entry : DexClassDef × Nat) : List (Method × BitVec 32 × BitVec 32) :=
  if image.pass entry.1 then [] else
  match image.loads vm d entry with
  | none => []
  | some (clazz, pData) => image.checksOf (records clazz pData)

/-- The comparisons that the classes of a run call for. -/
def runChecks : Dump → List (DexClassDef × Nat) → List (Method × BitVec 32 × BitVec 32)
  | _, [] => []
  | d, entry :: rest =>
    classChecks image vm d entry ++
      match dumpClass image vm d entry with
      | .ok next => runChecks next rest
      | .error _ => []

/-- A class logs the comparisons of its methods, direct ones first. -/
theorem dumpClass_checks {d next : Dump} {entry : DexClassDef × Nat}
    (hstep : dumpClass image vm d entry = .ok next) :
    next.checks = d.checks ++ classChecks image vm d entry := by
  unfold classChecks
  by_cases hpass : image.pass entry.1 = true
  · rw [dumpClass_pass image vm hpass] at hstep
    cases hstep
    rw [if_pos hpass, List.append_nil]
    rfl
  · rw [if_neg hpass]
    rw [Bool.not_eq_true] at hpass
    cases hloads : image.loads vm d entry with
    | none =>
      rw [dumpClass_unread image vm hpass hloads] at hstep
      cases hstep
      exact (List.append_nil _).symm
    | some read =>
      rw [dumpClass_read image vm hpass hloads] at hstep
      obtain ⟨l, hmethods, hfinish⟩ := bind_eq_ok.mp hstep
      cases hfinish
      rw [finishClass_checks, processMethods_checks image vm hmethods]
      rfl

/-- A run logs the comparisons of all its classes, in order. -/
theorem run_checks {d final : Dump} {entries : List (DexClassDef × Nat)}
    (hrun : machine.run (dumpClass image vm) d entries = .ok final) :
    final.checks = d.checks ++ runChecks image vm d entries := by
  induction entries generalizing d with
  | nil =>
    cases hrun
    exact (List.append_nil _).symm
  | cons entry rest ih =>
    obtain ⟨next, hstep, hrest⟩ := run_cons_ok.mp hrun
    rw [ih hrest, dumpClass_checks image vm hstep, runChecks, hstep, List.append_assoc]

/-- What is asked of a dump: the bytecode of every method with code has been
compared, and those comparisons have led to the right fixes and to no others. -/
structure Collected (process : Process) (d : Dump) : Prop where
  checks : d.checks = runChecks image vm (initial image process) image.classDefs.zipIdx
  registered : d.Registered
  lawful : d.Lawful

/-- The collected bytecode reaches the dump exactly when each comparison of the
method loops comes out like one with the method's own record, and none reads from
a missing array. -/
theorem bytecode_fixes_iff (process : Process) :
    (∃ d, classLoop image vm process = .ok d ∧ Collected image vm process d) ↔
      Along (dumpClass image vm) (ClassFixes image vm) (initial image process) image.classDefs.zipIdx := by
  have hcompletes := run_completes_iff (dumpClass_lawful_iff image vm) (initial image process)
    image.classDefs.zipIdx
  have hinitial : (initial image process).Lawful := by
    intro event hevent
    cases hevent
  rw [and_iff_right hinitial] at hcompletes
  rw [← hcompletes]
  constructor
  · rintro ⟨d, hloop, hcollected⟩
    exact ⟨d, hloop, hcollected.lawful⟩
  · rintro ⟨d, hloop, hlawful⟩
    refine ⟨d, hloop, ?_, classLoop_registered image vm hloop, hlawful⟩
    exact run_checks image vm hloop

/-- A mapping whose class has its data and the code of its two methods in it. -/
def twoMethods : DexImage :=
  { soleClass 144 with
    length := 240
    fits := by decide
    bounded := by decide }

def directOne : Method where
  address := 0x1000
  accessFlags := 1
  insns := twoMethods.baseAddr + 160 + 16

def virtualOne : Method where
  address := 0x2000
  accessFlags := 1
  insns := twoMethods.baseAddr + 180 + 16

/-- The instructions that were collected for the virtual method. -/
def collected : BytecodeMap where
  method := 0x2000
  insns := [0x0e, 0x00]

/-- The class data has one direct and one virtual method, with their offsets. -/
def loaded : Process where
  mem address := [0, 0, 1, 1, 0, 1, 0xa0, 1, 1, 1, 0xb4, 1].getD (address - (twoMethods.baseAddr + 144)).toNat 0
  allBytecodeMap := [collected]

def loader : Vm where
  load _ process := (process, some { directMethods _ := directOne, virtualMethods _ := virtualOne })
  malloc _ := true

/-- The virtual method is compared under the record of the direct one and is not fixed. -/
theorem collected_bytecode_missed : ∃ d, classLoop twoMethods loader loaded = .ok d ∧
    .checked virtualOne 180 180 (some collected) none ∈ d.log ∧ d.fix = [] := by
  refine ⟨{ Dump.writeClassDef (initial twoMethods loaded) (mainClass 144) with
    log := [.checked directOne 160 160 none none, .checked virtualOne 180 180 (some collected) none] },
    ?_, ?_, rfl⟩
  · rfl
  · simp

end inspector.dexhunter
