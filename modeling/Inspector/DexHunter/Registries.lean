import Inspector.Base.Registry
import Inspector.DexHunter.DumpClass

open machine registry

namespace inspector.dexhunter

/-- A node of `allCookie`. -/
structure SavedCookie where
  cookie : BitVec 32
  map : CookieMap

/-- What a cookie points to: the file that is mapped, and the magic number at its start. -/
structure OpenedFile where
  image : DexImage
  magic : List UInt8

def DEX_OPT_MAGIC : List UInt8 := "dey\n".toList.map Char.toUInt8

def DEX_OPT_MAGIC_VERS : List UInt8 := "036\x00".toList.map Char.toUInt8

/-- Whether a cookie is one that is saved. -/
def isOdex (cookie : BitVec 32) (file : OpenedFile) : Bool :=
  cookie ≠ 0 && file.magic.take 4 = DEX_OPT_MAGIC && (file.magic.drop 4).take 4 = DEX_OPT_MAGIC_VERS

/-- A call of `saveCookie`. -/
structure SaveCookie where
  cookie : BitVec 32
  file : OpenedFile
  mem : Memory

def SaveCookie.savedCookie (call : SaveCookie) : SavedCookie where
  cookie := call.cookie
  map := saveHeaderAndData call.file.image call.mem

/-- The node of a cookie that is saved. -/
def SaveCookie.node? (call : SaveCookie) : Option SavedCookie :=
  if isOdex call.cookie call.file then some call.savedCookie else none

def saveCookie (allCookie : List SavedCookie) (call : SaveCookie) : List SavedCookie :=
  if isOdex call.cookie call.file then append SavedCookie.cookie allCookie call.savedCookie else allCookie

/-- The code of a method, if it is a bytecode method. -/
def dvmGetMethodCode (m : Method) : Option (BitVec 32) :=
  if m.accessFlags &&& 0x500 = 0 then some (m.insns - 16) else none

def createBytecode (method : Method) (mem : Memory) (code : BitVec 32) : BytecodeMap where
  method := method.address
  insns := mem.slice (code + 16) (2 * (insnsSize mem code).toNat)

/-- A call of `collectBytecode`. -/
structure CollectBytecode where
  m : Method
  mem : Memory

/-- The node of a method whose instructions are collected. -/
def CollectBytecode.node? (call : CollectBytecode) : Option BytecodeMap :=
  (dvmGetMethodCode call.m).map (createBytecode call.m call.mem)

def collectBytecode (allBytecodeMap : List BytecodeMap) (call : CollectBytecode) : List BytecodeMap :=
  match dvmGetMethodCode call.m with
  | none => allBytecodeMap
  | some code => append BytecodeMap.method allBytecodeMap (createBytecode call.m call.mem code)

section Runs

def SaveCookie.step (allCookie : List SavedCookie) (call : SaveCookie) : Except Unit (List SavedCookie) :=
  .ok (saveCookie allCookie call)

def CollectBytecode.step (allBytecodeMap : List BytecodeMap) (call : CollectBytecode) :
    Except Unit (List BytecodeMap) :=
  .ok (collectBytecode allBytecodeMap call)

/-- A cookie that is not missed by the search is not the last of several. -/
def SaveCookie.Finds (allCookie : List SavedCookie) (call : SaveCookie) : Prop :=
  isOdex call.cookie call.file = true → ¬ Missed SavedCookie.cookie allCookie call.cookie

def CollectBytecode.Finds (allBytecodeMap : List BytecodeMap) (call : CollectBytecode) : Prop :=
  (dvmGetMethodCode call.m).isSome = true → ¬ Missed BytecodeMap.method allBytecodeMap call.m.address

end Runs

section Registers

variable {α β κ : Type} [DecidableEq κ] {key : α → κ} {f : List α → β → List α} {node? : β → Option α}
  {Finds : List α → β → Prop}

/-- A call that makes a node, or one that leaves the list as it is. -/
structure Registers (key : α → κ) (f : List α → β → List α) (node? : β → Option α) (Finds : List α → β → Prop) :
    Prop where
  append : ∀ nodes call node, node? call = some node →
    f nodes call = registry.append key nodes node ∧ (Finds nodes call ↔ ¬ Missed key nodes (key node))
  other : ∀ nodes call, node? call = none → f nodes call = nodes ∧ Finds nodes call

/-- After more calls, a list has one node for each key if it had so before and if every call
finds the key that it asks for. -/
theorem Registers.exact_foldl_iff (hregisters : Registers key f node? Finds) {nodes before : List α}
    (hcovers : Covers key nodes before) (calls : List β) :
    Exact key (calls.foldl f nodes) (before ++ calls.filterMap node?) ↔
      Exact key nodes before ∧ Along (fun nodes call => (.ok (f nodes call) : Except Unit _)) Finds nodes calls := by
  induction calls generalizing nodes before with
  | nil => simp [Along]
  | cons call rest ih =>
    rw [along_cons_ok rfl, List.foldl_cons, List.filterMap_cons]
    cases hnode : node? call with
    | none =>
      obtain ⟨hsame, hfinds⟩ := hregisters.other nodes call hnode
      rw [hsame, ih hcovers]
      exact and_congr_right fun _ => (and_iff_right hfinds).symm
    | some node =>
      obtain ⟨hsame, hfinds⟩ := hregisters.append nodes call node hnode
      have hmore : before ++ node :: rest.filterMap node? = (before ++ [node]) ++ rest.filterMap node? := by simp
      rw [hmore, hsame, ih (hcovers.append node), exact_append_iff hcovers node, hfinds, and_assoc]

/-- From an empty list, the nodes are exact after a run if and only if every call finds its key. -/
theorem Registers.exact_run_iff (hregisters : Registers key f node? Finds) (calls : List β) :
    ∃ nodes, machine.run (fun nodes call => (.ok (f nodes call) : Except Unit _)) [] calls = .ok nodes ∧
      (Exact key nodes (calls.filterMap node?) ↔
        Along (fun nodes call => (.ok (f nodes call) : Except Unit _)) Finds [] calls) := by
  refine ⟨_, run_ok f [] calls, ?_⟩
  have hcovers : Covers key ([] : List α) [] := ⟨by simp, by simp⟩
  have hexact : Exact key ([] : List α) [] := ⟨by simp, by simp⟩
  have hiff := hregisters.exact_foldl_iff hcovers calls
  rw [List.nil_append] at hiff
  exact hiff.trans (and_iff_right hexact)

end Registers

theorem saveCookie_registers : Registers SavedCookie.cookie saveCookie SaveCookie.node? fun s call => call.Finds s := by
  refine ⟨fun allCookie call node hnode => ?_, fun allCookie call hnode => ?_⟩
  · rw [SaveCookie.node?, Option.ite_none_right_eq_some] at hnode
    obtain ⟨hodex, hnode⟩ := hnode
    cases hnode
    exact ⟨if_pos hodex, forall_prop_of_true hodex⟩
  · have hodex : ¬ isOdex call.cookie call.file = true := by
      intro hodex
      rw [SaveCookie.node?, if_pos hodex] at hnode
      cases hnode
    exact ⟨if_neg hodex, fun htrue => absurd htrue hodex⟩

theorem collectBytecode_registers :
    Registers BytecodeMap.method collectBytecode CollectBytecode.node? fun s call => call.Finds s := by
  refine ⟨fun allBytecodeMap call node hnode => ?_, fun allBytecodeMap call hnode => ?_⟩
  · obtain ⟨code, hcode, rfl⟩ := Option.map_eq_some_iff.mp hnode
    refine ⟨by rw [collectBytecode, hcode], ?_⟩
    rw [CollectBytecode.Finds, hcode]
    exact forall_prop_of_true rfl
  · have hcode : dvmGetMethodCode call.m = none := Option.map_eq_none_iff.mp hnode
    refine ⟨by rw [collectBytecode, hcode], fun hsome => ?_⟩
    rw [hcode] at hsome
    cases hsome

/-- The two registries have one node for each key that the calls save, the first one, exactly
after the runs in which no call asks for the last of several nodes. -/
theorem registries_exact_iff (cookies : List SaveCookie) (bytecodes : List CollectBytecode) :
    (∃ allCookie, machine.run SaveCookie.step [] cookies = .ok allCookie ∧
      (Exact SavedCookie.cookie allCookie (cookies.filterMap SaveCookie.node?) ↔
        Along SaveCookie.step (fun s call => call.Finds s) [] cookies)) ∧
    ∃ allBytecodeMap, machine.run CollectBytecode.step [] bytecodes = .ok allBytecodeMap ∧
      (Exact BytecodeMap.method allBytecodeMap (bytecodes.filterMap CollectBytecode.node?) ↔
        Along CollectBytecode.step (fun s call => call.Finds s) [] bytecodes) :=
  ⟨saveCookie_registers.exact_run_iff cookies, collectBytecode_registers.exact_run_iff bytecodes⟩

/-- An odex file without classes. -/
def emptyOdex : OpenedFile where
  image := {
    addr := 0x1000
    length := 8
    base := 8
    classDefsOff := 0
    classDefs := []
    descriptor := fun _ => []
    fits := by decide
    bounded := by decide }
  magic := [0x64, 0x65, 0x79, 0x0a, 0x30, 0x33, 0x36, 0x00]

def saveEmptyOdex (cookie : BitVec 32) : SaveCookie where
  cookie
  file := emptyOdex
  mem := fun _ => 0

theorem isOdex_emptyOdex {cookie : BitVec 32} (hcookie : cookie ≠ 0) : isOdex cookie emptyOdex = true := by
  rw [isOdex, decide_eq_true hcookie]
  decide +kernel

def savedTwice : List SaveCookie := [saveEmptyOdex 1, saveEmptyOdex 2, saveEmptyOdex 2]

/-- The second of two cookies is saved twice. -/
theorem cookie_saved_twice : ∃ allCookie, machine.run SaveCookie.step [] savedTwice = .ok allCookie ∧
    allCookie.map SavedCookie.cookie = [1, 2, 2] ∧
    ¬ Exact SavedCookie.cookie allCookie (savedTwice.filterMap SaveCookie.node?) := by
  have hone : isOdex (saveEmptyOdex 1).cookie (saveEmptyOdex 1).file = true := isOdex_emptyOdex (by decide)
  have htwo : isOdex (saveEmptyOdex 2).cookie (saveEmptyOdex 2).file = true := isOdex_emptyOdex (by decide)
  refine ⟨_, run_ok (ε := Unit) saveCookie [] savedTwice, ?_⟩
  simp only [savedTwice, List.foldl_cons, List.foldl_nil, saveCookie, if_pos hone, if_pos htwo]
  have hkeys : (append SavedCookie.cookie (append SavedCookie.cookie (append SavedCookie.cookie []
      (saveEmptyOdex 1).savedCookie) (saveEmptyOdex 2).savedCookie) (saveEmptyOdex 2).savedCookie).map
      SavedCookie.cookie = [1, 2, 2] := by decide +kernel
  refine ⟨hkeys, fun hexact => ?_⟩
  have hcall : (saveEmptyOdex 2).savedCookie ∈
      [saveEmptyOdex 1, saveEmptyOdex 2, saveEmptyOdex 2].filterMap SaveCookie.node? := by
    refine List.mem_filterMap.mpr ⟨saveEmptyOdex 2, by simp, ?_⟩
    rw [SaveCookie.node?, if_pos htwo]
  have hcount := hexact.one _ hcall
  rw [hkeys] at hcount
  revert hcount
  decide

end inspector.dexhunter
