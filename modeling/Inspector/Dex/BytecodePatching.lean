import Mathlib.Data.List.Pairwise
import Mathlib.Data.List.TakeWhile
import Inspector.Dex.BufferState
import Inspector.Dex.Patch

open machine

namespace inspector.dex

section Members

variable (dex : Dex) (data : List UInt8)

/-- The positions that the code item of a method is read from. -/
def Member.item (m : Member) : List Nat := (myCode dex m.method).reads data

def Member.key (m : Member) : Reader Throwable JavaString := inspector.dex.key dex m.classType m.method

/-- The methods of the class definition at an index. -/
def classMembers (i : Nat) : List Member :=
  match (classDefAt dex i).run data with
  | .error _ => []
  | .ok def_ =>
    if def_.classDataOffset.slt 1 then []
    else match (dex.typeNames def_.typeIndex).run data, (dex.readClassData def_).run data with
      | .ok classType, .ok classData => classData.allMethods.map (Member.mk classType)
      | _, _ => []

def members : List Member := (List.range dex.classDefs).flatMap (classMembers dex data)

/-- The methods up to the first one whose key cannot be computed. -/
def keyed (ms : List Member) : List Member := ms.takeWhile fun m => ((m.key dex).run data).isOk

/-- The methods that the loop comes to: the rest of a class is left out after a method
whose key cannot be computed. -/
def reached : List Member := (List.range dex.classDefs).flatMap fun i => keyed dex data (classMembers dex data i)

/-- No code item is read from these positions. -/
def Apart (positions : List Nat) : Prop := ∀ m ∈ members dex data, List.Disjoint positions (m.item dex data)

/-- The code items are apart from one another and from what else is read. -/
structure Separate : Prop where
  items : (members dex data).Pairwise fun m m' => List.Disjoint (m.item dex data) (m'.item dex data)
  classDefs : ∀ i < dex.classDefs, Apart dex data ((classDefAt dex i).reads data)
  typeNames : ∀ i < dex.classDefs, ∀ def_, (classDefAt dex i).run data = .ok def_ →
    Apart dex data ((dex.typeNames def_.typeIndex).reads data)
  classDatas : ∀ i < dex.classDefs, ∀ def_, (classDefAt dex i).run data = .ok def_ →
    Apart dex data ((dex.readClassData def_).reads data)
  keys : ∀ m ∈ members dex data, Apart dex data ((m.key dex).reads data)

variable (instructionMap : InstructionMap)

/-- What a method alone makes of the buffer. -/
def fixed (m : Member) : List UInt8 := caught (methodStep instructionMap dex m.classType data m.method)

/-- The buffer after some methods: each code item is what its method alone makes of
it, and all else is as it was. -/
structure Progress (visited : List Member) (b : List UInt8) : Prop where
  length : b.length = data.length
  inside : ∀ m ∈ visited, ∀ q ∈ m.item dex data, b[q]? = (fixed dex data instructionMap m)[q]?
  outside : ∀ q, (∀ m ∈ visited, q ∉ m.item dex data) → b[q]? = data[q]?

end Members

variable {dex : Dex} {data b : List UInt8} {instructionMap : InstructionMap} {visited : List Member}

/-- The methods go on behind one whose key can be computed. -/
theorem keyed_of_ok {m : Member} {ms : List Member} {key : JavaString} (hkey : (m.key dex).run data = .ok key) :
    keyed dex data (m :: ms) = m :: keyed dex data ms := by
  refine List.takeWhile_cons_of_pos (p := fun m : Member => ((m.key dex).run data).isOk) ?_
  rw [hkey]
  rfl

/-- They end before one whose key cannot be computed. -/
theorem keyed_of_error {m : Member} {ms : List Member} {e : Throwable} (hkey : (m.key dex).run data = .error e) :
    keyed dex data (m :: ms) = [] := by
  refine List.takeWhile_cons_of_neg (p := fun m : Member => ((m.key dex).run data).isOk) ?_
  rw [hkey]
  exact Bool.false_ne_true

/-- A method that has a key gets the instructions of that key. -/
theorem fixed_of_key {m : Member} {key : JavaString} (hkey : (m.key dex).run data = .ok key) :
    fixed dex data instructionMap m = fixMethod instructionMap dex data key m.method := by
  have hrun : (inspector.dex.key dex m.classType m.method).run data = .ok key := hkey
  unfold fixed methodStep
  rw [hrun]
  rfl

/-- What is apart from the code items reads as before. -/
theorem Progress.run_eq {α : Type} {p : Reader Throwable α} (hprogress : Progress dex data instructionMap visited b)
    (hvisited : ∀ m ∈ visited, m ∈ members dex data) (hapart : Apart dex data (p.reads data)) :
    p.run b = p.run data := by
  refine (Reader.run_congr fun q hq => hprogress.outside q fun m hm hitem => ?_).1
  exact hapart m (hvisited m hm) hq hitem

/-- One method more. -/
theorem Progress.fixMethod {m : Member} {key : JavaString}
    (hprogress : Progress dex data instructionMap visited b) (hkey : (m.key dex).run data = .ok key)
    (hdisjoint : ∀ v ∈ visited, List.Disjoint (v.item dex data) (m.item dex data)) :
    Progress dex data instructionMap (visited ++ [m]) (inspector.dex.fixMethod instructionMap dex b key m.method) := by
  have hagree : ∀ q ∈ (myCode dex m.method).reads data, b[q]? = data[q]? := by
    intro q hq
    exact hprogress.outside q fun v hv hitem => hdisjoint v hv hitem hq
  have hlocal : _ ∧ (∀ q ∈ (myCode dex m.method).reads data,
      (inspector.dex.fixMethod instructionMap dex b key m.method)[q]? = _) ∧ _ :=
    fixMethod_local hprogress.length hagree
  obtain ⟨hlength, hinside, houtside⟩ := hlocal
  refine ⟨hlength.trans hprogress.length, fun v hv q hq => ?_, fun q hq => ?_⟩
  · rcases List.mem_append.mp hv with hold | hnew
    · rw [houtside q fun hitem => hdisjoint v hold hq hitem]
      exact hprogress.inside v hold q hq
    · rw [List.mem_singleton] at hnew
      subst hnew
      rw [hinside q hq, fixed_of_key hkey]
  · rw [houtside q (hq m (by simp))]
    exact hprogress.outside q fun v hv => hq v (by simp [hv])

/-- The loop over the methods of a class. By induction on the methods that are left,
each of which is apart from those before it. -/
theorem Progress.methodLoop {classType : JavaString} {methods : List Method} (hseparate : Separate dex data)
    (hprogress : Progress dex data instructionMap visited b) (hvisited : ∀ m ∈ visited, m ∈ members dex data)
    (hmembers : ∀ method ∈ methods, Member.mk classType method ∈ members dex data)
    (hitems : (visited ++ methods.map (Member.mk classType)).Pairwise fun m m' =>
      List.Disjoint (m.item dex data) (m'.item dex data)) :
    Progress dex data instructionMap (visited ++ keyed dex data (methods.map (Member.mk classType)))
      (caught (machine.run (methodStep instructionMap dex classType) b methods)) := by
  induction methods generalizing visited b with
  | nil =>
    rw [List.map_nil, keyed, List.takeWhile_nil, List.append_nil]
    exact hprogress
  | cons method rest ih =>
    obtain ⟨hmethod, hrest⟩ := List.forall_mem_cons.mp hmembers
    have hsame : ((Member.mk classType method).key dex).run b = ((Member.mk classType method).key dex).run data :=
      hprogress.run_eq hvisited (hseparate.keys _ hmethod)
    cases hkey : ((Member.mk classType method).key dex).run data with
    | error e =>
      rw [List.map_cons, keyed_of_error hkey, List.append_nil]
      simp only [Member.key] at hsame hkey
      rw [machine.run, methodStep, hsame, hkey]
      exact hprogress
    | ok key =>
      rw [List.map_cons, keyed_of_ok hkey, List.append_cons]
      have hstep : methodStep instructionMap dex classType b method =
          .ok (inspector.dex.fixMethod instructionMap dex b key method) := by
        simp only [Member.key] at hsame hkey
        rw [methodStep, hsame, hkey]
      rw [machine.run, hstep]
      rw [List.map_cons, List.append_cons] at hitems
      refine ih (hprogress.fixMethod hkey fun v hv => ?_) (fun m hm => ?_) hrest hitems
      · exact (List.pairwise_append.mp (List.pairwise_append.mp hitems).1).2.2 v hv _ (by simp)
      · rcases List.mem_append.mp hm with hold | hnew
        · exact hvisited m hold
        · rw [List.mem_singleton.mp hnew]
          exact hmethod

/-- The methods of a class are among those of the dex. -/
theorem mem_members {i : Nat} {m : Member} (hi : i < dex.classDefs) (hm : m ∈ classMembers dex data i) :
    m ∈ members dex data := List.mem_flatMap.mpr ⟨i, List.mem_range.mpr hi, hm⟩

/-- The methods before the first failure are some of the methods, in order. -/
theorem keyed_sublist (ms : List Member) : (keyed dex data ms).Sublist ms := List.takeWhile_sublist _

/-- The methods of the classes before some index that the loop comes to. -/
def reachedBefore (dex : Dex) (data : List UInt8) (i : Nat) : List Member :=
  (List.range i).flatMap fun j => keyed dex data (classMembers dex data j)

/-- Each class adds its methods up to the first failure. -/
theorem reachedBefore_succ (i : Nat) :
    reachedBefore dex data (i + 1) = reachedBefore dex data i ++ keyed dex data (classMembers dex data i) := by
  rw [reachedBefore, List.range_succ, List.flatMap_append]
  simp [reachedBefore]

/-- All methods that are reached are methods of the dex. -/
theorem reachedBefore_subset {i : Nat} (hi : i ≤ dex.classDefs) {m : Member}
    (hm : m ∈ reachedBefore dex data i) : m ∈ members dex data := by
  obtain ⟨j, hj, hkeyed⟩ := List.mem_flatMap.mp hm
  exact mem_members (Nat.lt_of_lt_of_le (List.mem_range.mp hj) hi) ((keyed_sublist _).subset hkeyed)

/-- The methods that are reached come in the order of their classes. -/
theorem reachedBefore_sublist (i : Nat) :
    (reachedBefore dex data i).Sublist ((List.range i).flatMap (classMembers dex data)) := by
  induction i with
  | zero => simp [reachedBefore]
  | succ i ih =>
    rw [reachedBefore_succ, List.range_succ, List.flatMap_append, List.flatMap_singleton]
    exact ih.append (keyed_sublist _)

/-- The methods of a class come after those of the classes before it. -/
theorem before_sublist {i : Nat} (hi : i < dex.classDefs) :
    (reachedBefore dex data i ++ classMembers dex data i).Sublist (members dex data) := by
  have hsucc : ((List.range i).flatMap (classMembers dex data) ++ classMembers dex data i).Sublist
      ((List.range (i + 1)).flatMap (classMembers dex data)) := by
    rw [List.range_succ, List.flatMap_append, List.flatMap_singleton]
  refine (((reachedBefore_sublist i).append (List.Sublist.refl _)).trans hsucc).trans ?_
  obtain ⟨k, hk⟩ := Nat.exists_eq_add_of_le (Nat.succ_le_of_lt hi)
  have hrange : List.range dex.classDefs = List.range (i + 1) ++ (List.range k).map (i + 1 + ·) := by
    rw [hk, List.range_add]
  rw [members, hrange, List.flatMap_append]
  exact List.sublist_append_left _ _

/-- One pass of the loop over the classes. -/
theorem Progress.classStep {i : Nat} {next : List UInt8} (hseparate : Separate dex data) (hi : i < dex.classDefs)
    (hprogress : Progress dex data instructionMap (reachedBefore dex data i) b)
    (hstep : inspector.dex.classStep instructionMap dex b i = .ok next) :
    Progress dex data instructionMap (reachedBefore dex data (i + 1)) next := by
  have hvisited : ∀ m ∈ reachedBefore dex data i, m ∈ members dex data :=
    fun m hm => reachedBefore_subset (Nat.le_of_lt hi) hm
  have hnone : classMembers dex data i = [] → Progress dex data instructionMap (reachedBefore dex data (i + 1)) b := by
    intro hempty
    rw [reachedBefore_succ, hempty, keyed, List.takeWhile_nil, List.append_nil]
    exact hprogress
  unfold inspector.dex.classStep at hstep
  rw [hprogress.run_eq hvisited (hseparate.classDefs i hi)] at hstep
  cases hdef : (classDefAt dex i).run data with
  | error e =>
    rw [hdef] at hstep
    cases hstep
  | ok def_ =>
    rw [hdef] at hstep
    dsimp only at hstep
    by_cases hslt : def_.classDataOffset.slt 1
    · rw [if_pos hslt] at hstep
      cases hstep
      exact hnone (by rw [classMembers, hdef]; exact if_pos hslt)
    · rw [if_neg hslt, hprogress.run_eq hvisited (hseparate.typeNames i hi def_ hdef),
        hprogress.run_eq hvisited (hseparate.classDatas i hi def_ hdef)] at hstep
      cases htype : (dex.typeNames def_.typeIndex).run data with
      | error e =>
        rw [htype] at hstep
        cases hstep
      | ok classType =>
        rw [htype] at hstep
        dsimp only at hstep
        cases hclassData : (dex.readClassData def_).run data with
        | error e =>
          rw [hclassData] at hstep
          cases hstep
          refine hnone ?_
          rw [classMembers, hdef]
          dsimp only
          rw [if_neg hslt, htype, hclassData]
        | ok classData =>
          rw [hclassData] at hstep
          cases hstep
          have hmembers : classMembers dex data i = classData.allMethods.map (Member.mk classType) := by
            rw [classMembers, hdef]
            dsimp only
            rw [if_neg hslt, htype, hclassData]
          rw [reachedBefore_succ, hmembers]
          refine hprogress.methodLoop hseparate hvisited (fun method hmethod => ?_) ?_
          · refine mem_members hi ?_
            rw [hmembers]
            exact List.mem_map_of_mem hmethod
          · rw [← hmembers]
            exact hseparate.items.sublist (before_sublist hi)

/-- The dex and its section that `fixDalvikBytecode` works on. -/
def opened (dexData : DirectBuffer) : Option (Dex × DexSection) := (Dex.create.run.run dexData.setMark).1.toOption

/-- What patching makes of a dex section. -/
structure Patched (instructionMap : InstructionMap) (dex : Dex) (before after : List UInt8) : Prop where
  length : after.length = before.length
  outside : ∀ q, (∀ m ∈ members dex before, q ∉ m.item dex before) → after[q]? = before[q]?
  /-- New instructions that there is room for are read back. -/
  fits : ∀ m ∈ reached dex before, ∀ key old ins, (m.key dex).run before = .ok key →
    Replaces instructionMap dex before key m.method old ins → ins.length ≤ old.instructions.length →
      (myCode dex m.method).run after = .ok (some (old.patched ins))
  /-- New instructions that are too long leave the code item as it is. -/
  tooLong : ∀ m ∈ reached dex before, ∀ key old ins, (m.key dex).run before = .ok key →
    Replaces instructionMap dex before key m.method old ins → old.instructions.length < ins.length →
      ∀ q ∈ m.item dex before, after[q]? = before[q]?
  /-- A method that has no new instructions reads back unchanged. -/
  others : ∀ m ∈ members dex before, (∀ key old ins, (m.key dex).run before = .ok key →
    ¬ Replaces instructionMap dex before key m.method old ins) →
      (myCode dex m.method).run after = (myCode dex m.method).run before

/-- The methods that the traversal reaches are methods of the dex. -/
theorem reached_subset {m : Member} (hm : m ∈ reached dex data) : m ∈ members dex data :=
  reachedBefore_subset (Nat.le_refl _) hm

/-- Every method that is reached has a key. -/
theorem key_of_keyed {m : Member} {ms : List Member} (hm : m ∈ keyed dex data ms) :
    ∃ key, (m.key dex).run data = .ok key := by
  have hok := List.mem_takeWhile_imp hm
  cases hkey : (m.key dex).run data with
  | ok key => exact ⟨key, rfl⟩
  | error e =>
    rw [hkey] at hok
    cases hok

/-- A method that the loop comes to has a key. -/
theorem key_of_reached {m : Member} (hm : m ∈ reached dex data) : ∃ key, (m.key dex).run data = .ok key := by
  obtain ⟨i, -, hkeyed⟩ := List.mem_flatMap.mp hm
  exact key_of_keyed hkeyed

/-- The code item of a method that the loop does not come to is left as it was. -/
theorem Progress.unreached {out : List UInt8} (hseparate : Separate dex data)
    (hprogress : Progress dex data instructionMap (reached dex data) out) {m : Member} (hm : m ∈ members dex data)
    (hnot : m ∉ reached dex data) {q : Nat} (hq : q ∈ m.item dex data) : out[q]? = data[q]? := by
  refine hprogress.outside q fun v hv hitem => ?_
  have hne : v ≠ m := fun heq => hnot (heq ▸ hv)
  have hsymm : Std.Symm fun m m' : Member => List.Disjoint (m.item dex data) (m'.item dex data) :=
    ⟨fun _ _ hdisjoint _ hfirst hsecond => hdisjoint hsecond hfirst⟩
  exact hseparate.items.forall (reached_subset hv) hm hne hitem hq

/-- The traversal of a dex whose code items are apart patches what it should and nothing
else. -/
theorem Progress.patched {out : List UInt8} (hseparate : Separate dex data)
    (hprogress : Progress dex data instructionMap (reached dex data) out) : Patched instructionMap dex data out := by
  refine ⟨hprogress.length, fun q hq => ?_, ?_, ?_, fun m hm hnone => ?_⟩
  · exact hprogress.outside q fun m hm => hq m (reached_subset hm)
  · intro m hm key old ins hkey hreplaces hroom
    obtain ⟨hread, hreads⟩ := hreplaces.patched hroom
    have hagree : ∀ q ∈ (myCode dex m.method).reads (inspector.dex.fixMethod instructionMap dex data key m.method),
        out[q]? = (inspector.dex.fixMethod instructionMap dex data key m.method)[q]? := by
      intro q hq
      rw [hprogress.inside m hm q (hreads q hq), fixed_of_key hkey]
    rw [(Reader.run_congr hagree).1, hread]
  · intro m hm key old ins hkey hreplaces hlonger q hq
    rw [hprogress.inside m hm q hq, fixed_of_key hkey, hreplaces.too_long hlonger]
  · refine (Reader.run_congr fun q hq => ?_).1
    by_cases hreached : m ∈ reached dex data
    · obtain ⟨key, hkey⟩ := key_of_reached hreached
      rw [hprogress.inside m hreached q hq, fixed_of_key hkey, fixMethod_of_not fun old ins => hnone key old ins hkey]
    · exact hprogress.unreached hseparate hm hreached hq

section Decidable

instance decidableDisjoint (first second : List Nat) : Decidable (List.Disjoint first second) :=
  inferInstanceAs (Decidable (∀ q ∈ first, q ∉ second))

instance decidableApart (dex : Dex) (data : List UInt8) (positions : List Nat) : Decidable (Apart dex data positions) :=
  inferInstanceAs (Decidable (∀ m ∈ members dex data, List.Disjoint positions (m.item dex data)))

instance decidableSeparate (dex : Dex) (data : List UInt8) : Decidable (Separate dex data) :=
  decidable_of_iff
    ((members dex data).Pairwise (fun m m' => List.Disjoint (m.item dex data) (m'.item dex data)) ∧
      (∀ i < dex.classDefs, Apart dex data ((classDefAt dex i).reads data) ∧
        ∀ def_ ∈ ((classDefAt dex i).run data).toOption, Apart dex data ((dex.typeNames def_.typeIndex).reads data) ∧
          Apart dex data ((dex.readClassData def_).reads data)) ∧
      ∀ m ∈ members dex data, Apart dex data ((m.key dex).reads data))
    (by
      constructor
      · rintro ⟨hitems, hclasses, hkeys⟩
        refine ⟨hitems, fun i hi => (hclasses i hi).1, fun i hi def_ hdef => ?_, fun i hi def_ hdef => ?_, hkeys⟩
        · exact ((hclasses i hi).2 def_ (by rw [hdef]; rfl)).1
        · exact ((hclasses i hi).2 def_ (by rw [hdef]; rfl)).2
      · rintro ⟨hitems, hdefs, htypes, hdatas, hkeys⟩
        refine ⟨hitems, fun i hi => ⟨hdefs i hi, fun def_ hdef => ?_⟩, hkeys⟩
        cases hrun : (classDefAt dex i).run data with
        | error e =>
          rw [hrun] at hdef
          cases hdef
        | ok found =>
          rw [hrun] at hdef
          cases hdef
          exact ⟨htypes i hi def_ hrun, hdatas i hi def_ hrun⟩)

end Decidable

/-- A dex with one class `A`, whose method `m` does nothing twice. -/
def dexOfA : List UInt8 :=
  TableOfContents.magic ++ List.replicate 24 0 ++
  [348, 0x70, 0x12345678, 0, 0, 224, 3, 112, 2, 124, 1, 132, 0, 0, 1, 144, 1, 152, 164, 184].flatMap intBytes ++
  -- the string ids, type ids, proto ids and method ids
  [212, 217, 220, 0, 1, 1, 1, 0, 0, 2].flatMap intBytes ++
  -- the class definition
  [0, 1, -1, 0, -1, 0, 204, 0].flatMap intBytes ++
  -- the code item, the class data and the strings
  [1, 1, 0, 0, 0, 0, 2, 0, 0x0000, 0x000e].flatMap shortBytes ++
  [0, 0, 0, 1, 0, 1, 0xb8, 0x01] ++
  [3, 0x4c, 0x41, 0x3b, 0, 1, 0x56, 0, 1, 0x6d, 0, 0] ++
  -- the map
  [10, 0x0000, 1, 0, 0x0001, 3, 112, 0x0002, 2, 124, 0x0003, 1, 132, 0x0005, 1, 144, 0x0006, 1, 152,
    0x2001, 1, 184, 0x2000, 1, 204, 0x2002, 3, 212, 0x1000, 1, 224].flatMap intBytes

/-- A buffer of which nothing has been read. -/
def fresh (bytes : List UInt8) : DirectBuffer where
  bytes
  position := 0
  limit := bytes.length
  mark := none
  position_le := Nat.zero_le _
  limit_le := Nat.le_refl _
  mark_le := by simp

/-- The copy that is handed back, if it is one. -/
def Returned.copy : Returned → Option (List UInt8)
  | input _ => none
  | wrapped data => some data

end inspector.dex
