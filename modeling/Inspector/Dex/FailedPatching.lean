import Inspector.Dex.BytecodePatching

open machine

namespace inspector.dex

section Defs

variable (dex : Dex) (data : List UInt8)

/-- Whether the loop over the classes goes on after a class: its definition can be read, and the
name of its type unless it has no class data. -/
def classReads (i : Nat) : Bool :=
  match (classDefAt dex i).run data with
  | .error _ => false
  | .ok def_ => def_.classDataOffset.slt 1 || ((dex.typeNames def_.typeIndex).run data).isOk

/-- The methods that the loop over the classes comes to before it fails. -/
def visited : List Member :=
  let off := (dex.tableOfContents.entry .classDefs).off
  if dex.classDefs = 0 || (!off.msb && dex.opens off.toNat) then
    ((List.range dex.classDefs).takeWhile (classReads dex data)).flatMap fun i =>
      keyed dex data (classMembers dex data i)
  else []

end Defs

section Handed

variable (instructionMap : InstructionMap) (thrown : Option Throwable) (b : DirectBuffer)

/-- `fixDalvikBytecode` catches an exception, also one that is thrown while the copy is made. -/
def Catches : Prop :=
  ¬ instructionMap.isEmpty ∧ ∃ e after, (fixDex instructionMap thrown).run.run b.setMark = (.error e, after)

/-- The buffer is handed back as it was on entry. -/
def HandedBack : Prop := ∃ r, fixDalvikBytecode instructionMap thrown b = .ok (.input r) ∧
  r.bytes = b.bytes ∧ r.position = b.position ∧ r.limit = b.limit

/-- For no method that comes before the failure does the map have other instructions that there is
room for. -/
def Untouched : Prop := ∀ dex section_, opened b = some (dex, section_) →
  ∀ m ∈ visited dex section_.data, ∀ key old ins, (m.key dex).run section_.data = .ok key →
    Replaces instructionMap dex section_.data key m.method old ins → old.instructions.length < ins.length

end Handed

variable {instructionMap : InstructionMap} {thrown : Option Throwable} {dex : Dex} {data out : List UInt8}
  {b : DirectBuffer} {e : Throwable}

/-- Instructions that there is room for are read back, so the bytes are not what they were. -/
theorem fixMethod_eq_self_iff {key : JavaString} {method : Method} :
    fixMethod instructionMap dex data key method = data ↔
      ∀ old ins, Replaces instructionMap dex data key method old ins → old.instructions.length < ins.length := by
  constructor
  · intro hsame old ins hreplaces
    by_contra hlonger
    have hpatched := (hreplaces.patched (Nat.le_of_not_lt hlonger)).1
    rw [hsame, hreplaces.code] at hpatched
    have hold : old = old.patched ins := Option.some.inj (Except.ok.inj hpatched)
    have hinstructions := congrArg Code.instructions hold
    rw [Code.instructions_patched] at hinstructions
    exact hreplaces.differ hinstructions.symm
  · intro hlonger
    by_cases hexists : ∃ old ins, Replaces instructionMap dex data key method old ins
    · obtain ⟨old, ins, hreplaces⟩ := hexists
      exact hreplaces.too_long (hlonger old ins hreplaces)
    · exact fixMethod_of_not fun old ins hreplaces => hexists ⟨old, ins, hreplaces⟩

/-- Every method that the traversal visits has a key. -/
theorem keyed_of_visited {m : Member} (hm : m ∈ visited dex data) : ∃ key, (m.key dex).run data = .ok key := by
  unfold visited at hm
  dsimp only at hm
  split at hm
  · obtain ⟨i, -, hkeyed⟩ := List.mem_flatMap.mp hm
    exact key_of_keyed hkeyed
  · exact absurd hm List.not_mem_nil

/-- What the condition says of the bytes that each method makes. -/
theorem untouched_iff {section_ : DexSection} (hopened : opened b = some (dex, section_)) :
    Untouched instructionMap b ↔
      ∀ m ∈ visited dex section_.data, fixed dex section_.data instructionMap m = section_.data := by
  constructor
  · intro huntouched m hm
    obtain ⟨key, hkey⟩ := keyed_of_visited hm
    rw [fixed_of_key hkey]
    exact fixMethod_eq_self_iff.mpr fun old ins => huntouched dex section_ hopened m hm key old ins hkey
  · intro hfixed other otherSection hother m hm key old ins hkey
    rw [hopened] at hother
    cases hother
    have hsame := hfixed m hm
    rw [fixed_of_key hkey] at hsame
    exact fixMethod_eq_self_iff.mp hsame old ins

section Unchanged

/-- Methods that are not given other instructions leave the bytes as they are. -/
theorem methodLoop_unchanged {classType : JavaString} {methods : List Method}
    (huntouched : ∀ m ∈ keyed dex data (methods.map (Member.mk classType)), fixed dex data instructionMap m = data) :
    caught (machine.run (methodStep instructionMap dex classType) data methods) = data := by
  induction methods with
  | nil => rfl
  | cons method rest ih =>
    rw [List.map_cons] at huntouched
    cases hkey : ((Member.mk classType method).key dex).run data with
    | error e =>
      have hrun : (key dex classType method).run data = .error e := hkey
      rw [machine.run, methodStep, hrun]
      rfl
    | ok key =>
      rw [keyed_of_ok hkey] at huntouched
      obtain ⟨hmethod, hrest⟩ := List.forall_mem_cons.mp huntouched
      rw [fixed_of_key hkey] at hmethod
      have hrun : (inspector.dex.key dex classType method).run data = .ok key := hkey
      have hstep : methodStep instructionMap dex classType data method = .ok data := by
        rw [methodStep, hrun]
        exact congrArg Except.ok hmethod
      rw [machine.run, hstep]
      exact ih hrest

/-- A class whose methods keep their code is passed with the data as it was, read or not. -/
theorem classStep_unchanged {i : Nat}
    (huntouched : ∀ m ∈ keyed dex data (classMembers dex data i), fixed dex data instructionMap m = data) :
    (classReads dex data i = true ∧ classStep instructionMap dex data i = .ok data) ∨
      classReads dex data i = false ∧ ∃ e, classStep instructionMap dex data i = .error (e, data) := by
  unfold classReads classStep
  unfold classMembers at huntouched
  cases hdef : (classDefAt dex i).run data with
  | error e => exact Or.inr ⟨rfl, e, rfl⟩
  | ok def_ =>
    rw [hdef] at huntouched
    dsimp only at huntouched ⊢
    by_cases hslt : def_.classDataOffset.slt 1 = true
    · rw [hslt, if_pos rfl]
      exact Or.inl ⟨rfl, rfl⟩
    · rw [Bool.not_eq_true] at hslt
      rw [hslt, if_neg Bool.false_ne_true] at huntouched
      rw [hslt, if_neg Bool.false_ne_true]
      cases htype : (dex.typeNames def_.typeIndex).run data with
      | error e => exact Or.inr ⟨rfl, e, rfl⟩
      | ok classType =>
        refine Or.inl ⟨rfl, ?_⟩
        rw [htype] at huntouched
        dsimp only
        cases hclassData : (dex.readClassData def_).run data with
        | error e => rfl
        | ok classData =>
          rw [hclassData] at huntouched
          exact congrArg Except.ok (methodLoop_unchanged huntouched)

/-- A class that cannot be read has no members to visit. -/
theorem classMembers_of_not_reads {i : Nat} (hreads : ¬ classReads dex data i = true) :
    classMembers dex data i = [] := by
  unfold classReads at hreads
  unfold classMembers
  cases hdef : (classDefAt dex i).run data with
  | error e => rfl
  | ok def_ =>
    rw [hdef, Bool.or_eq_true, not_or] at hreads
    dsimp only
    rw [if_neg hreads.1]
    cases htype : (dex.typeNames def_.typeIndex).run data with
    | error e => rfl
    | ok classType =>
      rw [htype] at hreads
      exact absurd rfl hreads.2

/-- Classes whose methods are left alone leave the bytes as they are, up to the one that fails. -/
theorem classSteps_unchanged {classes : List Nat} (huntouched : ∀ m ∈
      (classes.takeWhile (classReads dex data)).flatMap fun i => keyed dex data (classMembers dex data i),
    fixed dex data instructionMap m = data) :
    machine.run (classStep instructionMap dex) data classes = .ok data ∨
      ∃ e, machine.run (classStep instructionMap dex) data classes = .error (e, data) := by
  induction classes with
  | nil => exact Or.inl rfl
  | cons i rest ih =>
    by_cases hreads : classReads dex data i = true
    · rw [List.takeWhile_cons_of_pos hreads, List.flatMap_cons, List.forall_mem_append] at huntouched
      rcases classStep_unchanged huntouched.1 with ⟨-, hstep⟩ | ⟨hnot, -⟩
      · rw [machine.run, hstep]
        exact ih huntouched.2
      · rw [hreads] at hnot
        cases hnot
    · have hnone : ∀ m ∈ keyed dex data (classMembers dex data i), fixed dex data instructionMap m = data := by
        rw [classMembers_of_not_reads hreads, keyed, List.takeWhile_nil]
        exact fun m hm => absurd hm List.not_mem_nil
      rcases classStep_unchanged hnone with ⟨hnot, -⟩ | ⟨-, e, hstep⟩
      · exact absurd hnot hreads
      · rw [machine.run, hstep]
        exact Or.inr ⟨e, rfl⟩

/-- The loop ends with the bytes that it was given, whether it fails or not. -/
theorem classLoop_unchanged (huntouched : ∀ m ∈ visited dex data, fixed dex data instructionMap m = data) :
    caught (classLoop instructionMap dex data) = data := by
  unfold classLoop
  unfold visited at huntouched
  dsimp only at huntouched ⊢
  split
  · rename_i hopens
    rw [if_pos hopens] at huntouched
    rcases classSteps_unchanged huntouched with hrun | ⟨other, hrun⟩
    · rw [hrun]
      rfl
    · rw [hrun]
      rfl
  · rfl

end Unchanged

section Touched

/-- What the loop does with a class, after the methods before it: a class that fails leaves the
bytes as they are. -/
theorem classStep_ends {i : Nat} {before : List Member} (hseparate : Separate dex data) (hi : i < dex.classDefs)
    (hprogress : Progress dex data instructionMap before out) (hbefore : ∀ m ∈ before, m ∈ members dex data) :
    (classReads dex data i = true ∧ ∃ next, classStep instructionMap dex out i = .ok next) ∨
      classReads dex data i = false ∧ ∃ e, classStep instructionMap dex out i = .error (e, out) := by
  unfold classStep classReads
  rw [hprogress.run_eq hbefore (hseparate.classDefs i hi)]
  cases hdef : (classDefAt dex i).run data with
  | error e => exact Or.inr ⟨rfl, e, rfl⟩
  | ok def_ =>
    dsimp only
    by_cases hslt : def_.classDataOffset.slt 1 = true
    · rw [hslt, if_pos rfl]
      exact Or.inl ⟨rfl, out, rfl⟩
    · rw [if_neg hslt, hprogress.run_eq hbefore (hseparate.typeNames i hi def_ hdef)]
      rw [Bool.not_eq_true] at hslt
      rw [hslt, Bool.false_or]
      cases htype : (dex.typeNames def_.typeIndex).run data with
      | error e => exact Or.inr ⟨rfl, e, rfl⟩
      | ok classType =>
        refine Or.inl ⟨rfl, ?_⟩
        dsimp only
        split
        · exact ⟨_, rfl⟩
        · exact ⟨_, rfl⟩

/-- The classes that are read, up to the one that is not. -/
theorem takeWhile_range {p : Nat → Bool} {n k : Nat} (hk : k < n) (hall : ∀ i < k, p i = true) (hnot : ¬ p k = true) :
    (List.range n).takeWhile p = List.range k := by
  obtain ⟨m, rfl⟩ := Nat.exists_eq_add_of_lt hk
  rw [Nat.add_assoc, List.range_add, List.range_succ_eq_map, List.map_cons, Nat.add_zero,
    List.takeWhile_append_of_pos (fun i hi => hall i (List.mem_range.mp hi)), List.takeWhile_cons_of_neg hnot,
    List.append_nil]

/-- The loop ends with what the methods that it comes to have been given, whether it fails or not. -/
theorem classLoop_ends (hseparate : Separate dex data) :
    Progress dex data instructionMap (visited dex data) (caught (classLoop instructionMap dex data)) := by
  unfold classLoop visited
  dsimp only
  split
  · rename_i hopens
    -- up to the class that fails, all classes are read and their methods are fixed
    have hpasses : ∀ i < dex.classDefs, ∀ s next,
        (Progress dex data instructionMap (reachedBefore dex data i) s ∧ ∀ j < i, classReads dex data j = true) →
        classStep instructionMap dex s i = .ok next →
        Progress dex data instructionMap (reachedBefore dex data (i + 1)) next ∧
          ∀ j < i + 1, classReads dex data j = true := by
      rintro i hi s next ⟨hprogress, hreads⟩ hstep
      refine ⟨hprogress.classStep hseparate hi hstep, fun j hj => ?_⟩
      rcases Nat.lt_succ_iff_lt_or_eq.mp hj with hlt | rfl
      · exact hreads j hlt
      · rcases classStep_ends hseparate hi hprogress fun m hm => reachedBefore_subset (Nat.le_of_lt hi) hm with
          ⟨hread, -⟩ | ⟨-, e, herror⟩
        · exact hread
        · rw [hstep] at herror
          cases herror
    have hstart : Progress dex data instructionMap (reachedBefore dex data 0) data ∧
        ∀ j < 0, classReads dex data j = true :=
      ⟨⟨rfl, fun m hm => absurd hm List.not_mem_nil, fun _ _ => rfl⟩, fun j hj => absurd hj (Nat.not_lt_zero j)⟩
    cases hloop : machine.run (classStep instructionMap dex) data (List.range dex.classDefs) with
    | ok out =>
      obtain ⟨hprogress, hreads⟩ := run_range
        (P := fun i s => Progress dex data instructionMap (reachedBefore dex data i) s ∧
          ∀ j < i, classReads dex data j = true) hstart hpasses hloop
      rw [List.takeWhile_eq_self_iff.mpr fun i hi => hreads i (List.mem_range.mp hi)]
      exact hprogress
    | error broken =>
      obtain ⟨k, hk, middle, ⟨hprogress, hreads⟩, hstep⟩ := run_range_error
        (P := fun i s => Progress dex data instructionMap (reachedBefore dex data i) s ∧
          ∀ j < i, classReads dex data j = true) hstart hpasses hloop
      rcases classStep_ends hseparate hk hprogress fun m hm => reachedBefore_subset (Nat.le_of_lt hk) hm with
        ⟨-, next, hok⟩ | ⟨hnot, other, herror⟩
      · rw [hstep] at hok
        cases hok
      · rw [hstep] at herror
        cases herror
        rw [takeWhile_range hk hreads (ne_true_of_eq_false hnot)]
        exact hprogress
  · exact ⟨rfl, fun m hm => absurd hm List.not_mem_nil, fun _ _ => rfl⟩

/-- Bytes that are the same after the failure have not been touched before it: what is written to
one code item no other method takes back. -/
theorem untouched_of_same (hseparate : Separate dex data) (hsame : caught (classLoop instructionMap dex data) = data) :
    ∀ m ∈ visited dex data, fixed dex data instructionMap m = data := by
  intro m hm
  have hprogress : Progress dex data instructionMap _ _ := classLoop_ends hseparate
  rw [hsame] at hprogress
  obtain ⟨key, hkey⟩ := keyed_of_visited hm
  apply List.ext_getElem?
  intro q
  by_cases hitem : q ∈ m.item dex data
  · exact (hprogress.inside m hm q hitem).symm
  · rw [fixed_of_key hkey]
    exact (fixMethod_local rfl fun _ _ => rfl).2.2 q hitem

end Touched

section Handed

/-- The buffer after an exception that is caught. -/
theorem fixDex_error {after : DirectBuffer}
    (hrun : (fixDex instructionMap thrown).run.run b.setMark = (.error e, after)) :
    ∃ s, Dex.SectionOpened b s ∧ ((opened b = none ∧ after = s) ∨
      ∃ dex section_, opened b = some (dex, section_) ∧ Dex.Part b.bytes section_ ∧
        after = s.overwrite section_.start (caught (classLoop instructionMap dex section_.data))) := by
  obtain ⟨r, s, hcreate, hsame, hpart⟩ := Dex.create_run b
  refine ⟨s, hsame, ?_⟩
  unfold fixDex at hrun
  unfold opened
  rw [hcreate]
  cases r with
  | error other =>
    rw [throwing.Block.run_bind_error hcreate] at hrun
    cases hrun
    exact Or.inl ⟨rfl, rfl⟩
  | ok found =>
    obtain ⟨dex, section_⟩ := found
    rw [throwing.Block.run_bind hcreate] at hrun
    dsimp only at hrun
    refine Or.inr ⟨dex, section_, rfl, hpart dex section_ rfl, ?_⟩
    cases hloop : classLoop instructionMap dex section_.data with
    | ok data =>
      rw [hloop] at hrun
      cases thrown with
      | none => cases hrun
      | some thrown =>
        cases hrun
        rfl
    | error broken =>
      rw [hloop] at hrun
      cases hrun
      rfl

/-- A buffer with a mark goes back to it. -/
theorem reset_of_mark {s : DirectBuffer} {m : Nat} (hmark : s.mark = some m) :
    ∃ r, s.reset = .ok r ∧ r.bytes = s.bytes ∧ r.position = m ∧ r.limit = s.limit := by
  unfold DirectBuffer.reset
  split
  · rename_i found hfound
    rw [hmark, Option.some_inj] at hfound
    exact ⟨_, rfl, rfl, hfound.symm, rfl⟩
  · rename_i hnone
    rw [hmark] at hnone
    cases hnone

/-- A buffer without a mark cannot be reset. -/
theorem reset_of_no_mark {s : DirectBuffer} (hmark : s.mark = none) : s.reset = .error .invalidMark := by
  unfold DirectBuffer.reset
  split
  · rename_i found hfound
    rw [hmark] at hfound
    cases hfound
  · rfl

/-- The buffer is handed back if the failed call left its mark, its limit and its bytes alone.
-/
theorem handedBack_iff_after {after : DirectBuffer} (hmap : ¬ instructionMap.isEmpty)
    (hrun : (fixDex instructionMap thrown).run.run b.setMark = (.error e, after))
    (honly : ∀ m ∈ after.mark, m = b.position) : HandedBack instructionMap thrown b ↔
      (after.mark = some b.position ∧ after.limit = b.limit) ∧ after.bytes = b.bytes := by
  have hfix : fixDalvikBytecode instructionMap thrown b = after.reset.map .input := by
    rw [fixDalvikBytecode, if_neg hmap, hrun]
  unfold HandedBack
  rw [hfix]
  cases hmark : after.mark with
  | none =>
    rw [reset_of_no_mark hmark]
    constructor
    · rintro ⟨r, hr, -⟩
      cases hr
    · rintro ⟨⟨hsome, -⟩, -⟩
      cases hsome
  | some m =>
    have hm := honly m hmark
    subst hm
    obtain ⟨r, hreset, hbytes, hposition, hlimit⟩ := reset_of_mark hmark
    rw [hreset]
    constructor
    · rintro ⟨other, hother, hsameBytes, -, hsameLimit⟩
      cases hother
      exact ⟨⟨rfl, hlimit.symm.trans hsameLimit⟩, hbytes.symm.trans hsameBytes⟩
    · rintro ⟨⟨-, hsameLimit⟩, hsameBytes⟩
      exact ⟨r, rfl, hbytes.trans hsameBytes, hposition, hlimit.trans hsameLimit⟩

/-- A section that is put back as it was. -/
theorem overwrite_part {bytes : List UInt8} {section_ : DexSection} (hpart : Dex.Part bytes section_)
    (hlength : data.length = section_.data.length) :
    bytes.overwrite section_.start data = bytes ↔ data = section_.data := by
  have hfits := hpart.fits
  rw [← hlength] at hfits
  constructor
  · intro hsame
    have hdrop := List.drop_overwrite hfits
    rw [hsame] at hdrop
    rw [hpart.data, hdrop, ← hlength, List.take_left]
  · rintro rfl
    apply List.ext_getElem?
    intro q
    by_cases hbefore : q < section_.start
    · exact List.getElem?_overwrite_before hbefore
    by_cases hafter : section_.start + section_.data.length ≤ q
    · exact List.getElem?_overwrite_after hafter
    obtain ⟨i, rfl⟩ := Nat.exists_eq_add_of_le (Nat.le_of_not_lt hbefore)
    have hi : i < section_.data.length := by omega
    rw [List.getElem?_overwrite hi hfits, hpart.data, List.getElem?_take_of_lt hi, List.getElem?_drop]

/-- What a caught exception leaves of the buffer is what it was on entry exactly if the header of
the `.odex` file leaves the mark and the limit alone and no method before the exception has other
instructions that there is room for. Without the separation of the code items the instructions of
one method may take back those of another one. -/
theorem handedBack_iff (hcatches : Catches instructionMap thrown b) :
    (b.Keeps ∧ Untouched instructionMap b → HandedBack instructionMap thrown b) ∧
    (HandedBack instructionMap thrown b → b.Keeps) ∧
    ((∀ dex section_, opened b = some (dex, section_) → Separate dex section_.data) →
      (HandedBack instructionMap thrown b ↔ b.Keeps ∧ Untouched instructionMap b)) := by
  obtain ⟨hmap, e, after, hrun⟩ := hcatches
  obtain ⟨s, hsection, ⟨hnone, rfl⟩ | ⟨dex, section_, hopened, hpart, rfl⟩⟩ := fixDex_error hrun
  · have huntouched : Untouched instructionMap b := by
      intro dex section_ hopened
      rw [hnone] at hopened
      cases hopened
    have hiff : HandedBack instructionMap thrown b ↔ b.Keeps := by
      rw [handedBack_iff_after hmap hrun hsection.only, hsection.same]
      exact and_iff_left hsection.bytes
    exact ⟨fun h => hiff.mpr h.1, hiff.mp, fun _ => hiff.trans (and_iff_left huntouched).symm⟩
  · have hiff : HandedBack instructionMap thrown b ↔ b.Keeps ∧
        b.bytes.overwrite section_.start (caught (classLoop instructionMap dex section_.data)) = b.bytes := by
      rw [handedBack_iff_after hmap hrun hsection.only, ← hsection.same, ← hsection.bytes]
      exact Iff.rfl
    have hsame (h : Untouched instructionMap b) :
        b.bytes.overwrite section_.start (caught (classLoop instructionMap dex section_.data)) = b.bytes := by
      have hdata := classLoop_unchanged ((untouched_iff hopened).mp h)
      exact (overwrite_part hpart (congrArg List.length hdata)).mpr hdata
    refine ⟨fun ⟨hkeeps, h⟩ => hiff.mpr ⟨hkeeps, hsame h⟩, fun h => (hiff.mp h).1, fun hseparate => ?_⟩
    rw [hiff]
    refine and_congr_right fun _ => ⟨fun hbytes => (untouched_iff hopened).mpr ?_, hsame⟩
    have hprogress : Progress dex section_.data instructionMap _ _ := classLoop_ends (hseparate dex section_ hopened)
    rw [overwrite_part hpart hprogress.length] at hbytes
    exact untouched_of_same (hseparate dex section_ hopened) hbytes

/-- The dex of `A` with a second class definition, where there is the code item of `m`. -/
def twoClasses : List UInt8 := (dexOfA.overwrite 96 [2]).overwrite 292 [2]

/-- A call of `fixDex` that fails is caught. -/
theorem catches_of_not_ok (hmap : ¬ instructionMap.isEmpty)
    (hfailed : ((fixDex instructionMap thrown).run.run b.setMark).1.isOk = false) :
    Catches instructionMap thrown b := by
  refine ⟨hmap, ?_⟩
  cases hrun : (fixDex instructionMap thrown).run.run b.setMark with
  | mk r after =>
    rw [hrun] at hfailed
    cases r with
    | error e => exact ⟨e, after, rfl⟩
    | ok data => cases hfailed

/-- A dex in which no visited method is patched is untouched. -/
theorem untouched_of_fixed (hfixed : ∀ p ∈ opened b, ∀ m ∈ visited p.1 p.2.data,
    fixed p.1 p.2.data instructionMap m = p.2.data) : Untouched instructionMap b := by
  intro dex section_ hopened
  exact (untouched_iff hopened).mpr (hfixed (dex, section_) hopened) dex section_ hopened

/-- The second class fails behind a method for which there are too many instructions, and the
copy of a dex cannot be made. -/
theorem longer_handedBack :
    HandedBack [(javaString "LA;->m()V", some [0, 0, 0x000e])] none (fresh twoClasses) ∧
    HandedBack [(javaString "LA;->m()V", some [0, 0, 0x000e])] (some .outOfMemory) (fresh dexOfA) := by
  have hloop : Catches [(javaString "LA;->m()V", some [0, 0, 0x000e])] none (fresh twoClasses) :=
    catches_of_not_ok (by decide) (by decide +kernel)
  have hcopy : Catches [(javaString "LA;->m()V", some [0, 0, 0x000e])] (some .outOfMemory) (fresh dexOfA) :=
    catches_of_not_ok (by decide) (by decide +kernel)
  have hloopKeeps : (fresh twoClasses).Keeps := fun hodex => absurd hodex.2.2.2.1 (by decide +kernel)
  have hcopyKeeps : (fresh dexOfA).Keeps := fun hodex => absurd hodex.2.2.2.1 (by decide +kernel)
  exact ⟨(handedBack_iff hloop).1 ⟨hloopKeeps, untouched_of_fixed (by decide +kernel)⟩,
    (handedBack_iff hcopy).1 ⟨hcopyKeeps, untouched_of_fixed (by decide +kernel)⟩⟩

/-- An `.odex` file with an empty section at 16. -/
def emptySection : DirectBuffer :=
  fresh ([0x64, 0x65, 0x79, 0x0a, 0x30, 0x33, 0x36, 0x00] ++ [16, 0, 0, 0].flatMap intBytes)

/-- What is handed back, with its limit. -/
def Returned.buffer : Returned → Option (List UInt8 × Nat)
  | input b => some (b.bytes, b.limit)
  | wrapped _ => none

theorem buffer_of_handedBack (hhanded : HandedBack instructionMap thrown b) :
    (fixDalvikBytecode instructionMap thrown b).toOption.bind Returned.buffer = some (b.bytes, b.limit) := by
  obtain ⟨r, hfix, hbytes, -, hlimit⟩ := hhanded
  rw [hfix, ← hbytes, ← hlimit]
  rfl

/-- The file is handed back with its limit at 16, and the dexes with other instructions for `m`. -/
theorem not_handedBack :
    (Catches [(javaString "LA;->m()V", some [0x000e])] none emptySection ∧
      ¬ HandedBack [(javaString "LA;->m()V", some [0x000e])] none emptySection) ∧
    (Catches [(javaString "LA;->m()V", some [0x000e])] none (fresh twoClasses) ∧
      ¬ HandedBack [(javaString "LA;->m()V", some [0x000e])] none (fresh twoClasses)) ∧
    (Catches [(javaString "LA;->m()V", some [0x000e])] (some .outOfMemory) (fresh dexOfA) ∧
      ¬ HandedBack [(javaString "LA;->m()V", some [0x000e])] (some .outOfMemory) (fresh dexOfA)) := by
  refine ⟨⟨catches_of_not_ok (by decide) (by decide +kernel), fun hhanded => ?_⟩,
    ⟨catches_of_not_ok (by decide) (by decide +kernel), fun hhanded => ?_⟩,
    catches_of_not_ok (by decide) (by decide +kernel), fun hhanded => ?_⟩
  · have hbuffer := buffer_of_handedBack hhanded
    revert hbuffer
    decide +kernel
  · have hbuffer := buffer_of_handedBack hhanded
    revert hbuffer
    decide +kernel
  · have hbuffer := buffer_of_handedBack hhanded
    revert hbuffer
    decide +kernel

end Handed

end inspector.dex
