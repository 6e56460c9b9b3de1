import Inspector.Dex.CodeItem

open machine

namespace inspector.dex

/-- A method that the loop comes to, with the type of its class. -/
structure Member where
  classType : JavaString
  method : Method

theorem run_open_eq_ok {α : Type} {dex : Dex} {data : List UInt8} {position : BitVec 32} {read : Section α} {a : α} :
    (dex.open position read).run data = .ok a ↔
      (!position.msb && dex.opens position.toNat) = true ∧ ∃ next, (read position.toNat).run data = .ok (a, next) := by
  unfold Dex.open
  by_cases hopens : (!position.msb && dex.opens position.toNat) = true
  · rw [if_pos hopens, Reader.run_bind_eq_ok]
    constructor
    · rintro ⟨⟨b, next⟩, hread, hb⟩
      cases hb
      exact ⟨hopens, next, hread⟩
    · rintro ⟨-, next, hread⟩
      exact ⟨(a, next), hread, rfl⟩
  · rw [if_neg hopens]
    constructor
    · intro hfailed
      cases hfailed
    · rintro ⟨hpos, -⟩
      exact absurd hpos hopens

/-- Where a method's code is read. -/
structure HasCode (dex : Dex) (method : Method) : Prop where
  positive : ¬ method.codeOffset.slt 1
  nonzero : method.codeOffset ≠ 0
  opens : (!method.codeOffset.msb && dex.opens method.codeOffset.toNat) = true

theorem HasCode.myCode_eq {dex : Dex} {method : Method} (hcode : HasCode dex method) :
    myCode dex method = Section.readCode dex method.codeOffset.toNat >>= fun r => pure (some r.1) := by
  unfold myCode Dex.readCode Dex.open
  rw [if_neg hcode.positive, if_neg hcode.nonzero, if_pos hcode.opens, bind_assoc]
  rfl

theorem HasCode.mem_reads {dex : Dex} {method : Method} (hcode : HasCode dex method) {data : List UInt8} {q : Nat} :
    q ∈ (myCode dex method).reads data ↔ q ∈ (Section.readCode dex method.codeOffset.toNat).reads data := by
  rw [hcode.myCode_eq, Reader.mem_reads_bind]
  apply or_iff_left
  rintro ⟨r, -, hq⟩
  cases hq

theorem myCode_eq_ok {dex : Dex} {data : List UInt8} {method : Method} {old : Code}
    (hrun : (myCode dex method).run data = .ok (some old)) :
    HasCode dex method ∧ ∃ last, (Section.readCode dex method.codeOffset.toNat).run data = .ok (old, last) := by
  unfold myCode at hrun
  by_cases hslt : method.codeOffset.slt 1
  · rw [if_pos hslt] at hrun
    cases hrun
  · rw [if_neg hslt] at hrun
    obtain ⟨code, hread, hsome⟩ := Reader.run_bind_eq_ok.mp hrun
    cases hsome
    unfold Dex.readCode at hread
    by_cases hzero : method.codeOffset = 0
    · rw [if_pos hzero] at hread
      cases hread
    · rw [if_neg hzero] at hread
      obtain ⟨hopens, last, hlast⟩ := run_open_eq_ok.mp hread
      exact ⟨⟨hslt, hzero, hopens⟩, last, hlast⟩

section Replaces

variable (instructionMap : InstructionMap) (dex : Dex)

/-- The map has other instructions for a method with code. -/
structure Replaces (data : List UInt8) (key : JavaString) (method : Method) (old : Code) (ins : List (BitVec 16)) :
    Prop where
  found : instructionMap.lookup key = some (some ins)
  code : (myCode dex method).run data = .ok (some old)
  differ : ins ≠ old.instructions

variable {instructionMap dex} {data : List UInt8} {key : JavaString} {method : Method} {old : Code}
  {ins : List (BitVec 16)}

theorem fixMethod_of_not (hnot : ∀ old ins, ¬ Replaces instructionMap dex data key method old ins) :
    fixMethod instructionMap dex data key method = data := by
  unfold fixMethod
  split
  · rename_i ins old hfound hcode
    have hlookup : instructionMap.lookup key = some (some ins) := by
      cases hlookup : instructionMap.lookup key with
      | none =>
        rw [hlookup] at hfound
        cases hfound
      | some found =>
        rw [hlookup] at hfound
        exact congrArg some hfound
    by_cases hsame : ins = old.instructions
    · rw [if_pos hsame]
    · exact absurd ⟨hlookup, hcode, hsame⟩ (hnot old ins)
  · rfl

theorem Replaces.fixMethod_eq (hreplaces : Replaces instructionMap dex data key method old ins) :
    fixMethod instructionMap dex data key method =
      caught ((writeMethodInstructions dex data method ins old).map Prod.snd) := by
  unfold fixMethod
  rw [hreplaces.found, hreplaces.code]
  exact if_neg hreplaces.differ

/-- Longer instructions are not written. -/
theorem Replaces.too_long (hreplaces : Replaces instructionMap dex data key method old ins)
    (hlonger : old.instructions.length < ins.length) : fixMethod instructionMap dex data key method = data := by
  obtain ⟨hcode, -⟩ := myCode_eq_ok hreplaces.code
  rw [hreplaces.fixMethod_eq, writeMethodInstructions]
  dsimp only
  rw [if_neg hcode.nonzero, if_neg (Nat.not_le.mpr hlonger)]
  rfl

/-- Instructions that fit are written over the front of the code item. -/
theorem Replaces.fits (hreplaces : Replaces instructionMap dex data key method old ins)
    (hroom : ins.length ≤ old.instructions.length) :
    fixMethod instructionMap dex data key method =
      data.overwrite method.codeOffset.toNat (old.front ins).bytes := by
  obtain ⟨hcode, last, hread⟩ := myCode_eq_ok hreplaces.code
  obtain ⟨front, next, hitem⟩ := readCode_parts hread
  have hlength := hitem.fits hroom
  have hwritten := run_writeInstructions (hitem.valid hroom) (Nat.le_trans hlength.1 hlength.2)
  rw [hreplaces.fixMethod_eq, writeMethodInstructions]
  dsimp only
  rw [if_neg hcode.nonzero, if_pos hroom, if_pos hcode.opens, hwritten]
  rfl

/-- What is written lies within the code item. -/
theorem Replaces.inside (hreplaces : Replaces instructionMap dex data key method old ins)
    (hroom : ins.length ≤ old.instructions.length) {q : Nat} (hle : method.codeOffset.toNat ≤ q)
    (hlt : q < method.codeOffset.toNat + (old.front ins).bytes.length) :
    q ∈ (myCode dex method).reads data ∧
      method.codeOffset.toNat + (old.front ins).bytes.length ≤ data.length := by
  obtain ⟨hcode, last, hread⟩ := myCode_eq_ok hreplaces.code
  obtain ⟨front, next, hitem⟩ := readCode_parts hread
  have hlength := hitem.fits hroom
  exact ⟨hcode.mem_reads.mpr (hitem.inside hle (Nat.lt_of_lt_of_le hlt hlength.1)),
    Nat.le_trans hlength.1 hlength.2⟩

/-- The code that is read back after a fix, from bytes of the old code item. -/
theorem Replaces.patched (hreplaces : Replaces instructionMap dex data key method old ins)
    (hroom : ins.length ≤ old.instructions.length) :
    (myCode dex method).run (fixMethod instructionMap dex data key method) = .ok (some (old.patched ins)) ∧
    ∀ q ∈ (myCode dex method).reads (fixMethod instructionMap dex data key method),
      q ∈ (myCode dex method).reads data := by
  obtain ⟨hcode, last, hread⟩ := myCode_eq_ok hreplaces.code
  obtain ⟨front, next, hitem⟩ := readCode_parts hread
  obtain ⟨⟨last', hnew⟩, hreads⟩ := hitem.patched hroom
  rw [hreplaces.fits hroom]
  constructor
  · rw [hcode.myCode_eq]
    exact Reader.run_bind_eq_ok.mpr ⟨_, hnew, rfl⟩
  · intro q hq
    exact hcode.mem_reads.mpr (hreads q (hcode.mem_reads.mp hq))

/-- A fix depends on the bytes of the code item only, and changes no others. -/
theorem fixMethod_local {b : List UInt8} (hlength : b.length = data.length)
    (hagree : ∀ q ∈ (myCode dex method).reads data, b[q]? = data[q]?) :
    (fixMethod instructionMap dex b key method).length = b.length ∧
    (∀ q ∈ (myCode dex method).reads data,
      (fixMethod instructionMap dex b key method)[q]? = (fixMethod instructionMap dex data key method)[q]?) ∧
    ∀ q, q ∉ (myCode dex method).reads data → (fixMethod instructionMap dex b key method)[q]? = b[q]? := by
  have hrun := (Reader.run_congr hagree).1
  by_cases hexists : ∃ old ins, Replaces instructionMap dex data key method old ins ∧
      ins.length ≤ old.instructions.length
  · obtain ⟨old, ins, hreplaces, hroom⟩ := hexists
    have hb : Replaces instructionMap dex b key method old ins :=
      ⟨hreplaces.found, hrun.trans hreplaces.code, hreplaces.differ⟩
    rw [hb.fits hroom, hreplaces.fits hroom]
    have hposition : ∀ q, q < method.codeOffset.toNat ∨
        method.codeOffset.toNat + (old.front ins).bytes.length ≤ q ∨ q ∈ (myCode dex method).reads data ∧
          ∃ i, q = method.codeOffset.toNat + i ∧ i < (old.front ins).bytes.length ∧
            method.codeOffset.toNat + (old.front ins).bytes.length ≤ data.length := by
      intro q
      by_cases hbefore : q < method.codeOffset.toNat
      · exact .inl hbefore
      · by_cases hafter : method.codeOffset.toNat + (old.front ins).bytes.length ≤ q
        · exact .inr (.inl hafter)
        · obtain ⟨hmem, hfits⟩ := hreplaces.inside hroom (Nat.le_of_not_lt hbefore) (Nat.lt_of_not_le hafter)
          exact .inr (.inr ⟨hmem, q - method.codeOffset.toNat, by omega, by omega, hfits⟩)
    refine ⟨List.length_overwrite _ _ _, fun q hq => ?_, fun q hq => ?_⟩
    · rcases hposition q with hbefore | hafter | ⟨-, i, rfl, hi, hfits⟩
      · rw [List.getElem?_overwrite_before hbefore, List.getElem?_overwrite_before hbefore, hagree q hq]
      · rw [List.getElem?_overwrite_after hafter, List.getElem?_overwrite_after hafter, hagree q hq]
      · rw [List.getElem?_overwrite hi (by rw [hlength]; exact hfits), List.getElem?_overwrite hi hfits]
    · rcases hposition q with hbefore | hafter | ⟨hmem, -⟩
      · exact List.getElem?_overwrite_before hbefore
      · exact List.getElem?_overwrite_after hafter
      · exact absurd hmem hq
  · have hsame : ∀ d, (myCode dex method).run d = (myCode dex method).run data →
        fixMethod instructionMap dex d key method = d := by
      intro d hd
      by_cases hlong : ∃ old ins, Replaces instructionMap dex d key method old ins
      · obtain ⟨old, ins, hreplaces⟩ := hlong
        refine hreplaces.too_long (Nat.lt_of_not_le fun hroom => hexists ⟨old, ins, ?_, hroom⟩)
        exact ⟨hreplaces.found, hd.symm.trans hreplaces.code, hreplaces.differ⟩
      · exact fixMethod_of_not fun old ins hreplaces => hlong ⟨old, ins, hreplaces⟩
    rw [hsame b hrun, hsame data rfl]
    exact ⟨rfl, hagree, fun _ _ => rfl⟩

end Replaces

end inspector.dex
