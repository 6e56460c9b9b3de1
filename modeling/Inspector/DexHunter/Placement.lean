import Inspector.DexHunter.ClassDefs

open machine Relation

namespace inspector.dexhunter

variable (image : DexImage)

/-- Where the first item goes: the end of the mapping, rounded up. -/
def DexImage.origin : BitVec 32 := image.end + BitVec.ofNat 32 (padding image.end)

/-- An item that went to the extra file: it lies there where it was appended, and
its offset counts from the origin. -/
structure InExtra (extra : List UInt8) (placement : BitVec 32 × Nat × List UInt8) : Prop where
  offset : placement.1 = image.origin + BitVec.ofNat 32 placement.2.1
  aligned : placement.1.toNat % 4 = 0
  item : (extra.drop placement.2.1).take placement.2.2.length = placement.2.2
  bound : placement.2.1 + placement.2.2.length ≤ extra.length

/-- What holds of the pointer and the extra file after every effect. -/
structure Extra (d : Dump) : Prop where
  pointer : d.total_pointer = image.origin + BitVec.ofNat 32 d.extra.length
  aligned : d.total_pointer.toNat % 4 = 0
  placed : ∀ placement ∈ d.placements, InExtra image d.extra placement

variable {image}

/-- A placement in the extra part is in a longer one too. -/
theorem InExtra.append {extra : List UInt8} {placement : BitVec 32 × Nat × List UInt8}
    (hplacement : InExtra image extra placement) (more : List UInt8) :
    InExtra image (extra ++ more) placement := by
  obtain ⟨hoffset, haligned, hitem, hbound⟩ := hplacement
  refine ⟨hoffset, haligned, ?_, by rw [List.length_append]; omega⟩
  rw [List.drop_append_of_le_length (by omega), List.take_append_of_le_length]
  · exact hitem
  · rw [List.length_drop]
    omega

/-- An item behind the extra part is one more placement in it. -/
theorem Extra.place {d : Dump} (hextra : Extra image d) (item : List UInt8) :
    Extra image (d.place item (BitVec.ofNat 32 item.length)) := by
  obtain ⟨hpointer, haligned, hplaced⟩ := hextra
  refine ⟨?_, padding_aligned _, ?_⟩
  · rw [Dump.length_extra_place, BitVec.ofNat_add, BitVec.ofNat_add, Dump.place, hpointer]
    simp only [BitVec.add_assoc]
  · rw [Dump.placements_place]
    intro placement hmem
    rcases List.mem_append.mp hmem with hbefore | hlast
    · change InExtra image (d.extra ++ item ++ _) placement
      rw [List.append_assoc]
      exact (hplaced placement hbefore).append _
    · rw [List.mem_singleton] at hlast
      subst hlast
      refine ⟨hpointer, haligned, ?_, ?_⟩
      · simp [Dump.place]
      · rw [Dump.length_extra_place]
        exact Nat.le_add_right _ _

/-- Whatever an effect writes keeps the extra part as it was recorded. -/
theorem Extra.effect {d next : Dump} (hextra : Extra image d) (heffect : Effect d next) : Extra image next := by
  obtain ⟨hpointer, haligned, hplaced⟩ := hextra
  cases heffect with
  | load process => exact ⟨hpointer, haligned, hplaced⟩
  | checked process method recorded codeitem_off found registered =>
    refine ⟨hpointer, haligned, ?_⟩
    simpa [Dump.placements] using hplaced
  | place item len hlen =>
    subst hlen
    exact Extra.place ⟨hpointer, haligned, hplaced⟩ item
  | writeClassDef temp => exact ⟨hpointer, haligned, hplaced⟩

/-- The extra part is empty at first. -/
theorem Extra.initial (process : Process) : Extra image (initial image process) where
  pointer := by simp [dexhunter.initial, DexImage.origin]
  aligned := padding_aligned image.end
  placed := by simp [dexhunter.initial, Dump.placements]

variable {vm : Vm}

variable (image)

variable {image}

variable {saved : Memory} {process : Process} {d : Dump} {dex : List UInt8}

end inspector.dexhunter
