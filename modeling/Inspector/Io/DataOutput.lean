import Inspector.Io.DataInput

open stream

namespace inspector.io

abbrev JavaString := List (BitVec 16)

/-- Elements behind their number, if an array has room for so many. -/
def writeArray {α : Type} (encode : α → List UInt8) (elements : List α) : Option (List UInt8) :=
  if elements.length < 2 ^ 31 then some (writeInt (BitVec.ofNat 32 elements.length) ++ elements.flatMap encode)
  else none

def writeData (bytes : List UInt8) : Option (List UInt8) := writeArray (fun b => [b]) bytes

/-- What stands behind its length, as an array. -/
theorem exists_of_writeArray {α : Type} {encode : α → List UInt8} {elements : List α} {out : List UInt8}
    (hwrite : writeArray encode elements = some out) :
    ∃ array : JavaArray α, array.elements = elements ∧ out = array.write encode := by
  unfold writeArray at hwrite
  split at hwrite
  · rename_i hlength
    cases hwrite
    exact ⟨⟨elements, hlength⟩, rfl, rfl⟩
  · cases hwrite

/-- The same for bytes. -/
theorem exists_of_writeData {bytes out : List UInt8} (hwrite : writeData bytes = some out) :
    ∃ data : Data, data.bytes = bytes ∧ out = data.write := by
  obtain ⟨array, helements, rfl⟩ := exists_of_writeArray hwrite
  refine ⟨array, helements, ?_⟩
  rw [JavaArray.write, List.flatMap_singleton', Data.write, Data.bytes]

end inspector.io
