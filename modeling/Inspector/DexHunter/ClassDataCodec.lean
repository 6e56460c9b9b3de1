import Inspector.DexHunter.Leb128Readers

open leb128

namespace inspector.dexhunter

section Leb128

variable {data : BitVec 32}

/-- A shift by seven is a division by 128. -/
theorem toNat_shiftRight_seven (data : BitVec 32) : (data >>> 7).toNat = data.toNat / 128 := by
  rw [BitVec.toNat_ushiftRight, Nat.shiftRight_eq_div_pow]

/-- The low seven bits are the remainder by 128. -/
theorem toNat_and_low (data : BitVec 32) : (data &&& 0x7f).toNat = data.toNat % 128 := by
  rw [BitVec.toNat_and]
  exact Nat.and_two_pow_sub_one_eq_mod data.toNat 7

/-- The high bit says that there are more bytes. -/
theorem toNat_more (data : BitVec 32) : ((data &&& 0x7f ||| 0x80).setWidth 8).toNat = data.toNat % 128 + 128 := by
  have hlow : data.toNat % 128 < 2 ^ 7 := Nat.mod_lt _ (by decide)
  have hor : data.toNat % 128 ||| 128 = 128 + data.toNat % 128 := by
    rw [Nat.or_comm]
    exact (Nat.two_pow_add_eq_or_of_lt hlow 1).symm
  rw [BitVec.toNat_setWidth, BitVec.toNat_or, toNat_and_low]
  change (data.toNat % 128 ||| 128) % 2 ^ 8 = _
  rw [hor]
  omega

/-- What is written is an encoding of the number. -/
theorem encoding_writeLeb128 (data : BitVec 32) :
    Encoding (writeLeb128 data) ∧ value (writeLeb128 data) = data.toNat := by
  induction data using writeLeb128.induct with
  | case1 data hsmall =>
    have hlow : data.toNat < 128 := by
      have hmod := toNat_and_low data
      rw [hsmall] at hmod
      omega
    have hbyte : (⟨data.setWidth 8⟩ : UInt8).toNat = data.toNat := by
      change (data.setWidth 8).toNat = _
      rw [BitVec.toNat_setWidth]
      omega
    rw [writeLeb128, if_pos hsmall, value, value, hbyte]
    exact ⟨.last (hbyte ▸ hlow), by omega⟩
  | case2 data hlarge ih =>
    have hbyte : (⟨(data &&& 0x7f ||| 0x80).setWidth 8⟩ : UInt8).toNat = data.toNat % 128 + 128 := toNat_more data
    rw [writeLeb128, if_neg hlarge, value, hbyte, ih.2, toNat_shiftRight_seven]
    exact ⟨.more (by omega) ih.1, by omega⟩

/-- A number of seven bits more takes one byte more. -/
theorem length_writeLeb128_le {k : Nat} (hdata : data.toNat < 2 ^ (7 * (k + 1))) :
    (writeLeb128 data).length ≤ k + 1 := by
  induction k generalizing data with
  | zero =>
    have hsmall : data >>> 7 = 0 := by
      rw [← BitVec.toNat_inj, toNat_shiftRight_seven]
      exact Nat.div_eq_of_lt hdata
    rw [length_writeLeb128, unsignedLeb128Size, if_pos hsmall]
  | succ k ih =>
    have hrest : (data >>> 7).toNat < 2 ^ (7 * (k + 1)) := by
      rw [toNat_shiftRight_seven]
      rw [Nat.mul_succ, Nat.pow_add] at hdata
      omega
    have hle := ih hrest
    rw [length_writeLeb128] at hle ⊢
    rw [unsignedLeb128Size]
    split <;> omega

variable {m : Memory} {ptr v : BitVec 32}

/-- The reader comes to the value that was written, and to the address after its last byte. -/
theorem readUnsignedLeb128_writeLeb128 (hbytes : m.Holds ptr (writeLeb128 v)) :
    readUnsignedLeb128 m ptr = (v, ptr + BitVec.ofNat 32 (writeLeb128 v).length) := by
  obtain ⟨hencoding, hvalue⟩ := encoding_writeLeb128 v
  have hlength : (writeLeb128 v).length ≤ 5 := length_writeLeb128_le (Nat.lt_of_lt_of_le v.isLt (by decide))
  rw [readUnsignedLeb128_of_encoding hencoding hlength hbytes, hvalue, BitVec.ofNat_toNat, BitVec.setWidth_eq]

end Leb128

section Items

/-- A reader that comes to a value, and to the address after its bytes. -/
def Reads {α : Type} (m : Memory) (read : BitVec 32 → α × BitVec 32) (value : α) (bytes : List UInt8) : Prop :=
  ∀ ptr, m.Holds ptr bytes → read ptr = (value, ptr + BitVec.ofNat 32 bytes.length)

/-- The bytes of a field. -/
def DexField.encode (field : DexField) : List UInt8 := [field.fieldIdx, field.accessFlags].flatMap writeLeb128

/-- The bytes of a method. -/
def DexMethod.encode (method : DexMethod) : List UInt8 :=
  [method.methodIdx, method.accessFlags, method.codeOff].flatMap writeLeb128

variable {α : Type} {m : Memory} {ptr : BitVec 32}

/-- Advancing over two parts is advancing over both of them together. -/
theorem add_ofNat_length (ptr : BitVec 32) (first rest : List UInt8) :
    ptr + BitVec.ofNat 32 first.length + BitVec.ofNat 32 rest.length =
      ptr + BitVec.ofNat 32 (first ++ rest).length := by
  rw [BitVec.add_assoc, List.length_append, BitVec.ofNat_add]

/-- A field is read from its encoding. -/
theorem reads_field (m : Memory) (field : DexField) : Reads m (ReadClassDataField m) field field.encode := by
  intro ptr hbytes
  rw [DexField.encode, List.flatMap_cons, List.flatMap_cons, List.flatMap_nil, List.append_nil] at *
  rw [Memory.holds_append] at hbytes
  unfold ReadClassDataField
  rw [readUnsignedLeb128_writeLeb128 hbytes.1]
  dsimp only
  rw [readUnsignedLeb128_writeLeb128 hbytes.2]
  dsimp only
  rw [add_ofNat_length]

/-- A method is read from its encoding. -/
theorem reads_method (m : Memory) (method : DexMethod) : Reads m (ReadClassDataMethod m) method method.encode := by
  intro ptr hbytes
  rw [DexMethod.encode, List.flatMap_cons, List.flatMap_cons, List.flatMap_cons, List.flatMap_nil,
    List.append_nil] at *
  rw [Memory.holds_append, Memory.holds_append] at hbytes
  unfold ReadClassDataMethod
  rw [readUnsignedLeb128_writeLeb128 hbytes.1]
  dsimp only
  rw [readUnsignedLeb128_writeLeb128 hbytes.2.1]
  dsimp only
  rw [readUnsignedLeb128_writeLeb128 hbytes.2.2]
  dsimp only
  rw [add_ofNat_length, add_ofNat_length]

/-- The loop over the items comes to all of them. -/
theorem reads_items_map {β : Type} {read : BitVec 32 → α × BitVec 32} {value : β → α} {encode : β → List UInt8}
    {items : List β} (hread : ∀ item ∈ items, Reads m read (value item) (encode item)) :
    Reads m (readItems read items.length) (items.map value) (items.flatMap encode) := by
  induction items with
  | nil =>
    intro ptr _
    rw [List.length_nil, readItems, List.flatMap_nil, List.length_nil, BitVec.add_zero, List.map_nil]
  | cons item items ih =>
    obtain ⟨hfirst, hothers⟩ := List.forall_mem_cons.mp hread
    intro ptr hbytes
    rw [List.flatMap_cons, Memory.holds_append] at hbytes
    rw [List.length_cons, readItems, hfirst ptr hbytes.1]
    dsimp only
    rw [ih hothers _ hbytes.2]
    dsimp only
    rw [add_ofNat_length, List.flatMap_cons, List.map_cons]

/-- Items are read one behind the other, each from its encoding. -/
theorem reads_items {read : BitVec 32 → α × BitVec 32} {encode : α → List UInt8}
    (hread : ∀ item, Reads m read item (encode item)) (items : List α) :
    Reads m (readItems read items.length) items (items.flatMap encode) := by
  have hitems : Reads m (readItems read items.length) (items.map id) (items.flatMap encode) :=
    reads_items_map fun item _ => hread item
  rwa [List.map_id] at hitems

end Items

namespace DexClassData

/-- The size of a class data item with the arrays behind it. It is a 32-bit number for
each one that is in the memory. -/
def resultSize (pData : DexClassData) : Nat :=
  32 + 8 * pData.staticFields.length + 8 * pData.instanceFields.length + 12 * pData.directMethods.length +
    12 * pData.virtualMethods.length

/-- The `int` to which `EncodeClassData` adds the sizes, one after the other. -/
def len (pData : DexClassData) : BitVec 32 :=
  pData.values.foldl (fun len value => len + BitVec.ofNat 32 (unsignedLeb128Size value)) 0

/-- The four sizes at the start of the encoded class data. -/
def encodeHeader (pData : DexClassData) : List UInt8 :=
  [BitVec.ofNat 32 pData.staticFields.length, BitVec.ofNat 32 pData.instanceFields.length,
    BitVec.ofNat 32 pData.directMethods.length, BitVec.ofNat 32 pData.virtualMethods.length].flatMap writeLeb128

/-- The values of a class data item in order are its header, its fields and its methods. -/
theorem encode_eq (pData : DexClassData) :
    pData.values.flatMap writeLeb128 = pData.encodeHeader ++ (pData.staticFields.flatMap DexField.encode ++
      (pData.instanceFields.flatMap DexField.encode ++ (pData.directMethods.flatMap DexMethod.encode ++
        pData.virtualMethods.flatMap DexMethod.encode))) := by
  simp only [values, List.flatMap_append, List.flatMap_assoc, encodeHeader, List.append_assoc]
  rfl

/-- Adding the sizes of the values in 32 bits is adding them, taken to 32 bits. -/
theorem foldl_len (values : List (BitVec 32)) (total : Nat) :
    values.foldl (fun len value => len + BitVec.ofNat 32 (unsignedLeb128Size value)) (BitVec.ofNat 32 total) =
      BitVec.ofNat 32 (total + (values.map unsignedLeb128Size).sum) := by
  induction values generalizing total with
  | nil => rfl
  | cons value values ih =>
    rw [List.foldl_cons, ← BitVec.ofNat_add, ih, List.map_cons, List.sum_cons, Nat.add_assoc]

/-- The length that is computed for the item is the length of its encoding, in 32 bits. -/
theorem len_eq (pData : DexClassData) : pData.len = BitVec.ofNat 32 pData.encodedLength := by
  rw [len, encodedLength, ← Nat.zero_add (List.sum _)]
  exact foldl_len pData.values 0

/-- The loops run as often as the sizes of the header say. -/
theorem ReadClassData_of_holds {pData : DexClassData} {m : Memory} {ptr : BitVec 32} (hfits : pData.resultSize < 2 ^ 32)
    (hptr : ptr ≠ 0) (hbytes : m.Holds ptr (pData.values.flatMap writeLeb128)) :
    ReadClassData m ptr true =
      some (pData, ptr + BitVec.ofNat 32 (pData.values.flatMap writeLeb128).length) := by
  rw [encode_eq] at *
  simp only [encodeHeader, List.flatMap_cons, List.flatMap_nil, List.append_nil, List.append_assoc,
    Memory.holds_append] at hbytes
  obtain ⟨hstaticSize, hinstanceSize, hdirectSize, hvirtualSize, hstatic, hinstance, hdirect, hvirtual⟩ := hbytes
  have hsize (n : Nat) (hn : n < 2 ^ 32) : (BitVec.ofNat 32 n).toNat = n := by
    rw [BitVec.toNat_ofNat, Nat.mod_eq_of_lt hn]
  unfold resultSize at hfits
  unfold ReadClassData
  rw [if_neg hptr, readUnsignedLeb128_writeLeb128 hstaticSize]
  dsimp only
  rw [readUnsignedLeb128_writeLeb128 hinstanceSize]
  dsimp only
  rw [readUnsignedLeb128_writeLeb128 hdirectSize]
  dsimp only
  rw [readUnsignedLeb128_writeLeb128 hvirtualSize]
  dsimp only
  rw [Bool.not_true, if_neg Bool.false_ne_true, hsize _ (by omega), hsize _ (by omega), hsize _ (by omega),
    hsize _ (by omega), reads_items (reads_field m) _ _ hstatic]
  dsimp only
  rw [reads_items (reads_field m) _ _ hinstance]
  dsimp only
  rw [reads_items (reads_method m) _ _ hdirect]
  dsimp only
  rw [reads_items (reads_method m) _ _ hvirtual]
  dsimp only
  simp only [add_ofNat_length, encodeHeader, List.flatMap_cons, List.flatMap_nil, List.append_nil, List.append_assoc]

end DexClassData

/-- What is encoded is read back, up to its end, and its length is the one that was added up. -/
theorem ReadClassData_EncodeClassData {pData : DexClassData} (hfits : pData.resultSize < 2 ^ 32) :
    ∃ out, EncodeClassData pData true = some (out, out.length) ∧ pData.len = BitVec.ofNat 32 out.length ∧
      ∀ (m : Memory) (ptr : BitVec 32), ptr ≠ 0 → m.Holds ptr out →
        ReadClassData m ptr true = some (pData, ptr + BitVec.ofNat 32 out.length) := by
  have hencode : EncodeClassData pData true = some (pData.values.flatMap writeLeb128, pData.encodedLength) := rfl
  have hlength := length_EncodeClassData hencode
  refine ⟨pData.values.flatMap writeLeb128, ?_, ?_, ?_⟩
  · rw [hencode, hlength]
  · rw [pData.len_eq, hlength]
  · intro m ptr hptr hbytes
    exact DexClassData.ReadClassData_of_holds hfits hptr hbytes

/-- A class with a static field and a virtual method, and values of one byte, of two and of five. -/
def sampleClassData : DexClassData where
  staticFields := [{ fieldIdx := 3, accessFlags := 0xffffffff }]
  instanceFields := []
  directMethods := []
  virtualMethods := [{ methodIdx := 0x80, accessFlags := 1, codeOff := 0x80000000 }]

def sampleClassDataBytes : List UInt8 := sampleClassData.values.flatMap writeLeb128

theorem sampleClassData_read :
    sampleClassData.len = 18 ∧
      ReadClassData (Memory.copy (fun _ => 0) 0x1000 sampleClassDataBytes) 0x1000 true =
        some (sampleClassData, 0x1000 + 18) := by
  have hfits : sampleClassData.resultSize < 2 ^ 32 := by decide
  obtain ⟨out, hencode, hlen, hread⟩ := ReadClassData_EncodeClassData hfits
  have hout : out = sampleClassDataBytes := (congrArg Prod.fst (Option.some.inj hencode)).symm
  have hlength : BitVec.ofNat 32 sampleClassDataBytes.length = 18 := by decide +kernel
  subst hout
  rw [hlength] at *
  refine ⟨hlen, hread _ _ (by decide) ?_⟩
  unfold Memory.Holds
  decide +kernel

end inspector.dexhunter
