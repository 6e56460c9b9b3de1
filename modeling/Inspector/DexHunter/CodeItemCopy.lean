import Inspector.DexHunter.CodeItem

open leb128

namespace inspector.dexhunter

section Handlers

variable {m : Memory}

/-- The reader of unsigned numbers reads every encoding of them. -/
theorem reads_unsigned (number : ULeb128) : Reads m (readUnsignedLeb128 m) number.value number.bytes :=
  fun _ hbytes => readUnsignedLeb128_of_encoding number.encoding number.length_le hbytes

/-- The reader of signed numbers reads every encoding of them. -/
theorem reads_signed (number : SLeb128) : Reads m (readSignedLeb128 m) (BitVec.ofInt 32 number.value) number.bytes :=
  fun _ hbytes => readSignedLeb128_of_encoding number.encoding number.length_le hbytes

/-- A type with its address is two unsigned numbers. -/
theorem reads_typeAddr (pair : TypeAddr) : Reads m (readTypeAddr m) pair.parsed pair.bytes := by
  intro ptr hbytes
  obtain ⟨htype, haddr⟩ := Memory.holds_append.mp hbytes
  unfold readTypeAddr
  rw [reads_unsigned _ _ htype]
  dsimp only
  rw [reads_unsigned _ _ haddr, add_ofNat_length]
  rfl

/-- Such a pair takes at least two bytes. -/
theorem two_le_length_typeAddr (pair : TypeAddr) : 2 ≤ pair.bytes.length := by
  have htype := pair.typeIdx.encoding.length_pos
  have haddr := pair.addr.encoding.length_pos
  rw [TypeAddr.bytes, List.length_append]
  omega

/-- A handler takes up at least two bytes. -/
theorem CatchHandler.two_mul_length_le (handler : CatchHandler) :
    2 * handler.handlers.length ≤ handler.bytes.length := by
  have hpairs : ∀ pairs : List TypeAddr, 2 * pairs.length ≤ (pairs.flatMap TypeAddr.bytes).length := by
    intro pairs
    induction pairs with
    | nil => exact Nat.le_refl 0
    | cons pair pairs ih =>
      have hpair := two_le_length_typeAddr pair
      rw [List.flatMap_cons, List.length_append, List.length_cons]
      omega
  have hhandlers := hpairs handler.handlers
  rw [CatchHandler.bytes, List.length_append, List.length_append]
  omega

/-- A size that is not positive says that all is caught. -/
theorem CatchHandler.sle_zero (handler : CatchHandler) :
    (BitVec.ofInt 32 handler.size.value).sle 0 = handler.catchAllAddr.isSome := by
  have hle := handler.size.le_value
  have hlt := handler.size.value_lt
  have htoInt : (BitVec.ofInt 32 handler.size.value).toInt = handler.size.value := by
    rw [BitVec.toInt_ofInt]
    unfold SLeb128.value
    simp only [Int.bmod]
    omega
  have hzero : (0 : BitVec 32).toInt = 0 := rfl
  have hsize := handler.size_eq
  rw [BitVec.sle_eq_decide, htoInt, hzero]
  cases hcatchAll : handler.catchAllAddr with
  | none =>
    have hne := List.length_pos_iff.mpr (handler.handlers_ne hcatchAll)
    rw [hcatchAll, Option.isSome_none, if_neg Bool.false_ne_true] at hsize
    exact decide_eq_false (by omega)
  | some addr =>
    rw [hcatchAll, Option.isSome_some, if_pos rfl] at hsize
    exact decide_eq_true (by omega)

/-- The sign of the size says only whether there is a handler for everything. -/
theorem CatchHandler.num_eq (handler : CatchHandler) :
    (if handler.catchAllAddr.isSome then -BitVec.ofInt 32 handler.size.value else BitVec.ofInt 32 handler.size.value) =
      BitVec.ofNat 32 handler.handlers.length := by
  rw [handler.size_eq]
  split
  · rw [BitVec.ofInt_neg, BitVec.neg_neg, BitVec.ofInt_natCast]
  · rw [BitVec.ofInt_natCast]

/-- The loop over a count that is no negative `int` runs that often. -/
theorem loops_eq {n : Nat} (hn : n < 2 ^ 31) :
    (if (BitVec.ofNat 32 n).sle 0 then 0 else (BitVec.ofNat 32 n).toNat) = n := by
  have hzero : (0 : BitVec 32).toInt = 0 := rfl
  have htoInt : (BitVec.ofNat 32 n).toInt = n := by
    rw [BitVec.toInt_ofNat']
    simp only [Int.bmod]
    omega
  rw [BitVec.sle_eq_decide, htoInt, hzero, BitVec.toNat_ofNat, Nat.mod_eq_of_lt (by omega)]
  split
  · rename_i hle
    have hnonpositive := of_decide_eq_true hle
    omega
  · rfl

/-- A catch handler is read with its pairs, and with the address that a negative size
announces. -/
theorem reads_handler (handler : CatchHandler) (hlength : handler.handlers.length < 2 ^ 31) :
    Reads m (readHandler m) handler.parsed handler.bytes := by
  intro ptr hbytes
  obtain ⟨hsize, hrest⟩ := Memory.holds_append.mp hbytes
  obtain ⟨hpairs, hcatchAll⟩ := Memory.holds_append.mp hrest
  have hitems : Reads m (readItems (readTypeAddr m) handler.handlers.length) (handler.handlers.map TypeAddr.parsed)
      (handler.handlers.flatMap TypeAddr.bytes) := reads_items_map fun pair _ => reads_typeAddr pair
  unfold readHandler
  rw [reads_signed _ _ hsize]
  dsimp only
  rw [handler.sle_zero, handler.num_eq, loops_eq hlength, hitems _ hpairs]
  dsimp only
  cases haddr : handler.catchAllAddr with
  | none =>
    rw [Option.isSome_none, if_neg Bool.false_ne_true, add_ofNat_length]
    simp [CatchHandler.parsed, CatchHandler.bytes, haddr]
  | some addr =>
    rw [haddr] at hcatchAll
    rw [Option.isSome_some, if_pos rfl, reads_unsigned addr _ hcatchAll, add_ofNat_length, add_ofNat_length]
    simp [CatchHandler.parsed, CatchHandler.bytes, haddr]

/-- A list of catch handlers is read one after the other. -/
theorem reads_handlers (handlers : CatchHandlerList) (hlength : handlers.bytes.length < 2 ^ 32) :
    Reads m (readHandlers m) handlers.parsed handlers.bytes := by
  intro ptr hbytes
  obtain ⟨hsize, hlist⟩ := Memory.holds_append.mp hbytes
  have hcount : handlers.size.value.toNat = handlers.list.length := by
    rw [ULeb128.value, BitVec.toNat_ofNat, Nat.mod_eq_of_lt handlers.size.value_lt, handlers.size_eq]
  have hitems : Reads m (readItems (readHandler m) handlers.list.length) handlers.parsed
      (handlers.list.flatMap CatchHandler.bytes) := by
    refine reads_items_map fun handler hmem => reads_handler handler ?_
    have hle := handler.two_mul_length_le
    have hmemle : handler.bytes.length ≤ (handlers.list.flatMap CatchHandler.bytes).length :=
      (List.sublist_flatten_of_mem (List.mem_map_of_mem hmem)).length_le
    rw [CatchHandlerList.bytes, List.length_append] at hlength
    omega
  unfold readHandlers
  rw [reads_unsigned _ _ hsize]
  dsimp only
  rw [hcount, hitems _ hlist, add_ofNat_length]
  rfl

end Handlers

section Skipping

variable (m : Memory) {α β : Type}

/-- Two readers that move on by the same bytes do so over any number of items. -/
theorem snd_readItems_congr {read : BitVec 32 → α × BitVec 32} {skip : BitVec 32 → β × BitVec 32}
    (hsame : ∀ ptr, (read ptr).2 = (skip ptr).2) (count : Nat) (ptr : BitVec 32) :
    (readItems read count ptr).2 = (readItems skip count ptr).2 := by
  induction count generalizing ptr with
  | zero => rfl
  | succ count ih =>
    rw [readItems, readItems]
    dsimp only
    rw [hsame, ih]

/-- The pairs are as long as twice as many numbers. -/
theorem snd_readItems_typeAddr (count : Nat) (ptr : BitVec 32) :
    (readItems (readUnsignedLeb128 m) (2 * count) ptr).2 = (readItems (readTypeAddr m) count ptr).2 := by
  induction count generalizing ptr with
  | zero => rfl
  | succ count ih =>
    exact ih (readTypeAddr m ptr).2

/-- Skipping a handler moves on as reading it does. -/
theorem skipHandlers_eq (ptr : BitVec 32) : skipHandlers m ptr = (readHandler m ptr).2 := by
  have hloops (num : BitVec 32) :
      (if num.sle 0 then 0 else 2 * num.toNat) = 2 * if num.sle 0 then 0 else num.toNat := by
    split <;> rfl
  unfold skipHandlers readHandler
  dsimp only
  rw [hloops, snd_readItems_typeAddr]
  split <;> rfl

/-- The handlers are skipped as they are read. -/
theorem codeitem_end_eq (pData : BitVec 32) : codeitem_end m pData = (readHandlers m pData).2 :=
  snd_readItems_congr (fun ptr => skipHandlers_eq m ptr) _ _

end Skipping

section Item

variable {m : Memory} {ptr : BitVec 32}

/-- Each code unit takes two bytes. -/
theorem length_flatMap_insns (insns : List (BitVec 16)) : (insns.flatMap Memory.bytes2).length = 2 * insns.length := by
  induction insns with
  | nil => rfl
  | cons insn insns ih =>
    rw [List.flatMap_cons, List.length_append, ih, List.length_cons]
    change 2 + 2 * insns.length = _
    omega

/-- Each entry of the try table takes eight bytes. -/
theorem length_flatMap_tries (tries : List DexTry) : (tries.flatMap DexTry.bytes).length = 8 * tries.length := by
  induction tries with
  | nil => rfl
  | cons dexTry tries ih =>
    rw [List.flatMap_cons, List.length_append, ih, List.length_cons]
    change 8 + 8 * tries.length = _
    omega

/-- A code unit is read in little-endian order. -/
theorem reads_insn (insn : BitVec 16) : Reads m (readInsn m) insn (Memory.bytes2 insn) := by
  intro ptr hbytes
  rw [readInsn, Memory.u2_of_holds hbytes]
  rfl

/-- An entry of the try table is read field by field. -/
theorem reads_try (dexTry : DexTry) : Reads m (readTry m) dexTry dexTry.bytes := by
  intro ptr hbytes
  obtain ⟨hstart, hrest⟩ := Memory.holds_append.mp hbytes
  obtain ⟨hcount, hoff⟩ := Memory.holds_append.mp hrest
  rw [BitVec.add_assoc] at hoff
  have hfour : m.u2 (ptr + 4) = dexTry.insnCount := Memory.u2_of_holds hcount
  have hsix : m.u2 (ptr + 6) = dexTry.handlerOff := Memory.u2_of_holds hoff
  rw [readTry, Memory.u4_of_holds hstart, hfour, hsix]
  rfl

/-- The fields of the header, and what is behind it. -/
structure HeaderAt (m : Memory) (ptr : BitVec 32) (code : DexCode) (rest : List UInt8) : Prop where
  registersSize : m.u2 ptr = code.registersSize
  insSize : m.u2 (ptr + 2) = code.insSize
  outsSize : m.u2 (ptr + 4) = code.outsSize
  triesSize : triesSize m ptr = BitVec.ofNat 16 code.tries.length
  debugInfoOff : m.u4 (ptr + 8) = code.debugInfoOff
  insnsSize : insnsSize m ptr = BitVec.ofNat 32 code.insns.length
  rest : m.Holds (ptr + 16) rest

/-- The sixteen bytes of the header hold the counts that the length depends on. -/
theorem headerAt_of_holds {code : DexCode} {rest : List UInt8} (hbytes : m.Holds ptr (code.header ++ rest)) :
    HeaderAt m ptr code rest := by
  simp only [DexCode.header, List.append_assoc, Memory.holds_append, Memory.bytes2, Memory.bytes4, List.length_cons,
    List.length_nil, BitVec.add_assoc] at hbytes
  obtain ⟨hregisters, hins, houts, htries, hdebug, hinsns, hrest⟩ := hbytes
  exact ⟨Memory.u2_of_holds hregisters, Memory.u2_of_holds hins, Memory.u2_of_holds houts, Memory.u2_of_holds htries,
    Memory.u4_of_holds hdebug, Memory.u4_of_holds hinsns, hrest⟩

/-- How many bytes of padding there are. -/
def paddingSize (insnsSize : Nat) : Nat := if insnsSize % 2 = 0 then 0 else 2

/-- Twice a count is the number of bytes of as many code units. -/
theorem two_mul_ofNat (n : Nat) : 2 * BitVec.ofNat 32 n = BitVec.ofNat 32 (2 * n) := (BitVec.ofNat_mul 2 n).symm

/-- The tries begin behind the padding, if there is one at an aligned address. -/
theorem dexGetTries_eq {n : Nat} (haligned : ptr &&& 3 = 0) (hsize : insnsSize m ptr = BitVec.ofNat 32 n) :
    dexGetTries m ptr = ptr + 16 + BitVec.ofNat 32 (2 * n) + BitVec.ofNat 32 (paddingSize n) := by
  have hptr : ptr.toNat % 4 = 0 := by
    rw [← and_three_toNat, haligned]
    rfl
  have heven : ptr + 16 + BitVec.ofNat 32 (2 * n) &&& 3 = 0 ↔ n % 2 = 0 := by
    rw [← BitVec.toNat_inj, and_three_toNat, BitVec.toNat_add, BitVec.toNat_add, BitVec.toNat_ofNat]
    change ((ptr.toNat + 16) % 2 ^ 32 + 2 * n % 2 ^ 32) % 2 ^ 32 % 4 = 0 ↔ n % 2 = 0
    omega
  unfold dexGetTries paddingSize
  dsimp only
  rw [hsize, two_mul_ofNat]
  by_cases hn : n % 2 = 0
  · rw [if_pos (heven.mpr hn), if_pos hn, BitVec.add_zero]
  · rw [if_neg (mt heven.mp hn), if_neg hn]
    rfl

/-- The try table begins behind the padding. -/
theorem holds_blocks {blocks : TryBlocks} {n : Nat}
    (hbytes : m.Holds ptr (blocks.bytes n)) :
    m.Holds (ptr + BitVec.ofNat 32 (paddingSize n)) (blocks.tries.flatMap DexTry.bytes ++ blocks.handlers.bytes) := by
  unfold TryBlocks.bytes at hbytes
  unfold paddingSize
  split at hbytes
  · rename_i hn
    rwa [if_pos hn, BitVec.add_zero]
  · rename_i hn
    rw [if_neg hn]
    exact (Memory.holds_append.mp hbytes).2

/-- The length of the try blocks with the padding before them. -/
theorem length_blocks (blocks : TryBlocks) (n : Nat) :
    (blocks.bytes n).length = paddingSize n + 8 * blocks.tries.length + blocks.handlers.bytes.length := by
  rw [TryBlocks.bytes, List.length_append, List.length_append, length_flatMap_tries, paddingSize]
  split
  · rw [List.length_nil]
    omega
  · change 2 + _ = _
    omega

/-- The length of a code item is that of its header, its instructions and its try blocks. -/
theorem DexCode.length_bytes (code : DexCode) :
    code.bytes.length = 16 + 2 * code.insns.length +
      ((code.blocks.map fun blocks => blocks.bytes code.insns.length).getD []).length := by
  rw [bytes, List.length_append, List.length_append, length_flatMap_insns, ← Nat.add_assoc]
  rfl

/-- The length that the two addresses differ by does not depend on where the item lies. -/
theorem add_sub_eq (insns padding tries handlers : Nat) :
    ptr + 16 + BitVec.ofNat 32 insns + BitVec.ofNat 32 padding + BitVec.ofNat 32 tries +
      BitVec.ofNat 32 handlers - ptr =
      BitVec.ofNat 32 (16 + insns + (padding + tries + handlers)) := by
  have hsum : ptr + 16 + BitVec.ofNat 32 insns + BitVec.ofNat 32 padding + BitVec.ofNat 32 tries +
    BitVec.ofNat 32 handlers =
      ptr + BitVec.ofNat 32 (16 + insns + (padding + tries + handlers)) := by
    simp only [BitVec.add_assoc, BitVec.ofNat_add]
    rfl
  rw [hsum, BitVec.add_comm, BitVec.add_sub_cancel]

/-- What is read of a code item, and how long it is said to be. -/
theorem parse_of_holds {item : CodeItem} (haligned : ptr &&& 3 = 0) (hbytes : m.Holds ptr item.bytes) :
    parseCode m ptr = item.parsed ∧ codeItemLen m ptr = BitVec.ofNat 32 item.bytes.length := by
  have hheader := headerAt_of_holds hbytes
  obtain ⟨hinsns, htail⟩ := Memory.holds_append.mp hheader.rest
  have hlength := item.length_lt
  rw [length_flatMap_insns] at htail
  rw [item.length_bytes] at hlength ⊢
  have hcount : (insnsSize m ptr).toNat = item.insns.length := by
    rw [hheader.insnsSize, BitVec.toNat_ofNat, Nat.mod_eq_of_lt (by omega)]
  have hinsn : (readItems (readInsn m) item.insns.length (ptr + 16)).1 = item.insns := by
    rw [reads_items reads_insn item.insns _ hinsns]
  cases hblocks : item.blocks with
  | none =>
    have htries : item.tries = [] := by rw [DexCode.tries, hblocks]; rfl
    have hnone : triesSize m ptr = 0 := by rw [hheader.triesSize, htries]; rfl
    constructor
    · rw [parseCode, DexCode.parsed, hheader.registersSize, hheader.insSize, hheader.outsSize, hheader.debugInfoOff,
        hcount, hinsn, hheader.insnsSize, hnone, htries, hblocks]
      rfl
    · rw [codeItemLen, hnone, if_neg (fun hne => hne rfl), hheader.insnsSize, BitVec.mul_comm, two_mul_ofNat,
        Option.map_none, Option.getD_none, List.length_nil, Nat.add_zero, BitVec.ofNat_add]
      rfl
  | some blocks =>
    rw [hblocks, Option.map_some, Option.getD_some] at htail hlength
    have htries : item.tries = blocks.tries := by rw [DexCode.tries, hblocks]; rfl
    have hsize : triesSize m ptr = BitVec.ofNat 16 blocks.tries.length := by rw [hheader.triesSize, htries]
    have hsizeNat : (triesSize m ptr).toNat = blocks.tries.length := by
      rw [hsize, BitVec.toNat_ofNat, Nat.mod_eq_of_lt blocks.tries_lt]
    have hsome : triesSize m ptr ≠ 0 := by
      intro hzero
      rw [hzero] at hsizeNat
      exact blocks.tries_ne (List.eq_nil_of_length_eq_zero hsizeNat.symm)
    have hplace := dexGetTries_eq haligned hheader.insnsSize
    have hblock := holds_blocks htail
    rw [← hplace] at hblock
    obtain ⟨hheld, hhandlers⟩ := Memory.holds_append.mp hblock
    rw [length_flatMap_tries] at hhandlers
    have hdata : dexGetCatchHandlerData m ptr = dexGetTries m ptr + BitVec.ofNat 32 (8 * blocks.tries.length) := by
      rw [dexGetCatchHandlerData, ← BitVec.ofNat_toNat, hsizeNat, BitVec.ofNat_mul]
      rfl
    rw [← hdata] at hhandlers
    rw [length_blocks] at hlength
    have hread := reads_handlers blocks.handlers (by omega) _ hhandlers
    constructor
    · rw [parseCode, DexCode.parsed, hheader.registersSize, hheader.insSize, hheader.outsSize, hheader.debugInfoOff,
        hcount, hinsn, hheader.insnsSize, if_pos hsome, hsizeNat, reads_items reads_try blocks.tries _ hheld, hread,
        htries, hblocks, hsize]
      rfl
    · rw [codeItemLen, if_pos hsome, codeitem_end_eq, hread, hdata, hplace, Option.map_some, Option.getD_some,
        length_blocks]
      exact add_sub_eq _ _ _ _

end Item

/-- A code item is copied whole, and the copy is read as the item is, wherever it is aligned. -/
theorem code_item_copied {item : CodeItem} {m : Memory} {code : BitVec 32} (haligned : code &&& 3 = 0)
    (hitem : m.Holds code item.bytes) :
    (codeItemLen m code).toNat = item.bytes.length ∧ parseCode m code = item.parsed ∧
      ∀ (copied : Memory) (place : BitVec 32), place &&& 3 = 0 →
        copied.Holds place (m.slice code (codeItemLen m code).toNat) → parseCode copied place = parseCode m code := by
  obtain ⟨hparse, hlen⟩ := parse_of_holds haligned hitem
  have hlength : (codeItemLen m code).toNat = item.bytes.length := by
    rw [hlen, BitVec.toNat_ofNat, Nat.mod_eq_of_lt item.length_lt]
  refine ⟨hlength, hparse, fun copied place hplace hcopy => ?_⟩
  rw [hlength, show m.slice code item.bytes.length = item.bytes from hitem] at hcopy
  rw [(parse_of_holds hplace hcopy).1, hparse]

/-- Numbers of one byte. -/
def unsignedByte (b : UInt8) (hb : b.toNat < 128) : ULeb128 where
  bytes := [b]
  encoding := .last hb
  length_le := Nat.le_add_left 1 4
  value_lt := Nat.lt_of_lt_of_le (value_lt [b]) (show 2 ^ 7 ≤ 2 ^ 32 by decide)

/-- One instruction, a try, and catch lists with a type, with all and with both. -/
def sampleItem : CodeItem where
  registersSize := 2
  insSize := 1
  outsSize := 0
  debugInfoOff := 0
  insns := [0x000e]
  blocks := some {
    padding := 0
    tries := [{ startAddr := 0, insnCount := 1, handlerOff := 1 }]
    handlers := {
      size := unsignedByte 3 (by decide)
      list := [
        { size := ⟨[1], .last (by decide), by decide, by decide, by decide⟩
          handlers := [⟨unsignedByte 5 (by decide), unsignedByte 0 (by decide)⟩]
          catchAllAddr := none
          size_eq := by decide
          handlers_ne := nofun },
        { size := ⟨[0x80, 0], .more (by decide) (.last (by decide)), by decide, by decide, by decide⟩
          handlers := []
          catchAllAddr := some (unsignedByte 0 (by decide))
          size_eq := by decide
          handlers_ne := nofun },
        { size := ⟨[0x7f], .last (by decide), by decide, by decide, by decide⟩
          handlers := [⟨unsignedByte 5 (by decide), unsignedByte 0 (by decide)⟩]
          catchAllAddr := some (unsignedByte 0 (by decide))
          size_eq := by decide
          handlers_ne := nofun }]
      size_eq := rfl }
    tries_ne := nofun
    tries_lt := by decide }
  length_lt := by decide

/-- An item with a try block is copied in full and read back from its copy. -/
theorem sampleItem_copied :
    (codeItemLen (Memory.copy (fun _ => 0) 8 sampleItem.bytes) 8).toNat = sampleItem.bytes.length ∧
      parseCode (Memory.copy (fun _ => 0) 8 sampleItem.bytes) 8 = sampleItem.parsed ∧
      ∀ (copied : Memory) (place : BitVec 32), place &&& 3 = 0 →
        copied.Holds place ((Memory.copy (fun _ => 0) 8 sampleItem.bytes).slice 8
          (codeItemLen (Memory.copy (fun _ => 0) 8 sampleItem.bytes) 8).toNat) →
        parseCode copied place = parseCode (Memory.copy (fun _ => 0) 8 sampleItem.bytes) 8 :=
  code_item_copied (by decide) (Memory.holds_copy _ _ (Nat.le_of_lt sampleItem.length_lt))

end inspector.dexhunter
