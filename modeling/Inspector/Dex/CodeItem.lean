import Mathlib.Algebra.Ring.Nat
import Inspector.Dex.Codec

open machine

namespace inspector.dex

open Section

/-- The part of a code item that is written anew: all that comes before the tries. -/
structure Front where
  registersSize : BitVec 32
  insSize : BitVec 32
  outsSize : BitVec 32
  triesSize : BitVec 32
  debugInfoOffset : BitVec 32
  instructions : List (BitVec 16)

def readFront : Section Front := do
  let registersSize ← readUnsignedShort
  let insSize ← readUnsignedShort
  let outsSize ← readUnsignedShort
  let triesSize ← readUnsignedShort
  let debugInfoOffset ← readInt
  let instructionsSize ← readInt
  let instructions ← readShortArray instructionsSize
  return { registersSize, insSize, outsSize, triesSize, debugInfoOffset, instructions }

namespace Front

def bytes (front : Front) : List UInt8 :=
  shortBytes (front.registersSize.setWidth 16) ++ (shortBytes (front.insSize.setWidth 16) ++
    (shortBytes (front.outsSize.setWidth 16) ++ (shortBytes (front.triesSize.setWidth 16) ++
      (intBytes front.debugInfoOffset ++ (intBytes (BitVec.ofNat 32 front.instructions.length) ++
        front.instructions.flatMap shortBytes)))))

/-- Whether an `int` is the value of an unsigned short. -/
def IsShort (i : BitVec 32) : Prop := i = (i.setWidth 16).setWidth 32

structure Valid (front : Front) : Prop where
  registersSize : IsShort front.registersSize
  insSize : IsShort front.insSize
  outsSize : IsShort front.outsSize
  triesSize : IsShort front.triesSize
  instructions : front.instructions.length < 2 ^ 31

/-- The head of a code item takes sixteen bytes, and two for each instruction. -/
theorem length_bytes (front : Front) : front.bytes.length = 16 + 2 * front.instructions.length := by
  have hshorts : (front.instructions.flatMap shortBytes).length = 2 * front.instructions.length := by
    induction front.instructions with
    | nil => rfl
    | cons s rest ih =>
      rw [List.flatMap_cons, List.length_append, ih, List.length_cons]
      change 2 + _ = _
      omega
  simp only [bytes, List.length_append, hshorts]
  change 2 + (2 + (2 + (2 + (4 + (4 + _))))) = _
  omega

/-- The 32-bit size of a code item is the real one as long as it is no negative number. -/
theorem size_iff (length : Nat) : ((BitVec.ofNat 32 length).msb = false ∧ length = (BitVec.ofNat 32 length).toNat) ↔
    length < 2 ^ 31 := by
  rw [BitVec.msb_eq_false_iff_two_mul_lt, BitVec.toNat_ofNat]
  omega

end Front

/-- The head of a code item is read back from its bytes. -/
theorem readFront_codec : Codec readFront Front.bytes Front.Valid := by
  have hinstructions : ∀ r i o t d n, Codec
      (readShortArray n >>= fun instructions => pure (Front.mk r i o t d instructions))
      (fun front => front.instructions.flatMap shortBytes) (fun front =>
        (n.msb = false ∧ front.instructions.length = n.toNat) ∧ Front.mk r i o t d front.instructions = front) := by
    intro r i o t d n
    exact (Codec.readShortArray n).map (fun instructions => Front.mk r i o t d instructions) Front.instructions
      fun _ _ => rfl
  have hsize := fun r i o t d => Codec.readInt.bind (fun front => BitVec.ofNat 32 front.instructions.length)
    (hinstructions r i o t d) (by
      rintro n front ⟨⟨-, hlength⟩, -⟩
      rw [hlength, BitVec.ofNat_toNat, BitVec.setWidth_eq])
  have hdebug := fun r i o t => Codec.readInt.bind Front.debugInfoOffset (hsize r i o t) (by
    rintro d front ⟨-, -, hfront⟩
    rw [← hfront])
  have htries := fun r i o => Codec.readUnsignedShort.bind Front.triesSize (hdebug r i o) (by
    rintro t front ⟨-, -, -, hfront⟩
    rw [← hfront])
  have houts := fun r i => Codec.readUnsignedShort.bind Front.outsSize (htries r i) (by
    rintro o front ⟨-, -, -, -, hfront⟩
    rw [← hfront])
  have hins := fun r => Codec.readUnsignedShort.bind Front.insSize (houts r) (by
    rintro i front ⟨-, -, -, -, -, hfront⟩
    rw [← hfront])
  have hregisters := Codec.readUnsignedShort.bind Front.registersSize hins (by
    rintro r front ⟨-, -, -, -, -, -, hfront⟩
    rw [← hfront])
  refine hregisters.congr (fun front => ?_) fun front _ => rfl
  constructor
  · rintro ⟨hr, hi, ho, ht, -, -, hlength, -⟩
    exact ⟨hr, hi, ho, ht, (Front.size_iff _).mp hlength⟩
  · rintro ⟨hr, hi, ho, ht, hlength⟩
    exact ⟨hr, hi, ho, ht, trivial, trivial, (Front.size_iff _).mpr hlength, rfl⟩

def Front.code (front : Front) (tries : List Try) (catchHandlers : List CatchHandler) : Code where
  registersSize := front.registersSize
  insSize := front.insSize
  outsSize := front.outsSize
  debugInfoOffset := front.debugInfoOffset
  instructions := front.instructions
  tries
  catchHandlers

/-- A code item is its head, and then its tries and handlers. -/
theorem readCode_eq (dex : Dex) : Section.readCode dex = readFront >>= fun front =>
    readTriesAndCatchHandlers dex front.triesSize front.instructions.length >>= fun r =>
      pure (front.code r.1 r.2) := by
  simp only [readFront, bind_assoc, pure_bind]
  rfl

variable {data : List UInt8}

/-- As many items are read as were asked for. -/
theorem length_readItems {α : Type} {read : Section α} {count position : Nat} {items : List α} {last : Nat}
    (hrun : (readItems read count position).run data = .ok (items, last)) : items.length = count := by
  induction count generalizing position items with
  | zero =>
    cases hrun
    rfl
  | succ count ih =>
    obtain ⟨a, next, -, hrest⟩ := run_bind_eq_ok.mp hrun
    obtain ⟨rest, middle, hsecond, hpair⟩ := run_bind_eq_ok.mp hrest
    cases hpair
    rw [List.length_cons, ih hsecond]

/-- There are as many tries as the code item says. -/
theorem length_tries {dex : Dex} {triesSize : BitVec 32} {instructions position last : Nat} {tries : List Try}
    {catchHandlers : List CatchHandler}
    (hrun : (readTriesAndCatchHandlers dex triesSize instructions position).run data =
      .ok ((tries, catchHandlers), last)) : tries.length = triesSize.toNat := by
  have hrest : ∀ position, ((do
      let triesSection ← getPosition
      skip dex.capacity (8 * triesSize.toNat)
      let catchHandlers ← readCatchHandlers
      let tries ← openAt dex triesSection (readTries triesSize catchHandlers)
      return (tries, catchHandlers) : Section (List Try × List CatchHandler)) position).run data =
        .ok ((tries, catchHandlers), last) → tries.length = triesSize.toNat := by
    intro position hrest
    obtain ⟨triesSection, first, -, hskip⟩ := run_bind_eq_ok.mp hrest
    obtain ⟨_, second, -, hhandlers⟩ := run_bind_eq_ok.mp hskip
    obtain ⟨handlers, middle, -, htries⟩ := run_bind_eq_ok.mp hhandlers
    obtain ⟨found, next, hopen, hpair⟩ := run_bind_eq_ok.mp htries
    cases hpair
    unfold openAt at hopen
    split at hopen
    · obtain ⟨r, hread, hresult⟩ := Reader.run_bind_eq_ok.mp hopen
      cases hresult
      exact length_readItems hread
    · cases hopen
  unfold readTriesAndCatchHandlers at hrun
  dsimp only at hrun
  split at hrun
  · rename_i hzero
    cases hrun
    rw [hzero]
    rfl
  · split at hrun
    · obtain ⟨-, next, -, hafter⟩ := run_bind_eq_ok.mp hrun
      exact hrest next hafter
    · exact hrest position hrun

/-- The front that is written for a code and new instructions. -/
def Code.front (old : Code) (ins : List (BitVec 16)) : Front where
  registersSize := old.registersSize
  insSize := old.insSize
  outsSize := old.outsSize
  triesSize := BitVec.ofNat 32 (if ins.length = old.instructions.length then old.tries.length else 0)
  debugInfoOffset := old.debugInfoOffset
  instructions := ins

/-- What is to be read after new instructions have been written: the same code with
these instructions, and with no tries when it has become shorter. -/
def Code.patched (old : Code) (ins : List (BitVec 16)) : Code :=
  if ins.length = old.instructions.length then { old with instructions := ins }
  else { old with instructions := ins, tries := [], catchHandlers := [] }

theorem Code.instructions_patched (old : Code) (ins : List (BitVec 16)) : (old.patched ins).instructions = ins := by
  rw [Code.patched]
  split
  · rfl
  · rfl

/-- The bytes of a `put` that goes through. -/
def Put.encoded (p : Put) : List UInt8 :=
  match p.bytes with
  | .ok bytes => bytes
  | .error _ => []

/-- Values that fit in the buffer are put one behind the other. -/
theorem run_put {puts : List Put} {position : Nat} (hputs : ∀ p ∈ puts, p.bytes = .ok p.encoded)
    (hfits : position + (puts.flatMap Put.encoded).length ≤ data.length) :
    machine.run put (data, position) puts =
      .ok (data.overwrite position (puts.flatMap Put.encoded), position + (puts.flatMap Put.encoded).length) := by
  induction puts generalizing data position with
  | nil => simp [machine.run]
  | cons p rest ih =>
    obtain ⟨hp, hothers⟩ := List.forall_mem_cons.mp hputs
    rw [List.flatMap_cons, List.length_append] at hfits
    have hstep : put (data, position) p =
        .ok (data.overwrite position p.encoded, position + p.encoded.length) := by
      unfold put
      simp only [hp]
      rw [if_neg (by omega)]
    rw [run_cons_ok]
    refine ⟨_, hstep, ?_⟩
    rw [ih hothers (by rw [List.length_overwrite]; omega), List.overwrite_overwrite, List.flatMap_cons,
      List.length_append, Nat.add_assoc]

theorem bytes_unsignedShort {i : BitVec 32} (hi : Front.IsShort i) :
    (Put.unsignedShort i).bytes = .ok (shortBytes (i.setWidth 16)) := if_pos hi

/-- The code item is overwritten from its start on, as far as the new front goes. -/
theorem run_writeInstructions {old : Code} {ins : List (BitVec 16)} {position : Nat}
    (hvalid : (old.front ins).Valid) (hfits : position + (old.front ins).bytes.length ≤ data.length) :
    machine.run put (data, position)
      (writeInstructions ins old (if ins.length = old.instructions.length then old.tries.length else 0)) =
      .ok (data.overwrite position (old.front ins).bytes, position + (old.front ins).bytes.length) := by
  obtain ⟨hregisters, hins, houts, htries, -⟩ := hvalid
  change Front.IsShort old.registersSize at hregisters
  change Front.IsShort old.insSize at hins
  change Front.IsShort old.outsSize at houts
  generalize hsize : (if ins.length = old.instructions.length then old.tries.length else 0) = triesSize
  have hshort : ∀ {i}, Front.IsShort i → (Put.unsignedShort i).encoded = shortBytes (i.setWidth 16) := by
    intro i hi
    rw [Put.encoded, bytes_unsignedShort hi]
  have hfront : (old.front ins).triesSize = BitVec.ofNat 32 triesSize := by rw [← hsize]; rfl
  rw [hfront] at htries
  have hputs : ∀ p ∈ writeInstructions ins old triesSize, p.bytes = .ok p.encoded := by
    intro p hp
    rcases List.mem_append.mp hp with hhead | hshorts
    · simp only [List.mem_cons, List.not_mem_nil, or_false] at hhead
      rcases hhead with rfl | rfl | rfl | rfl | rfl | rfl
      · rw [hshort hregisters, bytes_unsignedShort hregisters]
      · rw [hshort hins, bytes_unsignedShort hins]
      · rw [hshort houts, bytes_unsignedShort houts]
      · rw [hshort htries, bytes_unsignedShort htries]
      · rfl
      · rfl
    · obtain ⟨s, -, rfl⟩ := List.mem_map.mp hshorts
      rfl
  have hbytes : (writeInstructions ins old triesSize).flatMap Put.encoded = (old.front ins).bytes := by
    rw [writeInstructions, List.flatMap_append, List.flatMap_map]
    simp only [List.flatMap_cons, List.flatMap_nil, hshort hregisters, hshort hins, hshort houts, hshort htries]
    rw [Front.bytes, hfront]
    simp only [List.append_assoc, List.nil_append]
    rfl
  rw [← hbytes] at hfits ⊢
  exact run_put hputs hfits

/-- A code item that can be read, by its parts. -/
structure CodeItem (dex : Dex) (data : List UInt8) (position : Nat) (old : Code) (front : Front) (next last : Nat) :
    Prop where
  fields : (readFront position).run data = .ok (front, next)
  tries : (readTriesAndCatchHandlers dex front.triesSize front.instructions.length next).run data =
    .ok ((old.tries, old.catchHandlers), last)
  code : old = front.code old.tries old.catchHandlers

/-- A code item that was read has a head and an end. -/
theorem readCode_parts {dex : Dex} {position last : Nat} {old : Code}
    (hrun : (Section.readCode dex position).run data = .ok (old, last)) :
    ∃ front next, CodeItem dex data position old front next last := by
  rw [readCode_eq] at hrun
  obtain ⟨front, next, hfront, hrest⟩ := run_bind_eq_ok.mp hrun
  obtain ⟨⟨tries, catchHandlers⟩, middle, htries, hpair⟩ := run_bind_eq_ok.mp hrest
  cases hpair
  exact ⟨front, next, hfront, htries, rfl⟩

namespace CodeItem

variable {dex : Dex} {position next last : Nat} {old : Code} {front : Front} {ins : List (BitVec 16)}

theorem instructions (hitem : CodeItem dex data position old front next last) :
    old.instructions = front.instructions := by
  rw [hitem.code]
  rfl

/-- The bytes up to the end of the head are among those that reading the code item looks at. -/
theorem inside (hitem : CodeItem dex data position old front next last) {q : Nat} (hle : position ≤ q)
    (hlt : q < next) : q ∈ (Section.readCode dex position).reads data := by
  obtain ⟨-, -, -, hreads⟩ := readFront_codec.sound hitem.fields
  rw [readCode_eq]
  exact mem_reads_bind.mpr (.inl ((hreads q).mpr ⟨hle, hlt⟩))

/-- New instructions that are not longer than the old ones give a front that fits. -/
theorem valid (hitem : CodeItem dex data position old front next last)
    (hroom : ins.length ≤ old.instructions.length) : (old.front ins).Valid := by
  obtain ⟨⟨hregisters, hins, houts, hsize, hlength⟩, -⟩ := readFront_codec.sound hitem.fields
  have hcode := hitem.code
  refine ⟨by rw [hcode]; exact hregisters, by rw [hcode]; exact hins, by rw [hcode]; exact houts, ?_, ?_⟩
  · unfold Code.front
    dsimp only
    split
    · rw [length_tries hitem.tries, BitVec.ofNat_toNat, BitVec.setWidth_eq]
      exact hsize
    · rfl
  · rw [hitem.instructions] at hroom
    exact Nat.lt_of_le_of_lt hroom hlength

/-- Instructions that are no more than the old ones stay inside of the head and of the buffer.
-/
theorem fits (hitem : CodeItem dex data position old front next last) (hroom : ins.length ≤ old.instructions.length) :
    position + (old.front ins).bytes.length ≤ next ∧ next ≤ data.length := by
  obtain ⟨-, hdrop, hnext, -⟩ := readFront_codec.sound hitem.fields
  have hsizes := congrArg List.length hdrop
  have hfront : (old.front ins).instructions.length ≤ front.instructions.length := by
    rw [hitem.instructions] at hroom
    exact hroom
  rw [List.length_drop, List.length_append, Front.length_bytes] at hsizes
  rw [Front.length_bytes] at *
  omega

/-- The new front is read back from where it has been written. -/
theorem written (hitem : CodeItem dex data position old front next last)
    (hroom : ins.length ≤ old.instructions.length) :
    (readFront position).run (data.overwrite position (old.front ins).bytes) =
      .ok (old.front ins, position + (old.front ins).bytes.length) := by
  obtain ⟨hfits, hnext⟩ := hitem.fits hroom
  exact readFront_codec.complete (hitem.valid hroom) (List.drop_overwrite (Nat.le_trans hfits hnext))

/-- Instructions of the same length leave the tries where they are. -/
theorem same_length (hitem : CodeItem dex data position old front next last)
    (hsame : ins.length = old.instructions.length) :
    CodeItem dex (data.overwrite position (old.front ins).bytes) position { old with instructions := ins }
      (old.front ins) next last ∧
    ∀ q ∈ (Section.readCode dex position).reads (data.overwrite position (old.front ins).bytes),
      q ∈ (Section.readCode dex position).reads data := by
  obtain ⟨-, -, hnext, -⟩ := readFront_codec.sound hitem.fields
  have hend : position + (old.front ins).bytes.length = next := by
    rw [hnext, Front.length_bytes, Front.length_bytes, ← hitem.instructions, ← hsame]
    rfl
  have hwritten := hitem.written (Nat.le_of_eq hsame)
  rw [hend] at hwritten
  obtain ⟨-, -, -, hreads⟩ := readFront_codec.sound hwritten
  have hafter : ∀ q ∈ (readTriesAndCatchHandlers dex front.triesSize front.instructions.length next).reads data,
      next ≤ q := (After.readTriesAndCatchHandlers dex front.triesSize front.instructions.length data next
        (Nat.le_refl next)).1
  have hkept : ∀ q ∈ (readTriesAndCatchHandlers dex front.triesSize front.instructions.length next).reads data,
      (data.overwrite position (old.front ins).bytes)[q]? = data[q]? := fun q hq =>
    List.getElem?_overwrite_after (by rw [hend]; exact hafter q hq)
  have hagree := Reader.run_congr hkept
  have htail : readTriesAndCatchHandlers dex (old.front ins).triesSize (old.front ins).instructions.length =
      readTriesAndCatchHandlers dex front.triesSize front.instructions.length := by
    have htriesSize : (old.front ins).triesSize = front.triesSize := by
      rw [Code.front, if_pos hsame, length_tries hitem.tries, BitVec.ofNat_toNat, BitVec.setWidth_eq]
    rw [htriesSize]
    exact congrArg _ (hsame.trans (congrArg _ hitem.instructions))
  refine ⟨⟨hwritten, ?_, rfl⟩, fun q hq => ?_⟩
  · rw [htail, hagree.1]
    exact hitem.tries
  · rw [readCode_eq, mem_reads_bind_of_ok hwritten, htail] at hq
    rcases hq with hfirst | hsecond
    · obtain ⟨hle, hlt⟩ := (hreads q).mp hfirst
      exact hitem.inside hle hlt
    · rw [readCode_eq, mem_reads_bind_of_ok hitem.fields]
      refine .inr (mem_reads_bind.mpr (.inl ?_))
      rcases mem_reads_bind.mp hsecond with hq | ⟨r, after, -, hq⟩
      · rw [hagree.2] at hq
        exact hq
      · cases hq

/-- A shorter code item is one without tries. -/
theorem shorter (hitem : CodeItem dex data position old front next last)
    (hroom : ins.length ≤ old.instructions.length) (hshorter : ins.length ≠ old.instructions.length) :
    CodeItem dex (data.overwrite position (old.front ins).bytes) position
      { old with instructions := ins, tries := [], catchHandlers := [] } (old.front ins)
      (position + (old.front ins).bytes.length) (position + (old.front ins).bytes.length) ∧
    ∀ q ∈ (Section.readCode dex position).reads (data.overwrite position (old.front ins).bytes),
      q ∈ (Section.readCode dex position).reads data := by
  have hwritten := hitem.written hroom
  obtain ⟨-, -, -, hreads⟩ := readFront_codec.sound hwritten
  have hfits := (hitem.fits hroom).1
  have htail : readTriesAndCatchHandlers dex (old.front ins).triesSize (old.front ins).instructions.length =
      pure ([], []) := by
    rw [Code.front, if_neg hshorter]
    rfl
  refine ⟨⟨hwritten, by rw [htail]; rfl, rfl⟩, fun q hq => ?_⟩
  rw [readCode_eq, mem_reads_bind_of_ok hwritten, htail] at hq
  rcases hq with hfirst | hsecond
  · obtain ⟨hle, hlt⟩ := (hreads q).mp hfirst
    exact hitem.inside hle (by omega)
  · cases hsecond

/-- The parts of a code item are those that it was read from. -/
theorem read (hitem : CodeItem dex data position old front next last) :
    (Section.readCode dex position).run data = .ok (old, last) := by
  rw [readCode_eq]
  refine run_bind_eq_ok.mpr ⟨front, next, hitem.fields, run_bind_eq_ok.mpr ⟨_, last, hitem.tries, ?_⟩⟩
  rw [← hitem.code]
  rfl

/-- New instructions that fit are read back, from bytes of the old code item. -/
theorem patched (hitem : CodeItem dex data position old front next last)
    (hroom : ins.length ≤ old.instructions.length) :
    (∃ last', (Section.readCode dex position).run (data.overwrite position (old.front ins).bytes) =
      .ok (old.patched ins, last')) ∧
    ∀ q ∈ (Section.readCode dex position).reads (data.overwrite position (old.front ins).bytes),
      q ∈ (Section.readCode dex position).reads data := by
  by_cases hsame : ins.length = old.instructions.length
  · obtain ⟨hnew, hreads⟩ := hitem.same_length hsame
    refine ⟨⟨last, ?_⟩, hreads⟩
    rw [Code.patched, if_pos hsame]
    exact hnew.read
  · obtain ⟨hnew, hreads⟩ := hitem.shorter hroom hsame
    refine ⟨⟨position + (old.front ins).bytes.length, ?_⟩, hreads⟩
    rw [Code.patched, if_neg hsame]
    exact hnew.read

end CodeItem

end inspector.dex
