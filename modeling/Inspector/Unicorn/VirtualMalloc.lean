import Inspector.Unicorn.AndroidAlloc
import Inspector.Unicorn.Marshalling

open stream

namespace inspector.unicorn

section Run

variable {taken : Nat → Nat → Prop} {a : AndroidAlloc} {h : Nat}

/-- Further requests give no block back. -/
theorem blocks_subset_foldl (a : AndroidAlloc) (requests : List Request) :
    a.blocks ⊆ (requests.foldl AndroidAlloc.replaceFunction a).blocks := by
  induction requests generalizing a with
  | nil => exact List.Subset.refl _
  | cons request rest ih =>
    refine List.Subset.trans ?_ (ih _)
    cases request with
    | free addr => exact List.Subset.refl _
    | malloc size =>
      rw [AndroidAlloc.replaceFunction, AndroidAlloc.malloc]
      split
      · exact List.subset_append_left _ _
      · exact List.Subset.refl _

/-- The allocator with its heap at a number, above all that it has handed out. -/
structure At (h : Nat) (a : AndroidAlloc) : Prop where
  heap : a.heap = BitVec.ofNat 64 h
  base : HEAP_BASE ≤ h
  bound : h ≤ HEAP_BASE + PAGE_ALIGN * 2 + 32
  above : ∀ b ∈ a.blocks, b.addr.toNat + b.size.toNat ≤ h

theorem malloc_at (hat : At h a) (size : BitVec 32) :
    a.malloc size = {
      heap := BitVec.ofNat 64 h + (alignSize size).signExtend 64
      blocks := a.blocks ++ [{ addr := BitVec.ofNat 32 h, size }] } := by
  have hend : HEAP_BASE + PAGE_ALIGN * 2 = 0x10002000 := rfl
  have hstart : HEAP_BASE = 0x10000000 := rfl
  have hbase := hat.base
  have hbound := hat.bound
  have hnat : (BitVec.ofNat 64 h).toNat = h := toNat_ofNat_of_lt (by omega)
  have hpositive : (0#64).slt a.heap = true := by
    rw [hat.heap, BitVec.slt, decide_eq_true_eq, BitVec.toInt_eq_toNat_of_lt (x := BitVec.ofNat 64 h) (by omega), hnat]
    change (0 : Int) < h
    omega
  rw [AndroidAlloc.malloc, if_pos hpositive]
  dsimp only [AndroidAlloc.virtual_malloc]
  rw [hat.heap, setWidth_ofNat]

/-- A block that ends within the pages is usable, and the heap goes on behind it. -/
theorem malloc_of_room (hat : At h a) (husable : Usable taken a.blocks) (htaken : ∀ p n, taken p n → p + n ≤ h)
    {size : BitVec 32} (hroom : h + size.toNat ≤ HEAP_BASE + PAGE_ALIGN * 2) :
    At (h + room size.toNat) (a.malloc size) ∧ Usable taken (a.malloc size).blocks := by
  have hend : HEAP_BASE + PAGE_ALIGN * 2 = 0x10002000 := rfl
  have hbase := hat.base
  have hlt := lt_room size.toNat
  have hle := room_le size.toNat
  have hnat : (BitVec.ofNat 32 h).toNat = h := toNat_ofNat_of_lt (by omega)
  rw [malloc_at hat]
  constructor
  · refine ⟨?_, by omega, by omega, ?_⟩
    · have hsize : size = BitVec.ofNat 32 size.toNat := by simp
      dsimp only
      rw [hsize, heap_add_alignSize hroom, ← hsize]
    · rw [List.forall_mem_append, List.forall_mem_singleton, hnat]
      exact ⟨fun b hb => Nat.le_trans (hat.above b hb) (Nat.le_add_right _ _), Nat.add_le_add_left (Nat.le_of_lt hlt) h⟩
  · refine ⟨?_, ?_, ?_⟩
    · rw [List.forall_mem_append, List.forall_mem_singleton, hnat]
      exact ⟨husable.inside, fun _ => ⟨hbase, hroom⟩⟩
    · rw [List.forall_mem_append, List.forall_mem_singleton, hnat]
      exact ⟨husable.apart, fun _ p n hp => Or.inl (htaken p n hp)⟩
    · rw [List.pairwise_append]
      refine ⟨husable.pairwise, List.pairwise_singleton _ _, fun b hb c hc _ _ => ?_⟩
      rw [List.mem_singleton] at hc
      subst hc
      exact Or.inl (by rw [hnat]; exact hat.above b hb)

/-- A block that does not is never usable again. -/
theorem not_usable_of_malloc (hat : At h a) {size : BitVec 32} (hroom : ¬ h + size.toNat ≤ HEAP_BASE + PAGE_ALIGN * 2)
    (rest : List Request) : ¬ Usable taken (rest.foldl AndroidAlloc.replaceFunction (a.malloc size)).blocks := by
  intro husable
  have hend : HEAP_BASE + PAGE_ALIGN * 2 = 0x10002000 := rfl
  have hstart : HEAP_BASE = 0x10000000 := rfl
  have hbase := hat.base
  have hbound := hat.bound
  have hnat : (BitVec.ofNat 32 h).toNat = h := toNat_ofNat_of_lt (by omega)
  have hmem : { addr := BitVec.ofNat 32 h, size } ∈
      (rest.foldl AndroidAlloc.replaceFunction (a.malloc size)).blocks := by
    apply blocks_subset_foldl
    rw [malloc_at hat]
    exact List.mem_append_right _ List.mem_cons_self
  have hne : BitVec.ofNat 32 h ≠ 0 := by
    intro hzero
    rw [hzero] at hnat
    change 0 = h at hnat
    omega
  have hinside := (husable.inside _ hmem hne).2
  rw [hnat] at hinside
  exact hroom hinside

/-- The blocks that requests are answered with are usable as long as there is room for them. -/
theorem usable_foldl_iff (hat : At h a) (husable : Usable taken a.blocks) (htaken : ∀ p n, taken p n → p + n ≤ h)
    (requests : List Request) :
    Usable taken (requests.foldl AndroidAlloc.replaceFunction a).blocks ↔ Room h requests := by
  induction requests generalizing h a with
  | nil => exact iff_of_true husable trivial
  | cons request rest ih =>
    cases request with
    | free addr => exact ih hat husable htaken
    | malloc size =>
      rw [List.foldl_cons, AndroidAlloc.replaceFunction, Room]
      by_cases hroom : h + size.toNat ≤ HEAP_BASE + PAGE_ALIGN * 2
      · obtain ⟨hnext, hnextUsable⟩ := malloc_of_room hat husable htaken hroom
        have hafter := ih hnext hnextUsable fun p n hp => Nat.le_trans (htaken p n hp) (Nat.le_add_right _ _)
        rw [hafter, and_iff_right hroom]
      · exact iff_of_false (not_usable_of_malloc hat hroom rest) fun h => hroom h.1

end Run

/-! The arguments of a call that comes to its emulation fit. -/
section Fits

variable {args : List Arg} {arg : Arg} {k : Nat} {c : Call}

/-- What fits, up to some argument. -/
structure FitsTo (args : List Arg) (strings words : Nat) (c : Call) : Prop where
  heap : c.heap = BitVec.ofNat 64 (address args strings)
  bound : address args strings ≤ HEAP_BASE + PAGE_ALIGN * 2 + 16
  strings : ∀ i < strings, ∀ str, args[i]? = some (.string str) →
    address args i + (getBytes str).length + 1 ≤ HEAP_BASE + PAGE_ALIGN * 2
  words : sp + 4 * (words - 4) ≤ STACK_BASE + (STACK_SIZE + 1) * PAGE_ALIGN

/-- A mapped range that begins in the heap ends in it. -/
theorem le_of_mapped_heap {p size : Nat} (hbase : HEAP_BASE ≤ p) (hp : p ≤ HEAP_BASE + PAGE_ALIGN * 2 + 16)
    (hmapped : Unicorn.mapped (BitVec.ofNat 64 p) size = true) : p + size ≤ HEAP_BASE + PAGE_ALIGN * 2 := by
  have hend : HEAP_BASE + PAGE_ALIGN * 2 = 0x10002000 := rfl
  have hstart : HEAP_BASE = 0x10000000 := rfl
  have hstack : STACK_BASE + (STACK_SIZE + 1) * PAGE_ALIGN = 0x840000 := rfl
  have hlr : lr + PAGE_ALIGN = 0x101000 := rfl
  rcases (mapped_iff (by omega)).mp hmapped with hregion | hregion | hregion
  · omega
  · omega
  · exact hregion.2

/-- A mapped range that begins in the stack ends in it. -/
theorem le_of_mapped_stack {p size : Nat} (hp : p ≤ STACK_BASE + (STACK_SIZE + 1) * PAGE_ALIGN)
    (hmapped : Unicorn.mapped (BitVec.ofNat 64 p) size = true) :
    p + size ≤ STACK_BASE + (STACK_SIZE + 1) * PAGE_ALIGN := by
  have hstart : HEAP_BASE = 0x10000000 := rfl
  have hstack : STACK_BASE + (STACK_SIZE + 1) * PAGE_ALIGN = 0x840000 := rfl
  have hlr : lr + PAGE_ALIGN = 0x101000 := rfl
  rcases (mapped_iff (by omega)).mp hmapped with hregion | hregion | hregion
  · exact hregion.2
  · omega
  · omega

/-- Storing the word of an argument keeps what it points to below the heap. -/
theorem word_fits {next : Call} {word : BitVec 32} (hfits : FitsTo args k k c) (harg : args[k]? = some arg)
    (hword : c.word arg = some (word, next)) : FitsTo args (k + 1) k next := by
  have hnext := address_succ harg
  cases arg with
  | number n =>
    cases hword
    refine ⟨?_, ?_, ?_, hfits.words⟩
    · rw [hnext]
      exact hfits.heap
    · rw [hnext]
      exact hfits.bound
    · intro i hi str hstr
      have hne : i ≠ k := by
        rintro rfl
        rw [harg] at hstr
        cases hstr
      exact hfits.strings i (by omega) str hstr
  | string str =>
    rw [Call.word, writeCString, Unicorn.mem_write, hfits.heap] at hword
    by_cases hmapped : Unicorn.mapped (BitVec.ofNat 64 (address args k)) (getBytes str ++ [0]).length = true
    · rw [if_pos hmapped] at hword
      cases hword
      have hle := le_of_mapped_heap (base_le_address args k) hfits.bound hmapped
      rw [List.length_append, List.length_singleton] at hle
      have hroom := room_le ((getBytes str).length + 1)
      refine ⟨?_, ?_, ?_, hfits.words⟩
      · rw [hnext]
        exact heap_add_alignSize hle
      · rw [hnext]
        change address args k + room ((getBytes str).length + 1) ≤ _
        omega
      · intro i hi other hother
        by_cases heq : i = k
        · subst heq
          rw [harg] at hother
          cases hother
          exact hle
        · exact hfits.strings i (by omega) other hother
    · rw [if_neg hmapped] at hword
      cases hword

/-- An argument in a register leaves the call with one argument more. -/
theorem regArg_fits {next : Call} {r : Reg} (hfits : FitsTo args k k c) (harg : args[k]? = some arg) (hk : k < 4)
    (hstep : c.regArg r arg = some next) : FitsTo args (k + 1) (k + 1) next := by
  rw [Call.regArg, Option.map_eq_some_iff] at hstep
  obtain ⟨⟨word, written⟩, hword, rfl⟩ := hstep
  have hwritten := word_fits hfits harg hword
  refine ⟨hwritten.heap, hwritten.bound, hwritten.strings, ?_⟩
  rw [Nat.sub_eq_zero_of_le hk]
  decide

/-- An argument on the stack leaves the call with one argument more. -/
theorem stackArg_fits {next : Call} (hfits : FitsTo args k k c) (harg : args[k]? = some arg) (hk : 4 ≤ k)
    (hstep : c.stackArg (BitVec.ofNat 64 (sp + 4 * (k - 4))) arg = some next) : FitsTo args (k + 1) (k + 1) next := by
  rw [Call.stackArg, Option.bind_eq_some_iff] at hstep
  obtain ⟨⟨word, written⟩, hword, hstep⟩ := hstep
  obtain ⟨u, hwrite, rfl⟩ := Option.map_eq_some_iff.mp hstep
  have hwritten := word_fits hfits harg hword
  refine ⟨hwritten.heap, hwritten.bound, hwritten.strings, ?_⟩
  by_cases hmapped : Unicorn.mapped (BitVec.ofNat 64 (sp + 4 * (k - 4))) (Memory.bytes4 word).length = true
  · have hle : sp + 4 * (k - 4) + 4 ≤ STACK_BASE + (STACK_SIZE + 1) * PAGE_ALIGN :=
      le_of_mapped_stack hfits.words hmapped
    have hmove : sp + 4 * (k + 1 - 4) = sp + 4 * (k - 4) + 4 := by omega
    rwa [hmove]
  · rw [Unicorn.mem_write, if_neg hmapped] at hwrite
    cases hwrite

/-- The first arguments go to the registers, until these or the arguments are used up. -/
theorem regArgs_fits {next : Call} {regs : List Reg} {left : List Arg} (hfits : FitsTo args k k c)
    (hregs : getRegArgs.drop k = regs) (hk : k ≤ 4) (hloop : c.regArgs regs (args.drop k) = some (next, left)) :
    ∃ j, left = args.drop j ∧ FitsTo args j j next ∧ (args.length ≤ j ∨ 4 ≤ j) ∧ j ≤ 4 := by
  induction regs generalizing k c with
  | nil =>
    cases hloop
    exact ⟨k, rfl, hfits, Or.inr (List.drop_eq_nil_iff.mp hregs), hk⟩
  | cons r regs ih =>
    cases hrest : args.drop k with
    | nil =>
      rw [hrest] at hloop
      cases hloop
      exact ⟨k, hrest.symm, hfits, Or.inl (List.drop_eq_nil_iff.mp hrest), hk⟩
    | cons arg rest =>
      obtain ⟨harg, hafter⟩ := getElem?_of_drop hrest
      obtain ⟨hr, hleft⟩ := getElem?_of_drop hregs
      have hlt : k < 4 := (List.getElem?_eq_some_iff.mp hr).1
      rw [hrest, Call.regArgs, Option.bind_eq_some_iff] at hloop
      obtain ⟨middle, hstep, hloop⟩ := hloop
      rw [← hafter] at hloop
      exact ih (regArg_fits hfits harg hlt hstep) hleft hlt hloop

/-- The other arguments go to the stack. -/
theorem stackArgs_fits {next : Call} {rest : List Arg} (hfits : FitsTo args k k c) (hrest : args.drop k = rest)
    (hk : args.length ≤ k ∨ 4 ≤ k) (hloop : c.stackArgs (BitVec.ofNat 64 (sp + 4 * (k - 4))) rest = some next) :
    ∃ j, FitsTo args j j next ∧ args.length ≤ j := by
  induction rest generalizing k c with
  | nil =>
    cases hloop
    exact ⟨k, hfits, List.drop_eq_nil_iff.mp hrest⟩
  | cons arg rest ih =>
    obtain ⟨harg, hafter⟩ := getElem?_of_drop hrest
    have hin : k < args.length := (List.getElem?_eq_some_iff.mp harg).1
    have hfour : 4 ≤ k := hk.resolve_left (Nat.not_le_of_lt hin)
    rw [Call.stackArgs, Option.bind_eq_some_iff] at hloop
    obtain ⟨middle, hstep, hloop⟩ := hloop
    rw [stackPointer_succ hfour] at hloop
    exact ih (stackArg_fits hfits harg hfour hstep) hafter (Or.inr (Nat.le_succ_of_le hfour)) hloop

/-- A call whose emulation is started has arguments that fit. -/
theorem fits_of_marshal {u : Unicorn} {started : Emulator} {rets : List (BitVec 64)}
    (hmarshal : marshal u args = some (started, rets)) : Fits args := by
  have hstart : FitsTo args 0 0 { u, heap := BitVec.ofNat 64 HEAP_BASE, rets := [] } := by
    refine ⟨rfl, ?_, fun i hi => absurd hi (Nat.not_lt_zero i), by decide⟩
    exact Nat.le_trans (Nat.le_add_right _ _) (Nat.le_add_right _ _)
  rw [marshal, Option.bind_eq_some_iff] at hmarshal
  obtain ⟨⟨middle, left⟩, hregs, hmarshal⟩ := hmarshal
  obtain ⟨last, hstack, -⟩ := Option.map_eq_some_iff.mp hmarshal
  obtain ⟨k, rfl, hmiddle, hk, hfour⟩ := regArgs_fits (k := 0) hstart rfl (Nat.zero_le 4) hregs
  have hsp : sp = sp + 4 * (k - 4) := by rw [Nat.sub_eq_zero_of_le hfour, Nat.mul_zero, Nat.add_zero]
  rw [hsp] at hstack
  obtain ⟨j, hlast, hj⟩ := stackArgs_fits hmiddle rfl hk hstack
  constructor
  · intro i str hstr
    have hi : i < args.length := (List.getElem?_eq_some_iff.mp hstr).1
    exact hlast.strings i (Nat.lt_of_lt_of_le hi hj) str hstr
  · have hwords := hlast.words
    omega

end Fits

/-- What is taken when the emulation is started: the slot of `errno` and the strings. -/
def Taken (args : List Arg) (started : Emulator) (p n : Nat) : Prop :=
  (p = (started.u.reg .C13_C0_3).toNat ∧ n = 16) ∨
    ∃ i str, args[i]? = some (.string str) ∧ p = address args i ∧ n = (getBytes str).length + 1

theorem allocated_usable_iff {args : List Arg} {u : Unicorn} (hfits : Fits args) (requests : List Request) :
    let started := initializeRegs u (BitVec.ofNat 64 (address args args.length))
    Usable (Taken args started) (allocated started requests).blocks ↔
      Room (address args args.length + 16) requests := by
  intro started
  have hend : HEAP_BASE + PAGE_ALIGN * 2 = 0x10002000 := rfl
  have hle := address_le hfits args.length
  have hbase := base_le_address args args.length
  have herrno : (started.u.reg .C13_C0_3).toNat = address args args.length := by
    change ((BitVec.ofNat 64 (address args args.length)).setWidth 32).toNat = _
    rw [setWidth_ofNat, BitVec.toNat_ofNat]
    omega
  have hat : At (address args args.length + 16) started.alloc := by
    refine ⟨?_, Nat.le_add_right_of_le hbase, by omega, fun b hb => absurd hb List.not_mem_nil⟩
    change BitVec.ofNat 64 (address args args.length) + BitVec.signExtend 64 ALIGN_SIZE_BASE = _
    rw [BitVec.ofNat_add]
    rfl
  have hnone : Usable (Taken args started) started.alloc.blocks :=
    ⟨fun b hb => absurd hb List.not_mem_nil, fun b hb => absurd hb List.not_mem_nil, List.Pairwise.nil⟩
  have htaken : ∀ p n, Taken args started p n → p + n ≤ address args args.length + 16 := by
    rintro p n (⟨rfl, rfl⟩ | ⟨i, str, hstr, rfl, rfl⟩)
    · rw [herrno]
    · have hbefore := address_add_room_le hstr (List.getElem?_eq_some_iff.mp hstr).1
      have hroom : (getBytes str).length + 1 < Arg.room (.string str) := lt_room _
      omega
  exact usable_foldl_iff hat hnone htaken requests

theorem fits_nil : Fits [] := by
  constructor
  · intro i str hstr
    cases hstr
  · decide

/-- The blocks of a run are usable exactly if each of them ends within the two pages, when those
before it are put one behind the other. -/
theorem virtual_malloc_usable_iff (e : Emulator) (requests : List Request) :
    (∀ args started rets, marshal e.u args = some (started, rets) →
      (Usable (Taken args started) (allocated started requests).blocks ↔
        Room (address args args.length + 16) requests)) ∧
    (Usable (Taken [] (eBlockStarted e)) (allocated (eBlockStarted e) requests).blocks ↔
      Room (HEAP_BASE + 16) requests) := by
  constructor
  · intro args started rets hmarshal
    have hfits := fits_of_marshal hmarshal
    obtain ⟨c, hplacedMarshal, hplaced⟩ := marshal_placed hfits e.u
    rw [hmarshal, Option.some_inj, Prod.mk.injEq] at hplacedMarshal
    rw [hplacedMarshal.1, hplaced.heap]
    exact allocated_usable_iff hfits requests
  · exact allocated_usable_iff fits_nil requests

/-- Two blocks behind the strings of a call. -/
theorem sampleArgs_malloc : ∃ started rets, marshal idle.u sampleArgs = some (started, rets) ∧
    Usable (Taken sampleArgs started) (allocated started [.malloc 0x100, .free 0x10000040, .malloc 0x1000]).blocks := by
  obtain ⟨c, hmarshal, -⟩ := marshal_placed fits_sampleArgs idle.u
  refine ⟨_, _, hmarshal, ?_⟩
  rw [(virtual_malloc_usable_iff idle _).1 sampleArgs _ _ hmarshal]
  have hend : address sampleArgs sampleArgs.length = 0x10000030 := by decide +kernel
  rw [hend]
  exact ⟨by decide, by decide, trivial⟩

/-- A block that goes beyond the two pages is handed out, and so is one whose size is negative
as an `int`. -/
theorem eBlock_malloc_unusable :
    ¬ Usable (Taken [] (eBlockStarted idle))
      (allocated (eBlockStarted idle) [.malloc 0x1000, .malloc 0x1000]).blocks ∧
    ¬ Usable (Taken [] (eBlockStarted idle))
      (allocated (eBlockStarted idle) [.malloc 0xffffffd0, .malloc 0x10]).blocks := by
  constructor
  · intro husable
    have hinside := husable.inside { addr := 0x10001020, size := 0x1000 } (by decide +kernel) (by decide)
    revert hinside
    decide
  · intro husable
    have hinside := husable.inside { addr := 0x10000010, size := 0xffffffd0 } (by decide +kernel) (by decide)
    revert hinside
    decide

end inspector.unicorn
