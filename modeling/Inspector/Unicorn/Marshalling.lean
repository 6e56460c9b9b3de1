import Inspector.Unicorn.DefaultARMEmulator

open stream

namespace inspector.unicorn

/-- The bytes that an argument takes of the heap. -/
def Arg.room : Arg → Nat
  | .string str => inspector.unicorn.room ((getBytes str).length + 1)
  | .number _ => 0

/-- Where the string of an argument is put, behind those of the arguments before it. -/
def address (args : List Arg) (i : Nat) : Nat := HEAP_BASE + ((args.take i).map Arg.room).sum

/-- What the emulated code gets for an argument. -/
def wordOf (args : List Arg) (i : Nat) : Arg → BitVec 32
  | .string _ => BitVec.ofNat 32 (address args i)
  | .number n => BitVec.ofInt 32 n

def stringAddress (args : List Arg) (i : Nat) : Option (BitVec 64) :=
  match args[i]? with
  | some (.string _) => some (BitVec.ofNat 64 (address args i))
  | _ => none

/-- The strings are within the heap, and the words within the stack. -/
structure Fits (args : List Arg) : Prop where
  heap : ∀ i str, args[i]? = some (.string str) →
    address args i + (getBytes str).length + 1 ≤ HEAP_BASE + PAGE_ALIGN * 2
  stack : sp + 4 * (args.length - 4) ≤ STACK_BASE + (STACK_SIZE + 1) * PAGE_ALIGN

section Address

variable {args : List Arg} {arg : Arg} {i j : Nat}

/-- Each argument takes the place that its string needs, rounded up. -/
theorem address_succ (harg : args[i]? = some arg) : address args (i + 1) = address args i + arg.room := by
  rw [address, address, List.take_add_one, harg, Option.toList_some, List.map_append, List.sum_append,
    List.map_singleton, List.sum_singleton, Nat.add_assoc]

/-- Later arguments are placed no lower. -/
theorem address_mono (hle : i ≤ j) : address args i ≤ address args j := by
  induction j, hle using Nat.le_induction with
  | base => exact Nat.le_refl _
  | succ j _ ih =>
    refine Nat.le_trans ih ?_
    rw [address, address, List.take_add_one, List.map_append, List.sum_append]
    omega

/-- A string ends before those of the later arguments begin. -/
theorem address_add_room_le (harg : args[i]? = some arg) (hlt : i < j) :
    address args i + arg.room ≤ address args j := by
  rw [← address_succ harg]
  exact address_mono hlt

/-- All strings lie in the heap. -/
theorem base_le_address (args : List Arg) (i : Nat) : HEAP_BASE ≤ address args i := Nat.le_add_right _ _

/-- The place of a string is a multiple of sixteen bytes long. -/
theorem sixteen_dvd_arg_room (arg : Arg) : 16 ∣ arg.room := by
  cases arg with
  | string str => exact sixteen_dvd_room _
  | number value => exact Nat.dvd_zero 16

/-- So every string begins at a multiple of sixteen. -/
theorem sixteen_dvd_address (args : List Arg) (i : Nat) : 16 ∣ address args i := by
  apply Nat.dvd_add (by decide)
  generalize args.take i = before
  induction before with
  | nil => exact Nat.dvd_zero 16
  | cons arg before ih =>
    rw [List.map_cons, List.sum_cons]
    exact Nat.dvd_add (sixteen_dvd_arg_room arg) ih

end Address

/-- The heap and the words hold the arguments up to two of them. -/
structure Placed (args : List Arg) (strings words : Nat) (c : Call) : Prop where
  heap : c.heap = BitVec.ofNat 64 (address args strings)
  rets : c.rets = (List.range strings).filterMap (stringAddress args)
  written : ∀ i < strings, ∀ str, args[i]? = some (.string str) →
    c.u.mem.Holds (BitVec.ofNat 32 (address args i)) (getBytes str ++ [0])
  registers : ∀ i < words, ∀ r arg, getRegArgs[i]? = some r → args[i]? = some arg → c.u.reg r = wordOf args i arg
  stack : ∀ i < words, ∀ arg, 4 ≤ i → args[i]? = some arg →
    c.u.mem.Holds (BitVec.ofNat 32 (sp + 4 * (i - 4))) (Memory.bytes4 (wordOf args i arg))

/-- A number that fits a word is the value of that word. -/
theorem toNat_ofNat_of_lt {w a : Nat} (ha : a < 2 ^ w) : (BitVec.ofNat w a).toNat = a := by
  rw [BitVec.toNat_ofNat, Nat.mod_eq_of_lt ha]

/-- The mapped addresses are those of the stack, of the return page and of the heap. -/
theorem mapped_iff {a size : Nat} (ha : a < 2 ^ 64) :
    Unicorn.mapped (BitVec.ofNat 64 a) size = true ↔
      (STACK_BASE ≤ a ∧ a + size ≤ STACK_BASE + (STACK_SIZE + 1) * PAGE_ALIGN) ∨
        (lr ≤ a ∧ a + size ≤ lr + PAGE_ALIGN) ∨ (HEAP_BASE ≤ a ∧ a + size ≤ HEAP_BASE + PAGE_ALIGN * 2) := by
  simp only [Unicorn.mapped, regions, List.any_cons, List.any_nil, toNat_ofNat_of_lt ha, Bool.or_eq_true,
    Bool.and_eq_true, decide_eq_true_eq, Bool.or_false]

/-- What lies within the two pages of the heap is mapped. -/
theorem mapped_heap {a size : Nat} (hle : HEAP_BASE ≤ a) (hsize : a + size ≤ HEAP_BASE + PAGE_ALIGN * 2) :
    Unicorn.mapped (BitVec.ofNat 64 a) size = true := by
  have hend : HEAP_BASE + PAGE_ALIGN * 2 = 0x10002000 := rfl
  exact (mapped_iff (by omega)).mpr (Or.inr (Or.inr ⟨hle, hsize⟩))

/-- What lies within the stack is mapped. -/
theorem mapped_stack {a size : Nat} (hle : STACK_BASE ≤ a)
    (hsize : a + size ≤ STACK_BASE + (STACK_SIZE + 1) * PAGE_ALIGN) :
    Unicorn.mapped (BitVec.ofNat 64 a) size = true := by
  have hend : STACK_BASE + (STACK_SIZE + 1) * PAGE_ALIGN = 0x840000 := rfl
  exact (mapped_iff (by omega)).mpr (Or.inl ⟨hle, hsize⟩)

/-- The low half of a 64-bit address is the 32-bit address. -/
theorem setWidth_ofNat (a : Nat) : (BitVec.ofNat 64 a).setWidth 32 = BitVec.ofNat 32 a :=
  BitVec.setWidth_ofNat_of_le (by decide) a

section Word

variable {args : List Arg} {arg : Arg} {k : Nat} {c : Call} {str : List (BitVec 16)}

/-- A string within the heap is written with its terminator. -/
theorem writeCString_eq {u : Unicorn} {a : Nat} (hle : HEAP_BASE ≤ a)
    (hsize : a + (getBytes str).length + 1 ≤ HEAP_BASE + PAGE_ALIGN * 2) :
    writeCString u (BitVec.ofNat 64 a) str =
      some ({ u with mem := u.mem.copy (BitVec.ofNat 32 a) (getBytes str ++ [0]) },
        alignSize (BitVec.ofNat 32 ((getBytes str).length + 1))) := by
  have hmapped : Unicorn.mapped (BitVec.ofNat 64 a) (getBytes str ++ [0]).length = true := by
    apply mapped_heap hle
    rw [List.length_append, List.length_singleton, ← Nat.add_assoc]
    exact hsize
  rw [writeCString, Unicorn.mem_write, if_pos hmapped, setWidth_ofNat]
  rfl

/-- The next free address of the heap is the current one with the room of the string. -/
theorem heap_add_alignSize {a n : Nat} (hn : a + n ≤ HEAP_BASE + PAGE_ALIGN * 2) :
    BitVec.ofNat 64 a + (alignSize (BitVec.ofNat 32 n)).signExtend 64 = BitVec.ofNat 64 (a + room n) := by
  have hend : HEAP_BASE + PAGE_ALIGN * 2 = 0x10002000 := rfl
  have hroom := room_le n
  have ha : (BitVec.ofNat 64 a).toNat = a := toNat_ofNat_of_lt (by omega)
  apply BitVec.eq_of_toNat_eq
  rw [toNat_add_alignSize (by omega) (by omega), ha, BitVec.toNat_ofNat]
  omega

/-- The argument's string, if it is one, is put behind those that are there. -/
theorem word_placed (hfits : Fits args) (hplaced : Placed args k k c) (harg : args[k]? = some arg) :
    ∃ next, c.word arg = some (wordOf args k arg, next) ∧ Placed args (k + 1) k next := by
  have hnext := address_succ harg
  cases arg with
  | number n =>
    refine ⟨c, rfl, ?_, ?_, ?_, hplaced.registers, hplaced.stack⟩
    · rw [hplaced.heap, hnext]
      rfl
    · rw [hplaced.rets, List.range_succ, List.filterMap_append]
      simp [stringAddress, harg]
    · intro i hi str hstr
      have hne : i ≠ k := by
        rintro rfl
        rw [harg] at hstr
        cases hstr
      exact hplaced.written i (by omega) str hstr
  | string str =>
    have hbase := base_le_address args k
    have hfit := hfits.heap k str harg
    have hend : HEAP_BASE + PAGE_ALIGN * 2 = 0x10002000 := rfl
    have hstack : STACK_BASE + (STACK_SIZE + 1) * PAGE_ALIGN = 0x840000 := rfl
    have hstart : HEAP_BASE = 0x10000000 := rfl
    have hlength : (getBytes str ++ [0]).length = (getBytes str).length + 1 := by simp
    rw [Call.word, hplaced.heap, writeCString_eq hbase hfit]
    refine ⟨_, congrArg some (Prod.ext (setWidth_ofNat _) rfl), ?_, ?_, ?_, hplaced.registers, ?_⟩
    · rw [hnext]
      exact heap_add_alignSize hfit
    · dsimp only
      rw [hplaced.rets, List.range_succ, List.filterMap_append]
      simp [stringAddress, harg]
    · intro i hi other hother
      by_cases heq : i = k
      · subst heq
        rw [harg] at hother
        cases hother
        exact Memory.holds_copy _ _ (by omega)
      · have hbefore := address_add_room_le hother (Nat.lt_of_le_of_ne (Nat.le_of_lt_succ hi) heq)
        have hroom : (getBytes other).length + 1 < Arg.room (.string other) := lt_room _
        have hotherLength : (getBytes other ++ [0]).length = (getBytes other).length + 1 := by simp
        apply Memory.holds_copy_of_disjoint (by omega) (by omega) (Or.inr (by omega))
        exact hplaced.written i (Nat.lt_of_le_of_ne (Nat.le_of_lt_succ hi) heq) other hother
    · intro i hi word hle hword
      have hin : i < args.length := (List.getElem?_eq_some_iff.mp hword).1
      have hwords := hfits.stack
      have hfour : (Memory.bytes4 (wordOf args i word)).length = 4 := rfl
      apply Memory.holds_copy_of_disjoint (by omega) (by omega) (Or.inr (by omega))
      exact hplaced.stack i hi word hle hword

/-- One more of the first four arguments is placed in its register. -/
theorem regArg_placed {r : Reg} (hfits : Fits args) (hplaced : Placed args k k c) (harg : args[k]? = some arg)
    (hr : getRegArgs[k]? = some r) : ∃ next, c.regArg r arg = some next ∧ Placed args (k + 1) (k + 1) next := by
  obtain ⟨next, hword, hnext⟩ := word_placed hfits hplaced harg
  have hk : k < 4 := (List.getElem?_eq_some_iff.mp hr).1
  have hwrite : c.regArg r arg = some { next with u := next.u.reg_write r (wordOf args k arg) } := by
    rw [Call.regArg, hword]
    rfl
  refine ⟨_, hwrite, hnext.heap, hnext.rets, hnext.written, ?_, ?_⟩
  · intro i hi q other hq hother
    by_cases heq : i = k
    · subst heq
      rw [hr, Option.some_inj] at hq
      rw [harg, Option.some_inj] at hother
      subst hq hother
      exact if_pos rfl
    · have hne : q ≠ r := by
        rintro rfl
        exact heq ((List.getElem?_inj (List.getElem?_eq_some_iff.mp hq).1 (by decide)).mp (hq.trans hr.symm))
      exact (if_neg hne).trans (hnext.registers i (by omega) q other hq hother)
  · intro i hi other hle
    omega

/-- One more of the other arguments is placed on the stack. -/
theorem stackArg_placed (hfits : Fits args) (hplaced : Placed args k k c) (harg : args[k]? = some arg) (hk : 4 ≤ k) :
    ∃ next, c.stackArg (BitVec.ofNat 64 (sp + 4 * (k - 4))) arg = some next ∧ Placed args (k + 1) (k + 1) next := by
  obtain ⟨next, hword, hnext⟩ := word_placed hfits hplaced harg
  have hin : k < args.length := (List.getElem?_eq_some_iff.mp harg).1
  have hwords := hfits.stack
  have hend : STACK_BASE + (STACK_SIZE + 1) * PAGE_ALIGN = 0x840000 := rfl
  have hsp : sp = 0x83f000 := rfl
  have hheap : HEAP_BASE = 0x10000000 := rfl
  have hheapEnd : HEAP_BASE + PAGE_ALIGN * 2 = 0x10002000 := rfl
  have hfour (word : BitVec 32) : (Memory.bytes4 word).length = 4 := rfl
  have hmapped : Unicorn.mapped (BitVec.ofNat 64 (sp + 4 * (k - 4))) (Memory.bytes4 (wordOf args k arg)).length =
    true := by
    apply mapped_stack
    · rw [hsp]
      exact Nat.le_trans (by decide) (Nat.le_add_right _ _)
    · rw [hfour]
      omega
  have hwrite : c.stackArg (BitVec.ofNat 64 (sp + 4 * (k - 4))) arg = some { next with u := { next.u with
      mem := next.u.mem.copy (BitVec.ofNat 32 (sp + 4 * (k - 4))) (Memory.bytes4 (wordOf args k arg)) } } := by
    rw [Call.stackArg, hword, Option.bind_some]
    dsimp only
    rw [Unicorn.mem_write, if_pos hmapped, setWidth_ofNat]
    rfl
  refine ⟨_, hwrite, hnext.heap, hnext.rets, ?_, ?_, ?_⟩
  · intro i hi str hstr
    have hbase := base_le_address args i
    have hfit := hfits.heap i str hstr
    have hlength : (getBytes str ++ [0]).length = (getBytes str).length + 1 := by simp
    apply Memory.holds_copy_of_disjoint (by rw [hfour]; omega) (by omega) (Or.inl (by rw [hfour]; omega))
    exact hnext.written i hi str hstr
  · intro i hi r other hr hother
    have hlt : i < 4 := (List.getElem?_eq_some_iff.mp hr).1
    exact hnext.registers i (by omega) r other hr hother
  · intro i hi other hle hother
    by_cases heq : i = k
    · subst heq
      rw [harg, Option.some_inj] at hother
      subst hother
      exact Memory.holds_copy _ _ (by rw [hfour]; decide)
    · apply Memory.holds_copy_of_disjoint (by rw [hfour]; omega) (by rw [hfour]; omega) (Or.inr (by rw [hfour]; omega))
      exact hnext.stack i (by omega) other hle hother

/-- The first element of what is left of a list is the next one of the list. -/
theorem getElem?_of_drop {α : Type} {l rest : List α} {x : α} (hdrop : l.drop k = x :: rest) :
    l[k]? = some x ∧ l.drop (k + 1) = rest := by
  rw [← List.tail_drop, hdrop, ← List.head?_drop, hdrop]
  exact ⟨rfl, rfl⟩

/-- Each argument on the stack takes four bytes. -/
theorem stackPointer_succ (hk : 4 ≤ k) :
    BitVec.ofNat 64 (sp + 4 * (k - 4)) + 4 = BitVec.ofNat 64 (sp + 4 * (k + 1 - 4)) := by
  have hmove : sp + 4 * (k + 1 - 4) = sp + 4 * (k - 4) + 4 := by omega
  rw [hmove, BitVec.ofNat_add (sp + 4 * (k - 4)) 4]
  rfl

/-- The loop over the registers comes to the end of the arguments or of the registers. -/
theorem regArgs_placed (hfits : Fits args) {regs : List Reg} (hplaced : Placed args k k c)
    (hregs : getRegArgs.drop k = regs) (hk : k ≤ 4) :
    ∃ next j, c.regArgs regs (args.drop k) = some (next, args.drop j) ∧ Placed args j j next ∧
      (args.length ≤ j ∨ 4 ≤ j) ∧ j ≤ 4 := by
  induction regs generalizing k c with
  | nil =>
    have hfour : 4 ≤ k := List.drop_eq_nil_iff.mp hregs
    exact ⟨c, k, rfl, hplaced, Or.inr hfour, hk⟩
  | cons r regs ih =>
    cases hrest : args.drop k with
    | nil =>
      refine ⟨c, k, ?_, hplaced, Or.inl (List.drop_eq_nil_iff.mp hrest), hk⟩
      rw [hrest]
      rfl
    | cons arg rest =>
      obtain ⟨harg, hafter⟩ := getElem?_of_drop hrest
      obtain ⟨hr, hleft⟩ := getElem?_of_drop hregs
      obtain ⟨next, hstep, hnext⟩ := regArg_placed hfits hplaced harg hr
      have hlt : k < 4 := (List.getElem?_eq_some_iff.mp hr).1
      obtain ⟨last, j, hloop, hlast, hj⟩ := ih hnext hleft hlt
      refine ⟨last, j, ?_, hlast, hj⟩
      rw [Call.regArgs, hstep, Option.bind_some, ← hafter]
      exact hloop

/-- The loop over the stack comes to the end of the arguments. -/
theorem stackArgs_placed (hfits : Fits args) {rest : List Arg} (hplaced : Placed args k k c)
    (hrest : args.drop k = rest) (hk : args.length ≤ k ∨ 4 ≤ k) :
    ∃ next j, c.stackArgs (BitVec.ofNat 64 (sp + 4 * (k - 4))) rest = some next ∧ Placed args j j next ∧
      args.length ≤ j := by
  induction rest generalizing k c with
  | nil => exact ⟨c, k, rfl, hplaced, List.drop_eq_nil_iff.mp hrest⟩
  | cons arg rest ih =>
    obtain ⟨harg, hafter⟩ := getElem?_of_drop hrest
    have hin : k < args.length := (List.getElem?_eq_some_iff.mp harg).1
    have hfour : 4 ≤ k := hk.resolve_left (Nat.not_le_of_lt hin)
    obtain ⟨next, hstep, hnext⟩ := stackArg_placed hfits hplaced harg hfour
    obtain ⟨last, j, hloop, hlast, hj⟩ := ih hnext hafter (Or.inr (Nat.le_succ_of_le hfour))
    refine ⟨last, j, ?_, hlast, hj⟩
    rw [Call.stackArgs, hstep, Option.bind_some, stackPointer_succ hfour]
    exact hloop

end Word

section ReadBack

variable {u : Unicorn} {a : Nat}

/-- A byte of the heap can be read back. -/
theorem mem_read_heap (hle : HEAP_BASE ≤ a) (hsize : a + 1 ≤ HEAP_BASE + PAGE_ALIGN * 2) :
    u.mem_read (BitVec.ofNat 64 a) = some (u.mem (BitVec.ofNat 32 a)) := by
  rw [Unicorn.mem_read, if_pos (mapped_heap hle hsize), setWidth_ofNat]

/-- Bytes without a terminator in them are read back as the string they were written for. -/
theorem readCString_of_holds {bytes : List UInt8} {count : Nat} (hle : HEAP_BASE ≤ a)
    (hsize : a + bytes.length + 1 ≤ HEAP_BASE + PAGE_ALIGN * 2) (hnul : 0 ∉ bytes) (hcount : bytes.length < count)
    (hbytes : u.mem.Holds (BitVec.ofNat 32 a) (bytes ++ [0])) :
    readCString u count (BitVec.ofNat 64 a) = some bytes := by
  induction bytes generalizing a count with
  | nil =>
    obtain ⟨count, rfl⟩ := Nat.exists_eq_add_of_lt hcount
    have hzero : u.mem (BitVec.ofNat 32 a) = 0 := (Memory.holds_cons.mp hbytes).1
    rw [readCString, mem_read_heap hle hsize, Option.bind_some, if_pos hzero]
  | cons byte bytes ih =>
    obtain ⟨count, rfl⟩ := Nat.exists_eq_add_of_lt hcount
    rw [List.cons_append, Memory.holds_cons] at hbytes
    rw [List.mem_cons, not_or] at hnul
    rw [List.length_cons] at *
    have hne : ¬ u.mem (BitVec.ofNat 32 a) = 0 := by
      rw [hbytes.1]
      exact Ne.symm hnul.1
    have hrest : readCString u (bytes.length + 1 + count) (BitVec.ofNat 64 (a + 1)) = some bytes := by
      apply ih (a := a + 1) (Nat.le_succ_of_le hle) (by omega) hnul.2 (by omega)
      rw [BitVec.ofNat_add]
      exact hbytes.2
    rw [readCString, mem_read_heap hle (by omega), Option.bind_some, if_neg hne, hbytes.1]
    rw [BitVec.ofNat_add] at hrest
    exact congrArg (Option.map (byte :: ·)) hrest

end ReadBack

/-- The addresses of all the strings. -/
def stringAddresses (args : List Arg) : List (BitVec 64) := (List.range args.length).filterMap (stringAddress args)

/-- What the emulated code finds: its arguments by the calling convention, and the strings among
them, which are apart from each other, from the slot of `errno` and from the heap of the allocator. -/
structure Marshalled (args : List Arg) (started : Emulator) : Prop where
  registers : ∀ i r arg, getRegArgs[i]? = some r → args[i]? = some arg → started.u.reg r = wordOf args i arg
  stackPointer : started.u.reg .SP = BitVec.ofNat 32 sp
  stack : ∀ i arg, 4 ≤ i → args[i]? = some arg →
    started.u.mem.u4 (started.u.reg .SP + BitVec.ofNat 32 (4 * (i - 4))) = wordOf args i arg
  strings : ∀ i str, args[i]? = some (.string str) →
    started.u.mem.Holds (BitVec.ofNat 32 (address args i)) (getBytes str ++ [0])
  readBack : ∀ lenient i str, args[i]? = some (.string str) →
    cstring lenient started.u (BitVec.ofNat 64 (address args i)) = some str
  aligned : ∀ i, 16 ∣ address args i
  disjoint : ∀ i j str, args[i]? = some (.string str) → i < j →
    address args i + (getBytes str).length + 1 ≤ address args j
  errno : ∀ i str, args[i]? = some (.string str) →
    address args i + (getBytes str).length + 1 ≤ (started.u.reg .C13_C0_3).toNat
  malloc : started.heap.toNat = (started.u.reg .C13_C0_3).toNat + 16

section Marshal

variable {args : List Arg} {c : Call} {k : Nat}

/-- Behind the last argument nothing more is placed. -/
theorem address_of_length_le (hk : args.length ≤ k) : address args k = address args args.length := by
  rw [address, address, List.take_of_length_le hk, List.take_of_length_le (Nat.le_refl _)]

/-- The heap ends no more than the rounding of one string behind the mapped pages. -/
theorem address_le (hfits : Fits args) (k : Nat) : address args k ≤ HEAP_BASE + PAGE_ALIGN * 2 + 16 := by
  induction k with
  | zero => exact Nat.le_trans (Nat.le_add_right _ _) (Nat.le_add_right _ _)
  | succ k ih =>
    cases harg : args[k]? with
    | none =>
      have hk : args.length ≤ k := List.getElem?_eq_none_iff.mp harg
      rwa [address_of_length_le (Nat.le_succ_of_le hk), ← address_of_length_le hk]
    | some arg =>
      rw [address_succ harg]
      cases arg with
      | number n => exact ih
      | string str =>
        have hfit := hfits.heap k str harg
        have hroom := room_le ((getBytes str).length + 1)
        change address args k + room ((getBytes str).length + 1) ≤ _
        omega

/-- The strings among the arguments are those among the first `k`, if there are no more. -/
theorem filterMap_stringAddress (hk : args.length ≤ k) :
    (List.range k).filterMap (stringAddress args) = stringAddresses args := by
  induction k, hk using Nat.le_induction with
  | base => rfl
  | succ j hj ih =>
    have hnone : stringAddress args j = none := by rw [stringAddress, List.getElem?_eq_none hj]
    rw [List.range_succ, List.filterMap_append, List.filterMap_cons_none hnone, List.filterMap_nil, List.append_nil, ih]

/-- Arguments that do not exist are placed from the start. -/
theorem placed_length (hplaced : Placed args k k c) (hk : args.length ≤ k) : Placed args args.length args.length c := by
  refine ⟨?_, ?_, ?_, ?_, ?_⟩
  · rw [hplaced.heap, address_of_length_le hk]
  · rw [hplaced.rets]
    exact filterMap_stringAddress hk
  · exact fun i hi => hplaced.written i (Nat.lt_of_lt_of_le hi hk)
  · exact fun i hi => hplaced.registers i (Nat.lt_of_lt_of_le hi hk)
  · exact fun i hi => hplaced.stack i (Nat.lt_of_lt_of_le hi hk)

/-- The registers that are set for the start leave the arguments as they are. -/
theorem initializeRegs_marshalled (hargs : ∀ str, Arg.string str ∈ args → wellFormed str = true ∧ 0 ∉ str)
    (hfits : Fits args) (hplaced : Placed args args.length args.length c) :
    Marshalled args (initializeRegs c.u c.heap) := by
  have hlt {i : Nat} {arg : Arg} (harg : args[i]? = some arg) : i < args.length := (List.getElem?_eq_some_iff.mp harg).1
  have hend : HEAP_BASE + PAGE_ALIGN * 2 = 0x10002000 := rfl
  have hle := address_le hfits args.length
  have herrno : ((initializeRegs c.u c.heap).u.reg .C13_C0_3).toNat = address args args.length := by
    change (c.heap.setWidth 32).toNat = _
    rw [hplaced.heap, setWidth_ofNat, BitVec.toNat_ofNat]
    omega
  have hdisjoint (i j : Nat) (str : List (BitVec 16)) (hstr : args[i]? = some (.string str)) (hij : i < j) :
      address args i + (getBytes str).length + 1 ≤ address args j := by
    have hbefore := address_add_room_le hstr hij
    have hroom : (getBytes str).length + 1 < Arg.room (.string str) := lt_room _
    omega
  refine ⟨?_, rfl, ?_, fun i str hstr => hplaced.written i (hlt hstr) str hstr, ?_, sixteen_dvd_address args, hdisjoint,
    ?_, ?_⟩
  · intro i r arg hr harg
    have hreg : (initializeRegs c.u c.heap).u.reg r = c.u.reg r := by
      have hmem : r ∈ getRegArgs := List.mem_of_getElem? hr
      simp only [getRegArgs, List.mem_cons, List.not_mem_nil, or_false] at hmem
      rcases hmem with rfl | rfl | rfl | rfl <;> rfl
    rw [hreg]
    exact hplaced.registers i (hlt harg) r arg hr harg
  · intro i arg hi harg
    apply Memory.u4_of_holds
    have haddress : (initializeRegs c.u c.heap).u.reg .SP + BitVec.ofNat 32 (4 * (i - 4)) =
        BitVec.ofNat 32 (sp + 4 * (i - 4)) := (BitVec.ofNat_add _ _).symm
    rw [haddress]
    exact hplaced.stack i (hlt harg) arg hi harg
  · intro lenient i str hstr
    obtain ⟨hwell, hnul⟩ := hargs str (List.mem_of_getElem? hstr)
    have hfit := hfits.heap i str hstr
    have hbase := base_le_address args i
    have hbytes : readCString (initializeRegs c.u c.heap).u ((STACK_SIZE + 1) * PAGE_ALIGN + 1)
        (BitVec.ofNat 64 (address args i)) = some (getBytes str) := by
      apply readCString_of_holds hbase hfit (zero_notMem_getBytes hwell hnul)
      · have hcount : (STACK_SIZE + 1) * PAGE_ALIGN + 1 = 0x41001 := rfl
        have hstart : HEAP_BASE = 0x10000000 := rfl
        omega
      · exact hplaced.written i (hlt hstr) str hstr
    rw [cstring, hbytes, Option.map_some, newString_getBytes lenient hwell]
  · intro i str hstr
    rw [herrno]
    exact hdisjoint i args.length str hstr (hlt hstr)
  · rw [herrno]
    change (c.heap + ALIGN_SIZE_BASE.signExtend 64).toNat = _
    have hbase : (ALIGN_SIZE_BASE.signExtend 64).toNat = 16 := by decide
    rw [BitVec.toNat_add, hbase, hplaced.heap, BitVec.toNat_ofNat]
    omega

end Marshal

/-- Arguments that fit are all placed before the emulation is started. -/
theorem marshal_placed {args : List Arg} (hfits : Fits args) (u : Unicorn) :
    ∃ c, marshal u args = some (initializeRegs c.u c.heap, stringAddresses args) ∧
      Placed args args.length args.length c := by
  have hstart : Placed args 0 0 { u, heap := BitVec.ofNat 64 HEAP_BASE, rets := [] } := by
    refine ⟨rfl, rfl, ?_, ?_, ?_⟩
    · exact fun i hi => absurd hi (Nat.not_lt_zero i)
    · exact fun i hi => absurd hi (Nat.not_lt_zero i)
    · exact fun i hi => absurd hi (Nat.not_lt_zero i)
  obtain ⟨middle, k, hregs, hmiddle, hk, hfour⟩ := regArgs_placed hfits hstart rfl (Nat.zero_le 4)
  obtain ⟨last, j, hloop, hlast, hj⟩ := stackArgs_placed hfits hmiddle rfl hk
  have hplaced := placed_length hlast hj
  have hfirst : Call.regArgs { u, heap := BitVec.ofNat 64 HEAP_BASE, rets := [] } getRegArgs args =
      some (middle, args.drop k) := hregs
  have hsp : sp + 4 * (k - 4) = sp := by rw [Nat.sub_eq_zero_of_le hfour, Nat.mul_zero, Nat.add_zero]
  rw [hsp] at hloop
  refine ⟨last, ?_, hplaced⟩
  rw [marshal, hfirst, Option.bind_some]
  dsimp only
  rw [hloop, Option.map_some, hplaced.rets]
  rfl

/-- The emulation is started with the arguments where the called code looks for them, and what
is returned is its result and then the addresses of the strings. -/
theorem eFunc_marshalled {args : List Arg} (hargs : ∀ str, Arg.string str ∈ args → wellFormed str = true ∧ 0 ∉ str)
    (hfits : Fits args) (e : Emulator) :
    ∃ started, marshal e.u args = some (started, stringAddresses args) ∧ Marshalled args started ∧
      ∀ emulate thumb start, eFunc emulate thumb e start args =
        (emulate (codeAddress thumb start) (BitVec.ofNat 64 lr) started).map fun finished =>
          (finished.u.reg .R0).setWidth 64 :: stringAddresses args := by
  obtain ⟨c, hmarshal, hplaced⟩ := marshal_placed hfits e.u
  refine ⟨_, hmarshal, initializeRegs_marshalled hargs hfits hplaced, ?_⟩
  intro emulate thumb start
  rw [eFunc, hmarshal, Option.bind_some]

/-- Six arguments, of which a string with a surrogate pair and an empty one are on the stack. -/
def sampleArgs : List Arg :=
  [.number 7, .string [0x68, 0xe9], .number (-1), .number 0x100000002, .string [0xd83d, 0xde00], .string []]

def idle : Emulator where
  u := { mem := fun _ => 0, reg := fun _ => 0 }
  heap := 0

/-- The sample arguments fit the stack and the heap. -/
theorem fits_sampleArgs : Fits sampleArgs := by
  refine ⟨fun i str hstr => ?_, by decide⟩
  have hroom : ∀ k < 6, address sampleArgs k ≤ HEAP_BASE + 0x40 := by decide +kernel
  have hlength : ∀ arg ∈ sampleArgs, arg.room ≤ 16 := by decide +kernel
  have hi : i < 6 := (List.getElem?_eq_some_iff.mp hstr).1
  have haddress := hroom i hi
  have hbytes : room ((getBytes str).length + 1) ≤ 16 := hlength _ (List.mem_of_getElem? hstr)
  have hlt := lt_room ((getBytes str).length + 1)
  have hpages : PAGE_ALIGN * 2 = 0x2000 := rfl
  omega

/-- Two strings with a number between them are marshalled to the heap and the registers. -/
theorem sampleArgs_marshalled : ∃ started,
    marshal idle.u sampleArgs = some (started, [0x10000000, 0x10000010, 0x10000020]) ∧
      Marshalled sampleArgs started := by
  have hstrings : ∀ str, Arg.string str ∈ sampleArgs → wellFormed str = true ∧ 0 ∉ str := by
    intro str hstr
    simp only [sampleArgs, List.mem_cons, List.not_mem_nil, or_false, reduceCtorEq, false_or, Arg.string.injEq] at hstr
    rcases hstr with rfl | rfl | rfl
    · decide
    · decide
    · decide
  obtain ⟨started, hmarshal, hmarshalled, -⟩ := eFunc_marshalled hstrings fits_sampleArgs idle
  have haddresses : stringAddresses sampleArgs = [0x10000000, 0x10000010, 0x10000020] := by decide +kernel
  rw [haddresses] at hmarshal
  exact ⟨started, hmarshal, hmarshalled⟩

end inspector.unicorn
