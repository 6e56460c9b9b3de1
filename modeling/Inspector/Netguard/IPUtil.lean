import Mathlib.Algebra.Order.Ring.Int
import Mathlib.Data.List.Basic
import Mathlib.Data.List.Pairwise
import Mathlib.Tactic.Common

namespace inspector.netguard

/-- An IPv4 address, with its first byte on top. -/
abbrev InetAddress := BitVec 32

def prefix2mask (bits : Nat) : Nat := ((0xFFFFFFFF00000000#64).sshiftRight bits &&& 0xFFFFFFFF#64).toNat

def inet2long (addr : InetAddress) : Nat := addr.toNat

def long2inet (addr : Int) : InetAddress := BitVec.ofInt 32 addr

def minus1 (addr : InetAddress) : InetAddress := long2inet (inet2long addr - 1)

def plus1 (addr : InetAddress) : InetAddress := long2inet (inet2long addr + 1)

structure CIDR where
  address : InetAddress
  prefixLength : Nat
  deriving DecidableEq, Repr

namespace CIDR

variable (c : CIDR)

def getStart : InetAddress := long2inet (inet2long c.address &&& prefix2mask c.prefixLength : Nat)

def getEnd : InetAddress :=
  long2inet ((inet2long c.address &&& prefix2mask c.prefixLength : Nat) + 2 ^ (32 - c.prefixLength) - 1)

/-- The addresses from the start to the end. -/
def Contains (a : InetAddress) : Prop :=
  inet2long c.getStart ≤ inet2long a ∧ inet2long a ≤ inet2long c.getEnd

end CIDR

/-- The loop that shortens the prefix of an address as long as it masks the address to itself. -/
def shorten («from» : Nat) : Nat → Nat
  | 0 => 0
  | bits + 1 => if «from» &&& prefix2mask bits ≠ «from» then bits + 1 else shorten «from» bits

/-- The prefix of the block that is taken next. -/
def nextPrefix («from» «to» : Nat) : Nat := max (shorten «from» 32) (32 - Nat.log2 («to» - «from» + 1))

/-- The loop of `toCIDR`. -/
def cidrLoop («from» «to» : Nat) : List CIDR :=
  if «from» ≤ «to» then
    { address := long2inet «from», prefixLength := nextPrefix «from» «to» } ::
      cidrLoop («from» + 2 ^ (32 - nextPrefix «from» «to»)) «to»
  else []
  termination_by «to» + 1 - «from»
  decreasing_by
    have hpos := Nat.two_pow_pos (32 - nextPrefix «from» «to»)
    omega

def toCIDR (start «end» : InetAddress) : List CIDR := cidrLoop (inet2long start) (inet2long «end»)

/-- The mask of a prefix has its leading bits of the 32. -/
theorem testBit_prefix2mask : ∀ bits ≤ 32, ∀ i < 64,
    (prefix2mask bits).testBit i = decide (32 - bits ≤ i ∧ i < 32) := by
  decide +kernel

/-- A mask clears the low bits of an address. -/
theorem and_prefix2mask {n bits : Nat} (hn : n < 2 ^ 32) (hbits : bits ≤ 32) :
    n &&& prefix2mask bits = n / 2 ^ (32 - bits) * 2 ^ (32 - bits) := by
  apply Nat.eq_of_testBit_eq
  intro i
  rw [Nat.testBit_and, Nat.testBit_mul_two_pow, Nat.testBit_div_two_pow]
  by_cases hi : i < 32
  · rw [testBit_prefix2mask bits hbits i (by omega)]
    by_cases hlow : 32 - bits ≤ i
    · simp [hlow, hi]
    · simp [hlow]
  · have hhigh : n.testBit i = false :=
      Nat.testBit_lt_two_pow (Nat.lt_of_lt_of_le hn (Nat.pow_le_pow_right (by decide) (by omega)))
    by_cases hlow : 32 - bits ≤ i
    · simp [hlow, hhigh]
    · simp [hlow, hhigh]

/-- An address made of a number below 2 ^ 32 has that number. -/
theorem inet2long_long2inet {n : Nat} (hn : n < 2 ^ 32) : inet2long (long2inet n) = n := by
  rw [inet2long, long2inet, BitVec.ofInt_natCast, BitVec.toNat_ofNat, Nat.mod_eq_of_lt hn]

@[simp] theorem inet2long_lt (a : InetAddress) : inet2long a < 2 ^ 32 := a.isLt

/-- The address before an address. The one before the first is the last. -/
theorem inet2long_minus1 (a : InetAddress) : inet2long (minus1 a) = (inet2long a + (2 ^ 32 - 1)) % 2 ^ 32 := by
  rw [minus1, inet2long, long2inet, BitVec.toNat_ofInt]
  have hlt := inet2long_lt a
  omega

/-- The next address is one further, and begins again behind the last one. -/
theorem inet2long_plus1 (a : InetAddress) : inet2long (plus1 a) = (inet2long a + 1) % 2 ^ 32 := by
  rw [plus1, inet2long, long2inet, BitVec.toNat_ofInt]
  omega

namespace CIDR

variable {c : CIDR} (hc : c.prefixLength ≤ 32)

include hc

/-- A block begins at its address with the bits behind the prefix cleared. -/
theorem inet2long_getStart : inet2long c.getStart =
    inet2long c.address / 2 ^ (32 - c.prefixLength) * 2 ^ (32 - c.prefixLength) := by
  have hlt := inet2long_lt c.address
  have hle := Nat.div_mul_le_self (inet2long c.address) (2 ^ (32 - c.prefixLength))
  rw [getStart, and_prefix2mask hlt hc, inet2long_long2inet (by omega)]

/-- A block ends before the next multiple of its size. -/
theorem getStart_add_le : inet2long c.getStart + 2 ^ (32 - c.prefixLength) ≤ 2 ^ 32 := by
  have hsplit : 2 ^ c.prefixLength * 2 ^ (32 - c.prefixLength) = 2 ^ 32 := by
    rw [← Nat.pow_add, Nat.add_sub_cancel' hc]
  have hblocks : inet2long c.address / 2 ^ (32 - c.prefixLength) < 2 ^ c.prefixLength := by
    apply Nat.div_lt_of_lt_mul
    rw [Nat.mul_comm, hsplit]
    exact inet2long_lt c.address
  rw [inet2long_getStart hc, ← Nat.succ_mul, ← hsplit]
  exact Nat.mul_le_mul_right _ hblocks

/-- A block ends with all of the bits behind the prefix set. -/
theorem inet2long_getEnd : inet2long c.getEnd = inet2long c.getStart + (2 ^ (32 - c.prefixLength) - 1) := by
  have hstart := inet2long_getStart hc
  have hend := getStart_add_le hc
  have hpos := Nat.two_pow_pos (32 - c.prefixLength)
  have hcast : ((inet2long c.address &&& prefix2mask c.prefixLength : Nat) : Int) + 2 ^ (32 - c.prefixLength) - 1 =
      ((inet2long c.getStart + (2 ^ (32 - c.prefixLength) - 1) : Nat) : Int) := by
    rw [and_prefix2mask (inet2long_lt c.address) hc, ← hstart]
    push_cast [Nat.one_le_iff_ne_zero, hpos]
    omega
  rw [getEnd, hcast, inet2long_long2inet (by omega)]

end CIDR

/-- No address is in both blocks. -/
def Apart (c c' : CIDR) : Prop := ∀ a, c.Contains a → ¬ c'.Contains a

/-- Shortening a prefix does not make it longer. -/
theorem shorten_le («from» bits : Nat) : shorten «from» bits ≤ bits := by
  induction bits with
  | zero => exact Nat.le_refl _
  | succ bits ih =>
    rw [shorten]
    split
    · exact Nat.le_refl _
    · exact Nat.le_succ_of_le ih

/-- A shortened prefix still has the start of the block on its boundary. -/
theorem dvd_shorten {«from» bits : Nat} (hfrom : «from» < 2 ^ 32) (hbits : bits ≤ 32)
    (hdvd : 2 ^ (32 - bits) ∣ «from») :
    2 ^ (32 - shorten «from» bits) ∣ «from» := by
  induction bits with
  | zero => exact hdvd
  | succ bits ih =>
    rw [shorten]
    split
    · exact hdvd
    · rename_i hmask
      rw [not_not, and_prefix2mask hfrom (by omega)] at hmask
      exact ih (by omega) ⟨_, by rw [Nat.mul_comm, hmask]⟩

/-- The prefix of the next block has at most 32 bits. -/
theorem nextPrefix_le («from» «to» : Nat) : nextPrefix «from» «to» ≤ 32 := by
  have hshorten := shorten_le «from» 32
  rw [nextPrefix]
  omega

section Block

variable {«from» «to» : Nat} (hfrom : «from» ≤ «to») (hto : «to» < 2 ^ 32)

include hfrom

include hto in
/-- The next block begins on its own boundary. -/
theorem dvd_nextPrefix : 2 ^ (32 - nextPrefix «from» «to») ∣ «from» := by
  have hshorten : 2 ^ (32 - shorten «from» 32) ∣ «from» :=
    dvd_shorten (Nat.lt_of_le_of_lt hfrom hto) (Nat.le_refl _) (one_dvd _)
  have hle : shorten «from» 32 ≤ nextPrefix «from» «to» := Nat.le_max_left _ _
  exact Nat.dvd_trans (Nat.pow_dvd_pow 2 (by omega)) hshorten

/-- A block does not go beyond the last address. -/
theorem add_nextPrefix_le : «from» + 2 ^ (32 - nextPrefix «from» «to») ≤ «to» + 1 := by
  have hmax : 32 - Nat.log2 («to» - «from» + 1) ≤ nextPrefix «from» «to» := Nat.le_max_right _ _
  have hlog := Nat.log2_self_le (show «to» - «from» + 1 ≠ 0 by omega)
  have hpow := Nat.pow_le_pow_right (n := 2) (by decide)
    (show 32 - nextPrefix «from» «to» ≤ Nat.log2 («to» - «from» + 1) by omega)
  omega

include hto in
/-- The block that is taken next begins at the address. -/
theorem contains_block {a : InetAddress} :
    (CIDR.mk (long2inet «from») (nextPrefix «from» «to»)).Contains a ↔
      «from» ≤ inet2long a ∧ inet2long a < «from» + 2 ^ (32 - nextPrefix «from» «to») := by
  have hpos := Nat.two_pow_pos (32 - nextPrefix «from» «to»)
  have hstart : inet2long (CIDR.mk (long2inet «from») (nextPrefix «from» «to»)).getStart = «from» := by
    rw [CIDR.inet2long_getStart (nextPrefix_le «from» «to»), inet2long_long2inet (by omega)]
    exact Nat.div_mul_cancel (dvd_nextPrefix hfrom hto)
  rw [CIDR.Contains, CIDR.inet2long_getEnd (nextPrefix_le «from» «to»), hstart]
  dsimp only
  omega

end Block

/-- The blocks cover exactly the addresses of a range. -/
theorem exists_mem_cidrLoop {«from» «to» : Nat} (hto : «to» < 2 ^ 32) (a : InetAddress) :
    (∃ c ∈ cidrLoop «from» «to», c.Contains a) ↔ «from» ≤ inet2long a ∧ inet2long a ≤ «to» := by
  fun_induction cidrLoop «from» «to» with
  | case1 «from» hfrom ih =>
    have hle := add_nextPrefix_le hfrom
    have hpos := Nat.two_pow_pos (32 - nextPrefix «from» «to»)
    rw [List.exists_mem_cons_iff, ih, contains_block hfrom hto]
    omega
  | case2 «from» hfrom =>
    simp only [List.not_mem_nil, false_and, exists_false, false_iff]
    omega

/-- The blocks that cover a range of numbers lie apart, in order. -/
theorem pairwise_cidrLoop {«from» «to» : Nat} (hto : «to» < 2 ^ 32) : (cidrLoop «from» «to»).Pairwise Apart := by
  fun_induction cidrLoop «from» «to» with
  | case1 «from» hfrom ih =>
    refine List.Pairwise.cons (fun c hc a hblock hin => ?_) ih
    have hrest := (exists_mem_cidrLoop hto a).mp ⟨c, hc, hin⟩
    rw [contains_block hfrom hto] at hblock
    omega
  | case2 => exact List.Pairwise.nil

/-- The blocks of `toCIDR` cover exactly the addresses from the start to the end. -/
theorem exists_mem_toCIDR (start «end» a : InetAddress) :
    (∃ c ∈ toCIDR start «end», c.Contains a) ↔ inet2long start ≤ inet2long a ∧ inet2long a ≤ inet2long «end» :=
  exists_mem_cidrLoop (inet2long_lt «end») a

/-- The blocks of a range of addresses lie apart, in order. -/
theorem pairwise_toCIDR (start «end» : InetAddress) : (toCIDR start «end»).Pairwise Apart :=
  pairwise_cidrLoop (inet2long_lt «end»)

end inspector.netguard
