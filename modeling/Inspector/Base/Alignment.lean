import Inspector.Base.Long

/-! Numbers that are multiples of a size, and the ranges that begin and end at them.
Of a `long`, the multiple below it is its high bits. -/

namespace alignment

/-- The greatest multiple that is not above a number. -/
def down (size x : Int) : Int := x / size * size

/-- The least multiple that is not below a number. -/
def up (size x : Int) : Int := (x + size - 1) / size * size

/-- The range from `first` up to `last` is the smallest one that begins and ends at a
multiple and holds the range from `a` up to `b`. -/
structure Smallest (size first last a b : Int) : Prop where
  dvd_first : size ∣ first
  dvd_last : size ∣ last
  first_le : first ≤ a
  le_last : b ≤ last
  within : ∀ f l, size ∣ f → size ∣ l → f ≤ a → b ≤ l → f ≤ first ∧ last ≤ l

variable {size first last a b x y : Int}

theorem dvd_down (size x : Int) : size ∣ down size x := Int.dvd_mul_left _ _

theorem dvd_up (size x : Int) : size ∣ up size x := Int.dvd_mul_left _ _

/-- A number is its own boundary if the size divides it. -/
theorem down_eq_self_iff : down size x = x ↔ size ∣ x := by
  constructor
  · intro heq
    rw [← heq]
    exact dvd_down size x
  · exact Int.ediv_mul_cancel

section Positive

variable (hsize : 0 < size)

include hsize

/-- The boundary below is not above. -/
theorem down_le (x : Int) : down size x ≤ x := Int.ediv_mul_le x (ne_of_gt hsize)

/-- A number is less than one size above its lower boundary. -/
theorem lt_down_add (x : Int) : x < down size x + size := by
  have hlt := Int.lt_ediv_add_one_mul_self x hsize
  rwa [Int.add_mul, one_mul] at hlt

/-- The boundary below is the greatest. -/
theorem le_down (hy : size ∣ y) (hle : y ≤ x) : y ≤ down size x := by
  obtain ⟨k, rfl⟩ := hy
  rw [mul_comm] at hle ⊢
  exact Int.mul_le_mul_of_nonneg_right (Int.le_ediv_of_mul_le hsize hle) (le_of_lt hsize)

/-- The boundary above is not below. -/
theorem le_up (x : Int) : x ≤ up size x := by
  have hlt : x + size - 1 < up size x + size := lt_down_add hsize (x + size - 1)
  omega

/-- The boundary above is less than one size away. -/
theorem up_lt (x : Int) : up size x < x + size := by
  have hle : up size x ≤ x + size - 1 := down_le hsize (x + size - 1)
  omega

/-- The boundary above is the smallest. -/
theorem up_le (hy : size ∣ y) (hle : x ≤ y) : up size x ≤ y := by
  have hlt : up size x ≤ x + size - 1 := down_le hsize (x + size - 1)
  obtain ⟨k, rfl⟩ := hy
  have hup : up size x < size * (k + 1) := by
    rw [mul_add, mul_one]
    omega
  rw [up, mul_comm] at hup ⊢
  have hk : (x + size - 1) / size < k + 1 := (Int.mul_lt_mul_left hsize).mp hup
  exact Int.mul_le_mul_of_nonneg_left (Int.lt_add_one_iff.mp hk) (le_of_lt hsize)

/-- Multiples move along with the multiple below a number. -/
theorem up_add (hy : size ∣ y) (x : Int) : up size (y + x) = y + up size x := by
  apply le_antisymm
  · exact up_le hsize (Int.dvd_add hy (dvd_up size x)) (Int.add_le_add_left (le_up hsize x) y)
  · have hle : up size x ≤ up size (y + x) - y :=
      up_le hsize (Int.dvd_sub (dvd_up size (y + x)) hy) (by have hbound := le_up hsize (y + x); omega)
    omega

/-- One multiple before the one above a number. -/
theorem up_sub_size_eq_down_iff : up size x - size = down size x ↔ ¬ size ∣ x := by
  have hup := dvd_up size x
  constructor
  · intro heq hx
    rw [down_eq_self_iff.mpr hx] at heq
    have hle := up_le hsize hx (le_refl x)
    omega
  · intro hx
    have hdown : down size x < x := lt_of_le_of_ne (down_le hsize x) fun heq => hx (down_eq_self_iff.mp heq)
    have hle := le_up hsize x
    have hlt := up_lt hsize x
    have hapart : size ≤ up size x - down size x :=
      Int.le_of_dvd (by omega) (Int.dvd_sub hup (dvd_down size x))
    apply le_antisymm
    · exact le_down hsize (Int.dvd_sub hup (dvd_refl size)) (by omega)
    · omega

/-- The boundaries around a range make the smallest range of whole blocks around it. -/
theorem smallest_down_up (a b : Int) : Smallest size (down size a) (up size b) a b where
  dvd_first := dvd_down size a
  dvd_last := dvd_up size b
  first_le := down_le hsize a
  le_last := le_up hsize b
  within := fun _ _ hf hl hfirst hlast => ⟨le_down hsize hf hfirst, up_le hsize hl hlast⟩

/-- There is one such range. -/
theorem smallest_iff : Smallest size first last a b ↔ first = down size a ∧ last = up size b := by
  constructor
  · rintro ⟨hdvdFirst, hdvdLast, hfirst, hlast, hwithin⟩
    obtain ⟨hle, hge⟩ := hwithin _ _ (dvd_down size a) (dvd_up size b) (down_le hsize a) (le_up hsize b)
    exact ⟨le_antisymm (le_down hsize hdvdFirst hfirst) hle, le_antisymm hge (up_le hsize hdvdLast hlast)⟩
  · rintro ⟨rfl, rfl⟩
    exact smallest_down_up hsize a b

end Positive

section Bits

variable {v : BitVec 64} {k : Nat}

/-- A number is the sum of its bits inside a mask and of those outside. -/
theorem and_not_add_and (v mask : BitVec 64) : (v &&& ~~~mask) + (v &&& mask) = v := by
  have hapart : (v &&& ~~~mask) &&& (v &&& mask) = 0#64 := by
    ext i hi
    cases hbit : mask[i] <;> simp [hbit]
  rw [BitVec.add_eq_or_of_and_eq_zero _ _ hapart]
  ext i hi
  cases hbit : mask[i] <;> simp [hbit]

/-- Masking the low bits is the remainder. -/
theorem and_low (hk : k < 63) : v &&& BitVec.ofNat 64 (2 ^ k - 1) = BitVec.ofNat 64 (v.toNat % 2 ^ k) := by
  have hpow : 2 ^ k < 2 ^ 63 := Nat.pow_lt_pow_right (by omega) hk
  have hlt := Nat.mod_lt v.toNat (Nat.two_pow_pos k)
  apply BitVec.eq_of_toNat_eq
  rw [BitVec.toNat_and, BitVec.toNat_ofNat, BitVec.toNat_ofNat, Nat.mod_eq_of_lt (by omega : 2 ^ k - 1 < 2 ^ 64),
    Nat.and_two_pow_sub_one_eq_mod, Nat.mod_eq_of_lt (by omega : v.toNat % 2 ^ k < 2 ^ 64)]

/-- The remainder by a power of two is that of the signed number. -/
theorem toNat_mod (hk : k < 63) : ((v.toNat % 2 ^ k : Nat) : Int) = v.toInt % (2 ^ k : Nat) := by
  have hdvd : ((2 ^ k : Nat) : Int) ∣ ((2 ^ 64 : Nat) : Int) :=
    Int.natCast_dvd_natCast.mpr (Nat.pow_dvd_pow 2 (by omega))
  rw [BitVec.toInt_eq_toNat_cond, Int.natCast_emod]
  split
  · rfl
  · rw [Int.sub_emod, Int.emod_eq_zero_of_dvd hdvd, sub_zero, Int.emod_emod_of_dvd _ (dvd_refl _)]

/-- The low bits are cleared. -/
theorem toInt_and_not (hk : k < 63) :
    (v &&& ~~~(BitVec.ofNat 64 (2 ^ k - 1))).toInt = down (2 ^ k : Nat) v.toInt := by
  have hpos : 0 < ((2 ^ k : Nat) : Int) := Int.natCast_pos.mpr (Nat.two_pow_pos k)
  have hlowest : ((2 ^ k : Nat) : Int) ∣ -2 ^ 63 :=
    Int.dvd_neg.mpr (Int.natCast_dvd_natCast.mpr (Nat.pow_dvd_pow 2 (by omega : k ≤ 63)))
  have hlow : -2 ^ 63 ≤ down (2 ^ k : Nat) v.toInt := le_down hpos hlowest v.le_toInt
  have hle := down_le hpos v.toInt
  have hhigh := v.toInt_lt
  have hrest : v &&& ~~~(BitVec.ofNat 64 (2 ^ k - 1)) = v - BitVec.ofNat 64 (v.toNat % 2 ^ k) := by
    rw [← and_low hk, BitVec.eq_sub_iff_add_eq, and_not_add_and]
  have hdown : v.toInt - v.toInt % (2 ^ k : Nat) = down (2 ^ k : Nat) v.toInt := by
    rw [Int.emod_def, sub_sub_cancel, mul_comm, down]
  rw [hrest, BitVec.toInt_sub, BitVec.toInt_ofNat', Int.sub_bmod_bmod, toNat_mod hk, hdown]
  exact long.bmod_eq hlow (by omega)

end Bits

end alignment
