import Mathlib.Algebra.Order.Ring.Int
import Mathlib.Data.List.Basic
import Mathlib.Tactic.Common

/-! Strings as lists of characters, and the numbers in them. Digits are those of ASCII. -/

namespace text

def digit (radix : Nat) (c : Char) : Option Nat :=
  let value :=
    if '0' ≤ c ∧ c ≤ '9' then c.toNat - 48
    else if 'a' ≤ c ∧ c ≤ 'z' then c.toNat - 87
    else if 'A' ≤ c ∧ c ≤ 'Z' then c.toNat - 55
    else radix
  if value < radix then some value else none

/-- The number that a row of digits has, if there is a digit. -/
def number (radix : Nat) (s : List Char) : Option Nat :=
  if s.isEmpty then none else (s.mapM (digit radix)).map (List.foldl (fun n d => n * radix + d) 0)

/-- `parseInt` or `parseLong`, for numbers of so many bits. -/
def parse (radix bits : Nat) : List Char → Option Int
  | '-' :: s => (number radix s).bind fun n => if n ≤ 2 ^ (bits - 1) then some (-n) else none
  | '+' :: s => (number radix s).bind fun n => if n < 2 ^ (bits - 1) then some n else none
  | s => (number radix s).bind fun n => if n < 2 ^ (bits - 1) then some n else none

def parseInt (radix : Nat) : List Char → Option Int := parse radix 32

def parseLong (radix : Nat) : List Char → Option Int := parse radix 64

def indexOf (s : List Char) (c : Char) : Option Nat := s.findIdx? (· = c)

/-- `indexOf` from an index on. -/
def indexOfFrom (s : List Char) (c : Char) (start : Nat) : Option Nat := (indexOf (s.drop start) c).map (start + ·)

def substring (s : List Char) (first last : Nat) : List Char := (s.take last).drop first

def trim (s : List Char) : List Char :=
  ((s.dropWhile (· ≤ ' ')).reverse.dropWhile (· ≤ ' ')).reverse

def isSpace (c : Char) : Bool := c = ' ' || c = '\t' || c = '\n' || c = '\x0B' || c = '\x0C' || c = '\r'

/-- The words of a string that does not begin with a space. -/
def words : List Char → List (List Char)
  | [] => [[]]
  | c :: s =>
    if isSpace c then
      -- a space behind a space belongs to the same separator
      match words s with
      | [] :: rest => [] :: rest
      | rest => [] :: rest
    else
      match words s with
      | word :: rest => (c :: word) :: rest
      | [] => [[c]]

/-- `split` at every row of spaces. Empty strings at the end are left out. -/
def split (s : List Char) : List (List Char) :=
  if s.isEmpty then [[]] else (words s).reverse.dropWhile List.isEmpty |>.reverse

variable {s rest : List Char} {c : Char}

/-- The first place of a character is behind the text that does not have it. -/
theorem indexOf_append (hs : c ∉ s) (rest : List Char) : indexOf (s ++ c :: rest) c = some s.length := by
  unfold indexOf
  rw [List.findIdx?_append, List.findIdx?_eq_none_iff.mpr]
  · simp [List.findIdx?_cons]
  · intro d hd
    simp only [decide_eq_false_iff_not]
    rintro rfl
    exact hs hd

/-- Where every character has a value, each one has. -/
theorem exists_of_mapM {f : Char → Option Nat} {values : List Nat} (hvalues : s.mapM f = some values) (hc : c ∈ s) :
    ∃ d, f c = some d := by
  induction s generalizing values with
  | nil => cases hc
  | cons first s ih =>
    rw [List.mapM_cons] at hvalues
    obtain ⟨d, hd, hrest⟩ := Option.bind_eq_some_iff.mp hvalues
    obtain ⟨others, hothers, -⟩ := Option.bind_eq_some_iff.mp hrest
    rcases List.mem_cons.mp hc with rfl | hc
    · exact ⟨d, hd⟩
    · exact ih hothers hc

/-- There are nothing but digits in a number. -/
theorem not_mem_of_number {radix n : Nat} (hn : number radix s = some n) (hc : digit radix c = none) : c ∉ s := by
  intro hmem
  unfold number at hn
  split at hn
  · cases hn
  · obtain ⟨values, hvalues, -⟩ := Option.map_eq_some_iff.mp hn
    obtain ⟨d, hd⟩ := exists_of_mapM hvalues hmem
    rw [hc] at hd
    cases hd

/-- A character that is neither a decimal digit nor an ASCII letter is no digit. -/
theorem digit_eq_none {radix : Nat} (hdecimal : ¬ ('0' ≤ c ∧ c ≤ '9')) (hlower : ¬ ('a' ≤ c ∧ c ≤ 'z'))
    (hupper : ¬ ('A' ≤ c ∧ c ≤ 'Z')) : digit radix c = none := by
  unfold digit
  simp only [if_neg hdecimal, if_neg hlower, if_neg hupper]
  exact if_neg (Nat.lt_irrefl radix)

/-- A number without a sign is parsed as it is. -/
theorem parse_of_number {radix bits n : Nat} (hn : number radix s = some n) (hlt : n < 2 ^ (bits - 1)) :
    parse radix bits s = some (n : Int) := by
  have hminus : '-' ∉ s := not_mem_of_number hn (digit_eq_none (by decide) (by decide) (by decide))
  have hplus : '+' ∉ s := not_mem_of_number hn (digit_eq_none (by decide) (by decide) (by decide))
  unfold parse
  split
  · simp at hminus
  · simp at hplus
  · rw [hn, Option.bind_some, if_pos hlt]

section Decimal

/-- The text of a number. -/
abbrev decimal (n : Nat) : List Char := Nat.toDigits 10 n

theorem isDigit_iff : c.isDigit = true ↔ '0' ≤ c ∧ c ≤ '9' := Char.isDigit_iff_toNat

/-- A decimal digit is the distance from the character 0. -/
theorem digit_ten (hc : c.isDigit = true) : digit 10 c = some (c.toNat - '0'.toNat) := by
  have hrange := isDigit_iff.mp hc
  have hhigh : c.toNat ≤ 57 := (Char.isDigit_iff_toNat.mp hc).2
  have hzero : '0'.toNat = 48 := rfl
  unfold digit
  simp only [if_pos hrange, hzero]
  exact if_pos (by omega)

/-- Only the decimal digits have a value to the base of ten. -/
theorem isDigit_of_digit_ten {d : Nat} (hd : digit 10 c = some d) : c.isDigit = true := by
  rw [isDigit_iff]
  by_contra hrange
  unfold digit at hd
  simp only [if_neg hrange] at hd
  by_cases hlower : 'a' ≤ c ∧ c ≤ 'z'
  · have hlow : 97 ≤ c.toNat := hlower.1
    rw [if_pos hlower, if_neg (by omega)] at hd
    cases hd
  · rw [if_neg hlower] at hd
    by_cases hupper : 'A' ≤ c ∧ c ≤ 'Z'
    · have hlow : 65 ≤ c.toNat := hupper.1
      rw [if_pos hupper, if_neg (by omega)] at hd
      cases hd
    · rw [if_neg hupper, if_neg (by omega)] at hd
      cases hd

/-- The values of a text of decimal digits. -/
theorem mapM_digit_ten (hs : ∀ c ∈ s, c.isDigit = true) :
    s.mapM (digit 10) = some (s.map fun c => c.toNat - '0'.toNat) := by
  induction s with
  | nil => rfl
  | cons c s ih =>
    obtain ⟨hc, hrest⟩ := List.forall_mem_cons.mp hs
    rw [List.mapM_cons, digit_ten hc, ih hrest]
    rfl

/-- A text of decimal digits is the number that it writes. -/
theorem number_ten (hnonempty : s ≠ []) (hs : ∀ c ∈ s, c.isDigit = true) :
    number 10 s = some (Nat.ofDigitChars 10 s 0) := by
  rw [number, if_neg (by simpa using hnonempty), mapM_digit_ten hs, Option.map_some, List.foldl_map,
    Nat.ofDigitChars_eq_foldl]
  congr 2
  funext n c
  rw [Nat.mul_comm]

/-- A text that is read as a decimal number is not empty and has only digits. -/
theorem digits_of_number {n : Nat} (hn : number 10 s = some n) : s ≠ [] ∧ ∀ c ∈ s, c.isDigit = true := by
  unfold number at hn
  split at hn
  · cases hn
  · rename_i hnonempty
    refine ⟨by simpa using hnonempty, fun c hc => ?_⟩
    obtain ⟨values, hvalues, -⟩ := Option.map_eq_some_iff.mp hn
    obtain ⟨d, hd⟩ := exists_of_mapM hvalues hc
    exact isDigit_of_digit_ten hd

/-- A decimal number is written with digits only. -/
theorem isDigit_of_mem_decimal {n : Nat} (hc : c ∈ decimal n) : c.isDigit = true :=
  Nat.isDigit_of_mem_toDigits (by decide) (by decide) hc

@[simp] theorem number_decimal (n : Nat) : number 10 (decimal n) = some n := by
  rw [number_ten Nat.toDigits_ne_nil fun c => isDigit_of_mem_decimal, Nat.ofDigitChars_ten_toDigits]

/-- Different numbers are written differently. -/
theorem decimal_inj {m n : Nat} (h : decimal m = decimal n) : m = n := by
  have hnumber := congrArg (number 10) h
  rw [number_decimal, number_decimal] at hnumber
  exact Option.some_inj.mp hnumber

/-- A number of n decimal digits is below 10 ^ n. -/
theorem ofDigitChars_lt (hs : ∀ c ∈ s, c.isDigit = true) : Nat.ofDigitChars 10 s 0 < 10 ^ s.length := by
  induction s with
  | nil => simp
  | cons c s ih =>
    obtain ⟨hc, hrest⟩ := List.forall_mem_cons.mp hs
    have hhigh : c.toNat ≤ 57 := (Char.isDigit_iff_toNat.mp hc).2
    have hzero : '0'.toNat = 48 := rfl
    have hlt := ih hrest
    rw [Nat.ofDigitChars_cons, Nat.ofDigitChars_eq_ofDigitChars_zero, List.length_cons, Nat.pow_succ]
    have hbound : 10 ^ s.length * (10 * 0 + (c.toNat - '0'.toNat)) ≤ 10 ^ s.length * 9 :=
      Nat.mul_le_mul_left _ (by omega)
    omega

/-- Rows of as many digits are the same if they are the same number. -/
theorem eq_of_ofDigitChars_eq {t : List Char} (hs : ∀ c ∈ s, c.isDigit = true) (ht : ∀ c ∈ t, c.isDigit = true)
    (hlength : s.length = t.length) (hsame : Nat.ofDigitChars 10 s 0 = Nat.ofDigitChars 10 t 0) : s = t := by
  induction s generalizing t with
  | nil => exact (List.length_eq_zero_iff.mp hlength.symm).symm
  | cons c s ih =>
    cases t with
    | nil => cases hlength
    | cons d t =>
      obtain ⟨hc, hrest⟩ := List.forall_mem_cons.mp hs
      obtain ⟨hd, hothers⟩ := List.forall_mem_cons.mp ht
      have hlengths : s.length = t.length := Nat.succ.inj hlength
      have hlow := ofDigitChars_lt hrest
      have hhigh := ofDigitChars_lt hothers
      rw [Nat.ofDigitChars_cons, Nat.ofDigitChars_cons, Nat.ofDigitChars_eq_ofDigitChars_zero,
        Nat.ofDigitChars_eq_ofDigitChars_zero (l := t), hlengths] at hsame
      simp only [hlengths, Nat.mul_zero, Nat.zero_add] at hlow hsame
      have hfirst : c.toNat - '0'.toNat = d.toNat - '0'.toNat := by
        rcases Nat.lt_trichotomy (c.toNat - '0'.toNat) (d.toNat - '0'.toNat) with hlt | heq | hgt
        · have hstep := Nat.mul_le_mul_left (10 ^ t.length) hlt
          rw [Nat.mul_succ] at hstep
          omega
        · exact heq
        · have hstep := Nat.mul_le_mul_left (10 ^ t.length) hgt
          rw [Nat.mul_succ] at hstep
          omega
      rw [hfirst, Nat.add_left_cancel_iff] at hsame
      have hcode : c.toNat = d.toNat := by
        have hclow : 48 ≤ c.toNat := (Char.isDigit_iff_toNat.mp hc).1
        have hdlow : 48 ≤ d.toNat := (Char.isDigit_iff_toNat.mp hd).1
        have hzero : '0'.toNat = 48 := rfl
        omega
      rw [ih hrest hothers hlengths hsame, Char.toNat_inj.mp hcode]

/-- Zeros in front are all that makes a text longer than that of its number. -/
theorem length_decimal_lt {n : Nat} (hn : number 10 s = some n) (hne : s ≠ decimal n) :
    (decimal n).length < s.length := by
  obtain ⟨hnonempty, hs⟩ := digits_of_number hn
  rw [number_ten hnonempty hs, Option.some_inj] at hn
  have hpos := List.length_pos_iff.mpr hnonempty
  have hle : (decimal n).length ≤ s.length := by
    rw [Nat.length_toDigits_le_iff (by decide) hpos, ← hn]
    exact ofDigitChars_lt hs
  refine Nat.lt_of_le_of_ne hle fun hlength => hne ?_
  refine eq_of_ofDigitChars_eq hs (fun c => isDigit_of_mem_decimal) hlength.symm ?_
  rw [hn, Nat.ofDigitChars_ten_toDigits]

end Decimal

end text
