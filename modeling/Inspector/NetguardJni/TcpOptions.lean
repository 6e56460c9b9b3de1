import Mathlib.Algebra.Order.Ring.Int
import Mathlib.Logic.Relation
import Mathlib.Tactic.Common

open Relation

namespace inspector.netguard.jni

/-- What the options of a SYN tell: the maximum segment size and the window scale. -/
structure TcpOptions where
  mss : BitVec 16
  ws : UInt8
  deriving DecidableEq, Repr

/-- The bytes from `tcpoptions` on. The loop may read behind the options, and what lies
there is left open. -/
abbrev OptionBytes := Nat → UInt8

namespace TcpOptions

variable (options : OptionBytes)

/-- What an option changes. -/
def apply (i : Nat) (o : TcpOptions) : TcpOptions :=
  if options i = 2 ∧ options (i + 1) = 4 then
    { o with mss := (options (i + 2)).toBitVec.setWidth 16 <<< 8 ||| (options (i + 3)).toBitVec.setWidth 16 }
  else if options i = 3 ∧ options (i + 1) = 3 then { o with ws := options (i + 2) }
  else o

/-- How far the loop goes on: one byte behind a no-operation, and else by the length that
the option gives. -/
def advance (i : Nat) : Nat := if options i = 1 then 1 else (options (i + 1)).toNat

/-- The loop of `handle_tcp` over the options. It may not end, so the number of passes is
limited here. -/
def loop : Nat → Int → Nat → TcpOptions → Option TcpOptions
  | 0, _, _, _ => none
  | passes + 1, optlen, i, o =>
    if optlen ≤ 0 then some o
    else if options i = 0 then some o
    else loop passes (optlen - advance options i) (i + advance options i) (apply options i o)

/-- The loop goes on from an offset to the next one. -/
def Pass (total i j : Nat) : Prop := i < total ∧ options i ≠ 0 ∧ j = i + advance options i

variable {options} {total i passes : Nat} {o : TcpOptions}

theorem loop_of_end (hend : total ≤ i ∨ options i = 0) : loop options (passes + 1) (total - i) i o = some o := by
  rw [loop]
  by_cases hle : (total : Int) - i ≤ 0
  · rw [if_pos hle]
  · rw [if_neg hle, if_pos (hend.resolve_left (by omega))]

theorem loop_of_pass (hlt : i < total) (hkind : options i ≠ 0) :
    loop options (passes + 1) (total - i) i o =
      loop options passes (total - (i + advance options i : Nat)) (i + advance options i) (apply options i o) := by
  rw [loop, if_neg (by omega), if_neg hkind]
  congr 1
  push_cast
  omega

/-- An option that gives its length as zero holds the loop. -/
theorem loop_of_stuck (hlt : i < total) (hkind : options i ≠ 0) (hstuck : advance options i = 0) :
    loop options passes (total - i) i o = none := by
  induction passes generalizing o with
  | zero => rfl
  | succ passes ih => rw [loop_of_pass hlt hkind, hstuck, Nat.add_zero, ih]

/-- The loop over the options ends exactly when it comes to no option that gives its
length as zero. -/
theorem loop_ends_iff (options : OptionBytes) (total i : Nat) (o : TcpOptions) :
    (∃ passes last, loop options passes (total - i) i o = some last) ↔
      ∀ j, ReflTransGen (Pass options total) i j → j < total → options j ≠ 0 → advance options j ≠ 0 := by
  induction hrest : total - i using Nat.strong_induction_on generalizing i o with
  | _ rest ih =>
    by_cases hend : total ≤ i ∨ options i = 0
    · refine iff_of_true ⟨1, o, loop_of_end hend⟩ fun j hreach hlt hkind => ?_
      rcases hreach.cases_head with rfl | ⟨next, ⟨hnext, hnextKind, -⟩, -⟩
      · exact absurd hkind (by simpa using hend.resolve_left (by omega))
      · exact absurd hnextKind (by simpa using hend.resolve_left (by omega))
    · obtain ⟨hlt, hkind⟩ := not_or.mp hend
      rw [Nat.not_le] at hlt
      by_cases hstuck : advance options i = 0
      · refine iff_of_false ?_ fun hall => hall i .refl hlt hkind hstuck
        rintro ⟨passes, last, hloop⟩
        rw [loop_of_stuck hlt hkind hstuck] at hloop
        cases hloop
      · have hnext := ih (total - (i + advance options i)) (by omega) (i + advance options i) (apply options i o) rfl
        constructor
        · rintro ⟨passes, last, hloop⟩ j hreach hj hjkind
          cases passes with
          | zero => cases hloop
          | succ passes =>
            rw [loop_of_pass hlt hkind] at hloop
            rcases hreach.cases_head with rfl | ⟨next, ⟨-, -, rfl⟩, hafter⟩
            · exact hstuck
            · exact hnext.mp ⟨passes, last, hloop⟩ j hafter hj hjkind
        · intro hall
          obtain ⟨passes, last, hloop⟩ :=
            hnext.mpr fun j hreach hj hjkind => hall j (hreach.head ⟨hlt, hkind, rfl⟩) hj hjkind
          exact ⟨passes + 1, last, by rw [loop_of_pass hlt hkind, hloop]⟩

end TcpOptions

/-- The options of a SYN as its sender means them. -/
inductive TcpOption where
  | noOperation
  | maximumSegmentSize (mss : BitVec 16)
  | windowScale (ws : UInt8)
  | other (kind : UInt8) (body : List UInt8) (hkind : 3 < kind.toNat) (hbody : body.length ≤ 253)

namespace TcpOption

def encode : TcpOption → List UInt8
  | noOperation => [1]
  | maximumSegmentSize mss => [2, 4, ⟨mss.extractLsb' 8 8⟩, ⟨mss.extractLsb' 0 8⟩]
  | windowScale ws => [3, 3, ws]
  | other kind body _ _ => kind :: UInt8.ofNat (body.length + 2) :: body

/-- What the option tells. -/
def tell (o : TcpOptions) : TcpOption → TcpOptions
  | maximumSegmentSize mss => { o with mss }
  | windowScale ws => { o with ws }
  | _ => o

end TcpOption

namespace TcpOptions

/-- These bytes lie from an offset on. -/
def Lies (options : OptionBytes) (i : Nat) (bytes : List UInt8) : Prop :=
  ∀ k b, bytes[k]? = some b → options (i + k) = b

variable {options : OptionBytes} {total i : Nat} {o : TcpOptions}

theorem Lies.append {first rest : List UInt8} (hlies : Lies options i (first ++ rest)) :
    Lies options i first ∧ Lies options (i + first.length) rest := by
  constructor
  · intro k b hb
    have hk := (List.getElem?_eq_some_iff.mp hb).1
    exact hlies k b (by rwa [List.getElem?_append_left hk])
  · intro k b hb
    rw [Nat.add_assoc]
    refine hlies (first.length + k) b ?_
    rwa [List.getElem?_append_right (Nat.le_add_right _ _), Nat.add_sub_cancel_left]

theorem Lies.head {b : UInt8} {rest : List UInt8} (hlies : Lies options i (b :: rest)) : options i = b := hlies 0 b rfl

theorem mss_bytes (mss : BitVec 16) :
    (mss.extractLsb' 8 8).setWidth 16 <<< 8 ||| (mss.extractLsb' 0 8).setWidth 16 = mss := by
  ext k hk
  simp only [BitVec.getElem_or, BitVec.getElem_shiftLeft, BitVec.getElem_setWidth, BitVec.getLsbD_extractLsb']
  by_cases hlow : k < 8
  · simp [hlow, BitVec.getLsbD_eq_getElem hk]
  · have hadd : 8 + (k - 8) = k := by omega
    simp [hlow, hadd, BitVec.getLsbD_eq_getElem hk, show k - 8 < 8 by omega]

/-- A pass over one option. -/
theorem pass_of_option {option : TcpOption} (hlies : Lies options i option.encode) :
    options i ≠ 0 ∧ advance options i = option.encode.length ∧ apply options i o = option.tell o := by
  cases option with
  | noOperation =>
    have hkind : options i = 1 := hlies 0 1 rfl
    exact ⟨by simp [hkind], by simp [advance, hkind, TcpOption.encode], by simp [apply, hkind, TcpOption.tell]⟩
  | maximumSegmentSize mss =>
    have hkind : options i = 2 := hlies 0 2 rfl
    have hlength : options (i + 1) = 4 := hlies 1 4 rfl
    have hhigh := hlies 2 _ rfl
    have hlow := hlies 3 _ rfl
    refine ⟨by simp [hkind], by simp [advance, hkind, hlength, TcpOption.encode], ?_⟩
    rw [apply, if_pos ⟨hkind, hlength⟩, hhigh, hlow]
    exact congrArg (fun v => { o with mss := v }) (mss_bytes mss)
  | windowScale ws =>
    have hkind : options i = 3 := hlies 0 3 rfl
    have hlength : options (i + 1) = 3 := hlies 1 3 rfl
    have hscale : options (i + 2) = ws := hlies 2 ws rfl
    refine ⟨by simp [hkind], by simp [advance, hkind, hlength, TcpOption.encode], ?_⟩
    rw [apply, if_neg (by simp [hkind]), if_pos ⟨hkind, hlength⟩, hscale]
    rfl
  | other kind body hbig hbody =>
    have hkind : options i = kind := hlies 0 kind rfl
    have hlength : options (i + 1) = UInt8.ofNat (body.length + 2) := hlies 1 _ rfl
    have hne (small : UInt8) (hsmall : small.toNat ≤ 3) : options i ≠ small := by
      rw [hkind]
      rintro rfl
      omega
    have hcount : (UInt8.ofNat (body.length + 2)).toNat = body.length + 2 :=
      UInt8.toNat_ofNat_of_lt' (Nat.lt_of_le_of_lt (Nat.add_le_add_right hbody 2) (by decide))
    refine ⟨hne 0 (by decide), ?_, ?_⟩
    · rw [advance, if_neg (hne 1 (by decide)), hlength, hcount]
      rfl
    · rw [apply, if_neg fun h => hne 2 (by decide) h.1, if_neg fun h => hne 3 (by decide) h.1]
      rfl

/-- Options in a row, with nothing or an end of the list behind them, are read in full. -/
theorem loop_of_options {sent : List TcpOption} {padding : List UInt8}
    (hpadding : padding = [] ∨ padding.head? = some 0)
    (hlies : Lies options i (sent.flatMap TcpOption.encode ++ padding))
    (htotal : total = i + (sent.flatMap TcpOption.encode ++ padding).length) :
    loop options (sent.length + 1) (total - i) i o = some (sent.foldl TcpOption.tell o) := by
  induction sent generalizing i o with
  | nil =>
    refine loop_of_end ?_
    rcases hpadding with rfl | hzero
    · exact .inl (by simpa using htotal.le)
    · exact .inr (hlies 0 0 (by simpa [List.head?_eq_getElem?] using hzero))
  | cons option sent ih =>
    rw [List.flatMap_cons, List.append_assoc] at hlies htotal
    obtain ⟨hfirst, hrest⟩ := hlies.append
    obtain ⟨hkind, hadvance, happly⟩ := pass_of_option (o := o) hfirst
    have hpositive : 0 < option.encode.length := by cases option <;> simp [TcpOption.encode]
    rw [List.length_append] at htotal
    rw [List.length_cons, loop_of_pass (by omega) hkind, hadvance, happly]
    exact ih hrest (by omega)

/-- The options of a usual SYN. -/
def usualOptions : List TcpOption := [.maximumSegmentSize 1460, .noOperation, .windowScale 7]

theorem usualOptions_read :
    loop (fun k => (usualOptions.flatMap TcpOption.encode ++ [0]).getD k 0) 4 ((9 : Nat) - (0 : Nat)) 0
        { mss := 9960, ws := 0 } =
      some { mss := 1460, ws := 7 } := by
  have hlies : Lies (fun k => (usualOptions.flatMap TcpOption.encode ++ [0]).getD k 0) 0
      (usualOptions.flatMap TcpOption.encode ++ [0]) := by
    intro k b hb
    change List.getD _ (0 + k) 0 = b
    rw [Nat.zero_add, List.getD_eq_getElem?_getD, hb]
    rfl
  exact loop_of_options (.inr rfl) hlies rfl

end TcpOptions

end inspector.netguard.jni
