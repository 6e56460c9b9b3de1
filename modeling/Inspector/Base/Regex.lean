import Mathlib.Data.List.Basic
import Mathlib.Tactic.Common

/-! Regular expressions that are rows of character classes, each of which is matched
once or at least once. -/

namespace regex

/-- What a character class is made of. -/
inductive Item where
  | literal (c : Char)
  | digit
  | word
  /-- Any character but a line terminator. -/
  | any
  deriving DecidableEq, Repr

def Item.accepts : Item → Char → Bool
  | literal d, c => c = d
  | digit, c => '0' ≤ c && c ≤ '9'
  | word, c => ('0' ≤ c && c ≤ '9') || ('a' ≤ c && c ≤ 'z') || ('A' ≤ c && c ≤ 'Z') || c = '_'
  | any, c => c ≠ '\n' && c ≠ '\r' && c ≠ '\u0085' && c ≠ '\u2028' && c ≠ '\u2029'

/-- A character class, and the capturing group that it is in. The group 0 is the whole match. -/
structure Piece where
  items : List Item
  plus : Bool
  group : Nat
  deriving DecidableEq, Repr

def Piece.accepts (p : Piece) (c : Char) : Bool := p.items.any fun item => item.accepts c

abbrev Pattern := List Piece

/-- `matcher(s).matches()`. -/
def «matches» : Pattern → List Char → Bool
  | [], [] => true
  | [], _ :: _ => false
  | _ :: _, [] => false
  | p :: ps, c :: s => p.accepts c && («matches» ps s || (p.plus && «matches» (p :: ps) s))

/-- What the pieces match at the beginning of a string. A repeated class takes as many
characters as the rest of the pattern leaves it. -/
def lookingAt : Pattern → List Char → Option (List (List Char))
  | [], _ => some []
  | _ :: _, [] => none
  | p :: ps, c :: s =>
    if p.accepts c then
      match if p.plus then lookingAt (p :: ps) s else none with
      | some (first :: rest) => some ((c :: first) :: rest)
      | _ => (lookingAt ps s).map ([c] :: ·)
    else none

/-- The text of a group. -/
def group (ps : Pattern) (found : List (List Char)) (g : Nat) : List Char :=
  ((ps.zip found).filter fun piece => g = 0 || piece.1.group = g).flatMap Prod.snd

/-- The loop over `find`, for a pattern that matches no empty string. So many characters
belong to the match before. -/
def findAll (ps : Pattern) : List Char → Nat → List (List (List Char))
  | [], _ => []
  | _ :: s, skip + 1 => findAll ps s skip
  | c :: s, 0 =>
    match lookingAt ps (c :: s) with
    | some found => found :: findAll ps s (found.flatten.length - 1)
    | none => findAll ps s 0

/-- The signs of a pattern. -/
inductive Token where
  | items (items : List Item)
  | plus
  | opening
  | closing
  deriving DecidableEq, Repr

def escape (c : Char) : Option Item :=
  if c = 'd' then some .digit
  else if c = 'w' then some .word
  else if c.isAlphanum then none
  else some (.literal c)

/-- Reads a pattern. Within brackets there are the items of the class so far. What other
signs mean is left out. -/
def tokens : List Char → Option (List Item) → Option (List Token)
  | [], none => some []
  | [], some _ => none
  | '\\' :: c :: s, none => do return .items [← escape c] :: (← tokens s none)
  | '\\' :: c :: s, some items => do tokens s (some (items ++ [← escape c]))
  | '[' :: s, none => tokens s (some [])
  | ']' :: s, some items => do return .items items :: (← tokens s none)
  | c :: s, some items =>
    if c = '[' ∨ c = '^' ∨ c = '&' ∨ c = '-' then none else tokens s (some (items ++ [.literal c]))
  | '.' :: s, none => do return .items [.any] :: (← tokens s none)
  | '+' :: s, none => do return .plus :: (← tokens s none)
  | '(' :: s, none => do return .opening :: (← tokens s none)
  | ')' :: s, none => do return .closing :: (← tokens s none)
  | c :: s, none =>
    if c = '*' ∨ c = '?' ∨ c = '{' ∨ c = '|' ∨ c = '^' ∨ c = '$' ∨ c = '\\' then none
    else do return .items [.literal c] :: (← tokens s none)

/-- Puts the signs together. The groups are not nested, and only classes are repeated. -/
def pieces : List Token → Nat → Nat → Option Pattern
  | [], _, _ => some []
  | .items items :: .plus :: rest, group, groups =>
    (pieces rest group groups).map ({ items, plus := true, group } :: ·)
  | .items items :: rest, group, groups => (pieces rest group groups).map ({ items, plus := false, group } :: ·)
  | .opening :: rest, _, groups => pieces rest (groups + 1) (groups + 1)
  | .closing :: rest, _, groups => pieces rest 0 groups
  | .plus :: _, _, _ => none

/-- `Pattern.compile`. -/
def compile (pattern : List Char) : Option Pattern := (tokens pattern none).bind fun tokens => pieces tokens 0 0

/-- What a piece matches. -/
structure Piece.Matches (p : Piece) (w : List Char) : Prop where
  nonempty : w ≠ []
  accepts : ∀ c ∈ w, p.accepts c = true
  once : p.plus = false → w.length = 1

section Matches

variable {p : Piece} {ps qs : Pattern} {s t w : List Char} {c : Char}

theorem matches_nil : «matches» [] s = true ↔ s = [] := by
  cases s <;> simp [«matches»]

/-- A match begins with what the first piece matches. -/
theorem matches_cons : «matches» (p :: ps) s = true ↔ ∃ w t, s = w ++ t ∧ p.Matches w ∧ «matches» ps t = true := by
  induction s with
  | nil =>
    simp only [«matches», Bool.false_eq_true, false_iff, not_exists, not_and]
    intro w t hs hw
    exact absurd (List.append_eq_nil_iff.mp hs.symm).1 hw.nonempty
  | cons c s ih =>
    rw [«matches», Bool.and_eq_true, Bool.or_eq_true, Bool.and_eq_true, ih]
    constructor
    · rintro ⟨hc, hrest | ⟨hplus, w, t, rfl, hw, hrest⟩⟩
      · exact ⟨[c], s, rfl, ⟨by simp, by simpa using hc, fun _ => rfl⟩, hrest⟩
      · refine ⟨c :: w, t, rfl, ⟨by simp, ?_, fun honce => ?_⟩, hrest⟩
        · exact List.forall_mem_cons.mpr ⟨hc, hw.accepts⟩
        · rw [hplus] at honce
          cases honce
    · rintro ⟨w, t, hs, hw, hrest⟩
      cases w with
      | nil => exact absurd rfl hw.nonempty
      | cons d w =>
        rw [List.cons_append, List.cons.injEq] at hs
        obtain ⟨rfl, rfl⟩ := hs
        obtain ⟨hc, hmore⟩ := List.forall_mem_cons.mp hw.accepts
        refine ⟨hc, ?_⟩
        by_cases hempty : w = []
        · subst hempty
          exact .inl hrest
        · refine .inr ⟨?_, w, t, rfl, ⟨hempty, hmore, fun honce => ?_⟩, hrest⟩
          · by_contra honce
            have hlength := hw.once (by simpa using honce)
            simp [hempty] at hlength
          · have hlength := hw.once honce
            simp [hempty] at hlength

theorem matches_append : «matches» (ps ++ qs) s = true ↔
    ∃ w t, s = w ++ t ∧ «matches» ps w = true ∧ «matches» qs t = true := by
  induction ps generalizing s with
  | nil => simp [matches_nil]
  | cons p ps ih =>
    rw [List.cons_append, matches_cons]
    constructor
    · rintro ⟨w, t, rfl, hw, hrest⟩
      obtain ⟨middle, last, rfl, hmiddle, hlast⟩ := ih.mp hrest
      exact ⟨w ++ middle, last, (List.append_assoc ..).symm, matches_cons.mpr ⟨w, middle, rfl, hw, hmiddle⟩, hlast⟩
    · rintro ⟨first, last, rfl, hfirst, hlast⟩
      obtain ⟨w, middle, rfl, hw, hmiddle⟩ := matches_cons.mp hfirst
      exact ⟨w, middle ++ last, List.append_assoc .., hw, ih.mpr ⟨middle, last, rfl, hmiddle, hlast⟩⟩

/-- One piece that is matched once. -/
theorem matches_once (honce : p.plus = false) : «matches» [p] s = true ↔ ∃ c, s = [c] ∧ p.accepts c = true := by
  rw [matches_cons]
  constructor
  · rintro ⟨w, t, rfl, hw, ht⟩
    rw [matches_nil.mp ht, List.append_nil]
    obtain ⟨c, rfl⟩ := List.length_eq_one_iff.mp (hw.once honce)
    exact ⟨c, rfl, hw.accepts c (by simp)⟩
  · rintro ⟨c, rfl, hc⟩
    exact ⟨[c], [], rfl, ⟨by simp, by simpa using hc, fun _ => rfl⟩, matches_nil.mpr rfl⟩

theorem matches_plus (hplus : p.plus = true) : «matches» [p] s = true ↔ s ≠ [] ∧ ∀ c ∈ s, p.accepts c = true := by
  rw [matches_cons]
  constructor
  · rintro ⟨w, t, rfl, hw, ht⟩
    rw [matches_nil.mp ht, List.append_nil]
    exact ⟨hw.nonempty, hw.accepts⟩
  · rintro ⟨hnonempty, haccepts⟩
    refine ⟨s, [], (List.append_nil s).symm, ⟨hnonempty, haccepts, fun honce => ?_⟩, matches_nil.mpr rfl⟩
    rw [hplus] at honce
    cases honce

/-- A character that stands for itself. -/
def literal (c : Char) : Piece := { items := [.literal c], plus := false, group := 0 }

/-- A row of characters that stand for themselves matches itself. -/
theorem matches_literals : «matches» (w.map literal) s = true ↔ s = w := by
  induction w generalizing s with
  | nil => simp [matches_nil]
  | cons c w ih =>
    rw [List.map_cons, ← List.singleton_append, matches_append]
    simp only [matches_once (show (literal c).plus = false from rfl), ih]
    constructor
    · rintro ⟨first, last, rfl, ⟨d, rfl, hd⟩, rfl⟩
      simpa [literal, Piece.accepts, Item.accepts] using hd
    · rintro rfl
      exact ⟨[c], w, rfl, ⟨c, rfl, by simp [literal, Piece.accepts, Item.accepts]⟩, rfl⟩

/-- What `lookingAt` finds are matches of the pieces at the beginning of the string. -/
theorem lookingAt_matches {found : List (List Char)} (hfound : lookingAt ps s = some found) :
    List.Forall₂ Piece.Matches ps found ∧ found.flatten <+: s := by
  fun_induction lookingAt ps s generalizing found with
  | case1 s =>
    cases hfound
    exact ⟨.nil, List.nil_prefix⟩
  | case2 => cases hfound
  | case3 p ps c s hc first rest hmore ihmore =>
    split at hmore
    · rename_i hplus
      cases hfound
      obtain ⟨hmatches, hbegin⟩ := ihmore hmore
      cases hmatches with
      | cons hfirst hrest =>
        refine ⟨.cons ⟨by simp, ?_, fun honce => ?_⟩ hrest, ?_⟩
        · exact List.forall_mem_cons.mpr ⟨hc, hfirst.accepts⟩
        · rw [hplus] at honce
          cases honce
        · exact (List.prefix_cons_inj c).mpr hbegin
    · cases hmore
  | case4 p ps c s hc hmore ihmore ihrest =>
    obtain ⟨others, hothers, rfl⟩ := Option.map_eq_some_iff.mp hfound
    obtain ⟨hmatches, hbegin⟩ := ihrest hothers
    refine ⟨.cons ⟨by simp, by simpa using hc, fun _ => rfl⟩ hmatches, ?_⟩
    exact (List.prefix_cons_inj c).mpr hbegin
  | case5 => cases hfound

theorem findAll_matches {skip : Nat} {found : List (List Char)} (hfound : found ∈ findAll ps s skip) :
    List.Forall₂ Piece.Matches ps found := by
  fun_induction findAll ps s skip with
  | case1 => cases hfound
  | case2 c s skip ih => exact ih hfound
  | case3 c s first hfirst ih =>
    rcases List.mem_cons.mp hfound with rfl | hrest
    · exact (lookingAt_matches hfirst).1
    · exact ih hrest
  | case4 c s hnone ih => exact ih hfound

end Matches

/-! What a pattern is compiled to. -/
section Compile

/-- The signs of a piece. -/
def Piece.signs (p : Piece) : List Token := .items p.items :: if p.plus then [.plus] else []

/-- A string that is read as some pieces wherever it stands. -/
def Reads (s : List Char) (ps : Pattern) : Prop :=
  ∀ rest, tokens (s ++ rest) none = (tokens rest none).map (ps.flatMap Piece.signs ++ ·)

variable {s t : List Char} {ps qs : Pattern}

theorem Reads.nil : Reads [] [] := fun rest => by simp

theorem Reads.append (hs : Reads s ps) (ht : Reads t qs) : Reads (s ++ t) (ps ++ qs) := by
  intro rest
  rw [List.append_assoc, hs, ht, Option.map_map, List.flatMap_append]
  congr 1
  funext signs
  exact (List.append_assoc ..).symm

/-- A character that has no other meaning. -/
def isPlain (c : Char) : Bool := c.isAlphanum || c = ':'

theorem Reads.literal {c : Char} (hc : isPlain c = true) : Reads [c] [literal c] := by
  have hspecial :
      ['\\', '[', '.', '+', '(', ')', '*', '?', '{', '|', '^', '$'].all (fun special => !isPlain special) = true := by
    decide
  have hnot : ∀ special ∈ ['\\', '[', '.', '+', '(', ')', '*', '?', '{', '|', '^', '$'], c ≠ special := by
    intro special hmem hsame
    have hplain := List.all_eq_true.mp hspecial special hmem
    rw [← hsame, hc] at hplain
    cases hplain
  have htokens : ∀ rest, tokens (c :: rest) none = (tokens rest none).map (.items [.literal c] :: ·) := by
    intro rest
    rw [tokens, if_neg (by simp_all)]
    · cases tokens rest none <;> rfl
    all_goals simp_all
  intro rest
  rw [List.singleton_append, htokens]
  rfl

/-- A row of such characters. -/
theorem Reads.literals (hs : ∀ c ∈ s, isPlain c = true) : Reads s (s.map regex.literal) := by
  induction s with
  | nil => exact Reads.nil
  | cons c s ih =>
    obtain ⟨hc, hrest⟩ := List.forall_mem_cons.mp hs
    exact (Reads.literal hc).append (ih hrest)

theorem signs_not_plus (ps : Pattern) : ∀ rest, ps.flatMap Piece.signs ≠ .plus :: rest := by
  intro rest
  cases ps with
  | nil => simp
  | cons p ps => simp [Piece.signs]

theorem pieces_signs (hgroups : ∀ p ∈ ps, p.group = 0) : pieces (ps.flatMap Piece.signs) 0 0 = some ps := by
  induction ps with
  | nil => rfl
  | cons p ps ih =>
    obtain ⟨hp, hrest⟩ := List.forall_mem_cons.mp hgroups
    obtain ⟨items, plus, group⟩ := p
    obtain rfl : group = 0 := hp
    cases plus with
    | true => simp [Piece.signs, pieces, ih hrest]
    | false =>
      have hsigns : ({ items, plus := false, group := 0 } : Piece).signs = [.items items] := rfl
      rw [List.flatMap_cons, hsigns, List.singleton_append, pieces, ih hrest]
      · rfl
      · exact signs_not_plus ps

theorem Reads.compile (hs : Reads s ps) (hgroups : ∀ p ∈ ps, p.group = 0) : compile s = some ps := by
  have htokens := hs []
  rw [List.append_nil] at htokens
  unfold regex.compile
  rw [htokens]
  simpa [tokens] using pieces_signs hgroups

end Compile

end regex
