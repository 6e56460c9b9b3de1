import Mathlib.Algebra.Order.Ring.Nat
import Mathlib.Data.List.Chain
import Mathlib.Data.List.Pairwise
import Mathlib.Tactic.Common

/-! The gaps that a sweep finds between ranges of positions, which are sorted by a position
inside each of them. Ranges may be nested or overlap. -/

namespace sweep

variable {α : Type}

/-- The ranges of some elements below `n`, with the position by which they are sorted. -/
structure Ranges (α : Type) where
  first : α → Nat
  key : α → Nat
  last : α → Nat
  n : Nat

namespace Ranges

variable (r : Ranges α)

/-- The gap before each element, from a cursor up to the position before the element.
After the element the cursor is behind its last position. Positions wrap around. -/
def gaps : Nat → List α → List (Nat × Nat)
  | _, [] => []
  | cursor, e :: rest => (cursor, (r.first e + (r.n - 1)) % r.n) :: gaps ((r.last e + 1) % r.n) rest

/-- Whether a position is in the range of one of the elements. -/
def Covered (es : List α) (a : Nat) : Prop := ∃ e ∈ es, r.first e ≤ a ∧ a ≤ r.last e

instance decidableCovered (es : List α) (a : Nat) : Decidable (r.Covered es a) :=
  inferInstanceAs (Decidable (∃ e ∈ es, r.first e ≤ a ∧ a ≤ r.last e))

/-- The elements are in the order of their positions. -/
structure Sorted (es : List α) : Prop where
  first_le : ∀ e ∈ es, r.first e ≤ r.key e
  key_le : ∀ e ∈ es, r.key e ≤ r.last e
  last_lt : ∀ e ∈ es, r.last e < r.n
  sorted : es.Pairwise fun e next => r.key e ≤ r.key next

/-- Where there is room between an element and the next one, another element covers
neither end of it. The room before the first element begins at 0, no other begins there
and nothing comes behind the last position. -/
structure Clear (es : List α) : Prop where
  first_pos : ∀ e ∈ es, 0 < r.first e
  before : ∀ e ∈ es.head?, ¬ r.Covered es (r.first e - 1)
  between : es.IsChain fun e next => r.last e + 1 ≠ r.n ∧
    (r.last e + 1 < r.first next → ¬ r.Covered es (r.last e + 1) ∧ ¬ r.Covered es (r.first next - 1))

variable {r} {es : List α} {e : α} {g : Nat × Nat} {a cursor : Nat}

theorem Sorted.tail {rest : List α} (hsorted : r.Sorted (e :: rest)) : r.Sorted rest where
  first_le := fun x hx => hsorted.first_le x (List.mem_cons_of_mem e hx)
  key_le := fun x hx => hsorted.key_le x (List.mem_cons_of_mem e hx)
  last_lt := fun x hx => hsorted.last_lt x (List.mem_cons_of_mem e hx)
  sorted := hsorted.sorted.tail

theorem Sorted.key_le_key {rest : List α} (hsorted : r.Sorted (e :: rest)) {x : α} (hx : x ∈ e :: rest) :
    r.key e ≤ r.key x := by
  rcases List.mem_cons.mp hx with rfl | hrest
  · exact Nat.le_refl _
  · exact List.rel_of_pairwise_cons hsorted.sorted hrest

/-- The position before an element that does not begin at 0. -/
theorem before_eq (hfirst : 0 < r.first e) (hlt : r.first e < r.n) :
    (r.first e + (r.n - 1)) % r.n = r.first e - 1 := by
  rw [show r.first e + (r.n - 1) = r.first e - 1 + r.n by omega, Nat.add_mod_right, Nat.mod_eq_of_lt (by omega)]

/-- A position that no element covers, and that comes before some element, is in a gap. -/
theorem exists_gap (hsorted : r.Sorted es) (hcursor : cursor ≤ a) (hnot : ¬ r.Covered es a)
    (hbefore : ∃ e ∈ es, a < r.first e) : ∃ g ∈ r.gaps cursor es, g.1 ≤ a ∧ a ≤ g.2 := by
  induction es generalizing cursor with
  | nil =>
    obtain ⟨e, he, -⟩ := hbefore
    cases he
  | cons e rest ih =>
    have hfirst := hsorted.first_le e List.mem_cons_self
    have hkey := hsorted.key_le e List.mem_cons_self
    have hlast := hsorted.last_lt e List.mem_cons_self
    by_cases ha : a < r.first e
    · refine ⟨_, List.mem_cons_self, hcursor, ?_⟩
      rw [before_eq (by omega) (by omega)]
      omega
    · have hbehind : r.last e < a := by
        by_contra hin
        exact hnot ⟨e, List.mem_cons_self, by omega, by omega⟩
      obtain ⟨x, hx, hax⟩ := hbefore
      have hrest : x ∈ rest := by
        rcases List.mem_cons.mp hx with rfl | hrest
        · exact absurd hax ha
        · exact hrest
      have hlt : a < r.n := by
        have h1 := hsorted.first_le x hx
        have h2 := hsorted.key_le x hx
        have h3 := hsorted.last_lt x hx
        omega
      have hnext : (r.last e + 1) % r.n ≤ a := by
        rw [Nat.mod_eq_of_lt (by omega)]
        exact hbehind
      have hnot' : ¬ r.Covered rest a := by
        rintro ⟨y, hy, hay⟩
        exact hnot ⟨y, List.mem_cons_of_mem e hy, hay⟩
      obtain ⟨g, hg, hag⟩ := ih hsorted.tail hnext hnot' ⟨x, hrest, hax⟩
      exact ⟨g, List.mem_cons_of_mem _ hg, hag⟩

/-- Every element has a gap before it. -/
theorem exists_gap_before (cursor : Nat) (hcursor : cursor < r.n) (he : e ∈ es) :
    ∃ c, c < r.n ∧ (c, (r.first e + (r.n - 1)) % r.n) ∈ r.gaps cursor es := by
  induction es generalizing cursor with
  | nil => cases he
  | cons x rest ih =>
    rcases List.mem_cons.mp he with rfl | hrest
    · exact ⟨cursor, hcursor, List.mem_cons_self⟩
    · obtain ⟨c, hc, hmem⟩ := ih _ (Nat.mod_lt (r.last x + 1) (Nat.zero_lt_of_lt hcursor)) hrest
      exact ⟨c, hc, List.mem_cons_of_mem _ hmem⟩

/-- An element that covers a position before one of the elements that come no later than
itself covers all positions between. -/
theorem covered_before {all : List α} {next x : α} (hall : r.Sorted all) (hx : x ∈ all) (hkey : r.key next ≤ r.key x)
    (hnext : r.first next ≤ r.key next) (ha : a < r.first next) (hin : r.first x ≤ a) :
    r.Covered all (r.first next - 1) := by
  have hlast := hall.key_le x hx
  exact ⟨x, hx, by omega, by omega⟩

theorem covered_behind {all : List α} {x : α} (hall : r.Sorted all) (hx : x ∈ all) (hkey : r.key x ≤ r.key e)
    (he : r.key e ≤ r.last e) (ha : r.last e < a) (hin : a ≤ r.last x) : r.Covered all (r.last e + 1) := by
  have hfirst := hall.first_le x hx
  exact ⟨x, hx, by omega, by omega⟩

/-- What comes behind an element when there is clear room after it. -/
structure Behind (r : Ranges α) (all : List α) (e : α) (rest : List α) : Prop where
  sorted : r.Sorted (e :: rest)
  split : ∀ x ∈ all, r.key x ≤ r.key e ∨ x ∈ rest
  first_pos : ∀ x ∈ rest, 0 < r.first x
  between : (e :: rest).IsChain fun e next => r.last e + 1 ≠ r.n ∧
    (r.last e + 1 < r.first next → ¬ r.Covered all (r.last e + 1) ∧ ¬ r.Covered all (r.first next - 1))

namespace Behind

variable {all rest : List α} {next : α}

theorem step (h : Behind r all e (next :: rest)) : Behind r all next rest where
  sorted := h.sorted.tail
  split := by
    intro x hx
    rcases h.split x hx with hkey | hmem
    · exact Or.inl (Nat.le_trans hkey (h.sorted.key_le_key (List.mem_cons_of_mem e List.mem_cons_self)))
    · rcases List.mem_cons.mp hmem with rfl | hrest
      · exact Or.inl (Nat.le_refl _)
      · exact Or.inr hrest
  first_pos := fun x hx => h.first_pos x (List.mem_cons_of_mem next hx)
  between := h.between.tail

theorem cursor_eq (h : Behind r all e (next :: rest)) : (r.last e + 1) % r.n = r.last e + 1 := by
  have hlast := h.sorted.last_lt e List.mem_cons_self
  have hne := (List.isChain_cons_cons.mp h.between).1.1
  exact Nat.mod_eq_of_lt (by omega)

theorem before_eq (h : Behind r all e (next :: rest)) : (r.first next + (r.n - 1)) % r.n = r.first next - 1 := by
  have hmem : next ∈ e :: next :: rest := List.mem_cons_of_mem e List.mem_cons_self
  have h1 := h.sorted.first_le next hmem
  have h2 := h.sorted.key_le next hmem
  have h3 := h.sorted.last_lt next hmem
  exact Ranges.before_eq (h.first_pos next List.mem_cons_self) (by omega)

/-- The gaps behind an element come behind its position. -/
theorem key_lt (h : Behind r all e rest) (hg : g ∈ r.gaps ((r.last e + 1) % r.n) rest) : r.key e < g.1 := by
  induction rest generalizing e with
  | nil => cases hg
  | cons next rest ih =>
    rcases List.mem_cons.mp hg with rfl | hrest
    · have hkey := h.sorted.key_le e List.mem_cons_self
      change _ < (r.last e + 1) % r.n
      rw [h.cursor_eq]
      omega
    · exact Nat.lt_of_le_of_lt (h.sorted.key_le_key (List.mem_cons_of_mem e List.mem_cons_self)) (ih h.step hrest)

/-- No element covers a position of a gap. -/
theorem not_covered (hall : r.Sorted all) (h : Behind r all e rest) (hg : g ∈ r.gaps ((r.last e + 1) % r.n) rest)
    (hfrom : g.1 ≤ a) (hto : a ≤ g.2) : ¬ r.Covered all a := by
  induction rest generalizing e with
  | nil => cases hg
  | cons next rest ih =>
    rcases List.mem_cons.mp hg with rfl | hrest
    · have hmem : next ∈ e :: next :: rest := List.mem_cons_of_mem e List.mem_cons_self
      have hpos := h.first_pos next List.mem_cons_self
      dsimp only at hfrom hto
      rw [h.cursor_eq] at hfrom
      rw [h.before_eq] at hto
      obtain ⟨hbehind, hbefore⟩ := (List.isChain_cons_cons.mp h.between).1.2 (by omega)
      rintro ⟨x, hx, hin, hout⟩
      rcases h.split x hx with hkey | hlater
      · exact hbehind (covered_behind hall hx hkey (h.sorted.key_le e List.mem_cons_self) (by omega) hout)
      · have hkey := h.sorted.tail.key_le_key hlater
        exact hbefore (covered_before hall hx hkey (h.sorted.first_le next hmem) (by omega) hin)
    · exact ih h.step hrest

/-- The gaps behind an element are disjoint. -/
theorem pairwise (h : Behind r all e rest) :
    (r.gaps ((r.last e + 1) % r.n) rest).Pairwise fun g g' => g.2 < g'.1 := by
  induction rest generalizing e with
  | nil => exact List.Pairwise.nil
  | cons next rest ih =>
    refine List.Pairwise.cons (fun g hg => ?_) (ih h.step)
    have hkey := h.step.key_lt hg
    have hfirst := h.sorted.first_le next (List.mem_cons_of_mem e List.mem_cons_self)
    rw [h.before_eq]
    omega

end Behind

section Clear

variable (hsorted : r.Sorted es)

include hsorted

theorem Clear.behind {rest : List α} (hes : es = e :: rest) (hclear : r.Clear es) : Behind r es e rest where
  sorted := hes ▸ hsorted
  split := by
    intro x hx
    rw [hes] at hx
    rcases List.mem_cons.mp hx with rfl | hrest
    · exact Or.inl (Nat.le_refl _)
    · exact Or.inr hrest
  first_pos := fun x hx => hclear.first_pos x (hes ▸ List.mem_cons_of_mem e hx)
  between := hes ▸ hclear.between

/-- With clear room, no position in a gap is covered. -/
theorem Clear.not_covered (hclear : r.Clear es) (hg : g ∈ r.gaps 0 es) (hfrom : g.1 ≤ a) (hto : a ≤ g.2) :
    ¬ r.Covered es a := by
  cases es with
  | nil => cases hg
  | cons e rest =>
    have he : e ∈ e :: rest := List.mem_cons_self
    have hfirst := hsorted.first_le e he
    have hpos := hclear.first_pos e he
    rcases List.mem_cons.mp hg with rfl | hrest
    · have hkey := hsorted.key_le e he
      have hlast := hsorted.last_lt e he
      dsimp only at hto
      rw [before_eq hpos (by omega)] at hto
      rintro ⟨x, hx, hin, -⟩
      exact hclear.before e rfl (covered_before hsorted hx (hsorted.key_le_key hx) hfirst (by omega) hin)
    · exact (hclear.behind hsorted rfl).not_covered hsorted hrest hfrom hto

/-- With clear room, the gaps are disjoint. -/
theorem Clear.pairwise (hclear : r.Clear es) : (r.gaps 0 es).Pairwise fun g g' => g.2 < g'.1 := by
  cases es with
  | nil => exact List.Pairwise.nil
  | cons e rest =>
    have he : e ∈ e :: rest := List.mem_cons_self
    refine List.Pairwise.cons (fun g hg => ?_) (hclear.behind hsorted rfl).pairwise
    have hkey := (hclear.behind hsorted rfl).key_lt hg
    have hfirst := hsorted.first_le e he
    have hpos := hclear.first_pos e he
    have hlast := hsorted.last_lt e he
    have hle := hsorted.key_le e he
    rw [before_eq hpos (by omega)]
    omega

end Clear

/-- Between two elements there is clear room, if no position in the gap between them is
covered. After an element that ends at the last position the gap would begin at 0. -/
theorem chain_of_not_covered {all rest : List α} {half low : Nat} (hlow : r.Covered all low) (hlt : low < half)
    (hsorted : r.Sorted (e :: rest)) (hhalf : ∀ x ∈ e :: rest, half ≤ r.last x → half ≤ r.first x)
    (hpos : ∀ x ∈ rest, 0 < r.first x) (hn : half < r.n)
    (hsound : ∀ g ∈ r.gaps ((r.last e + 1) % r.n) rest, ∀ a, g.1 ≤ a → a ≤ g.2 → ¬ r.Covered all a) :
    (e :: rest).IsChain fun e next => r.last e + 1 ≠ r.n ∧
      (r.last e + 1 < r.first next → ¬ r.Covered all (r.last e + 1) ∧ ¬ r.Covered all (r.first next - 1)) := by
  induction rest generalizing e with
  | nil => exact List.isChain_singleton e
  | cons next rest ih =>
    have he : e ∈ e :: next :: rest := List.mem_cons_self
    have hnext : next ∈ e :: next :: rest := List.mem_cons_of_mem e List.mem_cons_self
    have h1 := hsorted.first_le next hnext
    have h2 := hsorted.key_le next hnext
    have h3 := hsorted.last_lt next hnext
    have hgap := hsound _ List.mem_cons_self
    dsimp only at hgap
    rw [before_eq (hpos next List.mem_cons_self) (by omega)] at hgap
    have hwrap : r.last e + 1 ≠ r.n := by
      intro hend
      have hfirst := hhalf e he (by omega)
      have hkey := hsorted.key_le_key hnext
      have hle := hsorted.first_le e he
      have habove := hhalf next hnext (by omega)
      rw [hend, Nat.mod_self] at hgap
      exact hgap low (Nat.zero_le _) (by omega) hlow
    have hlast := hsorted.last_lt e he
    rw [Nat.mod_eq_of_lt (by omega)] at hgap
    refine List.isChain_cons_cons.mpr ⟨⟨hwrap, fun hroom => ⟨?_, ?_⟩⟩, ?_⟩
    · exact hgap _ (Nat.le_refl _) (by omega)
    · exact hgap _ (by omega) (Nat.le_refl _)
    · refine ih hsorted.tail (fun x hx => hhalf x (List.mem_cons_of_mem e hx))
        (fun x hx => hpos x (List.mem_cons_of_mem next hx)) ?_
      exact fun g hg => hsound g (List.mem_cons_of_mem _ hg)

/-- Without a covered position in the gaps there is clear room, if the last position is
covered, and if no element crosses a half below which another position is covered. -/
theorem clear_of_not_covered (half : Nat) {low : Nat} (hsorted : r.Sorted es) (htop : r.Covered es (r.n - 1))
    (hlow : r.Covered es low) (hlt : low < half) (hn : half < r.n)
    (hhalf : ∀ e ∈ es, half ≤ r.last e → half ≤ r.first e)
    (hsound : ∀ g ∈ r.gaps 0 es, ∀ a, g.1 ≤ a → a ≤ g.2 → ¬ r.Covered es a) : r.Clear es := by
  have hpos : ∀ e ∈ es, 0 < r.first e := by
    intro e he
    by_contra hzero
    obtain ⟨c, hc, hgap⟩ := exists_gap_before (r := r) 0 (by omega) he
    rw [show r.first e = 0 by omega, Nat.zero_add, Nat.mod_eq_of_lt (by omega)] at hgap
    exact hsound (c, r.n - 1) hgap (r.n - 1) (Nat.le_sub_one_of_lt hc) (Nat.le_refl _) htop
  refine ⟨hpos, fun e he => ?_, ?_⟩
  · obtain ⟨rest, rfl⟩ := List.head?_eq_some_iff.mp he
    have hmem : e ∈ e :: rest := List.mem_cons_self
    have h1 := hsorted.first_le e hmem
    have h2 := hsorted.key_le e hmem
    have h3 := hsorted.last_lt e hmem
    refine hsound _ List.mem_cons_self _ (Nat.zero_le _) ?_
    dsimp only
    rw [before_eq (hpos e hmem) (by omega)]
  · cases es with
    | nil => exact List.isChain_nil
    | cons e rest =>
      refine chain_of_not_covered hlow hlt hsorted hhalf (fun x hx => hpos x (List.mem_cons_of_mem e hx)) hn ?_
      exact fun g hg => hsound g (List.mem_cons_of_mem _ hg)

end Ranges

end sweep
