import Mathlib.Algebra.Order.Ring.Int
import Mathlib.Data.List.Chain
import Mathlib.Tactic.Common

/-! Ranges of numbers with labels, each without its last number. -/

namespace ranges

structure Range (ι : Type) where
  first : Int
  last : Int
  label : ι
  deriving DecidableEq, Repr

variable {ι : Type}

def Range.Contains (r s : Range ι) : Prop := r.first ≤ s.first ∧ s.last ≤ r.last

/-- Ranges in order that are not empty and do not overlap. -/
structure Sorted (rs : List (Range ι)) : Prop where
  nonempty : ∀ r ∈ rs, r.first < r.last
  chain : rs.IsChain fun r s => r.last ≤ s.first

/-- No range begins where the one before it ends. -/
def Apart (rs : List (Range ι)) : Prop := rs.IsChain fun r s => r.last < s.first

/-- The ranges of one label in a row become one, from the first of the first one to the
last of the last one. -/
def mergeFrom [DecidableEq ι] : Range ι → List (Range ι) → List (Range ι)
  | r, [] => [r]
  | r, s :: rest => if s.label = r.label then mergeFrom { r with last := s.last } rest else r :: mergeFrom s rest

def merge [DecidableEq ι] : List (Range ι) → List (Range ι)
  | [] => []
  | r :: rest => mergeFrom r rest

variable {r r' s : Range ι} {rs rest : List (Range ι)}

theorem sorted_cons_cons : Sorted (r :: s :: rest) ↔ r.first < r.last ∧ r.last ≤ s.first ∧ Sorted (s :: rest) := by
  constructor
  · rintro ⟨hnonempty, hchain⟩
    rw [List.isChain_cons_cons] at hchain
    exact ⟨hnonempty r (by simp), hchain.1, fun s hs => hnonempty s (List.mem_cons_of_mem _ hs), hchain.2⟩
  · rintro ⟨hr, hle, hnonempty, hchain⟩
    exact ⟨List.forall_mem_cons.mpr ⟨hr, hnonempty⟩, List.isChain_cons_cons.mpr ⟨hle, hchain⟩⟩

theorem Sorted.tail (hsorted : Sorted (r :: rest)) : Sorted rest :=
  ⟨fun s hs => hsorted.nonempty s (List.mem_cons_of_mem _ hs), hsorted.chain.tail⟩

/-- The range before goes on to the end of the next one. -/
theorem Sorted.extend (hsorted : Sorted (r :: s :: rest)) : Sorted ({ r with last := s.last } :: rest) := by
  obtain ⟨hr, hle, hrest⟩ := sorted_cons_cons.mp hsorted
  have hs := hrest.nonempty s (by simp)
  cases rest with
  | nil => exact ⟨by simp; omega, List.isChain_singleton _⟩
  | cons t rest =>
    obtain ⟨-, hbefore, htail⟩ := sorted_cons_cons.mp hrest
    exact sorted_cons_cons.mpr ⟨show r.first < s.last by omega, hbefore, htail⟩

/-- What comes behind a range begins behind it. -/
theorem Sorted.le_first (hsorted : Sorted (r :: rest)) (hs : s ∈ rest) : r.last ≤ s.first := by
  induction rest generalizing r with
  | nil => cases hs
  | cons t rest ih =>
    obtain ⟨-, hle, htail⟩ := sorted_cons_cons.mp hsorted
    rcases List.mem_cons.mp hs with rfl | hs
    · exact hle
    · have hlt := htail.nonempty t (by simp)
      have hbehind := ih htail hs
      omega

theorem Sorted.pairwise_first (hsorted : Sorted rs) : rs.Pairwise fun r s => r.first < s.first := by
  induction rs with
  | nil => exact List.Pairwise.nil
  | cons r rest ih =>
    refine List.pairwise_cons.mpr ⟨fun s hs => ?_, ih hsorted.tail⟩
    have hle := hsorted.le_first hs
    have hr := hsorted.nonempty r (by simp)
    omega

/-- A range that is not empty lies within one of the ranges at most. -/
theorem Sorted.eq_of_contains (hsorted : Sorted rs) (hs : s.first < s.last) (hr : r ∈ rs) (hr' : r' ∈ rs)
    (hcontains : r.Contains s) (hcontains' : r'.Contains s) : r = r' := by
  obtain ⟨hfirst, hlast⟩ := hcontains
  obtain ⟨hfirst', hlast'⟩ := hcontains'
  induction rs with
  | nil => cases hr
  | cons t rest ih =>
    rcases List.mem_cons.mp hr with rfl | hrest <;> rcases List.mem_cons.mp hr' with rfl | hrest'
    · rfl
    · have hle := hsorted.le_first hrest'
      omega
    · have hle := hsorted.le_first hrest
      omega
    · exact ih hsorted.tail hrest hrest'

/-- Ranges that are apart have no number in common, their last ones included. -/
theorem Sorted.apart_iff (hsorted : Sorted rs) :
    (∀ x, ∀ r ∈ rs, ∀ r' ∈ rs, r.first ≤ x ∧ x ≤ r.last → r'.first ≤ x ∧ x ≤ r'.last → r = r') ↔ Apart rs := by
  induction rs with
  | nil => simp [Apart]
  | cons r rest ih =>
    cases rest with
    | nil =>
      refine iff_of_true (fun x s hs t ht _ _ => ?_) (List.isChain_singleton r)
      rw [List.mem_singleton.mp hs, List.mem_singleton.mp ht]
    | cons s rest =>
      obtain ⟨hr, hle, htail⟩ := sorted_cons_cons.mp hsorted
      have hs := htail.nonempty s (by simp)
      unfold Apart at ih ⊢
      rw [List.isChain_cons_cons, ← ih htail]
      constructor
      · intro hall
        refine ⟨?_, fun x t ht t' ht' => hall x t (List.mem_cons_of_mem _ ht) t' (List.mem_cons_of_mem _ ht')⟩
        by_contra htouch
        have hsame := hall s.first r (by simp) s (by simp) (by omega) (by omega)
        rw [hsame] at hle
        omega
      · rintro ⟨hlt, hall⟩ x t ht t' ht' hx hx'
        have hbehind : ∀ u ∈ s :: rest, r.last < u.first := by
          intro u hu
          rcases List.mem_cons.mp hu with rfl | hu
          · exact hlt
          · have hfirst := htail.le_first hu
            omega
        rcases List.mem_cons.mp ht with rfl | hrest <;> rcases List.mem_cons.mp ht' with rfl | hrest'
        · rfl
        · have hfirst := hbehind t' hrest'
          omega
        · have hfirst := hbehind t hrest
          omega
        · exact hall x t hrest t' hrest' hx hx'

section Merge

variable [DecidableEq ι]

theorem mergeFrom_eq_cons (r : Range ι) (rest : List (Range ι)) :
    ∃ t others, mergeFrom r rest = t :: others ∧ t.first = r.first := by
  induction rest generalizing r with
  | nil => exact ⟨r, [], rfl, rfl⟩
  | cons s rest ih =>
    rw [mergeFrom]
    split
    · obtain ⟨t, others, hmerge, hfirst⟩ := ih { r with last := s.last }
      exact ⟨t, others, hmerge, hfirst⟩
    · exact ⟨r, mergeFrom s rest, rfl, rfl⟩

theorem Sorted.mergeFrom (hsorted : Sorted (r :: rest)) : Sorted (mergeFrom r rest) := by
  induction rest generalizing r with
  | nil => exact hsorted
  | cons s rest ih =>
    rw [ranges.mergeFrom]
    split
    · exact ih hsorted.extend
    · obtain ⟨hr, hle, htail⟩ := sorted_cons_cons.mp hsorted
      have hrest := ih htail
      obtain ⟨t, others, hmerge, hfirst⟩ := mergeFrom_eq_cons s rest
      rw [hmerge] at hrest ⊢
      exact sorted_cons_cons.mpr ⟨hr, by omega, hrest⟩

/-- Every range lies within a merged one of its own label. -/
theorem Sorted.exists_contains (hsorted : Sorted (r :: rest)) (hs : s ∈ r :: rest) :
    ∃ t ∈ ranges.mergeFrom r rest, t.Contains s ∧ t.label = s.label := by
  induction rest generalizing r s with
  | nil =>
    obtain rfl := List.mem_singleton.mp hs
    exact ⟨s, by simp [ranges.mergeFrom], ⟨Int.le_refl _, Int.le_refl _⟩, rfl⟩
  | cons u rest ih =>
    obtain ⟨hr, hle, htail⟩ := sorted_cons_cons.mp hsorted
    have hu := htail.nonempty u (by simp)
    rw [ranges.mergeFrom]
    split
    · rename_i hlabel
      -- the two become one, which goes on to be merged
      obtain ⟨t, ht, ⟨hfirst, hlast⟩, hsame⟩ := ih hsorted.extend List.mem_cons_self
      rcases List.mem_cons.mp hs with rfl | hs
      · exact ⟨t, ht, ⟨hfirst, by simp only at hlast; omega⟩, hsame⟩
      · rcases List.mem_cons.mp hs with rfl | hs
        · exact ⟨t, ht, ⟨by simp only at hfirst; omega, hlast⟩, hsame.trans hlabel.symm⟩
        · exact ih hsorted.extend (List.mem_cons_of_mem _ hs)
    · rcases List.mem_cons.mp hs with rfl | hs
      · exact ⟨s, by simp, ⟨Int.le_refl _, Int.le_refl _⟩, rfl⟩
      · obtain ⟨t, ht, hcontains⟩ := ih htail hs
        exact ⟨t, List.mem_cons_of_mem _ ht, hcontains⟩

/-- Merged ranges are apart if ranges that touch have one label. -/
theorem apart_mergeFrom_iff (r : Range ι) (rest : List (Range ι)) :
    Apart (ranges.mergeFrom r rest) ↔ (r :: rest).IsChain fun r s => r.label = s.label ∨ r.last < s.first := by
  induction rest generalizing r with
  | nil => exact iff_of_true (List.isChain_singleton r) (List.isChain_singleton r)
  | cons s rest ih =>
    rw [ranges.mergeFrom, List.isChain_cons_cons]
    split
    · rename_i hlabel
      rw [ih, and_iff_right (.inl hlabel.symm)]
      cases rest with
      | nil => exact iff_of_true (List.isChain_singleton _) (List.isChain_singleton _)
      | cons t rest =>
        simp only [List.isChain_cons_cons, hlabel]
    · rename_i hlabel
      rw [← ih]
      obtain ⟨t, others, hmerge, hfirst⟩ := mergeFrom_eq_cons s rest
      unfold Apart
      rw [hmerge, List.isChain_cons_cons, hfirst]
      simp only [Ne.symm hlabel, false_or]

theorem Sorted.merge (hsorted : Sorted rs) : Sorted (merge rs) := by
  cases rs with
  | nil => exact hsorted
  | cons r rest => exact hsorted.mergeFrom

theorem Sorted.exists_contains_merge (hsorted : Sorted rs) (hs : s ∈ rs) :
    ∃ t ∈ ranges.merge rs, t.Contains s ∧ t.label = s.label := by
  cases rs with
  | nil => cases hs
  | cons r rest => exact hsorted.exists_contains hs

theorem apart_merge_iff (rs : List (Range ι)) :
    Apart (ranges.merge rs) ↔ rs.IsChain fun r s => r.label = s.label ∨ r.last < s.first := by
  cases rs with
  | nil => exact iff_of_true List.isChain_nil List.isChain_nil
  | cons r rest => exact apart_mergeFrom_iff r rest

end Merge

end ranges
