import Mathlib.Data.List.Forall2
import Mathlib.Data.List.Nodup
import Mathlib.Data.List.Sublists
import Mathlib.Tactic.Common

/-! A list that is searched for an element with a key, and in which the first such element
is replaced. -/

namespace List

variable {α β : Type} {p : α → Bool} {f : α → α} {l : List α}

/-- Replaces the first element that satisfies `p`. -/
def modifyFirst (p : α → Bool) (f : α → α) : List α → List α
  | [] => []
  | a :: rest => if p a then f a :: rest else a :: modifyFirst p f rest

/-- An element of the list is an old one, or the first match replaced. -/
theorem mem_modifyFirst {b : α} (hb : b ∈ l.modifyFirst p f) : b ∈ l ∨ ∃ a, l.find? p = some a ∧ b = f a := by
  induction l with
  | nil => cases hb
  | cons a rest ih =>
    rw [modifyFirst] at hb
    split at hb
    · rename_i hp
      cases hb with
      | head => exact .inr ⟨a, find?_cons_of_pos hp, rfl⟩
      | tail _ hb => exact .inl (mem_cons_of_mem a hb)
    · rename_i hp
      cases hb with
      | head => exact .inl mem_cons_self
      | tail _ hb =>
        rcases ih hb with hb | ⟨c, hc, rfl⟩
        · exact .inl (mem_cons_of_mem a hb)
        · exact .inr ⟨c, (find?_cons_of_neg hp).trans hc, rfl⟩

/-- Where the keys are different, the first match is the only one. -/
theorem mem_modifyFirst_of_nodup {g : α → Option β} {k : β} (hkeys : (l.filterMap g).Nodup)
    (hp : ∀ a, p a = true ↔ g a = some k) {b : α} (hb : b ∈ l.modifyFirst p f) :
    b ∈ l ∧ p b = false ∨ ∃ a, l.find? p = some a ∧ b = f a := by
  induction l with
  | nil => cases hb
  | cons a rest ih =>
    rw [modifyFirst] at hb
    split at hb
    · rename_i hmatch
      cases hb with
      | head => exact .inr ⟨a, find?_cons_of_pos hmatch, rfl⟩
      | tail _ hb =>
        refine .inl ⟨mem_cons_of_mem a hb, ?_⟩
        by_contra hother
        rw [filterMap_cons, (hp a).mp hmatch] at hkeys
        have hkey := (hp b).mp (eq_true_of_ne_false hother)
        exact (nodup_cons.mp hkeys).1 (mem_filterMap.mpr ⟨b, hb, hkey⟩)
    · rename_i hmatch
      cases hb with
      | head => exact .inl ⟨mem_cons_self, eq_false_of_ne_true hmatch⟩
      | tail _ hb =>
        have hrest : (rest.filterMap g).Nodup := hkeys.sublist ((sublist_cons_self a rest).filterMap g)
        rcases ih hrest hb with ⟨hmem, hnot⟩ | ⟨c, hc, rfl⟩
        · exact .inl ⟨mem_cons_of_mem a hmem, hnot⟩
        · exact .inr ⟨c, (find?_cons_of_neg hmatch).trans hc, rfl⟩

/-- An element keeps its key or loses it. -/
def Fades (g : α → Option β) (a b : α) : Prop := g b = g a ∨ g b = none

/-- No new key comes up when the elements keep theirs or lose them. -/
theorem sublist_of_fades {g : α → Option β} {l' : List α} (hfades : Forall₂ (Fades g) l l') :
    (l'.filterMap g).Sublist (l.filterMap g) := by
  induction hfades with
  | nil => exact Sublist.refl _
  | @cons a b rest rest' hfades _ ih =>
    rw [filterMap_cons, filterMap_cons]
    rcases hfades with hsame | hnone
    · rw [hsame]
      cases g a with
      | none => exact ih
      | some k => exact ih.cons_cons k
    · rw [hnone]
      cases g a with
      | none => exact ih
      | some k => exact ih.cons k

/-- Only the first match changes. -/
theorem forall₂_modifyFirst {R : α → α → Prop} (hrefl : ∀ a, R a a) (hf : ∀ a, l.find? p = some a → R a (f a)) :
    Forall₂ R l (l.modifyFirst p f) := by
  induction l with
  | nil => exact .nil
  | cons a rest ih =>
    rw [modifyFirst]
    split
    · rename_i hp
      exact .cons (hf a (find?_cons_of_pos hp)) (forall₂_same.mpr fun b _ => hrefl b)
    · rename_i hp
      exact .cons (hrefl a) (ih fun b hb => hf b ((find?_cons_of_neg hp).trans hb))

theorem mem_and_of_find {a : α} (hfind : l.find? p = some a) : a ∈ l ∧ p a = true :=
  ⟨mem_of_find?_eq_some hfind, find?_some hfind⟩

/-- No more elements have a property when none gets it. -/
theorem countP_le_of_forall₂ {p q : α → Bool} {l' : List α}
    (hforall : Forall₂ (fun a b => q b = true → p a = true) l l') :
    l'.countP q ≤ l.countP p := by
  induction hforall with
  | nil => exact le_rfl
  | @cons a b rest rest' hab _ ih =>
    rw [countP_cons, countP_cons]
    by_cases hb : q b = true
    · rw [if_pos hb, if_pos (hab hb)]
      omega
    · rw [if_neg hb]
      omega

end List
