import Mathlib.Data.Fintype.Card
import Mathlib.Data.Set.Finite.Basic
import Mathlib.Logic.Relation

/-! Walks that end. -/

namespace descent

open Relation

variable {α : Type} {r : α → α → Prop} {a b : α}

/-- All walks from here on end. -/
abbrev Ends (r : α → α → Prop) : α → Prop := Acc (flip r)

theorem Ends.reached (hends : Ends r a) (hwalk : ReflTransGen r a b) : Ends r b := by
  induction hwalk with
  | refl => exact hends
  | tail _ hstep ih => exact ih.inv hstep

theorem Ends.not_transGen (hends : Ends r a) : ¬ TransGen r a a := by
  induction hends with
  | intro a _ ih =>
    intro hcycle
    obtain ⟨b, hstep, hback⟩ := TransGen.head'_iff.mp hcycle
    exact ih b hstep (TransGen.trans_right hback (.single hstep))

/-- Where a walk comes to finitely many places, it ends unless it comes back. -/
theorem ends_iff (hfinite : {b | ReflTransGen r a b}.Finite) :
    Ends r a ↔ ∀ b, ReflTransGen r a b → ¬ TransGen r b b := by
  constructor
  · intro hends b hwalk
    exact (hends.reached hwalk).not_transGen
  · intro hcycles
    let next : {b // ReflTransGen r a b} → {b // ReflTransGen r a b} → Prop := fun b c => TransGen r c.1 b.1
    have hfinite : Finite {b // ReflTransGen r a b} := hfinite
    have htrans : IsTrans _ next := ⟨fun _ _ _ hbc hcd => hcd.trans hbc⟩
    have hirrefl : Std.Irrefl next := ⟨fun b hcycle => hcycles b.1 b.2 hcycle⟩
    have hwell : WellFounded next := Finite.wellFounded_of_trans_of_irrefl next
    have hall : ∀ b : {b // ReflTransGen r a b}, Ends r b.1 := by
      intro b
      induction b using hwell.induction with
      | _ b ih => exact .intro _ fun c hstep => ih ⟨c, b.2.tail hstep⟩ (.single hstep)
    exact hall ⟨a, .refl⟩

end descent
