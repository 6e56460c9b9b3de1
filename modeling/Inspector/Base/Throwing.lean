import Mathlib.Logic.Relation
import Mathlib.Tactic.Common

open Relation

/-! Blocks that change a state and may throw. What a block has done to the state before
it throws stays done. -/

namespace throwing

abbrev Block (ε σ α : Type) := ExceptT ε (StateM σ) α

namespace Block

variable {σ ε α β : Type} {x : Block ε σ α} {f : α → Block ε σ β} {s next : σ} {e : ε} {a : α}

/-- The value of a call that does not change the state. -/
def ofExcept : Except ε α → Block ε σ α
  | .ok a => pure a
  | .error e => throw e

/-- The state after a block, whichever way it ends. -/
def after (x : Block ε σ α) (s : σ) : σ := (x.run.run s).2

/-- A block goes on in the state in which its first part ends. -/
theorem run_bind (hx : x.run.run s = (.ok a, next)) : (x >>= f).run.run s = (f a).run.run next := by
  have hbind : (x >>= f).run.run s = (ExceptT.bindCont f (x.run.run s).1).run (x.run.run s).2 := rfl
  rw [hbind, hx]
  rfl

/-- An exception ends a block. -/
theorem run_bind_error (hx : x.run.run s = (.error e, next)) : (x >>= f).run.run s = (.error e, next) := by
  have hbind : (x >>= f).run.run s = (ExceptT.bindCont f (x.run.run s).1).run (x.run.run s).2 := rfl
  rw [hbind, hx]
  rfl

/-- What a block that may be caught goes on with. -/
theorem run_tryCatch {handle : ε → Block ε σ α} (x : Block ε σ α) (s : σ) :
    (tryCatch x handle).run.run s =
      match x.run.run s with
      | (.ok a, next) => (.ok a, next)
      | (.error e, next) => (handle e).run.run next := by
  have htry : (tryCatch x handle).run.run s =
      (match (x.run.run s).1 with
        | .ok a => pure (.ok a)
        | .error e => (handle e).run : StateM σ (Except ε α)).run (x.run.run s).2 := rfl
  rw [htry]
  rcases x.run.run s with ⟨end1, next⟩
  cases end1 <;> rfl

/-- A call that returns hands its value on. -/
theorem run_ofExcept_bind {call : Except ε α} (hcall : call = .ok a) :
    (ofExcept call >>= f).run.run s = (f a).run.run s := by
  rw [hcall]
  rfl

/-- What goes on whichever way a block ends. -/
theorem after_caught {y : Block ε σ β} (x : Block ε σ α) (a : α) (s : σ) :
    (tryCatch x (fun _ => pure a) >>= fun _ => y).after s = y.after (x.after s) := by
  unfold after
  rcases hx : x.run.run s with ⟨e | b, next⟩
  · have hcaught : (tryCatch x fun _ => pure a).run.run s = (.ok a, next) := by
      rw [run_tryCatch, hx]
      rfl
    rw [run_bind hcaught]
  · have hcaught : (tryCatch x fun _ => pure a).run.run s = (.ok b, next) := by rw [run_tryCatch, hx]
    rw [run_bind hcaught]

end Block

/-- Whatever a block does to the state is a sequence of steps. -/
def Moves {σ ε α : Type} (r : σ → σ → Prop) (x : Block ε σ α) : Prop := ∀ s, ReflTransGen r s (x.after s)

namespace Moves

variable {σ ε α β : Type} {r : σ → σ → Prop} {x : Block ε σ α} {f : α → Block ε σ β}

theorem of_pure (a : α) : Moves r (pure a : Block ε σ α) := fun _ => .refl

theorem of_throw (e : ε) : Moves r (throw e : Block ε σ α) := fun _ => .refl

/-- The rule of a block whose first part moves by steps from one state. -/
theorem bind_at {s : σ} (hx : ReflTransGen r s (x.after s)) (hf : ∀ a, Moves r (f a)) :
    ReflTransGen r s ((x >>= f).after s) := by
  unfold Block.after at hx ⊢
  rcases hrun : x.run.run s with ⟨_ | a, next⟩
  · rw [Block.run_bind_error hrun]
    rw [hrun] at hx
    exact hx
  · rw [Block.run_bind hrun]
    rw [hrun] at hx
    exact hx.trans (hf a next)

theorem bind (hx : Moves r x) (hf : ∀ a, Moves r (f a)) : Moves r (x >>= f) := fun s => bind_at (hx s) hf

/-- A call that does not change the state, before a block that goes on with its value. -/
theorem ofExcept_bind {call : Except ε α} (hf : ∀ a, call = .ok a → Moves r (f a)) :
    Moves r (Block.ofExcept call >>= f) := by
  intro s
  cases call with
  | error e => exact .refl
  | ok a => exact hf a rfl s

/-- A block with a handler moves as the block and the handler do. -/
theorem tryCatch {handle : ε → Block ε σ α} (hx : Moves r x) (hhandle : ∀ e, Moves r (handle e)) :
    Moves r (MonadExcept.tryCatch x handle) := by
  intro s
  have hfirst := hx s
  unfold Block.after at hfirst ⊢
  rw [Block.run_tryCatch]
  rcases hrun : x.run.run s with ⟨e | a, next⟩
  · rw [hrun] at hfirst
    exact hfirst.trans (hhandle e next)
  · rw [hrun] at hfirst
    exact hfirst

theorem mono {q : σ → σ → Prop} (hsteps : ∀ s next, r s next → q s next) (hx : Moves r x) : Moves q x :=
  fun s => ReflTransGen.mono hsteps s _ (hx s)

end Moves

/-- From a state with `P` a block returns in one with `Q`, or throws in one with `R`. -/
def Ensures {σ ε α : Type} (P : σ → Prop) (x : Block ε σ α) (Q : α → σ → Prop) (R : ε → σ → Prop) : Prop :=
  ∀ s, P s → (∃ a next, x.run.run s = (.ok a, next) ∧ Q a next) ∨ ∃ e next, x.run.run s = (.error e, next) ∧ R e next

namespace Ensures

variable {σ ε α β : Type} {P : σ → Prop} {x : Block ε σ α} {f : α → Block ε σ β} {Q Q' : α → σ → Prop}
  {S : β → σ → Prop} {R R' : ε → σ → Prop}

theorem of_pure {a : α} (hpost : ∀ s, P s → Q a s) : Ensures P (pure a) Q R :=
  fun s hs => .inl ⟨a, s, rfl, hpost s hs⟩

theorem of_throw {e : ε} (hpost : ∀ s, P s → R e s) : Ensures P (throw e) Q R :=
  fun s hs => .inr ⟨e, s, rfl, hpost s hs⟩

/-- A change of the state ensures what the changed state has. -/
theorem of_modify {change : σ → σ} {Q : PUnit → σ → Prop} (hpost : ∀ s, P s → Q ⟨⟩ (change s)) :
    Ensures P (modify change) Q R :=
  fun s hs => .inl ⟨⟨⟩, change s, rfl, hpost s hs⟩

theorem bind (hx : Ensures P x Q R) (hf : ∀ a, Ensures (Q a) (f a) S R) : Ensures P (x >>= f) S R := by
  intro s hs
  rcases hx s hs with ⟨a, next, hrun, hnext⟩ | ⟨e, next, hrun, hnext⟩
  · rw [Block.run_bind hrun]
    exact hf a next hnext
  · exact .inr ⟨e, next, Block.run_bind_error hrun, hnext⟩

/-- Behind a look at the state, the block goes on from that state. -/
theorem get_bind {f : σ → Block ε σ β} (hf : ∀ s, P s → Ensures (· = s) (f s) S R) : Ensures P (get >>= f) S R := by
  intro s hs
  exact hf s hs s rfl

theorem mono (hx : Ensures P x Q R) (hpost : ∀ a s, Q a s → Q' a s) (hthrows : ∀ e s, R e s → R' e s) :
    Ensures P x Q' R' := by
  intro s hs
  rcases hx s hs with ⟨a, next, hrun, hnext⟩ | ⟨e, next, hrun, hnext⟩
  · exact .inl ⟨a, next, hrun, hpost a next hnext⟩
  · exact .inr ⟨e, next, hrun, hthrows e next hnext⟩

/-- The rule of a loop. The invariant is about what is done. -/
theorem forM {body : α → Block ε σ PUnit} (l : List α) (I : List α → σ → Prop)
    (hbody : ∀ done a rest, done ++ a :: rest = l → Ensures (I done) (body a) (fun _ => I (done ++ [a])) R) :
    Ensures (I []) (l.forM body) (fun _ => I l) R := by
  suffices hrest : ∀ rest done, done ++ rest = l → Ensures (I done) (rest.forM body) (fun _ => I l) R from
    hrest l [] (List.nil_append l)
  intro rest
  induction rest with
  | nil =>
    rintro done rfl
    rw [List.append_nil]
    exact of_pure fun _ hs => hs
  | cons a rest ih =>
    intro done hdone
    refine bind (hbody done a rest hdone) fun _ => ih (done ++ [a]) ?_
    rw [List.append_assoc, List.singleton_append]
    exact hdone

end Ensures

end throwing
