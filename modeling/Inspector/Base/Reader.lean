import Mathlib.Data.List.Basic
import Mathlib.Tactic.Common

/-- A program that reads single bytes of a buffer, each by its position. There is no
byte at a position outside the buffer. -/
inductive Reader (ε α : Type) where
  | done (value : α)
  | failed (error : ε)
  | byte (position : Nat) (next : Option UInt8 → Reader ε α)

namespace Reader

variable {ε α β : Type}

protected def bind : Reader ε α → (α → Reader ε β) → Reader ε β
  | done value, f => f value
  | failed error, _ => failed error
  | byte position next, f => byte position fun b => (next b).bind f

instance : Monad (Reader ε) where
  pure := done
  bind := Reader.bind

protected theorem id_map (p : Reader ε α) : id <$> p = p := by
  induction p with
  | done value => rfl
  | failed error => rfl
  | byte position next ih => exact congrArg (byte position) (funext ih)

protected theorem bind_assoc {γ : Type} (p : Reader ε α) (f : α → Reader ε β) (g : β → Reader ε γ) :
    p >>= f >>= g = p >>= fun value => f value >>= g := by
  induction p with
  | done value => rfl
  | failed error => rfl
  | byte position next ih => exact congrArg (byte position) (funext ih)

instance : LawfulMonad (Reader ε) :=
  LawfulMonad.mk' _ Reader.id_map (fun _ _ => rfl) Reader.bind_assoc

/-- The result of the program on a buffer. -/
def run (data : List UInt8) : Reader ε α → Except ε α
  | done value => .ok value
  | failed error => .error error
  | byte position next => (next data[position]?).run data

/-- The positions that the program reads on a buffer. -/
def reads (data : List UInt8) : Reader ε α → List Nat
  | done _ => []
  | failed _ => []
  | byte position next => position :: (next data[position]?).reads data

variable {data data' : List UInt8}

@[simp] theorem run_pure (value : α) : (pure value : Reader ε α).run data = .ok value := rfl

@[simp] theorem run_failed (error : ε) : (failed error : Reader ε α).run data = .error error := rfl

@[simp] theorem reads_pure (value : α) : (pure value : Reader ε α).reads data = [] := rfl

@[simp] theorem reads_failed (error : ε) : (failed error : Reader ε α).reads data = [] := rfl

theorem run_bind (p : Reader ε α) (f : α → Reader ε β) :
    (p >>= f).run data = p.run data >>= fun value => (f value).run data := by
  induction p with
  | done value => rfl
  | failed error => rfl
  | byte position next ih => exact ih data[position]?

theorem run_bind_eq_ok {p : Reader ε α} {f : α → Reader ε β} {b : β} :
    (p >>= f).run data = .ok b ↔ ∃ a, p.run data = .ok a ∧ (f a).run data = .ok b := by
  rw [run_bind]
  cases p.run data with
  | ok a => simp [bind, Except.bind]
  | error e => simp [bind, Except.bind]

theorem mem_reads_bind {p : Reader ε α} {f : α → Reader ε β} {position : Nat} :
    position ∈ (p >>= f).reads data ↔
      position ∈ p.reads data ∨ ∃ a, p.run data = .ok a ∧ position ∈ (f a).reads data := by
  induction p with
  | done value =>
    change position ∈ (f value).reads data ↔ position ∈ [] ∨ ∃ a, Except.ok value = Except.ok a ∧ _
    simp
  | failed error =>
    change position ∈ [] ↔ position ∈ [] ∨ ∃ a, Except.error error = Except.ok a ∧ _
    simp
  | byte first next ih =>
    change position ∈ first :: (next data[first]? >>= f).reads data ↔
      position ∈ first :: (next data[first]?).reads data ∨ _
    rw [List.mem_cons, List.mem_cons, ih, or_assoc]
    rfl

/-- A program cannot tell two buffers apart that agree on what it reads. -/
theorem run_congr {p : Reader ε α} (hagree : ∀ position ∈ p.reads data, data'[position]? = data[position]?) :
    p.run data' = p.run data ∧ p.reads data' = p.reads data := by
  induction p with
  | done value => exact ⟨rfl, rfl⟩
  | failed error => exact ⟨rfl, rfl⟩
  | byte first next ih =>
    obtain ⟨hfirst, hrest⟩ := List.forall_mem_cons.mp hagree
    obtain ⟨hrun, hreads⟩ := ih data[first]? hrest
    refine ⟨?_, ?_⟩
    · rw [run, run, hfirst]
      exact hrun
    · rw [reads, reads, hfirst, hreads]

end Reader
