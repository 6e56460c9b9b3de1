import Mathlib.Data.List.Basic
import Mathlib.Data.List.Forall2
import Mathlib.Logic.Relation
import Mathlib.Tactic.Common

namespace machine

variable {σ α ε ω : Type}

/-- Runs the actions in order. The first exception ends the run. -/
def run (step : σ → α → Except ε σ) : σ → List α → Except ε σ
  | s, [] => .ok s
  | s, a :: rest =>
    match step s a with
    | .ok next => run step next rest
    | .error e => .error e

/-- Every action of the run satisfies `P` in the state in which it is taken. -/
def Along (step : σ → α → Except ε σ) (P : σ → α → Prop) : σ → List α → Prop
  | _, [] => True
  | s, a :: rest => P s a ∧ ∀ next, step s a = .ok next → Along step P next rest

/-- A predicate holds along a run if it does at the first step and along the others. -/
theorem along_cons_ok {step : σ → α → Except ε σ} {P : σ → α → Prop} {s next : σ} {a : α} {rest : List α}
    (hstep : step s a = .ok next) : Along step P s (a :: rest) ↔ P s a ∧ Along step P next rest := by
  rw [Along]
  refine and_congr_right fun _ => ?_
  constructor
  · intro hafter
    exact hafter next hstep
  · intro hrest other hother
    rw [hstep] at hother
    cases hother
    exact hrest

/-- A run that stops at its first step has only that one. -/
theorem along_cons_error {step : σ → α → Except ε σ} {P : σ → α → Prop} {s : σ} {a : α} {rest : List α} {e : ε}
    (hstep : step s a = .error e) : Along step P s (a :: rest) ↔ P s a := by
  rw [Along]
  refine and_iff_left fun other hother => ?_
  rw [hstep] at hother
  cases hother

/-- What holds at every step holds along every run. -/
theorem along_of_forall {step : σ → α → Except ε σ} {P : σ → α → Prop} (hall : ∀ s a, P s a) (s : σ)
    (actions : List α) :
    Along step P s actions := by
  induction actions generalizing s with
  | nil => trivial
  | cons a rest ih => exact ⟨hall s a, fun next _ => ih next⟩

instance decidableAlong (step : σ → α → Except ε σ) (P : σ → α → Prop) [∀ s a, Decidable (P s a)] (s : σ)
    (actions : List α) : Decidable (Along step P s actions) :=
  match actions with
  | [] => isTrue trivial
  | a :: rest =>
    match hstep : step s a with
    | .ok next =>
      have := decidableAlong step P next rest
      decidable_of_iff _ (along_cons_ok hstep).symm
    | .error _ => decidable_of_iff _ (along_cons_error hstep).symm

/-- Two calls return if the first does and the second does behind it. -/
theorem bind_eq_ok {x : Except ε σ} {f : σ → Except ε α} {a : α} :
    (x >>= f) = .ok a ↔ ∃ s, x = .ok s ∧ f s = .ok a := by
  cases x with
  | ok s => simp [bind, Except.bind]
  | error e => simp [bind, Except.bind]

/-- Every call returns, each with a value of its own. -/
theorem mapM_eq_ok_iff {β : Type} {f : α → Except ε β} {l : List α} {l' : List β} :
    l.mapM f = .ok l' ↔ List.Forall₂ (fun a b => f a = .ok b) l l' := by
  induction l generalizing l' with
  | nil =>
    rw [List.mapM_nil, List.forall₂_nil_left_iff]
    constructor
    · intro hpure
      cases hpure
      rfl
    · rintro rfl
      rfl
  | cons a l ih =>
    rw [List.mapM_cons, bind_eq_ok]
    constructor
    · rintro ⟨b, hb, hrest⟩
      obtain ⟨others, hothers, hpure⟩ := bind_eq_ok.mp hrest
      cases hpure
      exact .cons hb (ih.mp hothers)
    · intro hall
      cases hall with
      | cons hb hothers => exact ⟨_, hb, bind_eq_ok.mpr ⟨_, ih.mpr hothers, rfl⟩⟩

/-- A run ends well if its first step and the run behind it do. -/
theorem run_cons_ok {step : σ → α → Except ε σ} {s final : σ} {a : α} {rest : List α} :
    run step s (a :: rest) = .ok final ↔ ∃ next, step s a = .ok next ∧ run step next rest = .ok final := by
  rw [run]
  cases step s a with
  | ok next => simp
  | error e => simp

@[simp] theorem run_singleton (step : σ → α → Except ε σ) (s : σ) (a : α) : run step s [a] = step s a := by
  rw [run]
  cases step s a <;> rfl

/-- A run goes on where a first part of it ended. -/
theorem run_append {step : σ → α → Except ε σ} {s middle : σ} {first second : List α}
    (hfirst : run step s first = .ok middle) :
    run step s (first ++ second) = run step middle second := by
  induction first generalizing s with
  | nil =>
    cases hfirst
    rfl
  | cons a rest ih =>
    obtain ⟨next, hstep, hrest⟩ := run_cons_ok.mp hfirst
    simp only [List.cons_append, run, hstep]
    exact ih hrest

/-- A run that stops in a first part has stopped. -/
theorem run_append_error {step : σ → α → Except ε σ} {s : σ} {first second : List α} {e : ε}
    (hfirst : run step s first = .error e) : run step s (first ++ second) = .error e := by
  induction first generalizing s with
  | nil => cases hfirst
  | cons a rest ih =>
    rw [List.cons_append, run]
    rw [run] at hfirst
    cases hstep : step s a with
    | ok next =>
      rw [hstep] at hfirst
      exact ih hfirst
    | error other =>
      rw [hstep] at hfirst
      exact hfirst

/-- A run in two parts ends well if both parts do. -/
theorem run_append_ok {step : σ → α → Except ε σ} {s final : σ} {first second : List α} :
    run step s (first ++ second) = .ok final ↔
      ∃ middle, run step s first = .ok middle ∧ run step middle second = .ok final := by
  induction first generalizing s with
  | nil => simp [run]
  | cons a rest ih =>
    simp only [List.cons_append, run_cons_ok, ih]
    constructor
    · rintro ⟨next, hstep, middle, hrest, hsecond⟩
      exact ⟨middle, ⟨next, hstep, hrest⟩, hsecond⟩
    · rintro ⟨middle, ⟨next, hstep, hrest⟩, hsecond⟩
      exact ⟨next, hstep, middle, hrest, hsecond⟩

/-- The rule of a loop with a counter. -/
theorem run_range {step : σ → Nat → Except ε σ} {P : Nat → σ → Prop} {n : Nat} {s final : σ}
    (hinit : P 0 s) (hstep : ∀ k < n, ∀ s next, P k s → step s k = .ok next → P (k + 1) next)
    (hrun : run step s (List.range n) = .ok final) : P n final := by
  induction n generalizing final with
  | zero =>
    cases hrun
    exact hinit
  | succ n ih =>
    rw [List.range_succ] at hrun
    obtain ⟨middle, hfirst, hlast⟩ := run_append_ok.mp hrun
    have hmiddle : P n middle := ih (fun k hk => hstep k (Nat.lt_succ_of_lt hk)) hfirst
    rw [run_singleton] at hlast
    exact hstep n (Nat.lt_succ_self n) middle final hmiddle hlast

/-- An exception of such a loop is thrown by some step, in the state that the steps before it lead to. -/
theorem run_range_error {step : σ → Nat → Except ε σ} {P : Nat → σ → Prop} {n : Nat} {s : σ} {e : ε}
    (hinit : P 0 s) (hstep : ∀ k < n, ∀ s next, P k s → step s k = .ok next → P (k + 1) next)
    (hrun : run step s (List.range n) = .error e) : ∃ k < n, ∃ middle, P k middle ∧ step middle k = .error e := by
  induction n with
  | zero => cases hrun
  | succ n ih =>
    have hbefore : ∀ k < n, ∀ s next, P k s → step s k = .ok next → P (k + 1) next :=
      fun k hk => hstep k (Nat.lt_succ_of_lt hk)
    rw [List.range_succ] at hrun
    cases hfirst : run step s (List.range n) with
    | error other =>
      rw [run_append_error hfirst] at hrun
      cases hrun
      obtain ⟨k, hk, hmiddle⟩ := ih hbefore hfirst
      exact ⟨k, Nat.lt_succ_of_lt hk, hmiddle⟩
    | ok middle =>
      rw [run_append hfirst, run_singleton] at hrun
      exact ⟨n, Nat.lt_succ_self n, middle, run_range hinit hbefore hfirst, hrun⟩

/-- What every step preserves, a whole run preserves. -/
theorem run_invariant {step : σ → α → Except ε σ} {I : σ → Prop}
    (hstep : ∀ s a next, I s → step s a = .ok next → I next)
    {s final : σ} {actions : List α} (hinit : I s) (hrun : run step s actions = .ok final) : I final := by
  induction actions generalizing s with
  | nil =>
    cases hrun
    exact hinit
  | cons a rest ih =>
    obtain ⟨next, hnext, hrest⟩ := run_cons_ok.mp hrun
    exact ih (hstep s a next hinit hnext) hrest

/-- A run of steps that never throw. -/
theorem run_ok (f : σ → α → σ) (s : σ) (actions : List α) :
    run (fun s a => (.ok (f s a) : Except ε σ)) s actions = .ok (actions.foldl f s) := by
  induction actions generalizing s with
  | nil => rfl
  | cons a rest ih => exact ih (f s a)

/-- What every step that satisfies `P` preserves, a run along which `P` holds preserves. -/
theorem run_along {step : σ → α → Except ε σ} {I : σ → Prop} {P : σ → α → Prop}
    (hstep : ∀ s a next, I s → P s a → step s a = .ok next → I next)
    {s final : σ} {actions : List α} (hinit : I s) (halong : Along step P s actions)
    (hrun : run step s actions = .ok final) : I final := by
  induction actions generalizing s with
  | nil =>
    cases hrun
    exact hinit
  | cons a rest ih =>
    obtain ⟨next, hnext, hrest⟩ := run_cons_ok.mp hrun
    obtain ⟨ha, hafter⟩ := halong
    exact ih (hstep s a next hinit ha hnext) (hafter next hnext) hrest

/-- An action that satisfies `P` in a state of the run satisfies `Q` there. -/
theorem Along.imp {step : σ → α → Except ε σ} {P Q : σ → α → Prop} {s : σ} {actions : List α}
    (halong : Along step P s actions) (himp : ∀ s, ∀ a ∈ actions, P s a → Q s a) : Along step Q s actions := by
  induction actions generalizing s with
  | nil => trivial
  | cons a rest ih =>
    obtain ⟨ha, hafter⟩ := halong
    exact ⟨himp s a List.mem_cons_self ha,
      fun next hnext => ih (hafter next hnext) fun t b hb => himp t b (List.mem_cons_of_mem a hb)⟩

/-- What holds along a run holds along a beginning of it. -/
theorem Along.of_append {step : σ → α → Except ε σ} {P : σ → α → Prop} {s : σ} {first second : List α}
    (halong : Along step P s (first ++ second)) : Along step P s first := by
  induction first generalizing s with
  | nil => trivial
  | cons a rest ih =>
    obtain ⟨ha, hafter⟩ := halong
    exact ⟨ha, fun next hnext => ih (hafter next hnext)⟩

/-- What holds at first and not in the end is ended by some step. -/
theorem exists_breaks_of_run {step : σ → α → Except ε σ} {I : σ → Prop} {s final : σ} {actions : List α}
    (hinit : I s) (hbroken : ¬ I final) (hrun : run step s actions = .ok final) :
    ∃ earlier a later middle next, actions = earlier ++ a :: later ∧ run step s earlier = .ok middle ∧ I middle ∧
      step middle a = .ok next ∧ ¬ I next ∧ run step next later = .ok final := by
  induction actions generalizing s with
  | nil =>
    cases hrun
    exact absurd hinit hbroken
  | cons a rest ih =>
    obtain ⟨next, hnext, hrest⟩ := run_cons_ok.mp hrun
    by_cases hstill : I next
    · obtain ⟨earlier, b, later, middle, after, rfl, hearlier, hmiddle, hlast⟩ := ih hstill hrest
      exact ⟨a :: earlier, b, later, middle, after, rfl, run_cons_ok.mpr ⟨next, hnext, hearlier⟩, hmiddle, hlast⟩
    · exact ⟨[], a, rest, s, next, rfl, rfl, hinit, hnext, hstill, hrest⟩

/-- An exception that no step throws from a state that satisfies the invariant
ends no run. -/
theorem run_ne_error {step : σ → α → Except ε σ} {I : σ → Prop} {e : ε}
    (hstep : ∀ s a next, I s → step s a = .ok next → I next) (hsafe : ∀ s a, I s → step s a ≠ .error e)
    {s : σ} {actions : List α} (hinit : I s) : run step s actions ≠ .error e := by
  induction actions generalizing s with
  | nil => simp [run]
  | cons a rest ih =>
    rw [run]
    cases hnext : step s a with
    | ok next => exact ih (hstep s a next hinit hnext)
    | error other =>
      have hother := hsafe s a hinit
      rw [hnext] at hother
      simpa using hother

/-- What every single effect preserves, a sequence of effects preserves. -/
theorem invariant_of_reflTransGen {r : σ → σ → Prop} {I : σ → Prop}
    (heffect : ∀ s next, I s → r s next → I next) {s final : σ} (hinit : I s)
    (heffects : Relation.ReflTransGen r s final) : I final := by
  induction heffects with
  | refl => exact hinit
  | tail _ hlast ih => exact heffect _ _ ih hlast

/-- If, in the states that satisfy `I`, an action that satisfies `Q` keeps `G`
exactly when `P` holds of it, then a run of such actions keeps `G` exactly when
`P` holds along it. -/
theorem run_good_iff {step : σ → α → Except ε σ} {I G : σ → Prop} {P : σ → α → Prop} {Q : α → Prop}
    (hinv : ∀ s a next, Q a → I s → step s a = .ok next → I next)
    (hgood : ∀ s a next, Q a → I s → step s a = .ok next → (G next ↔ G s ∧ P s a))
    {s final : σ} {actions : List α} (hactions : ∀ a ∈ actions, Q a) (hinit : I s)
    (hrun : run step s actions = .ok final) :
    G final ↔ G s ∧ Along step P s actions := by
  induction actions generalizing s with
  | nil =>
    cases hrun
    simp [Along]
  | cons a rest ih =>
    obtain ⟨ha, hothers⟩ := List.forall_mem_cons.mp hactions
    obtain ⟨next, hnext, hrest⟩ := run_cons_ok.mp hrun
    rw [ih hothers (hinv s a next ha hinit hnext) hrest, hgood s a next ha hinit hnext, and_assoc, Along]
    constructor
    · rintro ⟨hs, hp, halong⟩
      refine ⟨hs, hp, fun other hother => ?_⟩
      rw [hnext] at hother
      cases hother
      exact halong
    · rintro ⟨hs, hp, halong⟩
      exact ⟨hs, hp, halong next hnext⟩

/-- If an action that satisfies `P` is what it takes to complete a step and to keep
`G`, then actions that satisfy `P` are what it takes for a whole run. -/
theorem run_completes_iff {step : σ → α → Except ε σ} {G : σ → Prop} {P : σ → α → Prop}
    (hstep : ∀ s a, (∃ next, step s a = .ok next ∧ G next) ↔ G s ∧ P s a) (s : σ) (actions : List α) :
    (∃ final, run step s actions = .ok final ∧ G final) ↔ G s ∧ Along step P s actions := by
  induction actions generalizing s with
  | nil => simp [run, Along]
  | cons a rest ih =>
    constructor
    · rintro ⟨final, hrun, hfinal⟩
      obtain ⟨next, hnext, hrest⟩ := run_cons_ok.mp hrun
      obtain ⟨hgood, halong⟩ := (ih next).mp ⟨final, hrest, hfinal⟩
      obtain ⟨hs, hp⟩ := (hstep s a).mp ⟨next, hnext, hgood⟩
      refine ⟨hs, hp, fun other hother => ?_⟩
      rw [hnext] at hother
      cases hother
      exact halong
    · rintro ⟨hs, hp, halong⟩
      obtain ⟨next, hnext, hgood⟩ := (hstep s a).mpr ⟨hs, hp⟩
      obtain ⟨final, hrest, hfinal⟩ := (ih next).mpr ⟨hgood, halong next hnext⟩
      exact ⟨final, run_cons_ok.mpr ⟨next, hnext, hrest⟩, hfinal⟩

/-- A law of an event log: each event satisfies `P` relative to what was logged
before it. -/
def Law (P : List ω → ω → Prop) (log : List ω) : Prop :=
  ∀ before event after, log = before ++ event :: after → P before event

@[simp] theorem Law.nil (P : List ω → ω → Prop) : Law P [] := by
  intro before event after hlog
  simp at hlog

/-- A law is checked once for each event, when the event is logged. -/
@[simp] theorem Law.snoc_iff {P : List ω → ω → Prop} {log : List ω} {event : ω} :
    Law P (log ++ [event]) ↔ Law P log ∧ P log event := by
  constructor
  · intro hlaw
    refine ⟨fun before e after hlog => ?_, hlaw log event [] rfl⟩
    exact hlaw before e (after ++ [event]) (by simp [hlog])
  · rintro ⟨hlaw, hevent⟩ before e after hlog
    rcases List.eq_nil_or_concat after with rfl | ⟨start, last, rfl⟩
    · obtain ⟨rfl, hlast⟩ := List.append_inj' hlog rfl
      cases hlast
      exact hevent
    · rw [List.concat_eq_append, ← List.cons_append, ← List.append_assoc] at hlog
      obtain ⟨rfl, -⟩ := List.append_inj' hlog rfl
      exact hlaw before e start rfl

/-- Events that satisfy the law whatever comes before them do not bear on it. -/
theorem Law.append_iff_of_forall {P : List ω → ω → Prop} {log events : List ω}
    (hevents : ∀ event ∈ events, ∀ before, P before event) : Law P (log ++ events) ↔ Law P log := by
  induction events generalizing log with
  | nil => simp
  | cons event rest ih =>
    rw [List.append_cons, ih (fun e he => hevents e (by simp [he])), Law.snoc_iff]
    exact and_iff_left (hevents event (by simp) log)

end machine
