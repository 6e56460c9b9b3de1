import Inspector.Advisor.AbstractInspector

open machine

namespace inspector.advisor

/-- A list in which each thread's messages are in the order of their numbers. -/
def InOrder (caches : List InspectCache) : Prop :=
  caches.Pairwise fun first second => first.thread = second.thread → first.number < second.number

theorem InOrder.sublist {caches part : List InspectCache} (hcaches : InOrder caches) (hpart : part.Sublist caches) :
    InOrder part := List.Pairwise.sublist hpart hcaches

/-- What is left after the evictions is the end of the queue. -/
theorem trim_isSuffix (queue : List InspectCache) : (trim queue).1 <:+ queue := by
  induction queue with
  | nil => exact List.suffix_refl _
  | cons cache rest ih =>
    rw [trim]
    split
    · exact ih.trans (List.suffix_cons cache rest)
    · exact List.suffix_refl _

/-- What is written by `flushCache` comes before what is left. -/
theorem drain_sublist (failing : Option Nat) (queue : List InspectCache) :
    ((drain failing queue).1 ++ (drain failing queue).2).Sublist queue := by
  induction queue generalizing failing with
  | nil => cases failing <;> simp [drain]
  | cons cache rest ih =>
    rcases failing with _ | _ | k
    · exact (ih none).cons_cons cache
    · exact List.sublist_cons_self cache rest
    · exact (ih (some k)).cons_cons cache

namespace AbstractInspector

variable {s next : AbstractInspector} {a : Action} {cache : InspectCache}

/-- What has been written and what waits, in each thread's order, with the numbers that
have been given. -/
structure Orderly (s : AbstractInspector) : Prop where
  inOrder : InOrder (s.written ++ s.cacheQueue)
  numbers : ∀ cache ∈ s.written ++ s.cacheQueue, cache.number < s.submitted.length

/-- A message is written at once only when no other message of its thread waits. -/
def KeepsOrder (s : AbstractInspector) : Action → Prop
  | .writeToConsole thread _ .complete =>
    s.writesAtOnce thread = true → ∀ cache ∈ s.cacheQueue, cache.thread ≠ thread
  | _ => True

instance decidableKeepsOrder (s : AbstractInspector) (a : Action) : Decidable (s.KeepsOrder a) :=
  match a with
  | .writeToConsole thread _ .complete =>
    inferInstanceAs (Decidable (s.writesAtOnce thread = true → ∀ cache ∈ s.cacheQueue, cache.thread ≠ thread))
  | .writeToConsole _ _ .ioException => isTrue trivial
  | .writeToConsole _ _ .networkOnMainThread => isTrue trivial
  | .flushCache _ => isTrue trivial
  | .connect _ => isTrue trivial
  | .closeConsole => isTrue trivial

/-- Messages that are dropped or moved from the front of the queue to what has been
written. -/
theorem Orderly.sublist (hs : s.Orderly) (hsub : (next.written ++ next.cacheQueue).Sublist (s.written ++ s.cacheQueue))
    (hsubmitted : s.submitted.length ≤ next.submitted.length) : next.Orderly := by
  refine ⟨hs.inOrder.sublist hsub, fun cache hcache => ?_⟩
  exact Nat.lt_of_lt_of_le (hs.numbers cache (hsub.subset hcache)) hsubmitted

/-- A new message comes to the end of the queue. -/
theorem Orderly.offer (hs : s.Orderly) (hnumber : cache.number = s.submitted.length) :
    (({ s with submitted := s.submitted ++ [cache] } : AbstractInspector).offer cache).Orderly := by
  constructor
  · unfold AbstractInspector.offer InOrder
    dsimp only
    rw [← List.append_assoc, List.pairwise_append]
    refine ⟨hs.inOrder, List.pairwise_singleton _ _, fun first hfirst second hsecond _ => ?_⟩
    rw [List.mem_singleton.mp hsecond, hnumber]
    exact hs.numbers first hfirst
  · intro other hother
    unfold AbstractInspector.offer at hother ⊢
    dsimp only at hother ⊢
    rw [← List.append_assoc, List.mem_append] at hother
    rw [List.length_append, List.length_singleton]
    rcases hother with hold | hnew
    · exact Nat.lt_succ_of_lt (hs.numbers other hold)
    · rw [List.mem_singleton.mp hnew, hnumber]
      exact Nat.lt_succ_self _

/-- A new message is written while none of its thread waits. -/
theorem Orderly.write (hs : s.Orderly) (hnumber : cache.number = s.submitted.length)
    (hnone : ∀ other ∈ s.cacheQueue, other.thread ≠ cache.thread) :
    ({ s with submitted := s.submitted ++ [cache], written := s.written ++ [cache] } : AbstractInspector).Orderly := by
  have hwritten := List.pairwise_append.mp hs.inOrder
  constructor
  · unfold InOrder
    dsimp only
    rw [List.pairwise_append, List.pairwise_append]
    refine ⟨⟨hwritten.1, List.pairwise_singleton _ _, fun first hfirst second hsecond _ => ?_⟩, hwritten.2.1, ?_⟩
    · rw [List.mem_singleton.mp hsecond, hnumber]
      exact hs.numbers first (List.mem_append_left _ hfirst)
    · intro first hfirst second hsecond hthread
      rcases List.mem_append.mp hfirst with hold | hnew
      · exact hwritten.2.2 first hold second hsecond hthread
      · rw [List.mem_singleton.mp hnew] at hthread
        exact absurd hthread.symm (hnone second hsecond)
  · intro other hother
    dsimp only at hother ⊢
    rw [List.mem_append, List.mem_append, List.mem_singleton] at hother
    rw [List.length_append, List.length_singleton]
    rcases hother with (hold | rfl) | hwaits
    · exact Nat.lt_succ_of_lt (hs.numbers other (List.mem_append_left _ hold))
    · rw [hnumber]
      exact Nat.lt_succ_self _
    · exact Nat.lt_succ_of_lt (hs.numbers other (List.mem_append_right _ hwaits))

theorem Orderly.writeToConsole {write : Write} (hs : s.Orderly) (hnumber : cache.number = s.submitted.length)
    (hkeeps : write = .complete → s.writesAtOnce cache.thread = true →
      ∀ other ∈ s.cacheQueue, other.thread ≠ cache.thread) : (s.writeToConsole cache write).Orderly := by
  have hlength : s.submitted.length ≤ (s.submitted ++ [cache]).length := by simp
  unfold AbstractInspector.writeToConsole
  dsimp only
  split
  · rename_i honce
    cases write with
    | complete => exact hs.write hnumber (hkeeps rfl honce)
    | ioException => exact hs.sublist (List.Sublist.refl _) hlength
    | networkOnMainThread => exact hs.offer hnumber
  · split
    · refine (hs.offer hnumber).sublist ?_ (Nat.le_refl _)
      exact List.Sublist.append_left (trim_isSuffix _).sublist _
    · exact hs.sublist (List.Sublist.refl _) hlength

theorem Orderly.step (hs : s.Orderly) (hkeeps : s.KeepsOrder a) (hstep : s.step a = .ok next) : next.Orderly := by
  unfold AbstractInspector.step at hstep
  cases a with
  | writeToConsole thread canCache write =>
    cases hstep
    refine hs.writeToConsole rfl fun hcomplete honce => ?_
    subst hcomplete
    exact hkeeps honce
  | flushCache failing =>
    cases hstep
    refine hs.sublist ?_ (Nat.le_refl _)
    unfold AbstractInspector.flushCache
    dsimp only
    rw [List.append_assoc]
    exact List.Sublist.append_left (drain_sublist _ _) _
  | connect console =>
    dsimp only at hstep
    split at hstep
    · cases hstep
      exact ⟨hs.inOrder, hs.numbers⟩
    · cases hstep
  | closeConsole =>
    cases hstep
    exact ⟨hs.inOrder, hs.numbers⟩

/-- In every run in which no message is written before one of its thread that waits,
each thread's messages are written in the order in which it submitted them, and none
twice. -/
theorem written_inOrder {actions : List Action} (hkeeps : Along step KeepsOrder initial actions)
    (hrun : run actions = .ok s) : InOrder s.written ∧ s.written.Nodup := by
  have hinitial : initial.Orderly := by
    refine ⟨List.Pairwise.nil, fun cache hcache => ?_⟩
    cases hcache
  have horderly : s.Orderly := by
    refine run_along ?_ hinitial hkeeps hrun
    intro p action after hp haction hstep
    exact hp.step haction hstep
  have hwritten : InOrder s.written := horderly.inOrder.sublist (List.sublist_append_left _ _)
  refine ⟨hwritten, hwritten.imp ?_⟩
  intro first second hless heq
  subst heq
  exact Nat.lt_irrefl _ (hless rfl)

/-- Two messages of a thread and one of the main thread, with a console between them
that is flushed before anything else is submitted. -/
def flushedFirst : List Action :=
  [.writeToConsole (.background 0) true .complete, .connect 0, .flushCache none,
    .writeToConsole (.background 0) true .complete, .writeToConsole .main true .complete, .flushCache none]

theorem inOrder_flushedFirst : ∃ s, run flushedFirst = .ok s ∧ s.written.length = 3 ∧ InOrder s.written ∧
    s.written.Nodup := by
  have hkeeps : Along step KeepsOrder initial flushedFirst := by decide
  have hlength : (run flushedFirst).toOption.map (fun s => s.written.length) = some 3 := by decide
  cases hrun : run flushedFirst with
  | error e =>
    rw [hrun] at hlength
    cases hlength
  | ok s =>
    rw [hrun] at hlength
    exact ⟨s, rfl, Option.some.inj hlength, written_inOrder hkeeps hrun⟩

/-- The second message of a thread is written before the first, which still waits when
the console has connected. -/
theorem second_written_first : ∃ s,
    run [.writeToConsole (.background 0) true .complete, .connect 0, .writeToConsole (.background 0) true .complete,
      .flushCache none] = .ok s ∧
    s.written = [⟨1, .background 0, true⟩, ⟨0, .background 0, true⟩] ∧ ¬ InOrder s.written := by
  refine ⟨_, rfl, rfl, fun hinOrder => ?_⟩
  have hless := (List.pairwise_cons.mp hinOrder).1 ⟨0, .background 0, true⟩ (List.mem_singleton.mpr rfl) rfl
  exact absurd hless (by decide)

end AbstractInspector

end inspector.advisor
