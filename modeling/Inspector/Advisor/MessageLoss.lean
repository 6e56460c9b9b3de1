import Mathlib.Data.List.Perm.Basic
import Inspector.Advisor.AbstractInspector

open machine

namespace inspector.advisor

/-- The messages that were evicted. -/
def evicted (evictions : List (List InspectCache)) : List InspectCache := evictions.filterMap List.head?

theorem evicted_append (first second : List (List InspectCache)) :
    evicted (first ++ second) = evicted first ++ evicted second := List.filterMap_append

/-- The polled message whose write throws. -/
def lost : Option Nat → List InspectCache → List InspectCache
  | none, _ => []
  | some k, queue => queue[k]?.toList

/-- A queue is what is left of it and what is evicted. -/
theorem trim_perm (queue : List InspectCache) : ((trim queue).1 ++ evicted (trim queue).2).Perm queue := by
  induction queue with
  | nil => exact List.Perm.nil
  | cons cache rest ih =>
    rw [trim]
    split
    · exact List.perm_middle.trans (ih.cons cache)
    · rw [evicted, List.filterMap_nil, List.append_nil]

/-- Messages are evicted from queues that are too long. -/
theorem length_of_mem_trim {queue q : List InspectCache} (hq : q ∈ (trim queue).2) : 10000 < q.length := by
  induction queue with
  | nil => cases hq
  | cons cache rest ih =>
    rw [trim] at hq
    split at hq
    · rename_i hlong
      rcases List.mem_cons.mp hq with rfl | hrest
      · exact hlong
      · exact ih hrest
    · cases hq

/-- A queue is what is written, what is left and what is lost. -/
theorem drain_perm (failing : Option Nat) (queue : List InspectCache) :
    ((drain failing queue).1 ++ (drain failing queue).2 ++ lost failing queue).Perm queue := by
  induction queue generalizing failing with
  | nil => cases failing <;> simp [drain, lost]
  | cons cache rest ih =>
    rcases failing with _ | _ | k
    · exact (ih none).cons cache
    · exact List.perm_append_comm
    · exact (ih (some k)).cons cache

namespace AbstractInspector

variable {s next : AbstractInspector} {a : Action}

/-- Every message that can be cached has been written, waits, or was the oldest when
the queue was too long. -/
def Accounted (s : AbstractInspector) : Prop :=
  ∀ cache ∈ s.submitted, cache.canCache = true → cache ∈ s.written ∨ cache ∈ s.cacheQueue ∨
    ∃ queue ∈ s.evictions, queue.head? = some cache ∧ 10000 < queue.length

/-- A write that throws is one of a message that cannot be cached. -/
def Kept (s : AbstractInspector) : Action → Prop
  | .writeToConsole thread canCache .ioException => s.writesAtOnce thread = true → canCache = false
  | .flushCache failing =>
    ∀ cache ∈ lost (if s.console.isSome then failing else some 0) s.cacheQueue, cache.canCache = false
  | _ => True

instance decidableKept (s : AbstractInspector) (a : Action) : Decidable (s.Kept a) :=
  match a with
  | .writeToConsole thread canCache .ioException =>
    inferInstanceAs (Decidable (s.writesAtOnce thread = true → canCache = false))
  | .flushCache failing => inferInstanceAs (Decidable
      (∀ cache ∈ lost (if s.console.isSome then failing else some 0) s.cacheQueue, cache.canCache = false))
  | .writeToConsole _ _ .complete => isTrue trivial
  | .writeToConsole _ _ .networkOnMainThread => isTrue trivial
  | .connect _ => isTrue trivial
  | .closeConsole => isTrue trivial

/-- The messages that have not been lost. -/
def held (s : AbstractInspector) : List InspectCache := s.written ++ s.cacheQueue ++ evicted s.evictions

/-- Messages are numbered as they are submitted, and none is held twice. -/
structure Numbered (s : AbstractInspector) : Prop where
  numbers : ∀ cache ∈ s.submitted, cache.number < s.submitted.length
  held : ∀ cache ∈ s.held, cache ∈ s.submitted
  nodup : s.held.Nodup
  evictions : ∀ queue ∈ s.evictions, 10000 < queue.length

/-- What a step does to the messages: some are submitted, and some are lost. -/
structure Moves (s next : AbstractInspector) (added missing : List InspectCache) : Prop where
  submitted : next.submitted = s.submitted ++ added
  new : ∀ cache ∈ added, cache.number = s.submitted.length
  single : added.length ≤ 1
  held : (next.held ++ missing).Perm (s.held ++ added)
  evictions : ∀ queue ∈ next.evictions, queue ∈ s.evictions ∨ 10000 < queue.length

theorem Numbered.accounted_iff (hs : s.Numbered) :
    s.Accounted ↔ ∀ cache ∈ s.submitted, cache.canCache = true → cache ∈ s.held := by
  refine forall_congr' fun cache => forall_congr' fun _ => forall_congr' fun _ => ?_
  rw [AbstractInspector.held, List.mem_append, List.mem_append, or_assoc]
  refine or_congr_right (or_congr_right ?_)
  rw [evicted, List.mem_filterMap]
  constructor
  · rintro ⟨queue, hqueue, hhead, -⟩
    exact ⟨queue, hqueue, hhead⟩
  · rintro ⟨queue, hqueue, hhead⟩
    exact ⟨queue, hqueue, hhead, hs.evictions queue hqueue⟩

section Moves

variable {added missing : List InspectCache} (hs : s.Numbered) (hmoves : Moves s next added missing)

include hs hmoves

theorem Moves.not_mem {cache : InspectCache} (hnew : cache ∈ added) : cache ∉ s.submitted := by
  intro hold
  have hnumber := hs.numbers cache hold
  rw [hmoves.new cache hnew] at hnumber
  exact Nat.lt_irrefl _ hnumber

theorem Moves.nodup : (next.held ++ missing).Nodup := by
  rw [hmoves.held.nodup_iff, List.nodup_append]
  refine ⟨hs.nodup, ?_, fun first hfirst second hsecond heq => ?_⟩
  · rcases added with _ | ⟨cache, _ | ⟨other, rest⟩⟩
    · exact List.nodup_nil
    · exact List.pairwise_singleton _ cache
    · have hsingle := hmoves.single
      simp at hsingle
  · exact hmoves.not_mem hs hsecond (heq ▸ hs.held first hfirst)

theorem Moves.numbered : next.Numbered := by
  have hnodup := hmoves.nodup hs
  refine ⟨fun cache hcache => ?_, fun cache hcache => ?_, (List.nodup_append.mp hnodup).1, fun queue hqueue => ?_⟩
  · rw [hmoves.submitted, List.mem_append] at hcache
    rw [hmoves.submitted, List.length_append]
    rcases hcache with hold | hnew
    · exact Nat.lt_of_lt_of_le (hs.numbers cache hold) (Nat.le_add_right _ _)
    · rw [hmoves.new cache hnew]
      exact Nat.lt_add_of_pos_right (List.length_pos_of_mem hnew)
  · have hmem := hmoves.held.subset (List.mem_append_left missing hcache)
    rw [hmoves.submitted]
    rcases List.mem_append.mp hmem with hold | hnew
    · exact List.mem_append_left _ (hs.held cache hold)
    · exact List.mem_append_right _ hnew
  · rcases hmoves.evictions queue hqueue with hold | hlong
    · exact hs.evictions queue hold
    · exact hlong

/-- A step keeps the account exactly when what it loses cannot be cached. -/
theorem Moves.accounted_iff : next.Accounted ↔ s.Accounted ∧ ∀ cache ∈ missing, cache.canCache = false := by
  have hnodup := hmoves.nodup hs
  rw [(hmoves.numbered hs).accounted_iff, hs.accounted_iff]
  constructor
  · intro hnext
    refine ⟨fun cache hcache hcan => ?_, fun cache hcache => ?_⟩
    · have hheld := hnext cache (by rw [hmoves.submitted]; exact List.mem_append_left _ hcache) hcan
      rcases List.mem_append.mp (hmoves.held.subset (List.mem_append_left missing hheld)) with hold | hnew
      · exact hold
      · exact absurd hcache (hmoves.not_mem hs hnew)
    · by_contra hcan
      have hmem : cache ∈ next.submitted := by
        rw [hmoves.submitted]
        rcases List.mem_append.mp (hmoves.held.subset (List.mem_append_right next.held hcache)) with hold | hnew
        · exact List.mem_append_left _ (hs.held cache hold)
        · exact List.mem_append_right _ hnew
      have hheld := hnext cache hmem (by simpa using hcan)
      exact (List.nodup_append.mp hnodup).2.2 cache hheld cache hcache rfl
  · rintro ⟨hold, hmissing⟩ cache hcache hcan
    have hmem : cache ∈ s.held ++ added := by
      rw [hmoves.submitted] at hcache
      rcases List.mem_append.mp hcache with hbefore | hnew
      · exact List.mem_append_left _ (hold cache hbefore hcan)
      · exact List.mem_append_right _ hnew
    rcases List.mem_append.mp (hmoves.held.symm.subset hmem) with hheld | hlost
    · exact hheld
    · rw [hmissing cache hlost] at hcan
      cases hcan

end Moves

theorem Moves.of_evictions_eq {added missing : List InspectCache} (hsubmitted : next.submitted = s.submitted ++ added)
    (hnew : ∀ cache ∈ added, cache.number = s.submitted.length) (hsingle : added.length ≤ 1)
    (hevictions : next.evictions = s.evictions)
    (hheld : (next.written ++ next.cacheQueue ++ missing).Perm (s.written ++ s.cacheQueue ++ added)) :
    Moves s next added missing := by
  refine ⟨hsubmitted, hnew, hsingle, ?_, fun queue hqueue => Or.inl (hevictions ▸ hqueue)⟩
  rw [List.perm_iff_count] at hheld ⊢
  intro cache
  have hcount := hheld cache
  simp only [AbstractInspector.held, hevictions, List.count_append] at hcount ⊢
  omega

/-- A message that is offered, and the oldest ones that are evicted for it. -/
theorem moves_evict {cache : InspectCache} (hnumber : cache.number = s.submitted.length) :
    Moves s (({ s with submitted := s.submitted ++ [cache] } : AbstractInspector).offer cache).evict [cache] [] := by
  refine ⟨rfl, fun other hother => ?_, Nat.le_refl _, ?_, fun queue hqueue => ?_⟩
  · rw [List.mem_singleton.mp hother, hnumber]
  · rw [List.perm_iff_count]
    intro other
    have hcount := (trim_perm (s.cacheQueue ++ [cache])).count_eq other
    simp only [AbstractInspector.held, evict, offer, evicted_append, List.count_append, List.count_nil] at hcount ⊢
    omega
  · rcases List.mem_append.mp hqueue with hold | hlong
    · exact Or.inl hold
    · exact Or.inr (length_of_mem_trim hlong)

/-- What a submission loses. -/
theorem moves_writeToConsole (cache : InspectCache) (write : Write) (hnumber : cache.number = s.submitted.length) :
    ∃ missing, Moves s (s.writeToConsole cache write) [cache] missing ∧
      (s.Kept (.writeToConsole cache.thread cache.canCache write) ↔ ∀ m ∈ missing, m.canCache = false) := by
  have hnew : ∀ other ∈ [cache], other.number = s.submitted.length := by simp [hnumber]
  have hkept : (∀ m ∈ ([] : List InspectCache), m.canCache = false) ↔ True := by simp
  unfold AbstractInspector.writeToConsole
  dsimp only
  split
  · rename_i honce
    have honce : s.writesAtOnce cache.thread = true := honce
    cases write with
    | complete =>
      refine ⟨[], Moves.of_evictions_eq rfl hnew (Nat.le_refl _) rfl ?_, hkept.symm⟩
      rw [List.append_nil, List.append_assoc, List.append_assoc]
      exact List.Perm.append_left _ List.perm_append_comm
    | ioException =>
      refine ⟨[cache], Moves.of_evictions_eq rfl hnew (Nat.le_refl _) rfl (List.Perm.refl _), ?_⟩
      rw [List.forall_mem_singleton]
      exact ⟨fun h => h honce, fun h _ => h⟩
    | networkOnMainThread =>
      refine ⟨[], Moves.of_evictions_eq rfl hnew (Nat.le_refl _) rfl ?_, hkept.symm⟩
      rw [List.append_nil, List.append_assoc]
      exact List.Perm.refl _
  · rename_i honce
    have honce : ¬ s.writesAtOnce cache.thread = true := honce
    have hall : s.Kept (.writeToConsole cache.thread cache.canCache write) := by
      cases write with
      | complete => exact trivial
      | ioException => exact fun h => absurd h honce
      | networkOnMainThread => exact trivial
    by_cases hcan : cache.canCache = true
    · rw [if_pos hcan]
      exact ⟨[], moves_evict hnumber, iff_of_true hall (hkept.mpr trivial)⟩
    · rw [if_neg hcan]
      refine ⟨[cache], Moves.of_evictions_eq rfl hnew (Nat.le_refl _) rfl (List.Perm.refl _), iff_of_true hall ?_⟩
      rw [List.forall_mem_singleton]
      exact Bool.not_eq_true _ ▸ hcan

/-- What a step loses. -/
theorem moves_of_step (hstep : s.step a = .ok next) :
    ∃ added missing, Moves s next added missing ∧ (s.Kept a ↔ ∀ m ∈ missing, m.canCache = false) := by
  have hnone : ∀ m ∈ ([] : List InspectCache), m.number = s.submitted.length := by simp
  unfold step at hstep
  cases a with
  | writeToConsole thread canCache write =>
    cases hstep
    obtain ⟨missing, hmoves, hkept⟩ :=
      moves_writeToConsole (s := s) { number := s.submitted.length, thread, canCache } write rfl
    exact ⟨_, missing, hmoves, hkept⟩
  | flushCache failing =>
    cases hstep
    refine ⟨[], lost (if s.console.isSome then failing else some 0) s.cacheQueue, ?_, Iff.rfl⟩
    refine Moves.of_evictions_eq (List.append_nil _).symm hnone (Nat.zero_le _) rfl ?_
    unfold AbstractInspector.flushCache
    dsimp only
    rw [List.append_nil, List.append_assoc, List.append_assoc, ← List.append_assoc (drain _ _).1]
    exact List.Perm.append_left _ (drain_perm _ _)
  | connect console =>
    dsimp only at hstep
    split at hstep
    · cases hstep
      refine ⟨[], [], Moves.of_evictions_eq (List.append_nil _).symm hnone (Nat.zero_le _) rfl (List.Perm.refl _), ?_⟩
      exact iff_of_true trivial (by simp)
    · cases hstep
  | closeConsole =>
    cases hstep
    refine ⟨[], [], Moves.of_evictions_eq (List.append_nil _).symm hnone (Nat.zero_le _) rfl (List.Perm.refl _), ?_⟩
    exact iff_of_true trivial (by simp)

/-- In a run every message that can be cached is accounted for exactly when every write
that throws is one of a message that cannot be cached. -/
theorem accounted_iff_kept {actions : List Action} (hrun : run actions = .ok s) :
    s.Accounted ↔ Along step Kept initial actions := by
  have hinitial : initial.Numbered := by
    refine ⟨fun cache hcache => ?_, fun cache hcache => ?_, List.nodup_nil, fun queue hqueue => ?_⟩
    · cases hcache
    · cases hcache
    · cases hqueue
  have hgood : s.Accounted ↔ initial.Accounted ∧ Along step Kept initial actions := by
    refine run_good_iff (I := Numbered) (Q := fun _ => True) ?_ ?_ (fun _ _ => trivial) hinitial hrun
    · intro p action after _ hp hstep
      obtain ⟨added, missing, hmoves, -⟩ := moves_of_step hstep
      exact hmoves.numbered hp
    · intro p action after _ hp hstep
      obtain ⟨added, missing, hmoves, hkept⟩ := moves_of_step hstep
      rw [hmoves.accounted_iff hp, hkept]
  rw [hgood]
  refine and_iff_right fun cache hcache => ?_
  cases hcache

/-- A message that waits is written to the console that connects, and one that cannot be
cached is lost by the write that closes it. -/
def keptRun : List Action :=
  [.writeToConsole (.background 0) true .complete, .connect 0, .flushCache none,
    .writeToConsole (.background 0) false .ioException, .writeToConsole .main true .complete]

theorem accounted_keptRun : ∃ s, run keptRun = .ok s ∧ s.submitted.length = 3 ∧ s.Accounted := by
  have hkept : Along step Kept initial keptRun := by decide
  have hlength : (run keptRun).toOption.map (fun s => s.submitted.length) = some 3 := by decide
  cases hrun : run keptRun with
  | error e =>
    rw [hrun] at hlength
    cases hlength
  | ok s =>
    rw [hrun] at hlength
    exact ⟨s, rfl, Option.some.inj hlength, (accounted_iff_kept hrun).mpr hkept⟩

/-- A message is lost when the write to the console throws. -/
theorem failed_write_lost : ∃ s, run [.connect 0, .writeToConsole (.background 0) true .ioException] = .ok s ∧
    s.submitted = [⟨0, .background 0, true⟩] ∧ s.written = [] ∧ s.cacheQueue = [] ∧ s.evictions = [] ∧
    ¬ s.Accounted := by
  refine ⟨_, rfl, rfl, rfl, rfl, rfl, fun haccounted => ?_⟩
  rcases haccounted ⟨0, .background 0, true⟩ (List.mem_singleton.mpr rfl) rfl with hwritten | hwaits | ⟨_, hqueue, -⟩
  · cases hwritten
  · cases hwaits
  · cases hqueue

end AbstractInspector

end inspector.advisor
