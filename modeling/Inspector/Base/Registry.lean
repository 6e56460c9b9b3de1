import Inspector.Base.Machine

open machine

/-! A linked list that is searched for a key before a node is appended. -/

namespace registry

variable {α κ : Type} [DecidableEq κ] (key : α → κ)

/-- The loop over the nodes that have a next one. -/
def searchLoop (k : κ) : List α → Bool
  | node :: next :: rest => key node = k || searchLoop k (next :: rest)
  | _ => false

/-- Whether the search comes to a node with the key. -/
def found (nodes : List α) (k : κ) : Bool :=
  match nodes with
  | [] => false
  | first :: rest => key first = k || searchLoop key k (first :: rest)

def append (nodes : List α) (node : α) : List α := if found key nodes (key node) then nodes else nodes ++ [node]

/-- There is one node for each key, the first that there was. -/
structure Exact (nodes calls : List α) : Prop where
  one : ∀ c ∈ calls, (nodes.map key).count (key c) = 1
  first : ∀ n ∈ nodes, calls.find? (fun c => key c = key n) = some n

/-- The nodes and the calls have the same keys. -/
structure Covers (nodes calls : List α) : Prop where
  registered : ∀ c ∈ calls, key c ∈ nodes.map key
  called : ∀ n ∈ nodes, key n ∈ calls.map key

/-- The node that the search leaves out is the one that is asked for. -/
def Missed (nodes : List α) (k : κ) : Prop := 2 ≤ nodes.length ∧ nodes.getLast?.map key = some k

instance decidableMissed (nodes : List α) (k : κ) : Decidable (Missed key nodes k) :=
  inferInstanceAs (Decidable (_ ∧ _))

variable {key} {nodes calls : List α} {node : α} {k : κ}

theorem searchLoop_iff : searchLoop key k nodes = true ↔ k ∈ nodes.dropLast.map key := by
  induction nodes with
  | nil => simp [searchLoop]
  | cons first rest ih =>
    cases rest with
    | nil => simp [searchLoop]
    | cons next rest =>
      rw [searchLoop, Bool.or_eq_true, decide_eq_true_eq, ih, List.dropLast_cons_cons, List.map_cons, List.mem_cons]
      exact or_congr_left eq_comm

theorem mem_keys_of_found (hfound : found key nodes k = true) : k ∈ nodes.map key := by
  cases nodes with
  | nil => cases hfound
  | cons first rest =>
    rw [found, Bool.or_eq_true, decide_eq_true_eq, searchLoop_iff] at hfound
    rcases hfound with hfirst | hloop
    · exact List.mem_map.mpr ⟨first, List.mem_cons_self, hfirst⟩
    · obtain ⟨n, hn, hkey⟩ := List.mem_map.mp hloop
      exact List.mem_map.mpr ⟨n, List.dropLast_subset _ hn, hkey⟩

/-- The search comes to every key, save that of the last of several nodes. -/
theorem missed_of_not_found (hmem : k ∈ nodes.map key) (hnot : ¬ found key nodes k = true) : Missed key nodes k := by
  rcases List.eq_nil_or_concat nodes with rfl | ⟨start, last, rfl⟩
  · simp at hmem
  · rw [List.concat_eq_append] at *
    cases start with
    | nil =>
      rw [List.nil_append, List.map_singleton, List.mem_singleton] at hmem
      simp [found, hmem] at hnot
    | cons first rest =>
      rw [List.cons_append, found, Bool.or_eq_true, decide_eq_true_eq, searchLoop_iff, ← List.cons_append,
        List.dropLast_concat, not_or] at hnot
      rw [List.map_append, List.mem_append, List.map_singleton, List.mem_singleton] at hmem
      have hlast : key last = k := (hmem.resolve_left hnot.2).symm
      refine ⟨by simp, ?_⟩
      rw [List.getLast?_concat, Option.map_some, hlast]

/-- A key that only the last of several nodes has is not found. -/
theorem not_missed_of_found (hfound : found key nodes k = true) (hone : (nodes.map key).count k = 1) :
    ¬ Missed key nodes k := by
  rintro ⟨hlength, hlast⟩
  rcases List.eq_nil_or_concat nodes with rfl | ⟨start, last, rfl⟩
  · cases hfound
  · rw [List.concat_eq_append] at *
    rw [List.getLast?_concat, Option.map_some, Option.some_inj] at hlast
    rw [List.map_append, List.count_append, List.map_singleton, hlast, List.count_singleton_self] at hone
    have hstart : k ∉ start.map key := List.count_eq_zero.mp (by omega)
    cases start with
    | nil => simp at hlength
    | cons first rest =>
      rw [List.cons_append, found, Bool.or_eq_true, decide_eq_true_eq, searchLoop_iff, ← List.cons_append,
        List.dropLast_concat] at hfound
      rcases hfound with hfirst | hloop
      · exact hstart (List.mem_map.mpr ⟨first, List.mem_cons_self, hfirst⟩)
      · exact hstart hloop

theorem Covers.find_isSome (hcovers : Covers key nodes calls) {n : α} (hn : n ∈ nodes) :
    (calls.find? fun c => key c = key n).isSome = true := by
  obtain ⟨c, hc, hkey⟩ := List.mem_map.mp (hcovers.called n hn)
  rw [List.find?_isSome]
  exact ⟨c, hc, decide_eq_true hkey⟩

/-- A call after others is no first one of its key, if they have it. -/
theorem Covers.find_append (hcovers : Covers key nodes calls) {n : α} (hn : n ∈ nodes) :
    ((calls ++ [node]).find? fun c => key c = key n) = calls.find? fun c => key c = key n := by
  obtain ⟨c, hc⟩ := Option.isSome_iff_exists.mp (hcovers.find_isSome hn)
  rw [List.find?_append, hc]
  rfl

theorem Covers.append (hcovers : Covers key nodes calls) (node : α) :
    Covers key (append key nodes node) (calls ++ [node]) := by
  unfold registry.append
  split
  · rename_i hfound
    refine ⟨?_, fun n hn => ?_⟩
    · rw [List.forall_mem_append, List.forall_mem_singleton]
      exact ⟨hcovers.registered, mem_keys_of_found hfound⟩
    · rw [List.map_append]
      exact List.mem_append_left _ (hcovers.called n hn)
  · refine ⟨fun c hc => ?_, fun n hn => ?_⟩
    · rw [List.map_append, List.mem_append]
      rcases List.mem_append.mp hc with hc | hc
      · exact Or.inl (hcovers.registered c hc)
      · exact Or.inr (List.mem_map_of_mem hc)
    · rw [List.map_append, List.mem_append]
      rcases List.mem_append.mp hn with hn | hn
      · exact Or.inl (hcovers.called n hn)
      · exact Or.inr (List.mem_map_of_mem hn)

theorem exact_of_found (hcovers : Covers key nodes calls) (hfound : found key nodes (key node) = true) :
    Exact key nodes (calls ++ [node]) ↔ Exact key nodes calls := by
  constructor
  · rintro ⟨hone, hfirst⟩
    refine ⟨fun c hc => hone c (List.mem_append_left _ hc), fun n hn => ?_⟩
    rw [← hcovers.find_append hn]
    exact hfirst n hn
  · rintro ⟨hone, hfirst⟩
    refine ⟨?_, fun n hn => ?_⟩
    · rw [List.forall_mem_append, List.forall_mem_singleton]
      obtain ⟨n, hn, hkey⟩ := List.mem_map.mp (mem_keys_of_found hfound)
      obtain ⟨c, hc, hcall⟩ := List.mem_map.mp (hcovers.called n hn)
      refine ⟨hone, ?_⟩
      rw [← hkey, ← hcall]
      exact hone c hc
    · rw [hcovers.find_append hn]
      exact hfirst n hn

theorem exact_of_new (hcovers : Covers key nodes calls) (hnew : key node ∉ nodes.map key) :
    Exact key (nodes ++ [node]) (calls ++ [node]) ↔ Exact key nodes calls := by
  have hcount : ∀ c ∈ calls, ((nodes ++ [node]).map key).count (key c) = (nodes.map key).count (key c) := by
    intro c hc
    have hne : key node ≠ key c := fun heq => hnew (heq ▸ hcovers.registered c hc)
    rw [List.map_append, List.count_append, List.map_singleton, List.count_singleton, if_neg (by simpa using hne)]
    rfl
  constructor
  · rintro ⟨hone, hfirst⟩
    refine ⟨fun c hc => ?_, fun n hn => ?_⟩
    · rw [← hcount c hc]
      exact hone c (List.mem_append_left _ hc)
    · rw [← hcovers.find_append hn]
      exact hfirst n (List.mem_append_left _ hn)
  · rintro ⟨hone, hfirst⟩
    refine ⟨?_, ?_⟩
    · rw [List.forall_mem_append, List.forall_mem_singleton]
      refine ⟨fun c hc => (hcount c hc).trans (hone c hc), ?_⟩
      rw [List.map_append, List.count_append, List.count_eq_zero.mpr hnew, List.map_singleton,
        List.count_singleton_self]
    · rw [List.forall_mem_append, List.forall_mem_singleton]
      refine ⟨fun n hn => (hcovers.find_append hn).trans (hfirst n hn), ?_⟩
      have hnone : (calls.find? fun c => key c = key node) = none := by
        rw [List.find?_eq_none]
        intro c hc hkey
        exact hnew (of_decide_eq_true hkey ▸ hcovers.registered c hc)
      rw [List.find?_append, hnone]
      simp

/-- An appended node leaves one node for each key exactly if its key was not missed. -/
theorem exact_append_iff (hcovers : Covers key nodes calls) (node : α) :
    Exact key (append key nodes node) (calls ++ [node]) ↔ Exact key nodes calls ∧ ¬ Missed key nodes (key node) := by
  unfold append
  by_cases hfound : found key nodes (key node) = true
  · rw [if_pos hfound, exact_of_found hcovers hfound]
    refine ⟨fun hexact => ⟨hexact, ?_⟩, And.left⟩
    apply not_missed_of_found hfound
    exact ((exact_of_found hcovers hfound).mpr hexact).one node (by simp)
  · rw [if_neg hfound]
    by_cases hmem : key node ∈ nodes.map key
    · have hmissed := missed_of_not_found hmem hfound
      refine iff_of_false (fun hexact => ?_) fun h => h.2 hmissed
      have hone := hexact.one node (by simp)
      have hpos := List.count_pos_iff.mpr hmem
      rw [List.map_append, List.count_append, List.map_singleton, List.count_singleton_self] at hone
      omega
    · rw [exact_of_new hcovers hmem]
      refine (and_iff_left ?_).symm
      rintro ⟨-, hlast⟩
      obtain ⟨last, hget, hkey⟩ := Option.map_eq_some_iff.mp hlast
      exact hmem (List.mem_map.mpr ⟨last, List.mem_of_getLast? hget, hkey⟩)

end registry
