import Mathlib.Data.List.Nodup
import Mathlib.Tactic.Common

/-- A map whose entries are in the order in which their keys were put first. -/
structure LinkedMap (κ ν : Type) where
  entries : List (κ × ν)
  nodup : (entries.map Prod.fst).Nodup
  deriving DecidableEq

namespace LinkedMap

variable {κ ν : Type}

def empty : LinkedMap κ ν := { entries := [], nodup := List.nodup_nil }

def size (m : LinkedMap κ ν) : Nat := m.entries.length

variable [DecidableEq κ]

/-- An entry with the key is changed where it stands. -/
def putEntry (entries : List (κ × ν)) (key : κ) (value : ν) : List (κ × ν) :=
  if key ∈ entries.map Prod.fst then entries.map fun entry => if entry.1 = key then (key, value) else entry
  else entries ++ [(key, value)]

variable {entries : List (κ × ν)} {key : κ} {value : ν}

theorem nodup_putEntry (hnodup : (entries.map Prod.fst).Nodup) : ((putEntry entries key value).map Prod.fst).Nodup := by
  unfold putEntry
  split
  · have hkeys : (entries.map fun entry => if entry.1 = key then (key, value) else entry).map Prod.fst =
        entries.map Prod.fst := by
      rw [List.map_map]
      refine List.map_congr_left fun entry _ => ?_
      change (if entry.1 = key then (key, value) else entry).1 = entry.1
      split
      · rename_i hkey
        exact hkey.symm
      · rfl
    rwa [hkeys]
  · rename_i hnew
    rw [List.map_append, List.map_singleton, List.nodup_append]
    refine ⟨hnodup, List.nodup_singleton key, fun other hother last hlast heq => ?_⟩
    obtain rfl := List.mem_singleton.mp hlast
    exact hnew (heq ▸ hother)

def put (m : LinkedMap κ ν) (key : κ) (value : ν) : LinkedMap κ ν :=
  { entries := putEntry m.entries key value, nodup := nodup_putEntry m.nodup }

/-- The entries are put one after the other. -/
def ofEntries (entries : List (κ × ν)) : LinkedMap κ ν := entries.foldl (fun m entry => m.put entry.1 entry.2) empty

theorem entries_foldl_put (m : LinkedMap κ ν) (entries : List (κ × ν))
    (hnodup : ((m.entries ++ entries).map Prod.fst).Nodup) :
    (entries.foldl (fun m entry => m.put entry.1 entry.2) m).entries = m.entries ++ entries := by
  induction entries generalizing m with
  | nil => exact (List.append_nil _).symm
  | cons entry rest ih =>
    have hnew : entry.1 ∉ m.entries.map Prod.fst := by
      intro hmem
      rw [List.map_append, List.nodup_append] at hnodup
      exact hnodup.2.2 _ hmem _ List.mem_cons_self rfl
    have hput : (m.put entry.1 entry.2).entries = m.entries ++ [entry] := if_neg hnew
    rw [List.foldl_cons, ih, hput, List.append_assoc, List.singleton_append]
    rwa [hput, List.append_assoc]

/-- Entries with different keys are all there, in their order. -/
theorem ofEntries_entries (m : LinkedMap κ ν) : ofEntries m.entries = m := by
  have hentries := entries_foldl_put (empty : LinkedMap κ ν) m.entries m.nodup
  obtain ⟨entries, hnodup⟩ := m
  unfold ofEntries
  generalize hfold : entries.foldl (fun m entry => m.put entry.1 entry.2) (empty : LinkedMap κ ν) = other at hentries
  obtain ⟨others, hothers⟩ := other
  obtain rfl : others = entries := hentries
  rfl

/-- No entry comes from nowhere. -/
theorem length_putEntry_le : (putEntry entries key value).length ≤ entries.length + 1 := by
  unfold putEntry
  split
  · rw [List.length_map]
    omega
  · simp

theorem mem_putEntry {entry : κ × ν} (hmem : entry ∈ putEntry entries key value) :
    entry ∈ entries ∨ entry = (key, value) := by
  unfold putEntry at hmem
  split at hmem
  · obtain ⟨other, hother, rfl⟩ := List.mem_map.mp hmem
    split
    · exact .inr rfl
    · exact .inl hother
  · simpa using hmem

theorem foldl_put_le (m : LinkedMap κ ν) (entries : List (κ × ν)) :
    (entries.foldl (fun m entry => m.put entry.1 entry.2) m).size ≤ m.size + entries.length ∧
      ∀ entry ∈ (entries.foldl (fun m entry => m.put entry.1 entry.2) m).entries,
        entry ∈ m.entries ∨ entry ∈ entries := by
  induction entries generalizing m with
  | nil => exact ⟨Nat.le_refl _, fun entry hentry => .inl hentry⟩
  | cons first rest ih =>
    obtain ⟨hsize, hmem⟩ := ih (m.put first.1 first.2)
    have hput : (m.put first.1 first.2).size ≤ m.size + 1 := length_putEntry_le
    rw [List.foldl_cons, List.length_cons]
    refine ⟨by omega, fun entry hentry => ?_⟩
    rcases hmem entry hentry with hold | hrest
    · rcases mem_putEntry hold with hold | rfl
      · exact .inl hold
      · exact .inr List.mem_cons_self
    · exact .inr (List.mem_cons_of_mem _ hrest)

theorem size_ofEntries_le (entries : List (κ × ν)) : (ofEntries entries).size ≤ entries.length := by
  have hsize := (foldl_put_le (empty : LinkedMap κ ν) entries).1
  rwa [show (empty : LinkedMap κ ν).size = 0 from rfl, Nat.zero_add] at hsize

theorem mem_of_mem_ofEntries {entry : κ × ν} (hmem : entry ∈ (ofEntries entries).entries) : entry ∈ entries :=
  ((foldl_put_le (empty : LinkedMap κ ν) entries).2 entry hmem).resolve_left nofun

end LinkedMap
