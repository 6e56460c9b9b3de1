import Inspector.Base.Ranges
import Inspector.Maps.NativeLibraryMapInfo

open text ranges

namespace inspector.maps.NativeLibraryMapInfo

def range (info : NativeLibraryMapInfo) : Range (List Char) :=
  { first := info.mStartAddr, last := info.mEndAddr, label := info.mLibrary }

def ofRange (r : Range (List Char)) : NativeLibraryMapInfo :=
  { mStartAddr := r.first, mEndAddr := r.last, mLibrary := r.label }

/-- The ranges of the file-backed lines. The other lines are skipped. -/
def fileBacked (lines : List (List Char)) : List (Range (List Char)) := (lines.filterMap readLine).map range

/-- The address range of a line lies within an entry. -/
def Holds (info line : NativeLibraryMapInfo) : Prop := info.range.Contains line.range

/-- What the entries of a listing should be. -/
structure Correct (lines : List (List Char)) (infos : List NativeLibraryMapInfo) : Prop where
  increasing : infos.Pairwise fun a b => a.mStartAddr < b.mStartAddr
  exactlyOne : ∀ line ∈ lines, ∀ info, readLine line = some info →
    ∃ entry ∈ infos, entry.Holds info ∧ entry.mLibrary = info.mLibrary ∧
      ∀ other ∈ infos, other.Holds info → other = entry
  atMostOne : ∀ address, ∀ a ∈ infos, ∀ b ∈ infos, a.isWithinLibrary address → b.isWithinLibrary address → a = b

/-- A line as the kernel writes it: two addresses, more columns and a path. -/
theorem readLine_of_format {s e middle path : List Char} {lo hi : Nat} (hlo : number 16 s = some lo)
    (hhi : number 16 e = some hi) (hlow : lo < 2 ^ 63) (hhigh : hi < 2 ^ 63) (hlength : 14 ≤ s.length + e.length)
    (hmiddle : '/' ∉ middle) :
    readLine (s ++ '-' :: (e ++ ' ' :: (middle ++ '/' :: path))) =
      some { mStartAddr := lo, mEndAddr := hi, mLibrary := '/' :: path } := by
  have hdash : '-' ∉ s := not_mem_of_number hlo (by decide)
  have hspace : ' ' ∉ e := not_mem_of_number hhi (by decide)
  have hslash : '/' ∉ s ++ '-' :: (e ++ ' ' :: middle) := by
    simp [not_mem_of_number hlo (show digit 16 '/' = none by decide),
      not_mem_of_number hhi (show digit 16 '/' = none by decide), hmiddle]
  have hsplit := indexOf_append hdash (e ++ ' ' :: (middle ++ '/' :: path))
  -- what lies behind the dash, and behind everything before the path
  have hbehind : (s ++ '-' :: (e ++ ' ' :: (middle ++ '/' :: path))).drop (s.length + 1) =
      e ++ ' ' :: (middle ++ '/' :: path) := by
    rw [← List.drop_drop, List.drop_left]
    rfl
  have hwhole : s ++ '-' :: (e ++ ' ' :: (middle ++ '/' :: path)) =
    (s ++ '-' :: (e ++ ' ' :: middle)) ++ '/' :: path := by
    simp
  have hlast : indexOfFrom (s ++ '-' :: (e ++ ' ' :: (middle ++ '/' :: path))) ' ' (s.length + 1) =
      some (s.length + 1 + e.length) := by
    rw [indexOfFrom, hbehind, indexOf_append hspace]
    rfl
  have hindex : indexOf (s ++ '-' :: (e ++ ' ' :: (middle ++ '/' :: path))) '/' =
      some (s ++ '-' :: (e ++ ' ' :: middle)).length := by
    rw [hwhole, indexOf_append hslash path]
  have hfirst : substring (s ++ '-' :: (e ++ ' ' :: (middle ++ '/' :: path))) 0 s.length = s := by
    rw [substring, List.take_left, List.drop_zero]
  have hsecond :
      substring (s ++ '-' :: (e ++ ' ' :: (middle ++ '/' :: path))) (s.length + 1) (s.length + 1 + e.length) = e := by
    rw [substring, List.drop_take, hbehind, Nat.add_sub_cancel_left, List.take_left]
  have hpath : (s ++ '-' :: (e ++ ' ' :: (middle ++ '/' :: path))).drop (s ++ '-' :: (e ++ ' ' :: middle)).length =
      '/' :: path := by
    rw [hwhole, List.drop_left]
  have hstart : parseLong 16 s = some (lo : Int) := parse_of_number hlo hlow
  have hend : parseLong 16 e = some (hi : Int) := parse_of_number hhi hhigh
  unfold readLine
  rw [if_neg (by simp only [List.length_append, List.length_cons]; omega), hsplit]
  simp only [hlast, hindex, hfirst, hsecond, hpath, hstart, hend]

theorem foldl_next {lines : List (List Char)} {r : Reading} {library : List Char}
    (hlibrary : r.library = some library) :
    (lines.foldl Reading.next r).addNativeLibraryMapInfo =
      r.list ++
        (mergeFrom { first := r.startAddr, last := r.endAddr, label := library } (fileBacked lines)).map ofRange := by
  induction lines generalizing r library with
  | nil => simp [Reading.addNativeLibraryMapInfo, hlibrary, fileBacked, mergeFrom, ofRange]
  | cons line lines ih =>
    rw [List.foldl_cons]
    cases hline : readLine line with
    | none =>
      have hskip : r.next line = r := by rw [Reading.next, hline]
      have hlines : fileBacked (line :: lines) = fileBacked lines := by simp [fileBacked, hline]
      rw [hskip, hlines, ih hlibrary]
    | some info =>
      have hlines : fileBacked (line :: lines) = info.range :: fileBacked lines := by simp [fileBacked, hline]
      rw [hlines, mergeFrom]
      by_cases hsame : info.mLibrary = library
      · have hnext : r.next line = { r with endAddr := info.mEndAddr } := by
          rw [Reading.next, hline]
          simp only [hlibrary, hsame, if_true]
        rw [hnext, if_pos (show info.range.label = library from hsame)]
        exact ih hlibrary
      · have hnext : r.next line = ⟨info.mStartAddr, info.mEndAddr, some info.mLibrary, r.addNativeLibraryMapInfo⟩ := by
          rw [Reading.next, hline]
          simp only [hlibrary, Option.some.injEq, Ne.symm hsame, if_false]
        rw [hnext, if_neg (show ¬ info.range.label = library from hsame), ih rfl]
        simp [Reading.addNativeLibraryMapInfo, hlibrary, ofRange, range]

/-- The entries are the merged ranges of the file-backed lines. -/
theorem readNativeLibraryMapInfo_eq (lines : List (List Char)) :
    readNativeLibraryMapInfo lines = (merge (fileBacked lines)).map ofRange := by
  unfold readNativeLibraryMapInfo
  induction lines with
  | nil => rfl
  | cons line lines ih =>
    rw [List.foldl_cons]
    cases hline : readLine line with
    | none =>
      have hskip : Reading.initial.next line = Reading.initial := by rw [Reading.next, hline]
      have hlines : fileBacked (line :: lines) = fileBacked lines := by simp [fileBacked, hline]
      rw [hskip, hlines, ih]
    | some info =>
      have hlines : fileBacked (line :: lines) = info.range :: fileBacked lines := by simp [fileBacked, hline]
      have hnext : Reading.initial.next line = ⟨info.mStartAddr, info.mEndAddr, some info.mLibrary, []⟩ := by
        rw [Reading.next, hline]
        rfl
      rw [hlines, hnext, foldl_next rfl]
      rfl

theorem ofRange_injective : Function.Injective ofRange := by
  rintro ⟨_, _, _⟩ ⟨_, _, _⟩ h
  cases h
  rfl

/-- The entries of a listing are right if no file-backed line begins where the one before
it ends, but for those of one path. -/
theorem correct_iff {lines : List (List Char)} (hsorted : Sorted (fileBacked lines)) :
    Correct lines (readNativeLibraryMapInfo lines) ↔
      (fileBacked lines).IsChain fun r s => r.label = s.label ∨ r.last < s.first := by
  have hmerged := hsorted.merge
  have hwithin : ∀ r : Range (List Char), ∀ address, (ofRange r).isWithinLibrary address = true ↔
      r.first ≤ address ∧ address ≤ r.last := by
    intro r address
    simp only [isWithinLibrary, Bool.and_eq_true, decide_eq_true_eq]
    rfl
  rw [readNativeLibraryMapInfo_eq, ← apart_merge_iff, ← hmerged.apart_iff]
  constructor
  · intro hcorrect address r hr r' hr' haddress haddress'
    refine ofRange_injective (hcorrect.atMostOne address _ (List.mem_map_of_mem hr) _ (List.mem_map_of_mem hr') ?_ ?_)
    · exact (hwithin r address).mpr haddress
    · exact (hwithin r' address).mpr haddress'
  · intro hapart
    refine ⟨List.pairwise_map.mpr hmerged.pairwise_first, fun line hline info hinfo => ?_, ?_⟩
    · have hmem : info.range ∈ fileBacked lines :=
        List.mem_map_of_mem (List.mem_filterMap.mpr ⟨line, hline, hinfo⟩)
      obtain ⟨t, ht, hcontains, hlabel⟩ := hsorted.exists_contains_merge hmem
      refine ⟨ofRange t, List.mem_map_of_mem ht, hcontains, hlabel, fun other hother hholds => ?_⟩
      obtain ⟨u, hu, rfl⟩ := List.mem_map.mp hother
      rw [hmerged.eq_of_contains (hsorted.nonempty _ hmem) hu ht hholds hcontains]
    · intro address a ha b hb haddress haddress'
      obtain ⟨r, hr, rfl⟩ := List.mem_map.mp ha
      obtain ⟨r', hr', rfl⟩ := List.mem_map.mp hb
      rw [hapart address r hr r' hr' ((hwithin r address).mp haddress) ((hwithin r' address).mp haddress')]

/-- Two libraries with an anonymous line between them. -/
def apartListing : List (List Char) :=
  ["00010000-00012000 r-xp 00000000 fe:00 11 /system/lib/libc.so".toList,
    "00012000-00013000 rw-p 00001000 fe:00 11 /system/lib/libc.so".toList,
    "00013000-00014000 rw-p 00000000 00:00 0".toList,
    "00014000-00015000 r-xp 00000000 fe:00 12 /system/lib/libm.so".toList]

theorem apartListing_correct : Correct apartListing (readNativeLibraryMapInfo apartListing) := by
  have hlines : fileBacked apartListing =
      [{ first := 0x10000, last := 0x12000, label := "/system/lib/libc.so".toList },
        { first := 0x12000, last := 0x13000, label := "/system/lib/libc.so".toList },
        { first := 0x14000, last := 0x15000, label := "/system/lib/libm.so".toList }] := by decide +kernel
  refine (correct_iff ⟨?_, ?_⟩).mpr ?_
  all_goals
    rw [hlines]
    simp

/-- Two libraries one behind the other. -/
def touchingListing : List (List Char) :=
  ["00010000-00012000 r-xp 00000000 fe:00 11 /system/lib/libc.so".toList,
    "00012000-00013000 r-xp 00000000 fe:00 12 /system/lib/libm.so".toList]

/-- The address where the second library begins is within both. -/
theorem touchingListing_not_correct : Sorted (fileBacked touchingListing) ∧
    ¬ Correct touchingListing (readNativeLibraryMapInfo touchingListing) := by
  have hlines : fileBacked touchingListing =
      [{ first := 0x10000, last := 0x12000, label := "/system/lib/libc.so".toList },
        { first := 0x12000, last := 0x13000, label := "/system/lib/libm.so".toList }] := by decide +kernel
  have hinfos : readNativeLibraryMapInfo touchingListing =
      [{ mStartAddr := 0x10000, mEndAddr := 0x12000, mLibrary := "/system/lib/libc.so".toList },
        { mStartAddr := 0x12000, mEndAddr := 0x13000, mLibrary := "/system/lib/libm.so".toList }] := by decide +kernel
  refine ⟨⟨?_, ?_⟩, fun hcorrect => ?_⟩
  · rw [hlines]
    simp
  · rw [hlines]
    simp
  · rw [hinfos] at hcorrect
    have hsame := hcorrect.atMostOne 0x12000 _ (.head _) _ (.tail _ (.head _)) (by decide) (by decide)
    revert hsame
    decide

end inspector.maps.NativeLibraryMapInfo
