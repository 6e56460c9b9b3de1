import Inspector.Base.ByteBuffer
import Inspector.Base.Machine

open nio

namespace inspector.plugin

/-- What `Arrays.copyOfRange` throws. -/
inductive RangeException where
  | IllegalArgumentException
  | ArrayIndexOutOfBoundsException
  deriving DecidableEq, Repr

/-- `Arrays.copyOfRange`. There are zeros behind the end of the array. -/
def copyOfRange (original : List UInt8) (first last : Int) : Except RangeException (List UInt8) :=
  if last < first then .error .IllegalArgumentException
  else if first < 0 ∨ original.length < first then .error .ArrayIndexOutOfBoundsException
  else
    let newLength := (last - first).toNat
    let copied := (original.drop first.toNat).take newLength
    .ok (copied ++ List.replicate (newLength - copied.length) 0)

/-- The arguments of `MessageDigest.update`, one constructor for each overload that is hooked. -/
inductive Update where
  | array (input : List UInt8)
  | range (input : List UInt8) (offset len : Int)
  | buffer (input : ByteBuffer UInt8)

/-- A call, with the object it is made on as `toString` has it. -/
structure UpdateCall where
  thisObject : String
  update : Update

/-- What a hook hands to `inspect`. -/
structure Inspected where
  data : List UInt8
  label : String
  deriving DecidableEq, Repr

/-- The hooks that `hookHash` installs for the three overloads. The one for a buffer is called
before the buffer is read. -/
def hookUpdate (param : UpdateCall) : Except RangeException Inspected :=
  match param.update with
  | .array input => .ok { data := input, label := param.thisObject ++ " update" }
  | .range input offset len => do
    return { data := ← copyOfRange input offset len, label := param.thisObject ++ " update" }
  | .buffer input => .ok { data := input.toList, label := param.thisObject ++ " update" }

namespace Update

/-- The arguments that `MessageDigest` accepts. -/
def Accepted : Update → Prop
  | range input offset len => 0 ≤ offset ∧ 0 ≤ len ∧ offset + len ≤ input.length
  | _ => True

/-- The bytes that are fed to the digest. -/
def fed : Update → List UInt8
  | array input => input
  | range input offset len => (input.drop offset.toNat).take len.toNat
  | buffer input => input.toList

/-- A range, if there is one, begins with the first byte of its array. -/
def FromStart : Update → Prop
  | range _ offset _ => offset = 0
  | _ => True

end Update

/-- No hook throws, every report has the label of its object, and the reports together are
what is digested. -/
def Shown (calls : List UpdateCall) : Prop :=
  ∃ reports, calls.mapM hookUpdate = .ok reports ∧
    List.Forall₂ (fun call report => report.label = call.thisObject ++ " update") calls reports ∧
    reports.flatMap Inspected.data = calls.flatMap fun call => call.update.fed

section Hook

variable {call : UpdateCall} {report : Inspected}

/-- A range that begins with the first byte ends where its length says. -/
theorem hookUpdate_of_fromStart (haccepted : call.update.Accepted) (hstart : call.update.FromStart) :
    hookUpdate call = .ok { data := call.update.fed, label := call.thisObject ++ " update" } := by
  obtain ⟨thisObject, update⟩ := call
  cases update with
  | array input => rfl
  | buffer input => rfl
  | range input offset len =>
    obtain rfl : offset = 0 := hstart
    obtain ⟨-, hlen, hfits⟩ := haccepted
    have hcopy : copyOfRange input 0 len = .ok (input.take len.toNat) := by
      have hlength : (input.take len.toNat).length = len.toNat := by
        rw [List.length_take]
        omega
      unfold copyOfRange
      rw [if_neg (by omega), if_neg (by omega)]
      simp [hlength]
    simp [hookUpdate, hcopy, Update.fed]

theorem length_of_copyOfRange {original data : List UInt8} {first last : Int}
    (hcopy : copyOfRange original first last = .ok data) : first ≤ last ∧ data.length = (last - first).toNat := by
  unfold copyOfRange at hcopy
  split at hcopy
  · cases hcopy
  · split at hcopy
    · cases hcopy
    · cases hcopy
      refine ⟨by omega, ?_⟩
      simp only [List.length_append, List.length_replicate, List.length_take]
      omega

/-- A hook reports at most as much as is digested, and less if a range begins later. -/
theorem length_of_hookUpdate (haccepted : call.update.Accepted) (hhook : hookUpdate call = .ok report) :
    report.data.length ≤ call.update.fed.length ∧
      (report.data.length = call.update.fed.length → call.update.FromStart) := by
  obtain ⟨thisObject, update⟩ := call
  cases update with
  | array input =>
    cases hhook
    exact ⟨Nat.le_refl _, fun _ => trivial⟩
  | buffer input =>
    cases hhook
    exact ⟨Nat.le_refl _, fun _ => trivial⟩
  | range input offset len =>
    obtain ⟨hoffset, hlen, hfits⟩ := haccepted
    obtain ⟨data, hcopy, hpure⟩ := machine.bind_eq_ok.mp hhook
    cases hpure
    have hdata := length_of_copyOfRange hcopy
    have hfed : (Update.range input offset len).fed.length = len.toNat := by
      rw [Update.fed, List.length_take, List.length_drop]
      omega
    rw [hfed]
    change data.length ≤ len.toNat ∧ (data.length = len.toNat → offset = 0)
    omega

end Hook

variable {calls : List UpdateCall} {reports : List Inspected}

/-- No report makes up for what another one has left out. -/
theorem length_reports (haccepted : ∀ call ∈ calls, call.update.Accepted)
    (hhooks : List.Forall₂ (fun call report => hookUpdate call = .ok report) calls reports) :
    (reports.flatMap Inspected.data).length ≤ (calls.flatMap fun call => call.update.fed).length ∧
      ((reports.flatMap Inspected.data).length = (calls.flatMap fun call => call.update.fed).length →
        ∀ call ∈ calls, call.update.FromStart) := by
  induction hhooks with
  | nil => exact ⟨Nat.le_refl _, fun _ => nofun⟩
  | cons hhook _ ih =>
    obtain ⟨hfirst, hothers⟩ := List.forall_mem_cons.mp haccepted
    obtain ⟨hle, hstart⟩ := length_of_hookUpdate hfirst hhook
    obtain ⟨hrest, hstarts⟩ := ih hothers
    simp only [List.flatMap_cons, List.length_append, List.forall_mem_cons]
    refine ⟨by omega, fun hsame => ⟨hstart (by omega), hstarts (by omega)⟩⟩

/-- What is digested is shown when every range begins with the first byte of its array. -/
theorem shown_iff (haccepted : ∀ call ∈ calls, call.update.Accepted) :
    Shown calls ↔ ∀ call ∈ calls, call.update.FromStart := by
  constructor
  · rintro ⟨reports, hhooks, -, hsame⟩
    exact (length_reports haccepted (machine.mapM_eq_ok_iff.mp hhooks)).2 (congrArg List.length hsame)
  · intro hstarts
    refine ⟨calls.map fun call => { data := call.update.fed, label := call.thisObject ++ " update" }, ?_, ?_, ?_⟩
    · rw [machine.mapM_eq_ok_iff, List.forall₂_map_right_iff, List.forall₂_same]
      exact fun call hcall => hookUpdate_of_fromStart (haccepted call hcall) (hstarts call hcall)
    · rw [List.forall₂_map_right_iff, List.forall₂_same]
      exact fun _ _ => rfl
    · rw [List.flatMap_map]

/-- A digest that is fed an array, the first two bytes of another one and a buffer. -/
def fromStart : List UpdateCall :=
  [⟨"SHA-1", .array [1, 2, 3]⟩, ⟨"SHA-1", .range [4, 5, 6] 0 2⟩, ⟨"SHA-1", .buffer (ByteBuffer.allocate 4 7)⟩]

theorem shown_fromStart : Shown fromStart := by
  refine (shown_iff ?_).mpr ?_
  · simp [fromStart, Update.Accepted]
  · simp [fromStart, Update.FromStart]

/-- The hook reports one byte of the two from the second one on. -/
theorem not_shown_offset : Update.Accepted (.range [4, 5, 6] 1 2) ∧ ¬ Shown [⟨"SHA-1", .range [4, 5, 6] 1 2⟩] := by
  refine ⟨by simp [Update.Accepted], ?_⟩
  rintro ⟨reports, hhooks, -, hsame⟩
  have hreports : [⟨"SHA-1", .range [4, 5, 6] 1 2⟩].mapM hookUpdate = .ok [⟨[5], "SHA-1 update"⟩] := rfl
  rw [hreports] at hhooks
  cases hhooks
  exact absurd hsame (by decide)

end inspector.plugin
