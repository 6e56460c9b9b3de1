import Inspector.Script.HookCalls

open machine throwing Relation

namespace inspector.script

namespace HookCall

variable {C : Type}

/-- The call ends as the framework answers. -/
def Answered (vm : Vm C) : HookCall C → Prop
  | .hookMethod member ends => ends = vm.hookMethod member
  | .printHook member ends => ends = vm.printHook member

end HookCall

namespace HookState

variable {C : Type} [DecidableEq C]

/-- A member has at most one hook, which the console can take off. -/
structure WellHooked (s : HookState C) : Prop where
  one : ∀ member, s.live.count member ≤ 1
  listed : ∀ hook ∈ s.installed, hook.throughFunction = true → ∃ unhook ∈ s.hooks, unhook.unhook = hook

/-- The members of the set are hooked, and a member that could not be hooked is not in it,
so that it is tried again. -/
structure Retryable (s : HookState C) : Prop where
  hooked : ∀ member ∈ s.hookedSet, member ∈ s.live
  retried : ∀ member call, HookCall.last s.calls member = some call → call.Threw → member ∉ s.hookedSet

variable {s next : HookState C} {vm : Vm C} {P : Member C → Prop}

omit [DecidableEq C] in
theorem attempt_calls {member : Member C} (hattempt : Attempt vm member s next) :
    ∀ call ∈ next.calls, call ∈ s.calls ∨ call.Answered vm := by
  cases hattempt with
  | refused e hnew hrefused => exact List.forall_mem_cons.mpr ⟨Or.inr hrefused.symm, fun _ => Or.inl⟩
  | unlisted e hnew hinstalled hfailed =>
    refine List.forall_mem_cons.mpr ⟨Or.inr hfailed.symm, ?_⟩
    exact List.forall_mem_cons.mpr ⟨Or.inr hinstalled.symm, fun _ => Or.inl⟩
  | hooked hnew hinstalled hprinted =>
    refine List.forall_mem_cons.mpr ⟨Or.inr hprinted.symm, ?_⟩
    exact List.forall_mem_cons.mpr ⟨Or.inr hinstalled.symm, fun _ => Or.inl⟩

theorem change_calls (hchange : Change vm P s next) : ∀ call ∈ next.calls, call ∈ s.calls ∨ call.Answered vm := by
  cases hchange with
  | attempt member hmember hattempt => exact attempt_calls hattempt
  | removed unhook hlisted => exact fun _ => Or.inl
  | other member userHook => exact fun _ => Or.inl

theorem event_calls (event : HookEvent C) (hnodup : s.hooks.Nodup) :
    ∀ call ∈ (event.block.after s).calls, call ∈ s.calls ∨ call.Answered event.vm := by
  have hrequested : ∀ call ∈ (event.requested s).calls, call ∈ s.calls ∨ call.Answered event.vm := by
    unfold HookEvent.requested
    split
    · exact fun _ => Or.inl
    · exact fun _ => Or.inl
  have hstep : ∀ middle next : HookState C, (∀ call ∈ middle.calls, call ∈ s.calls ∨ call.Answered event.vm) →
      Change event.vm (event.Names s) middle next → ∀ call ∈ next.calls, call ∈ s.calls ∨ call.Answered event.vm := by
    intro middle next hmiddle hchange call hcall
    rcases change_calls hchange call hcall with hold | hanswered
    · exact hmiddle call hold
    · exact Or.inr hanswered
  exact invariant_of_reflTransGen hstep hrequested (event_changes event hnodup)

/-- A member is hooked once, whatever is thrown. -/
theorem run_one (events : List (HookEvent C)) (member : Member C) :
    ((initial : HookState C).run events).live.count member ≤ 1 :=
  List.nodup_iff_count_le_one.mp (run_recorded recorded_initial events).one member

theorem Recorded.listed_iff (hrecorded : s.Recorded) :
    (∀ hook ∈ s.installed, hook.throughFunction = true → ∃ unhook ∈ s.hooks, unhook.unhook = hook) ↔
      ∀ member e, .printHook member (.error e) ∉ s.calls := by
  constructor
  · intro hlisted member e hcall
    obtain ⟨hook, hhook, hthrough, hmethod⟩ := mem_live.mp (hrecorded.printed member e hcall)
    obtain ⟨unhook, hunhook, rfl⟩ := hlisted hook hhook hthrough
    have hstuck := hrecorded.stuck _ hcall ⟨e, rfl⟩
    exact hstuck.unlisted unhook hunhook ((hrecorded.own unhook hunhook).trans hthrough) hmethod
  · intro hcalls hook hhook hthrough
    rcases hrecorded.unhooks hook hhook with hmem | ⟨-, e, hcall⟩
    · exact List.mem_map.mp hmem
    · exact absurd hcall (hcalls hook.hookedMethod e)

theorem wellHooked_iff (events : List (HookEvent C)) :
    ((initial : HookState C).run events).WellHooked ↔
      ∀ member e, .printHook member (.error e) ∉ ((initial : HookState C).run events).calls := by
  rw [← (run_recorded recorded_initial events).listed_iff]
  constructor
  · exact WellHooked.listed
  · exact fun hlisted => ⟨run_one events, hlisted⟩

theorem retryable_iff (events : List (HookEvent C)) :
    ((initial : HookState C).run events).Retryable ↔
      ∀ call ∈ ((initial : HookState C).run events).calls, ¬ call.Threw := by
  have hrecorded := run_recorded recorded_initial events
  constructor
  · intro hretryable call hcall hthrew
    obtain ⟨hclaimed, -, hlast⟩ := hrecorded.stuck call hcall hthrew
    exact hretryable.retried call.member call hlast hthrew hclaimed
  · intro hcalls
    constructor
    · intro member hmember
      rcases hrecorded.live member hmember with hlive | ⟨e, hcall⟩
      · exact hlive
      · exact absurd ⟨e, rfl⟩ (hcalls _ hcall)
    · intro member call hlast hthrew
      exact absurd hthrew (hcalls call (List.mem_of_find?_eq_some hlast))

end HookState

section Sample

/-- A class with one method. -/
def sampleVm (hookMethod printHook : Except Throwable Unit) : Vm Nat where
  getDeclaredConstructors _ := .ok []
  getDeclaredMethods class1 := .ok [.method class1 "run" [] 1]
  getDeclaredConstructor _ _ := .error .NoSuchMethodException
  getDeclaredMethod class1 name paramClass :=
    if name = "run" ∧ paramClass = [] then .ok (.method class1 "run" [] 1) else .error .NoSuchMethodException
  isNative _ := false
  objectMethods := []
  primitiveClass _ := 2
  stringClass := 3
  newArray _ _ := .ok 4
  toString _ := "public void com.example.Main.run()"
  createCallback _ := .ok ()
  hookMethod _ := hookMethod
  printHook _ := printHook
  unhook _ := .ok ()

def sampleLoader : ClassLoader Nat where
  loadClass clazz := if clazz = "com.example.Main" then .ok 0 else .error .ClassNotFoundException
  forName _ := .error .ClassNotFoundException

def sampleRequest : HookFunctionRequest where
  clazz := "com.example.Main"
  method := some "run"
  callback := none
  params := []

def sampleCommand (hookMethod printHook : Except Throwable Unit) : HookEvent Nat where
  vm := sampleVm hookMethod printHook
  action := .executeHook sampleRequest (.ok [{ classLoader := some sampleLoader, print := .ok () }]) none

def sampleNotification : HookEvent Nat where
  vm := sampleVm (.ok ()) (.ok ())
  action := .notifyClassLoader (some sampleLoader)

end Sample

namespace HookState

/-- A class loader whose text cannot be printed leaves a hook that cannot be taken off. -/
theorem unprinted_hook_unlisted :
    ¬ ((initial : HookState Nat).run [sampleCommand (.ok ()) (.error .exception)]).WellHooked := by
  intro hhooked
  obtain ⟨unhook, hunhook, -⟩ :=
    hhooked.listed { id := 0, hookedMethod := .method 0 "run" [] 1, throughFunction := true }
    List.mem_cons_self rfl
  cases hunhook

/-- A method that could not be hooked once is in the set with no hook, and the next class
loader does not hook it. -/
theorem failed_hook_skipped :
    ¬ ((initial : HookState Nat).run
      [sampleCommand (.error .exception) (.ok ()), sampleNotification]).Retryable := by
  intro hretryable
  have hlive := hretryable.hooked (.method 0 "run" [] 1) List.mem_cons_self
  cases hlive

end HookState

end inspector.script
