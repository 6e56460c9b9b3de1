import Inspector.Script.LiveHooks

open machine throwing Relation

namespace inspector.script

variable {C : Type} [DecidableEq C]

namespace HookCall

omit [DecidableEq C] in
@[simp] theorem member_hookMethod (member : Member C) (ends : Except Throwable Unit) :
    (HookCall.hookMethod member ends).member = member := rfl

omit [DecidableEq C] in
@[simp] theorem member_printHook (member : Member C) (ends : Except Throwable Unit) :
    (HookCall.printHook member ends).member = member := rfl

omit [DecidableEq C] in
/-- A call that returns has not thrown. -/
theorem not_threw_of_ok {call : HookCall C} (hends : call.ends = .ok ()) : ¬ call.Threw := by
  rintro ⟨e, he⟩
  rw [hends] at he
  cases he

/-- The last call about a member. -/
def last (calls : List (HookCall C)) (member : Member C) : Option (HookCall C) :=
  calls.find? fun call => call.member = member

/-- The last call for a member is the one that was just made. -/
theorem last_cons_self (call : HookCall C) (calls : List (HookCall C)) :
    last (call :: calls) call.member = some call := List.find?_cons_of_pos (by simp)

/-- A call for another member does not change it. -/
theorem last_cons_ne {call : HookCall C} {calls : List (HookCall C)} {member : Member C}
    (hmember : call.member ≠ member) : last (call :: calls) member = last calls member :=
  List.find?_cons_of_neg (by simpa using hmember)

end HookCall

namespace HookState

/-- After the call its member is in the set, and no `Unhook` takes it out again. -/
structure Stuck (s : HookState C) (call : HookCall C) : Prop where
  claimed : call.member ∈ s.hookedSet
  unlisted : ∀ unhook ∈ s.hooks, unhook.hookedSet = true → unhook.unhook.hookedMethod ≠ call.member
  last : HookCall.last s.calls call.member = some call

variable {s next : HookState C} {call : HookCall C} {vm : Vm C} {P : Member C → Prop}

omit [DecidableEq C] in
/-- The member of a hook that was made for the set is in it. -/
theorem Claimed.mem_hookedSet (hclaimed : s.Claimed) {unhook : Unhook C} (hlisted : unhook ∈ s.hooks)
    (hset : unhook.hookedSet = true) : unhook.unhook.hookedMethod ∈ s.hookedSet := by
  apply hclaimed.claimed
  refine mem_live.mpr ⟨unhook.unhook, hclaimed.listed unhook hlisted, ?_, rfl⟩
  rw [← hclaimed.own unhook hlisted, hset]

/-- A member that is stuck stays so in an attempt on another one. -/
theorem Stuck.attempt (hstuck : s.Stuck call) {member : Member C} (hattempt : Attempt vm member s next) :
    next.Stuck call := by
  obtain ⟨hclaimed, hunlisted, hlast⟩ := hstuck
  have hother : member ∉ s.hookedSet → member ≠ call.member := by
    rintro hnew rfl
    exact hnew hclaimed
  cases hattempt with
  | refused e hnew hrefused =>
    refine ⟨List.mem_cons_of_mem member hclaimed, hunlisted, ?_⟩
    rw [HookCall.last_cons_ne]
    · exact hlast
    · exact hother hnew
  | unlisted e hnew hinstalled hfailed =>
    refine ⟨List.mem_cons_of_mem member hclaimed, hunlisted, ?_⟩
    rw [HookCall.last_cons_ne, HookCall.last_cons_ne]
    · exact hlast
    · exact hother hnew
    · exact hother hnew
  | hooked hnew hinstalled hprinted =>
    refine ⟨List.mem_cons_of_mem member hclaimed, ?_, ?_⟩
    · rw [List.forall_mem_append, List.forall_mem_singleton]
      exact ⟨hunlisted, fun _ => hother hnew⟩
    · rw [HookCall.last_cons_ne, HookCall.last_cons_ne]
      · exact hlast
      · exact hother hnew
      · exact hother hnew

/-- A member that is stuck stays so in every change. -/
theorem Stuck.change (hstuck : s.Stuck call) (hchange : Change vm P s next) : next.Stuck call := by
  cases hchange with
  | attempt member hmember hattempt => exact hstuck.attempt hattempt
  | removed unhook hlisted =>
    refine ⟨?_, fun other hmem => hstuck.unlisted other (List.mem_of_mem_erase hmem), hstuck.last⟩
    unfold HookState.removed
    by_cases hset : unhook.hookedSet = true
    · simp only [hset, if_true, List.mem_filter, decide_eq_true_eq]
      exact ⟨hstuck.claimed, (hstuck.unlisted unhook hlisted hset).symm⟩
    · simp only [hset]
      exact hstuck.claimed
  | other member userHook =>
    refine ⟨hstuck.claimed, ?_, hstuck.last⟩
    rw [List.forall_mem_append, List.forall_mem_singleton]
    exact ⟨hstuck.unlisted, nofun⟩

/-- A call that throws is the last one about its member. -/
theorem stuck_attempt (hclaimed : s.Claimed) (hstuck : ∀ call ∈ s.calls, call.Threw → s.Stuck call)
    {member : Member C} (hattempt : Attempt vm member s next) :
    ∀ call ∈ next.calls, call.Threw → next.Stuck call := by
  have hold : ∀ call ∈ s.calls, call.Threw → next.Stuck call :=
    fun call hcall hthrew => (hstuck call hcall hthrew).attempt hattempt
  have hlisted : member ∉ s.hookedSet →
      ∀ unhook ∈ s.hooks, unhook.hookedSet = true → unhook.unhook.hookedMethod ≠ member := by
    rintro hnew unhook hunhook hset rfl
    exact hnew (hclaimed.mem_hookedSet hunhook hset)
  cases hattempt with
  | refused e hnew hrefused =>
    refine List.forall_mem_cons.mpr ⟨fun _ => ?_, hold⟩
    exact ⟨List.mem_cons_self, hlisted hnew, HookCall.last_cons_self _ _⟩
  | unlisted e hnew hinstalled hfailed =>
    refine List.forall_mem_cons.mpr ⟨fun _ => ?_, List.forall_mem_cons.mpr ⟨?_, hold⟩⟩
    · exact ⟨List.mem_cons_self, hlisted hnew, HookCall.last_cons_self _ _⟩
    · exact fun hthrew => absurd hthrew (HookCall.not_threw_of_ok rfl)
  | hooked hnew hinstalled hprinted =>
    refine List.forall_mem_cons.mpr ⟨?_, List.forall_mem_cons.mpr ⟨?_, hold⟩⟩
    · exact fun hthrew => absurd hthrew (HookCall.not_threw_of_ok rfl)
    · exact fun hthrew => absurd hthrew (HookCall.not_threw_of_ok rfl)

/-- Every member of the set and every hook is what a call has led to. -/
structure Accounted (s : HookState C) : Prop where
  live : ∀ member ∈ s.hookedSet, member ∈ s.live ∨ ∃ e, .hookMethod member (.error e) ∈ s.calls
  unhooks : ∀ hook ∈ s.installed, hook ∈ s.hooks.map (·.unhook) ∨
    hook.throughFunction = true ∧ ∃ e, .printHook hook.hookedMethod (.error e) ∈ s.calls
  printed : ∀ member e, .printHook member (.error e) ∈ s.calls → member ∈ s.live

omit [DecidableEq C] in
/-- A hook in force that a command has made is live. -/
theorem live_of_installed (hook : Hook C) (hinstalled : hook ∈ s.installed) (hthrough : hook.throughFunction = true) :
    hook.hookedMethod ∈ s.live := mem_live.mpr ⟨hook, hinstalled, hthrough, rfl⟩

/-- Hooks stay on a member that is not the one they are taken off. -/
theorem Claimed.live_removed (hclaimed : s.Claimed) {unhook : Unhook C} (hlisted : unhook ∈ s.hooks)
    {member : Member C} (hlive : member ∈ s.live)
    (hother : unhook.hookedSet = true → unhook.unhook.hookedMethod ≠ member) : member ∈ (s.removed unhook).live := by
  obtain ⟨hook, hhook, hthrough, hmethod⟩ := mem_live.mp hlive
  refine mem_live.mpr ⟨hook, ?_, hthrough, hmethod⟩
  refine (List.mem_erase_of_ne ?_).mpr hhook
  rintro rfl
  exact hother ((hclaimed.own unhook hlisted).trans hthrough) hmethod

/-- Taking a hook off keeps the account of the calls. -/
theorem Accounted.removed (haccounted : s.Accounted) (hclaimed : s.Claimed)
    (hstuck : ∀ call ∈ s.calls, call.Threw → s.Stuck call) {unhook : Unhook C} (hlisted : unhook ∈ s.hooks) :
    (s.removed unhook).Accounted := by
  constructor
  · intro member hmember
    have hold : member ∈ s.hookedSet ∧ (unhook.hookedSet = true → unhook.unhook.hookedMethod ≠ member) := by
      unfold HookState.removed at hmember
      by_cases hset : unhook.hookedSet = true
      · simp only [hset, if_true, List.mem_filter, decide_eq_true_eq] at hmember
        exact ⟨hmember.1, fun _ => hmember.2.symm⟩
      · simp only [hset] at hmember
        exact ⟨hmember, fun h => absurd h hset⟩
    refine (haccounted.live member hold.1).imp_left ?_
    exact fun hlive => hclaimed.live_removed hlisted hlive hold.2
  · intro hook hhook
    obtain ⟨hne, hinstalled⟩ := hclaimed.installed.mem_erase_iff.mp hhook
    refine (haccounted.unhooks hook hinstalled).imp_left ?_
    intro hmem
    obtain ⟨other, hother, rfl⟩ := List.mem_map.mp hmem
    refine List.mem_map_of_mem ((List.mem_erase_of_ne ?_).mpr hother)
    rintro rfl
    exact hne rfl
  · intro member e hcall
    apply hclaimed.live_removed hlisted (haccounted.printed member e hcall)
    exact fun hset => (hstuck _ hcall ⟨e, rfl⟩).unlisted unhook hlisted hset

omit [DecidableEq C] in
/-- What is there stays accounted for, so that only what is new is left to account for. -/
theorem Accounted.extend (haccounted : s.Accounted) (hcalls : ∀ call ∈ s.calls, call ∈ next.calls)
    (hinstalled : ∀ hook ∈ s.installed, hook ∈ next.installed)
    (hhooks : ∀ hook ∈ s.hooks.map (·.unhook), hook ∈ next.hooks.map (·.unhook))
    (hset : ∀ member ∈ next.hookedSet, member ∉ s.hookedSet →
      member ∈ next.live ∨ ∃ e, .hookMethod member (.error e) ∈ next.calls)
    (hnew : ∀ hook ∈ next.installed, hook ∉ s.installed → hook ∈ next.hooks.map (·.unhook) ∨
      hook.throughFunction = true ∧ ∃ e, .printHook hook.hookedMethod (.error e) ∈ next.calls)
    (hprint : ∀ member e, .printHook member (.error e) ∈ next.calls →
      .printHook member (.error e) ∈ s.calls ∨ member ∈ next.live) : next.Accounted := by
  have hlive : ∀ member ∈ s.live, member ∈ next.live := by
    intro member hmember
    obtain ⟨hook, hhook, hthrough⟩ := mem_live.mp hmember
    exact mem_live.mpr ⟨hook, hinstalled hook hhook, hthrough⟩
  constructor
  · intro member hmember
    by_cases hold : member ∈ s.hookedSet
    · refine (haccounted.live member hold).imp (hlive member) ?_
      exact fun ⟨e, hcall⟩ => ⟨e, hcalls _ hcall⟩
    · exact hset member hmember hold
  · intro hook hhook
    by_cases hold : hook ∈ s.installed
    · refine (haccounted.unhooks hook hold).imp (hhooks hook) ?_
      exact fun ⟨hthrough, e, hcall⟩ => ⟨hthrough, e, hcalls _ hcall⟩
    · exact hnew hook hhook hold
  · intro member e hcall
    refine (hprint member e hcall).elim (fun hold => ?_) id
    exact hlive member (haccounted.printed member e hold)

omit [DecidableEq C] in
/-- An attempt adds its calls to the account. -/
theorem Accounted.attempt (haccounted : s.Accounted) {member : Member C} (hattempt : Attempt vm member s next) :
    next.Accounted := by
  cases hattempt with
  | refused e hnew hrefused =>
    refine haccounted.extend (fun _ => List.mem_cons_of_mem _) (fun _ => id) (fun _ => id) ?_ ?_ ?_
    · intro other hother hold
      obtain rfl | hmem := List.mem_cons.mp hother
      · exact Or.inr ⟨e, List.mem_cons_self⟩
      · exact absurd hmem hold
    · exact fun hook hhook hold => absurd hhook hold
    · intro other thrown hcall
      exact Or.inl (by simpa using hcall)
  | unlisted e hnew hinstalled hfailed =>
    refine haccounted.extend (fun _ hcall => List.mem_cons_of_mem _ (List.mem_cons_of_mem _ hcall))
      (fun _ => List.mem_cons_of_mem _) (fun _ => id) ?_ ?_ ?_
    · intro other hother hold
      obtain rfl | hmem := List.mem_cons.mp hother
      · exact Or.inl (live_of_installed (s.newHook other true) List.mem_cons_self rfl)
      · exact absurd hmem hold
    · intro hook hhook hold
      obtain rfl | hmem := List.mem_cons.mp hhook
      · exact Or.inr ⟨rfl, e, List.mem_cons_self⟩
      · exact absurd hmem hold
    · intro other thrown hcall
      obtain heq | hcall := List.mem_cons.mp hcall
      · cases heq
        exact Or.inr (live_of_installed (s.newHook member true) List.mem_cons_self rfl)
      · exact Or.inl (by simpa using hcall)
  | hooked hnew hinstalled hprinted =>
    refine haccounted.extend (fun _ hcall => List.mem_cons_of_mem _ (List.mem_cons_of_mem _ hcall))
      (fun _ => List.mem_cons_of_mem _) ?_ ?_ ?_ ?_
    · intro hook hhook
      rw [List.map_append]
      exact List.mem_append_left _ hhook
    · intro other hother hold
      obtain rfl | hmem := List.mem_cons.mp hother
      · exact Or.inl (live_of_installed (s.newHook other true) List.mem_cons_self rfl)
      · exact absurd hmem hold
    · intro hook hhook hold
      obtain rfl | hmem := List.mem_cons.mp hhook
      · rw [List.map_append]
        exact Or.inl (List.mem_append_right _ List.mem_cons_self)
      · exact absurd hmem hold
    · intro other thrown hcall
      exact Or.inl (by simpa using hcall)

/-- What holds of the hooks and the calls in every state. -/
structure Recorded (s : HookState C) : Prop extends Claimed s, Accounted s where
  stuck : ∀ call ∈ s.calls, call.Threw → s.Stuck call

/-- Every change keeps the record of the calls. -/
theorem Recorded.change (hrecorded : s.Recorded) (hchange : Change vm P s next) : next.Recorded := by
  refine ⟨hrecorded.toClaimed.change hchange, ?_, ?_⟩
  · cases hchange with
    | attempt member hmember hattempt => exact hrecorded.toAccounted.attempt hattempt
    | removed unhook hmem => exact hrecorded.toAccounted.removed hrecorded.toClaimed hrecorded.stuck hmem
    | other member userHook =>
      refine hrecorded.toAccounted.extend (fun _ => id) (fun _ => List.mem_cons_of_mem _) ?_ ?_ ?_ ?_
      · intro hook hhook
        rw [List.map_append]
        exact List.mem_append_left _ hhook
      · exact fun other hother hold => absurd hother hold
      · intro hook hhook hold
        obtain rfl | hmem := List.mem_cons.mp hhook
        · rw [List.map_append]
          exact Or.inl (List.mem_append_right _ List.mem_cons_self)
        · exact absurd hmem hold
      · exact fun other thrown hcall => Or.inl hcall
  · have hold : ∀ call ∈ s.calls, call.Threw → next.Stuck call :=
      fun call hcall hthrew => (hrecorded.stuck call hcall hthrew).change hchange
    cases hchange with
    | attempt member hmember hattempt => exact stuck_attempt hrecorded.toClaimed hrecorded.stuck hattempt
    | removed unhook hmem => exact hold
    | other member userHook => exact hold

/-- At first nothing has been called. -/
theorem recorded_initial : (initial : HookState C).Recorded := by
  refine ⟨⟨⟨?_, ?_, ?_, ?_⟩, ?_, ?_, ?_⟩, ⟨?_, ?_, ?_⟩, ?_⟩ <;> simp [initial, HookState.live]

/-- No hook is listed twice. -/
theorem Recorded.nodup (hrecorded : s.Recorded) : s.hooks.Nodup := List.Nodup.of_map _ hrecorded.hooks

/-- A request that is kept changes nothing in the record. -/
theorem Recorded.requested (hrecorded : s.Recorded) (requests : List HookFunctionRequest) :
    Recorded { s with hookList := requests } := by
  obtain ⟨⟨⟨hfresh, hinstalled, hhooks, hlisted⟩, hown, hclaimed, hone⟩, ⟨hlive, haccounted, hprinted⟩, hstuck⟩ :=
    hrecorded
  refine ⟨⟨⟨hfresh, hinstalled, hhooks, hlisted⟩, hown, hclaimed, hone⟩, ⟨hlive, haccounted, hprinted⟩, ?_⟩
  intro call hcall hthrew
  obtain ⟨hmem, hunlisted, hlast⟩ := hstuck call hcall hthrew
  exact ⟨hmem, hunlisted, hlast⟩

/-- So in every run the calls are recorded. -/
theorem run_recorded (hrecorded : s.Recorded) (events : List (HookEvent C)) : (s.run events).Recorded :=
  run_preserves (fun _ => Recorded.nodup) (fun _ requests h => h.requested requests)
    (fun _ _ _ _ => Recorded.change) hrecorded events

end HookState

end inspector.script
