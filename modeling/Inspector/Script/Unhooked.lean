import Inspector.Script.FailedHooks

open machine throwing Relation

namespace inspector.script

variable {C : Type}

def HookEvent.request (event : HookEvent C) : Option HookFunctionRequest :=
  match event.action with
  | .executeHook request .. => some request
  | _ => none

/-- Nothing is thrown while a member is hooked. -/
structure Vm.Quiet (vm : Vm C) : Prop where
  createCallback : ∀ callback, vm.createCallback callback = .ok ()
  hookMethod : ∀ member, vm.hookMethod member = .ok ()
  printHook : ∀ member, vm.printHook member = .ok ()

/-- `next` has what `s` has. -/
structure Grows (s next : HookState C) : Prop where
  hookedSet : ∀ member ∈ s.hookedSet, member ∈ next.hookedSet
  hooks : ∀ unhook ∈ s.hooks, unhook ∈ next.hooks

theorem Grows.refl (s : HookState C) : Grows s s := ⟨fun _ => id, fun _ => id⟩

/-- Growing on and on is growing. -/
theorem Grows.trans {s middle next : HookState C} (hfirst : Grows s middle) (hsecond : Grows middle next) :
    Grows s next :=
  ⟨fun member hmember => hsecond.hookedSet member (hfirst.hookedSet member hmember),
    fun unhook hunhook => hsecond.hooks unhook (hfirst.hooks unhook hunhook)⟩

/-- An attempt adds its member to the set. -/
theorem Attempt.hookedSet_eq {vm : Vm C} {member : Member C} {s next : HookState C}
    (hattempt : Attempt vm member s next) : next.hookedSet = member :: s.hookedSet := by
  cases hattempt with
  | refused e hnew hrefused => rfl
  | unlisted e hnew hinstalled hfailed => rfl
  | hooked hnew hinstalled hprinted => rfl

/-- An attempt takes nothing away. -/
theorem Attempt.grows {vm : Vm C} {member : Member C} {s next : HookState C} (hattempt : Attempt vm member s next) :
    Grows s next := by
  constructor
  · rw [hattempt.hookedSet_eq]
    exact fun _ => List.mem_cons_of_mem member
  · cases hattempt with
    | refused e hnew hrefused => exact fun _ => id
    | unlisted e hnew hinstalled hfailed => exact fun _ => id
    | hooked hnew hinstalled hprinted => exact fun _ => List.mem_append_left _

/-- Attempts take nothing away. -/
theorem Attempts.grows {vm : Vm C} {P : Member C → Prop} {s next : HookState C}
    (hattempts : ReflTransGen (Attempts vm P) s next) : Grows s next := by
  induction hattempts with
  | refl => exact .refl s
  | tail _ hlast ih =>
    obtain ⟨member, -, hattempt⟩ := hlast
    exact ih.trans hattempt.grows

variable [DecidableEq C]

/-- During the event `unhook()` of a hook of the member has returned, which a hook
function has made. -/
def HookEvent.Unhooks (s : HookState C) (event : HookEvent C) (member : Member C) : Prop :=
  ∃ unhook ∈ s.hooks, unhook.hookedSet = true ∧ unhook.unhook.hookedMethod = member ∧
    unhook ∉ (event.block.after s).hooks

section Quiet

variable {vm : Vm C} {s : HookState C} {member : Member C}

/-- If nothing is thrown, the loop leaves all its members in the set. -/
theorem hookLoop_quiet (hquiet : vm.Quiet) (skips : Member C → Bool) (members : List (Member C)) (hooked : Bool) :
    ∃ last next, (hookLoop vm skips members hooked).run.run s = (.ok last, next) ∧ Grows s next ∧
      ∀ member ∈ members, skips member = false → member ∈ next.hookedSet := by
  induction members generalizing hooked s with
  | nil => exact ⟨hooked, s, rfl, .refl s, nofun⟩
  | cons first rest ih =>
    by_cases hskip : first ∈ s.hookedSet ∨ skips first = true
    · obtain ⟨last, next, hrun, hgrows, hrest⟩ := ih (s := s) hooked
      refine ⟨last, next, (hookLoop_skip hskip).trans hrun, hgrows, List.forall_mem_cons.mpr ⟨?_, hrest⟩⟩
      intro hno
      rw [hno] at hskip
      exact hgrows.hookedSet first (hskip.resolve_right Bool.false_ne_true)
    · have hmember := hookMember_hooked (s := s) (hquiet.hookMethod first) (hquiet.printHook first)
      have hattempt : Attempt vm first s ((hookMember vm first).after s) :=
        hookMember_attempt fun h => hskip (Or.inl h)
      unfold Block.after at hattempt
      rw [hmember] at hattempt
      obtain ⟨last, next, hrun, hgrows, hrest⟩ := ih true
      refine ⟨last, next, ?_, hattempt.grows.trans hgrows, List.forall_mem_cons.mpr ⟨?_, hrest⟩⟩
      · rw [hookLoop_hook hskip, Block.run_bind hmember]
        exact hrun
      · exact fun _ => hgrows.hookedSet first List.mem_cons_self

/-- If nothing is thrown, a request leaves what it names in the set. -/
theorem tryHook_quiet (hquiet : vm.Quiet) {request : HookFunctionRequest} {classLoader : Option (ClassLoader C)}
    (hnames : request.Names vm classLoader member) :
    member ∈ ((request.tryHook vm classLoader).after s).hookedSet := by
  obtain ⟨loader, class1, rfl, hclass, hmember⟩ := hnames
  unfold Block.after HookFunctionRequest.tryHook
  rw [Block.run_ofExcept_bind hclass, Block.run_ofExcept_bind (hquiet.createCallback request.callback)]
  by_cases hall : request.method = some "*"
  · rw [if_pos hall] at hmember ⊢
    obtain ⟨constructors, hconstructors, hmem⟩ := hmember
    obtain ⟨_, middle, hfirst, -, hhooked⟩ := hookLoop_quiet (s := s) hquiet (fun _ => false) constructors false
    rw [Block.run_ofExcept_bind hconstructors, Block.run_bind hfirst]
    cases hmethods : vm.getDeclaredMethods class1 with
    | error e =>
      rcases hmem with hmem | ⟨methods, hdeclared, -⟩
      · exact hhooked member hmem rfl
      · rw [hmethods] at hdeclared
        cases hdeclared
    | ok methods =>
      obtain ⟨_, next, hsecond, hgrows, hrest⟩ :=
        hookLoop_quiet (s := middle) hquiet (isObjectMethod vm) methods false
      rw [Block.run_ofExcept_bind rfl, Block.run_bind hsecond]
      rcases hmem with hmem | ⟨declared, hdeclared, hmem, hobject⟩
      · exact hgrows.hookedSet member (hhooked member hmem rfl)
      · rw [hmethods] at hdeclared
        cases hdeclared
        exact hrest member hmem hobject
  · rw [if_neg hall] at hmember ⊢
    obtain ⟨paramClass, members, hparams, hmembers, hmem⟩ := hmember
    rw [Block.run_ofExcept_bind hparams, Block.run_ofExcept_bind hmembers]
    obtain ⟨last, next, hrun, -, hall⟩ := hookLoop_quiet (s := s) hquiet (fun _ => false) members false
    rw [hrun]
    exact hall member hmem rfl

/-- If nothing is thrown, a new class loader leaves what the requests name in the set. -/
theorem notifyLoop_quiet (hquiet : vm.Quiet) (classLoader : Option (ClassLoader C))
    {requests : List HookFunctionRequest} {request : HookFunctionRequest} (hrequest : request ∈ requests)
    (hnames : request.Names vm classLoader member) :
    member ∈ ((notifyLoop vm classLoader requests).after s).hookedSet := by
  induction requests generalizing s with
  | nil => cases hrequest
  | cons first rest ih =>
    have hloop : (notifyLoop vm classLoader (first :: rest)).after s =
        (notifyLoop vm classLoader rest).after ((first.tryHook vm classLoader).after s) := Block.after_caught _ _ _
    rw [hloop]
    obtain rfl | hrest := List.mem_cons.mp hrequest
    · have hmoves : Moves (Attempts vm fun _ => True) (notifyLoop vm classLoader rest) :=
        notifyLoop_moves classLoader rest fun _ _ _ _ => trivial
      exact (Attempts.grows (hmoves _)).hookedSet member (tryHook_quiet hquiet hnames)
    · exact ih hrest

end Quiet

namespace HookState

variable {vm : Vm C} {P : Member C → Prop} {s next : HookState C} {event : HookEvent C} {member : Member C}

/-- A change on other members leaves a member outside of the set. -/
theorem change_not_claimed (hchange : Change vm P s next) (hmember : ¬ P member) (hnot : member ∉ s.hookedSet) :
    member ∉ next.hookedSet := by
  cases hchange with
  | attempt other hother hattempt =>
    rw [hattempt.hookedSet_eq, List.mem_cons]
    rintro (rfl | hmem)
    · exact hmember hother
    · exact hnot hmem
  | removed unhook hlisted =>
    unfold HookState.removed
    split
    · exact fun hmem => hnot (List.mem_of_mem_filter hmem)
    · exact hnot
  | other other userHook => exact hnot

/-- An event that does not name a member does not hook it. -/
theorem event_not_claimed (hnodup : s.hooks.Nodup) (hnames : ¬ event.Names s member) (hnot : member ∉ s.hookedSet) :
    member ∉ (event.block.after s).hookedSet := by
  have hrequested : member ∉ (event.requested s).hookedSet := by
    unfold HookEvent.requested
    split
    · exact hnot
    · exact hnot
  have hstep : ∀ s next : HookState C, member ∉ s.hookedSet → Change event.vm (event.Names _) s next →
      member ∉ next.hookedSet := fun s next hnot hchange => change_not_claimed hchange hnames hnot
  exact invariant_of_reflTransGen hstep hrequested (event_changes event hnodup)

/-- An event that takes a hook off does not hook anything. -/
theorem not_names_of_unhooks (hunhooks : event.Unhooks s member) : ¬ event.Names s member := by
  obtain ⟨unhook, hlisted, -, -, hgone⟩ := hunhooks
  obtain ⟨vm, action⟩ := event
  cases action with
  | executeHook request dumpDexFiles application =>
    have hattempts : ReflTransGen (Attempts vm fun _ => True) { s with hookList := s.hookList ++ [request] }
        ((HookFunction.executeHook vm request dumpDexFiles application).after s) :=
      executeHook_attempts request dumpDexFiles application (fun _ _ _ _ _ _ => trivial) fun _ _ _ _ => trivial
    exact absurd ((Attempts.grows hattempts).hooks unhook hlisted) hgone
  | notifyClassLoader classLoader =>
    have hmoves : Moves (Attempts vm fun _ => True) (notifyLoop vm classLoader s.hookList) :=
      notifyLoop_moves classLoader s.hookList fun _ _ _ _ => trivial
    exact absurd ((Attempts.grows (hmoves s)).hooks unhook hlisted) hgone
  | unhook index => exact id
  | unhookKeywords keywords => exact id
  | hookMethod member userHook => exact id

/-- A hook function that is taken off takes its member out of the set. -/
theorem event_unhooked (hnodup : s.hooks.Nodup) (hunhooks : event.Unhooks s member) :
    member ∉ (event.block.after s).hookedSet := by
  have hnames := not_names_of_unhooks hunhooks
  obtain ⟨unhook, hlisted, hset, hmethod, hgone⟩ := hunhooks
  have hrequested : unhook ∈ (event.requested s).hooks ∨ member ∉ (event.requested s).hookedSet := by
    unfold HookEvent.requested
    split
    · exact Or.inl hlisted
    · exact Or.inl hlisted
  have hstep : ∀ middle next : HookState C, unhook ∈ middle.hooks ∨ member ∉ middle.hookedSet →
      Change event.vm (event.Names s) middle next → unhook ∈ next.hooks ∨ member ∉ next.hookedSet := by
    rintro middle next (hmem | hnot) hchange
    · cases hchange with
      | attempt other hother hattempt => exact Or.inl (hattempt.grows.hooks unhook hmem)
      | removed other hother =>
        by_cases heq : unhook = other
        · subst heq
          refine Or.inr ?_
          simp [HookState.removed, hset, hmethod]
        · exact Or.inl ((List.mem_erase_of_ne heq).mpr hmem)
      | other other userHook => exact Or.inl (List.mem_append_left _ hmem)
    · exact Or.inr (change_not_claimed hchange hnames hnot)
  have hafter := invariant_of_reflTransGen hstep hrequested (event_changes event hnodup)
  exact hafter.resolve_left hgone

/-- A change leaves the list of requests alone. -/
theorem change_hookList (hchange : Change vm P s next) : next.hookList = s.hookList := by
  cases hchange with
  | attempt other hother hattempt =>
    cases hattempt with
    | refused e hnew hrefused => rfl
    | unlisted e hnew hinstalled hfailed => rfl
    | hooked hnew hinstalled hprinted => rfl
  | removed unhook hlisted => rfl
  | other other userHook => rfl

omit [DecidableEq C] in
/-- A request is added at the end of the list. -/
theorem requested_hookList (s : HookState C) (event : HookEvent C) :
    (event.requested s).hookList = s.hookList ++ event.request.toList := by
  obtain ⟨vm, action⟩ := event
  cases action <;> simp [HookEvent.requested, HookEvent.request]

/-- An event adds its request, and nothing else, to the list. -/
theorem event_hookList (hnodup : s.hooks.Nodup) :
    (event.block.after s).hookList = s.hookList ++ event.request.toList := by
  rw [← requested_hookList]
  have hstep : ∀ middle next : HookState C, middle.hookList = (event.requested s).hookList →
      Change event.vm (event.Names s) middle next → next.hookList = (event.requested s).hookList :=
    fun middle next hmiddle hchange => (change_hookList hchange).trans hmiddle
  exact invariant_of_reflTransGen hstep rfl (event_changes event hnodup)

/-- Every request that was ever made is kept. -/
theorem run_hookList (hrecorded : s.Recorded) (events : List (HookEvent C)) :
    (s.run events).hookList = s.hookList ++ events.filterMap HookEvent.request := by
  induction events generalizing s with
  | nil => exact (List.append_nil _).symm
  | cons event rest ih =>
    have hnext : (event.block.after s).Recorded := run_recorded hrecorded [event]
    have hrest := ih hnext
    rw [event_hookList hrecorded.nodup] at hrest
    refine hrest.trans ?_
    cases hrequest : event.request with
    | none => simp [hrequest]
    | some request => simp [hrequest]

/-- A member that no event of a run names stays outside of the set. -/
theorem run_not_claimed (hrecorded : s.Recorded) (hnot : member ∉ s.hookedSet) {events : List (HookEvent C)}
    (hevents : Along step (fun s event => ¬ event.Names s member) s events) :
    member ∉ (s.run events).hookedSet := by
  induction events generalizing s with
  | nil => exact hnot
  | cons event rest ih =>
    obtain ⟨hnames, hrest⟩ := hevents
    apply ih (run_recorded hrecorded [event])
    · exact event_not_claimed hrecorded.nodup hnames hnot
    · exact hrest _ rfl

/-- For a new class loader for which nothing is thrown, a member that has no hook is hooked
if a request names it. -/
theorem notify_live_iff (hrecorded : s.Recorded) (hnot : member ∉ s.hookedSet) (hquiet : vm.Quiet)
    (classLoader : Option (ClassLoader C)) :
    member ∈ ((HookFunction.notifyClassLoader vm classLoader).after s).live ↔
      ∃ request ∈ s.hookList, request.Names vm classLoader member := by
  let event : HookEvent C := { vm, action := .notifyClassLoader classLoader }
  have hafter : ((HookFunction.notifyClassLoader vm classLoader).after s).Recorded := run_recorded hrecorded [event]
  constructor
  · intro hlive
    by_contra hnames
    have hevent : member ∉ (event.block.after s).hookedSet := event_not_claimed hrecorded.nodup hnames hnot
    exact hevent (hafter.claimed member hlive)
  · rintro ⟨request, hrequest, hnames⟩
    have hset : member ∈ ((HookFunction.notifyClassLoader vm classLoader).after s).hookedSet :=
      notifyLoop_quiet hquiet classLoader hrequest hnames
    rcases hafter.live member hset with hlive | ⟨e, hcall⟩
    · exact hlive
    · rcases event_calls event hrecorded.nodup _ hcall with hold | hanswered
      · exact absurd (hrecorded.stuck _ hold ⟨e, rfl⟩).claimed hnot
      · have hthrown : Except.error e = vm.hookMethod member := hanswered
        rw [hquiet.hookMethod member] at hthrown
        cases hthrown

/-- A hook that is taken off stays off until an event names its member. A new class loader
for which nothing is thrown then hooks the member again if a request names it that was ever
made. -/
theorem unhooked_until_named {before later : List (HookEvent C)} {event : HookEvent C} {member : Member C}
    (hunhooks : event.Unhooks ((initial : HookState C).run before) member)
    (hlater : Along step (fun s event => ¬ event.Names s member) ((initial : HookState C).run (before ++ [event]))
      later) :
    member ∉ ((initial : HookState C).run (before ++ event :: later)).live ∧
      ∀ (vm : Vm C) (classLoader : Option (ClassLoader C)), vm.Quiet →
        (member ∈ ((initial : HookState C).run
          (before ++ event :: later ++ [{ vm, action := .notifyClassLoader classLoader }])).live ↔
          ∃ request ∈ (before ++ event :: later).filterMap HookEvent.request,
            request.Names vm classLoader member) := by
  have hbefore : ((initial : HookState C).run before).Recorded := run_recorded recorded_initial before
  have hevent : ((initial : HookState C).run (before ++ [event])).Recorded := run_recorded recorded_initial _
  have hgone : member ∉ ((initial : HookState C).run (before ++ [event])).hookedSet := by
    rw [HookState.run, List.foldl_append]
    exact event_unhooked hbefore.nodup hunhooks
  have hnot := run_not_claimed hevent hgone hlater
  rw [HookState.run, HookState.run, ← List.foldl_append, List.append_assoc, List.singleton_append] at hnot
  have hrecorded : ((initial : HookState C).run (before ++ event :: later)).Recorded :=
    run_recorded recorded_initial _
  refine ⟨fun hlive => hnot (hrecorded.claimed member hlive), ?_⟩
  intro vm classLoader hquiet
  have hlist := run_hookList (recorded_initial : (initial : HookState C).Recorded) (before ++ event :: later)
  have hnotify := notify_live_iff hrecorded hnot hquiet classLoader
  rw [hlist] at hnotify
  rw [HookState.run, List.foldl_append]
  exact hnotify

def sampleUnhook : HookEvent Nat where
  vm := sampleVm (.ok ()) (.ok ())
  action := .unhook 0

/-- A class loader that is null, and one that does not know the class. -/
def sampleOthers : List (HookEvent Nat) :=
  [{ vm := sampleVm (.ok ()) (.ok ()), action := .notifyClassLoader none },
    { vm := sampleVm (.ok ()) (.ok ()),
      action := .notifyClassLoader (some { sampleLoader with loadClass := fun _ => .error .ClassNotFoundException }) }]

/-- The class loaders that come next leave the method alone, the one that knows its class
hooks it again. -/
theorem sampleUnhook_unhooked :
    .method 0 "run" [] 1 ∉ ((initial : HookState Nat).run
      ([sampleCommand (.ok ()) (.ok ())] ++ sampleUnhook :: sampleOthers)).live ∧
    .method 0 "run" [] 1 ∈ ((initial : HookState Nat).run
      ([sampleCommand (.ok ()) (.ok ())] ++ sampleUnhook :: sampleOthers ++ [sampleNotification])).live := by
  have hunhooks : sampleUnhook.Unhooks ((initial : HookState Nat).run [sampleCommand (.ok ()) (.ok ())])
      (.method 0 "run" [] 1) := by
    refine ⟨_, List.mem_cons_self, rfl, rfl, ?_⟩
    intro hmem
    cases hmem
  have hlater : Along step (fun s event => ¬ event.Names s (.method 0 "run" [] 1))
      ((initial : HookState Nat).run ([sampleCommand (.ok ()) (.ok ())] ++ [sampleUnhook])) sampleOthers := by
    refine ⟨?_, fun next hnext => ⟨?_, fun _ _ => trivial⟩⟩
    · rintro ⟨request, -, loader, class1, hloader, -⟩
      cases hloader
    · rintro ⟨request, -, loader, class1, hloader, hclass, -⟩
      cases hloader
      cases hclass
  obtain ⟨hgone, hback⟩ := unhooked_until_named hunhooks hlater
  refine ⟨hgone, ?_⟩
  have hquiet : (sampleVm (.ok ()) (.ok ())).Quiet := ⟨fun _ => rfl, fun _ => rfl, fun _ => rfl⟩
  refine (hback (sampleVm (.ok ()) (.ok ())) (some sampleLoader) hquiet).mpr ?_
  exact ⟨sampleRequest, List.mem_cons_self, sampleLoader, 0, rfl, rfl, [], _, rfl, rfl, List.mem_cons_self⟩

/-- A new class loader hooks a method again from which the hook was taken off, with no
command in between. -/
theorem unhooked_hooked_again :
    sampleUnhook.Unhooks ((initial : HookState Nat).run [sampleCommand (.ok ()) (.ok ())]) (.method 0 "run" [] 1) ∧
      .method 0 "run" [] 1 ∈ ((initial : HookState Nat).run
        ([sampleCommand (.ok ()) (.ok ())] ++ sampleUnhook :: [sampleNotification])).live ∧
      [sampleNotification].filterMap HookEvent.request = [] := by
  refine ⟨⟨_, List.mem_cons_self, rfl, rfl, ?_⟩, List.mem_cons_self, rfl⟩
  intro hmem
  cases hmem

end HookState

end inspector.script
