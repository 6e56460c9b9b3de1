import Inspector.Script.HookFunction

open machine throwing Relation

namespace inspector.script

variable {C : Type}

/-- The hook that `hookMethod` of the framework installs next. -/
def HookState.newHook (s : HookState C) (member : Member C) (throughFunction : Bool) : Hook C where
  id := s.nextHook
  hookedMethod := member
  throughFunction := throughFunction

def Hook.toUnhook (hook : Hook C) : Unhook C where
  userHook := true
  unhook := hook
  hookedSet := true

variable [DecidableEq C]

/-- What `unhook` leaves if it throws nothing. -/
def HookState.removed (s : HookState C) (unhook : Unhook C) : HookState C :=
  { s with
    installed := s.installed.erase unhook.unhook
    hooks := s.hooks.erase unhook
    hookedSet := if unhook.hookedSet then s.hookedSet.filter (· ≠ unhook.unhook.hookedMethod) else s.hookedSet }

/-- What hooking a member does. -/
inductive Attempt (vm : Vm C) (member : Member C) : HookState C → HookState C → Prop where
  | refused (s : HookState C) (e : Throwable) (hnew : member ∉ s.hookedSet)
      (hrefused : vm.hookMethod member = .error e) :
      Attempt vm member s { s with
        hookedSet := member :: s.hookedSet
        calls := .hookMethod member (.error e) :: s.calls }
  | unlisted (s : HookState C) (e : Throwable) (hnew : member ∉ s.hookedSet)
      (hinstalled : vm.hookMethod member = .ok ()) (hfailed : vm.printHook member = .error e) :
      Attempt vm member s { s with
        hookedSet := member :: s.hookedSet
        installed := s.newHook member true :: s.installed
        nextHook := s.nextHook + 1
        calls := .printHook member (.error e) :: .hookMethod member (.ok ()) :: s.calls }
  | hooked (s : HookState C) (hnew : member ∉ s.hookedSet) (hinstalled : vm.hookMethod member = .ok ())
      (hprinted : vm.printHook member = .ok ()) :
      Attempt vm member s { s with
        hookedSet := member :: s.hookedSet
        hooks := s.hooks ++ [(s.newHook member true).toUnhook]
        installed := s.newHook member true :: s.installed
        nextHook := s.nextHook + 1
        calls := .printHook member (.ok ()) :: .hookMethod member (.ok ()) :: s.calls }

/-- Hooking a member that satisfies `P`. -/
def Attempts (vm : Vm C) (P : Member C → Prop) (s next : HookState C) : Prop :=
  ∃ member, P member ∧ Attempt vm member s next

/-- The single changes of the hooks. An event is a sequence of them. -/
inductive Change (vm : Vm C) (P : Member C → Prop) : HookState C → HookState C → Prop where
  | attempt {s next : HookState C} (member : Member C) (hmember : P member) (hattempt : Attempt vm member s next) :
      Change vm P s next
  | removed (s : HookState C) (unhook : Unhook C) (hlisted : unhook ∈ s.hooks) : Change vm P s (s.removed unhook)
  | other (s : HookState C) (member : Member C) (userHook : Bool) :
      Change vm P s { s with
        hooks := s.hooks ++ [{ userHook, unhook := s.newHook member false, hookedSet := false }]
        installed := s.newHook member false :: s.installed
        nextHook := s.nextHook + 1 }

omit [DecidableEq C] in
/-- An attempt on some member is one on a larger set of members. -/
theorem Attempts.mono {vm : Vm C} {P Q : Member C → Prop} {s next : HookState C}
    (hmembers : ∀ member, P member → Q member) (hattempts : Attempts vm P s next) : Attempts vm Q s next := by
  obtain ⟨member, hmember, hattempt⟩ := hattempts
  exact ⟨member, hmembers member hmember, hattempt⟩

section Hooks

variable {vm : Vm C} {s : HookState C} {member : Member C}

omit [DecidableEq C] in
/-- A member that cannot be hooked is in the set all the same, since it is put there first. -/
theorem hookMember_refused {e : Throwable} (hrefused : vm.hookMethod member = .error e) :
    (hookMember vm member).run.run s = (.error e, { s with
      hookedSet := member :: s.hookedSet
      calls := .hookMethod member (.error e) :: s.calls }) := by
  unfold hookMember executeHook hookMethod
  rw [hrefused]
  rfl

omit [DecidableEq C] in
/-- A hook whose text cannot be printed is in force, but not in the list. -/
theorem hookMember_unlisted {e : Throwable} (hinstalled : vm.hookMethod member = .ok ())
    (hunlisted : vm.printHook member = .error e) :
    (hookMember vm member).run.run s = (.error e, { s with
      hookedSet := member :: s.hookedSet
      installed := s.newHook member true :: s.installed
      nextHook := s.nextHook + 1
      calls := .printHook member (.error e) :: .hookMethod member (.ok ()) :: s.calls }) := by
  unfold hookMember executeHook hookMethod
  rw [hinstalled, hunlisted]
  rfl

omit [DecidableEq C] in
/-- A hook that is made and printed is in the list. -/
theorem hookMember_hooked (hinstalled : vm.hookMethod member = .ok ()) (hlisted : vm.printHook member = .ok ()) :
    (hookMember vm member).run.run s = (.ok (), { s with
      hookedSet := member :: s.hookedSet
      hooks := s.hooks ++ [(s.newHook member true).toUnhook]
      installed := s.newHook member true :: s.installed
      nextHook := s.nextHook + 1
      calls := .printHook member (.ok ()) :: .hookMethod member (.ok ()) :: s.calls }) := by
  unfold hookMember executeHook hookMethod
  rw [hinstalled, hlisted]
  rfl

omit [DecidableEq C] in
/-- One of these three is what becomes of a member. -/
theorem hookMember_attempt (hnew : member ∉ s.hookedSet) : Attempt vm member s ((hookMember vm member).after s) := by
  unfold Block.after
  cases hinstalled : vm.hookMethod member with
  | error e =>
    rw [hookMember_refused hinstalled]
    exact .refused s e hnew hinstalled
  | ok =>
    cases hprinted : vm.printHook member with
    | error e =>
      rw [hookMember_unlisted hinstalled hprinted]
      exact .unlisted s e hnew hinstalled hprinted
    | ok =>
      rw [hookMember_hooked hinstalled hprinted]
      exact .hooked s hnew hinstalled hprinted

/-- The loop passes over members that are in the set or are to be skipped. -/
theorem hookLoop_skip {skips : Member C → Bool} {rest : List (Member C)} {hooked : Bool}
    (hskip : member ∈ s.hookedSet ∨ skips member) :
    (hookLoop vm skips (member :: rest) hooked).run.run s = (hookLoop vm skips rest hooked).run.run s := by
  have hloop : (hookLoop vm skips (member :: rest) hooked).run.run s =
      (if member ∈ s.hookedSet ∨ skips member then hookLoop vm skips rest hooked
        else do
          hookMember vm member
          hookLoop vm skips rest true).run.run s := rfl
  rw [hloop, if_pos hskip]

/-- Any other member is hooked, and the loop goes on behind it. -/
theorem hookLoop_hook {skips : Member C → Bool} {rest : List (Member C)} {hooked : Bool}
    (hnew : ¬ (member ∈ s.hookedSet ∨ skips member)) :
    (hookLoop vm skips (member :: rest) hooked).run.run s =
      (hookMember vm member >>= fun _ => hookLoop vm skips rest true).run.run s := by
  have hloop : (hookLoop vm skips (member :: rest) hooked).run.run s =
      (if member ∈ s.hookedSet ∨ skips member then hookLoop vm skips rest hooked
        else do
          hookMember vm member
          hookLoop vm skips rest true).run.run s := rfl
  rw [hloop, if_neg hnew]

/-- The loop hooks only members of its list, and only those that are not in the set. -/
theorem hookLoop_moves (skips : Member C → Bool) (members : List (Member C)) (hooked : Bool) :
    Moves (Attempts vm fun member => member ∈ members ∧ skips member = false) (hookLoop vm skips members hooked) := by
  induction members generalizing hooked with
  | nil => exact Moves.of_pure hooked
  | cons member rest ih =>
    intro s
    have hrest : ∀ hooked, Moves (Attempts vm fun m => m ∈ member :: rest ∧ skips m = false)
        (hookLoop vm skips rest hooked) := by
      intro hooked
      apply Moves.mono _ (ih hooked)
      intro s next
      exact Attempts.mono fun m hm => ⟨List.mem_cons_of_mem member hm.1, hm.2⟩
    by_cases hskip : member ∈ s.hookedSet ∨ skips member
    · unfold Block.after
      rw [hookLoop_skip hskip]
      exact hrest hooked s
    · have hmember : member ∈ member :: rest ∧ skips member = false := by
        refine ⟨List.mem_cons_self, ?_⟩
        simpa using fun h => hskip (Or.inr h)
      have hfirst : Attempt vm member s ((hookMember vm member).after s) :=
        hookMember_attempt fun h => hskip (Or.inl h)
      unfold Block.after
      rw [hookLoop_hook hskip]
      exact Moves.bind_at (.single ⟨member, hmember, hfirst⟩) fun _ => hrest true

end Hooks

section Naming

/-- The request selects the member if it is tried with the class loader. -/
def HookFunctionRequest.Names (request : HookFunctionRequest) (vm : Vm C) (classLoader : Option (ClassLoader C))
    (member : Member C) : Prop :=
  ∃ loader class1, classLoader = some loader ∧ loader.loadClass request.clazz = .ok class1 ∧
    if request.method = some "*" then
      ∃ constructors, vm.getDeclaredConstructors class1 = .ok constructors ∧ (member ∈ constructors ∨
        ∃ methods, vm.getDeclaredMethods class1 = .ok methods ∧ member ∈ methods ∧ isObjectMethod vm member = false)
    else
      ∃ paramClass members, request.params.mapM (findClass vm loader) = .ok paramClass ∧
        request.getHookMethods vm class1 paramClass = .ok members ∧ member ∈ members

/-- The event tries a request that names the member: a new one, or one of those that are
kept if there is a new class loader. -/
def HookEvent.Names (s : HookState C) (event : HookEvent C) (member : Member C) : Prop :=
  match event.action with
  | .executeHook request dumpDexFiles application =>
    (∃ dexes, dumpDexFiles = .ok dexes ∧ ∃ dex ∈ dexes, request.Names event.vm dex.classLoader member) ∨
      ∃ classLoader, application = some classLoader ∧ request.Names event.vm classLoader member
  | .notifyClassLoader classLoader => ∃ request ∈ s.hookList, request.Names event.vm classLoader member
  | _ => False

variable {vm : Vm C} {s : HookState C}

/-- A request attempts the members that it names and no others. -/
theorem tryHook_moves (request : HookFunctionRequest) (classLoader : Option (ClassLoader C)) :
    Moves (Attempts vm (request.Names vm classLoader)) (request.tryHook vm classLoader) := by
  unfold HookFunctionRequest.tryHook
  cases classLoader with
  | none => exact Moves.of_pure false
  | some classLoader =>
    apply Moves.ofExcept_bind
    intro class1 hclass
    apply Moves.ofExcept_bind
    intro _ _
    by_cases hall : request.method = some "*"
    · rw [if_pos hall]
      apply Moves.ofExcept_bind
      intro constructors hconstructors
      apply Moves.bind
      · apply Moves.mono _ (hookLoop_moves _ constructors false)
        intro s next
        apply Attempts.mono
        intro member hmember
        refine ⟨classLoader, class1, rfl, hclass, ?_⟩
        rw [if_pos hall]
        exact ⟨constructors, hconstructors, Or.inl hmember.1⟩
      · intro _
        apply Moves.ofExcept_bind
        intro methods hmethods
        apply Moves.bind
        · apply Moves.mono _ (hookLoop_moves _ methods false)
          intro s next
          apply Attempts.mono
          intro member hmember
          refine ⟨classLoader, class1, rfl, hclass, ?_⟩
          rw [if_pos hall]
          exact ⟨constructors, hconstructors, Or.inr ⟨methods, hmethods, hmember⟩⟩
        · exact fun _ => Moves.of_pure true
    · rw [if_neg hall]
      apply Moves.ofExcept_bind
      intro paramClass hparams
      apply Moves.ofExcept_bind
      intro members hmembers
      apply Moves.mono _ (hookLoop_moves _ members false)
      intro s next
      apply Attempts.mono
      intro member hmember
      refine ⟨classLoader, class1, rfl, hclass, ?_⟩
      rw [if_neg hall]
      exact ⟨paramClass, members, hparams, hmembers, hmember.1⟩

omit [DecidableEq C] in
/-- What is thrown does not undo the attempts before it. -/
theorem catchException_moves {P : Member C → Prop} {x : HookM C Bool} (hx : Moves (Attempts vm P) x) :
    Moves (Attempts vm P) (catchException x) := by
  apply Moves.tryCatch hx
  intro e
  split
  · exact Moves.of_pure false
  · exact Moves.of_throw e

/-- A request attempts the members that it names in some dex file. -/
theorem dexLoop_moves {P : Member C → Prop} (request : HookFunctionRequest) (dexes : List (DexFileProvider C))
    (hdexes : ∀ dex ∈ dexes, ∀ member, request.Names vm dex.classLoader member → P member) (successfully : Bool) :
    Moves (Attempts vm P) (dexLoop vm request dexes successfully) := by
  induction dexes generalizing successfully with
  | nil => exact Moves.of_pure successfully
  | cons dex rest ih =>
    obtain ⟨hdex, hrest⟩ := List.forall_mem_cons.mp hdexes
    apply Moves.bind
    · apply catchException_moves
      apply Moves.bind
      · apply Moves.mono _ (tryHook_moves request dex.classLoader)
        exact fun s next => Attempts.mono hdex
      · intro hooked
        cases hooked with
        | false => exact Moves.of_pure false
        | true => exact Moves.ofExcept_bind fun _ _ => Moves.of_pure true
    · exact fun hooked => ih hrest (successfully || hooked)

/-- A new class loader attempts the members that the kept requests name in it. -/
theorem notifyLoop_moves {P : Member C → Prop} (classLoader : Option (ClassLoader C))
    (requests : List HookFunctionRequest)
    (hrequests : ∀ request ∈ requests, ∀ member, request.Names vm classLoader member → P member) :
    Moves (Attempts vm P) (notifyLoop vm classLoader requests) := by
  induction requests with
  | nil => exact Moves.of_pure ()
  | cons request rest ih =>
    obtain ⟨hrequest, hrest⟩ := List.forall_mem_cons.mp hrequests
    apply Moves.bind
    · apply Moves.tryCatch
      · apply Moves.mono _ (tryHook_moves request classLoader)
        exact fun s next => Attempts.mono hrequest
      · exact fun _ => Moves.of_pure false
    · exact fun _ => ih hrest

/-- A hook that is taken off leaves the list, and its member leaves the set if it was there for
it. -/
theorem unhook_ok {unhook : Unhook C} (hinternal : vm.unhook unhook.unhook.hookedMethod = .ok ()) :
    (AbstractUnhook.unhook vm unhook).run.run s = (.ok (), s.removed unhook) := by
  unfold AbstractUnhook.unhook unhookInternal HookState.removed
  rw [hinternal]
  cases unhook.hookedSet <;> rfl

/-- A hook that cannot be taken off stays where it is. -/
theorem unhook_error {unhook : Unhook C} {e : Throwable}
    (hinternal : vm.unhook unhook.unhook.hookedMethod = .error e) :
    (AbstractUnhook.unhook vm unhook).run.run s = (.error e, s) := by
  unfold AbstractUnhook.unhook unhookInternal
  rw [hinternal]
  rfl

/-- Taking a hook off is at most one change. -/
theorem unhook_changes {P : Member C → Prop} {unhook : Unhook C} (hlisted : unhook ∈ s.hooks) :
    ReflTransGen (Change vm P) s ((AbstractUnhook.unhook vm unhook).after s) := by
  unfold Block.after
  cases hinternal : vm.unhook unhook.unhook.hookedMethod with
  | error e => rw [unhook_error hinternal]
  | ok =>
    rw [unhook_ok hinternal]
    exact .single (.removed s unhook hlisted)

/-- Each of several hooks of the list is still there when its turn comes. -/
theorem unhookLoop_changes {P : Member C → Prop} {unhooks : List (Unhook C)} (hnodup : unhooks.Nodup)
    (hlisted : ∀ unhook ∈ unhooks, unhook ∈ s.hooks) :
    ReflTransGen (Change vm P) s ((unhookLoop vm unhooks).after s) := by
  induction unhooks generalizing s with
  | nil => exact .refl
  | cons unhook rest ih =>
    obtain ⟨hunhook, hrest⟩ := List.forall_mem_cons.mp hlisted
    obtain ⟨hother, hnodup⟩ := List.nodup_cons.mp hnodup
    unfold Block.after unhookLoop
    cases hinternal : vm.unhook unhook.unhook.hookedMethod with
    | error e => rw [Block.run_bind_error (unhook_error hinternal)]
    | ok =>
      rw [Block.run_bind (unhook_ok hinternal)]
      apply ReflTransGen.head (.removed s unhook hunhook)
      apply ih hnodup
      intro other hmem
      refine (List.mem_erase_of_ne ?_).mpr (hrest other hmem)
      rintro rfl
      exact hother hmem

/-- A new request is kept before it is tried. -/
def HookEvent.requested (s : HookState C) (event : HookEvent C) : HookState C :=
  match event.action with
  | .executeHook request .. => { s with hookList := s.hookList ++ [request] }
  | _ => s

/-- A command attempts the members that it names in a dex file or in the application. -/
theorem executeHook_attempts {P : Member C → Prop} (request : HookFunctionRequest)
    (dumpDexFiles : Except Throwable (List (DexFileProvider C))) (application : Option (Option (ClassLoader C)))
    (hdexes : ∀ dexes, dumpDexFiles = .ok dexes →
      ∀ dex ∈ dexes, ∀ member, request.Names vm dex.classLoader member → P member)
    (happlication : ∀ classLoader, application = some classLoader →
      ∀ member, request.Names vm classLoader member → P member) :
    ReflTransGen (Attempts vm P) { s with hookList := s.hookList ++ [request] }
      ((HookFunction.executeHook vm request dumpDexFiles application).after s) := by
  refine Moves.ofExcept_bind ?_ _
  intro dexes hdump
  apply Moves.bind (dexLoop_moves request dexes (hdexes dexes hdump) false)
  intro successfully
  cases successfully with
  | true => exact Moves.of_pure ()
  | false =>
    cases application with
    | none => exact Moves.of_pure ()
    | some classLoader =>
      apply Moves.bind
      · apply catchException_moves
        apply Moves.mono _ (tryHook_moves request classLoader)
        exact fun s next => Attempts.mono (happlication classLoader rfl)
      · exact fun _ => Moves.of_pure ()

/-- An index that is in the list takes its hook off, any other does nothing. -/
theorem unhookIndex_changes {P : Member C → Prop} (index : Int) :
    ReflTransGen (Change vm P) s ((unhookIndex vm index).after s) := by
  have hget : (get : HookM C (HookState C)).run.run s = (.ok s, s) := rfl
  unfold Block.after unhookIndex
  rw [Block.run_bind hget]
  cases hindex : getHook s index with
  | none => exact .refl
  | some unhook =>
    apply unhook_changes
    unfold getHook at hindex
    split at hindex
    · exact List.mem_of_getElem? hindex
    · cases hindex

/-- Attempts are changes. -/
theorem changes_of_attempts {P : Member C → Prop} {next : HookState C}
    (hattempts : ReflTransGen (Attempts vm P) s next) : ReflTransGen (Change vm P) s next := by
  refine ReflTransGen.mono ?_ s next hattempts
  rintro s next ⟨member, hmember, hattempt⟩
  exact .attempt member hmember hattempt

/-- A hook that is made directly is a change of its own, without a look at the set. -/
theorem hookMethod_changes {P : Member C → Prop} (member : Member C) (userHook : Bool) :
    ReflTransGen (Change vm P) s ((Hooker.hookMethod vm member userHook).after s) := by
  unfold Block.after Hooker.hookMethod hookMethod
  cases vm.hookMethod member with
  | error e => exact .refl
  | ok => exact .single (.other s member userHook)

/-- An event is a sequence of changes, which hook only members that it names. -/
theorem event_changes (event : HookEvent C) (hnodup : s.hooks.Nodup) :
    ReflTransGen (Change event.vm (event.Names s)) (event.requested s) (event.block.after s) := by
  obtain ⟨vm, action⟩ := event
  cases action with
  | executeHook request dumpDexFiles application =>
    apply changes_of_attempts
    apply executeHook_attempts
    · exact fun dexes hdump dex hdex member hmember => Or.inl ⟨dexes, hdump, dex, hdex, hmember⟩
    · exact fun classLoader happlication member hmember => Or.inr ⟨classLoader, happlication, hmember⟩
  | notifyClassLoader classLoader =>
    apply changes_of_attempts
    refine notifyLoop_moves classLoader s.hookList ?_ s
    exact fun request hrequest member hmember => ⟨request, hrequest, hmember⟩
  | unhook index => exact unhookIndex_changes index
  | unhookKeywords keywords =>
    refine unhookLoop_changes (hnodup.filter _) ?_
    exact fun unhook hunhook => List.mem_of_mem_filter hunhook
  | hookMethod member userHook => exact hookMethod_changes member userHook

/-- What every change preserves, and does not depend on the requests, a whole run preserves. -/
theorem run_preserves {I : HookState C → Prop} (hnodup : ∀ s, I s → s.hooks.Nodup)
    (hrequested : ∀ s requests, I s → I { s with hookList := requests })
    (hchange : ∀ vm P s next, I s → Change vm P s next → I next) (hinit : I s) (events : List (HookEvent C)) :
    I (s.run events) := by
  induction events generalizing s with
  | nil => exact hinit
  | cons event rest ih =>
    apply ih
    have hrequest : I (event.requested s) := by
      unfold HookEvent.requested
      split
      · exact hrequested s _ hinit
      · exact hinit
    exact invariant_of_reflTransGen (hchange event.vm (event.Names s)) hrequest (event_changes event (hnodup s hinit))

end Naming

end inspector.script
