import Mathlib.Data.List.Nodup
import Inspector.Script.Change

open machine throwing Relation

namespace inspector.script

variable {C : Type}

@[simp] theorem HookState.newHook_id (s : HookState C) (member : Member C) (throughFunction : Bool) :
    (s.newHook member throughFunction).id = s.nextHook := rfl

@[simp] theorem HookState.newHook_hookedMethod (s : HookState C) (member : Member C) (throughFunction : Bool) :
    (s.newHook member throughFunction).hookedMethod = member := rfl

@[simp] theorem HookState.newHook_throughFunction (s : HookState C) (member : Member C) (throughFunction : Bool) :
    (s.newHook member throughFunction).throughFunction = throughFunction := rfl

/-- `next` has the same hooks as `s`, and maybe more members in its set. -/
structure Keeps (s next : HookState C) : Prop where
  nextHook : next.nextHook = s.nextHook
  installed : next.installed = s.installed
  hooks : next.hooks = s.hooks
  hookedSet : ∀ member ∈ s.hookedSet, member ∈ next.hookedSet

/-- `next` has one more hook than `s`, with or without its `Unhook` in the list. -/
structure Installs (s next : HookState C) (member : Member C) (throughFunction : Bool) : Prop where
  nextHook : next.nextHook = s.nextHook + 1
  installed : next.installed = s.newHook member throughFunction :: s.installed
  hooks : next.hooks = s.hooks ∨ ∃ unhook : Unhook C, unhook.unhook = s.newHook member throughFunction ∧
    unhook.hookedSet = throughFunction ∧ next.hooks = s.hooks ++ [unhook]
  hookedSet : next.hookedSet = if throughFunction then member :: s.hookedSet else s.hookedSet
  new : throughFunction = true → member ∉ s.hookedSet

/-- What a change does to the hooks. -/
theorem Change.effect [DecidableEq C] {vm : Vm C} {P : Member C → Prop} {s next : HookState C}
    (hchange : Change vm P s next) :
    Keeps s next ∨ (∃ member throughFunction, Installs s next member throughFunction) ∨
      ∃ unhook ∈ s.hooks, next = s.removed unhook := by
  cases hchange with
  | attempt member hmember hattempt =>
    cases hattempt with
    | refused e hnew hrefused => exact Or.inl ⟨rfl, rfl, rfl, fun _ => List.mem_cons_of_mem member⟩
    | unlisted e hnew hinstalled hfailed =>
      exact Or.inr (Or.inl ⟨member, true, rfl, rfl, Or.inl rfl, rfl, fun _ => hnew⟩)
    | hooked hnew hinstalled hprinted =>
      exact Or.inr (Or.inl ⟨member, true, rfl, rfl, Or.inr ⟨_, rfl, rfl, rfl⟩, rfl, fun _ => hnew⟩)
  | removed unhook hlisted => exact Or.inr (Or.inr ⟨unhook, hlisted, rfl⟩)
  | other member userHook =>
    exact Or.inr (Or.inl ⟨member, false, rfl, rfl, Or.inr ⟨_, rfl, rfl, rfl⟩, rfl, nofun⟩)

namespace HookState

/-- The members with a hook that a hook function has asked for, once for each hook. -/
def live (s : HookState C) : List (Member C) := (s.installed.filter (·.throughFunction)).map (·.hookedMethod)

/-- The hooks, and the list of them, are each one of their kind. -/
structure Distinct (s : HookState C) : Prop where
  fresh : ∀ hook ∈ s.installed, hook.id < s.nextHook
  installed : s.installed.Nodup
  hooks : (s.hooks.map (·.unhook)).Nodup
  listed : ∀ unhook ∈ s.hooks, unhook.unhook ∈ s.installed

/-- The set has the members that are hooked, each of which is hooked once. -/
structure Claimed (s : HookState C) : Prop extends Distinct s where
  own : ∀ unhook ∈ s.hooks, unhook.hookedSet = unhook.unhook.throughFunction
  claimed : ∀ member ∈ s.live, member ∈ s.hookedSet
  one : s.live.Nodup

variable {s next : HookState C} {member : Member C} {throughFunction : Bool}

/-- A member is live if a command has hooked it and the hook is in force. -/
theorem mem_live : member ∈ s.live ↔
    ∃ hook ∈ s.installed, hook.throughFunction = true ∧ hook.hookedMethod = member := by
  simp [live, and_assoc]

/-- A new hook is none of those in force. -/
theorem Distinct.newHook_not_mem (hdistinct : s.Distinct) : s.newHook member throughFunction ∉ s.installed := by
  intro hmem
  have hid := hdistinct.fresh _ hmem
  simp at hid

/-- A new hook is not in the list yet. -/
theorem Distinct.newHook_not_listed (hdistinct : s.Distinct) :
    s.newHook member throughFunction ∉ s.hooks.map (·.unhook) := by
  intro hmem
  obtain ⟨unhook, hunhook, heq⟩ := List.mem_map.mp hmem
  have hnew : s.newHook member throughFunction ∉ s.installed := hdistinct.newHook_not_mem
  rw [← heq] at hnew
  exact hnew (hdistinct.listed unhook hunhook)

/-- Hooks stay distinct when none is added. -/
theorem Distinct.keeps (hdistinct : s.Distinct) (hkeeps : Keeps s next) : next.Distinct := by
  obtain ⟨hnext, hinstalled, hhooks, -⟩ := hkeeps
  constructor
  · rw [hinstalled, hnext]
    exact hdistinct.fresh
  · rw [hinstalled]
    exact hdistinct.installed
  · rw [hhooks]
    exact hdistinct.hooks
  · rw [hhooks, hinstalled]
    exact hdistinct.listed

/-- Hooks stay distinct when a new one is added. -/
theorem Distinct.installs (hdistinct : s.Distinct) (hinstalls : Installs s next member throughFunction) :
    next.Distinct := by
  have hlisted : ∀ unhook ∈ s.hooks, unhook.unhook ∈ s.newHook member throughFunction :: s.installed :=
    fun unhook hunhook => List.mem_cons_of_mem _ (hdistinct.listed unhook hunhook)
  constructor
  · rw [hinstalls.installed, hinstalls.nextHook]
    intro hook hhook
    rcases List.mem_cons.mp hhook with rfl | hhook
    · exact Nat.lt_succ_self _
    · exact Nat.lt_succ_of_lt (hdistinct.fresh hook hhook)
  · rw [hinstalls.installed, List.nodup_cons]
    exact ⟨hdistinct.newHook_not_mem, hdistinct.installed⟩
  · rcases hinstalls.hooks with hhooks | ⟨unhook, hunhook, -, hhooks⟩
    · rw [hhooks]
      exact hdistinct.hooks
    · rw [hhooks, List.map_append, List.map_singleton, hunhook, ← List.concat_eq_append]
      exact List.Nodup.concat hdistinct.newHook_not_listed hdistinct.hooks
  · rw [hinstalls.installed]
    rcases hinstalls.hooks with hhooks | ⟨unhook, hunhook, -, hhooks⟩
    · rw [hhooks]
      exact hlisted
    · rw [hhooks, List.forall_mem_append, List.forall_mem_singleton, hunhook]
      exact ⟨hlisted, List.mem_cons_self⟩

/-- Members stay in the set when no hook is added. -/
theorem Claimed.keeps (hclaimed : s.Claimed) (hkeeps : Keeps s next) : next.Claimed := by
  have hlive : next.live = s.live := by rw [live, hkeeps.installed, live]
  refine ⟨hclaimed.toDistinct.keeps hkeeps, ?_, ?_, ?_⟩
  · rw [hkeeps.hooks]
    exact hclaimed.own
  · rw [hlive]
    exact fun member hmember => hkeeps.hookedSet member (hclaimed.claimed member hmember)
  · rw [hlive]
    exact hclaimed.one

/-- A hook that a command makes adds its member to the live ones. -/
theorem live_installs (hinstalls : Installs s next member throughFunction) :
    next.live = if throughFunction then member :: s.live else s.live := by
  rw [live, hinstalls.installed]
  cases throughFunction <;> rfl

/-- A hook that is made for a member of the set keeps the live members in it. -/
theorem Claimed.installs (hclaimed : s.Claimed) (hinstalls : Installs s next member throughFunction) :
    next.Claimed := by
  refine ⟨hclaimed.toDistinct.installs hinstalls, ?_, ?_, ?_⟩
  · rcases hinstalls.hooks with hhooks | ⟨unhook, hunhook, hset, hhooks⟩
    · rw [hhooks]
      exact hclaimed.own
    · rw [hhooks, List.forall_mem_append, List.forall_mem_singleton, hunhook]
      exact ⟨hclaimed.own, hset⟩
  · rw [live_installs hinstalls, hinstalls.hookedSet]
    cases throughFunction with
    | false => exact hclaimed.claimed
    | true => exact List.forall_mem_cons.mpr ⟨List.mem_cons_self,
        fun other hother => List.mem_cons_of_mem _ (hclaimed.claimed other hother)⟩
  · rw [live_installs hinstalls]
    cases throughFunction with
    | false => exact hclaimed.one
    | true => exact List.nodup_cons.mpr ⟨fun hmem => hinstalls.new rfl (hclaimed.claimed member hmem), hclaimed.one⟩

variable [DecidableEq C] {vm : Vm C} {P : Member C → Prop}

/-- Hooks stay distinct when one is taken off. -/
theorem Distinct.removed (hdistinct : s.Distinct) {unhook : Unhook C} (hlisted : unhook ∈ s.hooks) :
    (s.removed unhook).Distinct := by
  have hsublist : ((s.hooks.erase unhook).map (·.unhook)).Sublist (s.hooks.map (·.unhook)) :=
    List.erase_sublist.map _
  refine ⟨?_, hdistinct.installed.erase _, hdistinct.hooks.sublist hsublist, ?_⟩
  · exact fun hook hhook => hdistinct.fresh hook (List.mem_of_mem_erase hhook)
  · intro other hother
    have hnodup : s.hooks.Nodup := List.Nodup.of_map _ hdistinct.hooks
    obtain ⟨hne, hmem⟩ := hnodup.mem_erase_iff.mp hother
    refine (List.mem_erase_of_ne ?_).mpr (hdistinct.listed other hmem)
    intro heq
    exact hne (List.inj_on_of_nodup_map hdistinct.hooks hmem hlisted heq)

/-- A hook function that is taken off leaves its member without one. -/
theorem Claimed.removed_not_live (hclaimed : s.Claimed) {unhook : Unhook C} (hlisted : unhook ∈ s.hooks)
    (hset : unhook.hookedSet = true) : unhook.unhook.hookedMethod ∉ (s.removed unhook).live := by
  intro hlive
  obtain ⟨hook, hhook, hthrough, hmethod⟩ := mem_live.mp hlive
  obtain ⟨hne, hinstalled⟩ := hclaimed.installed.mem_erase_iff.mp hhook
  have hown := hclaimed.own unhook hlisted
  rw [hset] at hown
  apply hne
  apply List.inj_on_of_nodup_map hclaimed.one
  · exact List.mem_filter.mpr ⟨hinstalled, hthrough⟩
  · exact List.mem_filter.mpr ⟨hclaimed.listed unhook hlisted, hown.symm⟩
  · exact hmethod

/-- Taking a hook off makes no member live. -/
theorem removed_live_sublist (unhook : Unhook C) : (s.removed unhook).live.Sublist s.live :=
  (List.erase_sublist.filter _).map _

/-- The other live members stay in the set when a hook is taken off. -/
theorem Claimed.removed (hclaimed : s.Claimed) {unhook : Unhook C} (hlisted : unhook ∈ s.hooks) :
    (s.removed unhook).Claimed := by
  refine ⟨hclaimed.toDistinct.removed hlisted, ?_, ?_, ?_⟩
  · exact fun other hother => hclaimed.own other (List.mem_of_mem_erase hother)
  · intro member hmember
    have hold := hclaimed.claimed member ((removed_live_sublist unhook).subset hmember)
    unfold HookState.removed
    by_cases hset : unhook.hookedSet = true
    · simp only [hset, if_true, List.mem_filter, decide_eq_true_eq]
      refine ⟨hold, ?_⟩
      rintro rfl
      exact hclaimed.removed_not_live hlisted hset hmember
    · simp only [hset]
      exact hold
  · exact hclaimed.one.sublist (removed_live_sublist unhook)

/-- Every change keeps the live members in the set. -/
theorem Claimed.change (hclaimed : s.Claimed) (hchange : Change vm P s next) : next.Claimed := by
  rcases hchange.effect with hkeeps | ⟨member, throughFunction, hinstalls⟩ | ⟨unhook, hlisted, rfl⟩
  · exact hclaimed.keeps hkeeps
  · exact hclaimed.installs hinstalls
  · exact hclaimed.removed hlisted

end HookState

end inspector.script
