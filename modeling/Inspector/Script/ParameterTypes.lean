import Inspector.Base.Machine
import Inspector.Script.HookFunctionRequest

namespace inspector.script

/-- A type that is no array. -/
inductive ElementType (K : Type) where
  | primitive (type : PrimitiveType)
  | short
  | reference (clazz : K)
  deriving DecidableEq, Repr

/-- The types that a parameter can have. An array has at most 255 dimensions. -/
structure JavaType (K : Type) where
  element : ElementType K
  dimensions : Nat
  dimensions_le : dimensions ≤ 255
  deriving DecidableEq, Repr

variable {K : Type}

namespace ElementType

variable (getName : K → String)

def name : ElementType K → String
  | .primitive type => type.name
  | .short => "short"
  | .reference clazz => getName clazz

def type (element : ElementType K) : JavaType K := { element, dimensions := 0, dimensions_le := by omega }

end ElementType

def brackets : Nat → String
  | 0 => ""
  | k + 1 => brackets k ++ "[]"

def JavaType.name (getName : K → String) (type : JavaType K) : String :=
  type.element.name getName ++ brackets type.dimensions

/-- What reflection answers about the types. -/
structure Reflects (vm : Vm (JavaType K)) (getName : K → String) : Prop where
  primitiveClass : ∀ type, vm.primitiveClass type = (ElementType.primitive type).type
  stringClass : ∃ clazz, vm.stringClass = (ElementType.reference clazz).type ∧ getName clazz = "java.lang.String"
  newArray : ∀ component : JavaType K, ∀ k, 0 < k → ∀ hle : component.dimensions + k ≤ 255,
    vm.newArray component k = .ok { component with dimensions := component.dimensions + k, dimensions_le := hle }

/-- A class loader loads a class by its name. `forName` gives the class that is loaded,
unless its initialization fails. -/
structure Loads (classLoader : ClassLoader (JavaType K)) (getName : K → String) : Prop where
  getName_valid : ∀ clazz, '[' ∉ (getName clazz).toList
  loadClass : ∀ name type, classLoader.loadClass name = .ok type →
    ∃ clazz, type = (ElementType.reference clazz).type ∧ getName clazz = name
  forName : ∀ name type, '[' ∉ name.toList → classLoader.forName name = .ok type → classLoader.loadClass name = .ok type

/-- The class of the elements, if there is one, is loadable. -/
def ElementType.Loadable (classLoader : ClassLoader (JavaType K)) (getName : K → String) : ElementType K → Prop
  | .reference clazz => classLoader.loadClass (getName clazz) = .ok (ElementType.reference clazz).type
  | _ => True

/-- The name of a class is taken for that of another type. -/
def Clashes (className : String) : Prop :=
  (∃ type ∈ primitiveTypes, equalsIgnoreCase type.name.toList className.toList) ∨ className = "java.lang.String_fuck"

/-- The elements are not `short`, and a class of the elements has a name of its own and
can be initialized. -/
def ElementType.Nameable (classLoader : ClassLoader (JavaType K)) (getName : K → String) : ElementType K → Prop
  | .primitive _ => True
  | .short => False
  | .reference clazz => ¬ Clashes (getName clazz) ∧ ∃ type, classLoader.forName (getName clazz) = .ok type

section Brackets

/-- A name without brackets is not shortened. -/
theorem stripBrackets_eq_self {className : List Char} (hname : '[' ∉ className) (dimensions : Nat) :
    stripBrackets className dimensions = (className, dimensions) := by
  unfold stripBrackets
  split
  · simp at hname
  · rfl

/-- Each pair of brackets at the end of a name is one dimension. -/
theorem stripBrackets_brackets {className : List Char} (hname : '[' ∉ className) (k dimensions : Nat) :
    stripBrackets ((brackets k).toList.reverse ++ className) dimensions = (className, dimensions + k) := by
  induction k generalizing dimensions with
  | zero => exact stripBrackets_eq_self hname dimensions
  | succ k ih =>
    rw [brackets, String.toList_append, List.reverse_append]
    change stripBrackets (']' :: '[' :: ((brackets k).toList.reverse ++ className)) dimensions = _
    rw [stripBrackets, ih, Nat.add_right_comm, Nat.add_assoc]

end Brackets

section FindClass

variable {vm : Vm (JavaType K)} {classLoader : ClassLoader (JavaType K)} {getName : K → String}

/-- The array class of an element type and a number of dimensions is found. -/
theorem findArrayClass_eq (hreflects : Reflects vm getName) (element : ElementType K) {k : Nat} (hk : k ≤ 255) :
    findArrayClass vm element.type k = .ok { element, dimensions := k, dimensions_le := hk } := by
  unfold findArrayClass
  split
  · have hzero : k = 0 := by omega
    subst hzero
    rfl
  · have hle : element.type.dimensions + k ≤ 255 := by simpa [ElementType.type] using hk
    rw [hreflects.newArray element.type k (by omega) hle]
    simp [ElementType.type]

/-- The primitive type that a name is taken for. -/
def primitiveNamed (className : String) : Option PrimitiveType :=
  primitiveTypes.find? fun type => equalsIgnoreCase type.name.toList className.toList

/-- What `findClass` does with the name of a class that is no array. -/
def findElementClass (vm : Vm (JavaType K)) (classLoader : ClassLoader (JavaType K)) (className : String)
    (dimensions : Nat) :
    Except Throwable (JavaType K) :=
  match primitiveNamed className with
  | some type => findArrayClass vm (vm.primitiveClass type) dimensions
  | none =>
    if className = "java.lang.String_fuck" then .ok vm.stringClass
    else do findArrayClass vm (← classLoader.forName className) dimensions

/-- The class of a name is searched by its element name and its dimensions. -/
theorem findClass_brackets {className : String} (hname : '[' ∉ className.toList) (k : Nat) :
    findClass vm classLoader (className ++ brackets k) = findElementClass vm classLoader className k := by
  have hstrip : stripBrackets (className ++ brackets k).toList.reverse 0 = (className.toList.reverse, k) := by
    have hreversed : '[' ∉ className.toList.reverse := by simpa using hname
    rw [String.toList_append, List.reverse_append, stripBrackets_brackets hreversed, Nat.zero_add]
  simp only [findClass, findElementClass, primitiveNamed, hstrip, List.reverse_reverse, String.ofList_toList,
    String.toList_inj]
  rfl

theorem bracket_not_mem_name (type : PrimitiveType) : '[' ∉ type.name.toList := by
  cases type <;> decide

theorem primitiveNamed_name (type : PrimitiveType) : primitiveNamed type.name = some type := by
  cases type <;> rfl

/-- A class name clashes if it names a primitive type or is the placeholder of `String`. -/
theorem not_clashes_iff {className : String} :
    ¬ Clashes className ↔ primitiveNamed className = none ∧ className ≠ "java.lang.String_fuck" := by
  rw [Clashes, not_or, primitiveNamed, List.find?_eq_none]
  refine and_congr_left fun _ => ?_
  constructor
  · intro hclash type htype hequals
    exact hclash ⟨type, htype, hequals⟩
  · rintro hnone ⟨type, htype, hequals⟩
    exact hnone type htype hequals

/-- The name of a primitive type is found as that type, in any number of dimensions. -/
theorem findElementClass_primitive (hreflects : Reflects vm getName) {className : String} {type : PrimitiveType}
    (hnamed : primitiveNamed className = some type) {k : Nat} (hk : k ≤ 255) :
    findElementClass vm classLoader className k =
      .ok { element := .primitive type, dimensions := k, dimensions_le := hk } := by
  have harray := findArrayClass_eq hreflects (.primitive type) hk
  rw [← hreflects.primitiveClass] at harray
  simpa only [findElementClass, hnamed] using harray

/-- A name that is not taken for another is given to the class loader. -/
theorem findElementClass_forName {className : String} (hclash : ¬ Clashes className) (k : Nat) :
    findElementClass vm classLoader className k =
      classLoader.forName className >>= fun clazz => findArrayClass vm clazz k := by
  obtain ⟨hnone, hstring⟩ := not_clashes_iff.mp hclash
  simp only [findElementClass, hnone, if_neg hstring]

/-- A name that is taken for another does not give the class. -/
theorem findElementClass_clash (hreflects : Reflects vm getName) {clazz : K} (hclash : Clashes (getName clazz))
    {type : JavaType K} (htype : type.element = .reference clazz) :
    findElementClass vm classLoader (getName clazz) type.dimensions ≠ .ok type := by
  intro hfind
  cases hnamed : primitiveNamed (getName clazz) with
  | some other =>
    rw [findElementClass_primitive hreflects hnamed type.dimensions_le] at hfind
    have hsame : ElementType.primitive other = type.element := congrArg JavaType.element (Except.ok.inj hfind)
    rw [htype] at hsame
    cases hsame
  | none =>
    have hstring : getName clazz = "java.lang.String_fuck" := by
      by_contra hne
      exact not_clashes_iff.mpr ⟨hnamed, hne⟩ hclash
    obtain ⟨string, hclass, hname⟩ := hreflects.stringClass
    simp only [findElementClass, hnamed, if_pos hstring, hclass, Except.ok.injEq] at hfind
    have hsame : ElementType.reference string = .reference clazz := by
      rw [← htype, ← hfind]
      rfl
    cases hsame
    rw [hname] at hstring
    exact absurd hstring (by decide)

/-- `short` is left to the class loader, which does not know it. -/
theorem findElementClass_short (hreflects : Reflects vm getName) (hloads : Loads classLoader getName)
    {type : JavaType K} (htype : type.element = .short) :
    findElementClass vm classLoader "short" type.dimensions ≠ .ok type := by
  intro hfind
  have hclash : ¬ Clashes "short" := not_clashes_iff.mpr ⟨rfl, by decide⟩
  rw [findElementClass_forName hclash] at hfind
  obtain ⟨found, hforName, harray⟩ := machine.bind_eq_ok.mp hfind
  obtain ⟨clazz, rfl, -⟩ := hloads.loadClass _ _ (hloads.forName "short" found (by decide) hforName)
  rw [findArrayClass_eq hreflects (.reference clazz) type.dimensions_le] at harray
  have hsame : ElementType.reference clazz = type.element := congrArg JavaType.element (Except.ok.inj harray)
  rw [htype] at hsame
  cases hsame

/-- A class is found by its name exactly if the class loader answers at all. -/
theorem findElementClass_reference (hreflects : Reflects vm getName) (hloads : Loads classLoader getName) {clazz : K}
    (hclash : ¬ Clashes (getName clazz)) (hloadable : (ElementType.reference clazz).Loadable classLoader getName)
    {type : JavaType K} (htype : type.element = .reference clazz) :
    findElementClass vm classLoader (getName clazz) type.dimensions = .ok type ↔
      ∃ found, classLoader.forName (getName clazz) = .ok found := by
  obtain ⟨element, dimensions, hle⟩ := type
  obtain rfl : element = .reference clazz := htype
  rw [findElementClass_forName hclash, machine.bind_eq_ok]
  constructor
  · rintro ⟨found, hfound, -⟩
    exact ⟨found, hfound⟩
  · rintro ⟨found, hfound⟩
    have hloaded := hloads.forName _ _ (hloads.getName_valid clazz) hfound
    obtain rfl : found = (ElementType.reference clazz).type := Except.ok.inj (hloaded.symm.trans hloadable)
    exact ⟨_, hfound, findArrayClass_eq hreflects (.reference clazz) hle⟩

/-- A type is found by its own name exactly if its element can be named. -/
theorem findClass_eq_ok_iff (hreflects : Reflects vm getName) (hloads : Loads classLoader getName) {type : JavaType K}
    (hloadable : type.element.Loadable classLoader getName) :
    findClass vm classLoader (type.name getName) = .ok type ↔ type.element.Nameable classLoader getName := by
  have hname : '[' ∉ (type.element.name getName).toList := by
    cases type.element with
    | primitive other => exact bracket_not_mem_name other
    | short => exact (by decide : '[' ∉ "short".toList)
    | reference clazz => exact hloads.getName_valid clazz
  rw [JavaType.name, findClass_brackets hname]
  cases helement : type.element with
  | primitive other =>
    obtain ⟨element, dimensions, hle⟩ := type
    obtain rfl : element = .primitive other := helement
    exact iff_of_true (findElementClass_primitive hreflects (primitiveNamed_name other) hle) trivial
  | short => exact iff_of_false (findElementClass_short hreflects hloads helement) id
  | reference clazz =>
    rw [helement] at hloadable
    by_cases hclash : Clashes (getName clazz)
    · exact iff_of_false (findElementClass_clash hreflects hclash helement) fun hnameable => hnameable.1 hclash
    · exact (findElementClass_reference hreflects hloads hclash hloadable helement).trans (and_iff_right hclash).symm

/-- The loop over the parameters of a request. -/
theorem mapM_findClass_eq_ok_iff {types : List (JavaType K)} :
    (types.map (JavaType.name getName)).mapM (findClass vm classLoader) = .ok types ↔
      ∀ type ∈ types, findClass vm classLoader (type.name getName) = .ok type := by
  rw [machine.mapM_eq_ok_iff, List.forall₂_map_left_iff, List.forall₂_same]

/-- The types that a name of a parameter gives, and the parameters that a request can name. -/
theorem params_resolve_iff (vm : Vm (JavaType K)) (classLoader : ClassLoader (JavaType K)) (getName : K → String)
    (hreflects : Reflects vm getName) (hloads : Loads classLoader getName) :
    (∀ type : JavaType K, type.element.Loadable classLoader getName →
      (findClass vm classLoader (type.name getName) = .ok type ↔ type.element.Nameable classLoader getName)) ∧
    ∀ types : List (JavaType K), (∀ type ∈ types, type.element.Loadable classLoader getName) →
      ((types.map (JavaType.name getName)).mapM (findClass vm classLoader) = .ok types ↔
        ∀ type ∈ types, type.element.Nameable classLoader getName) := by
  refine ⟨fun type hloadable => findClass_eq_ok_iff hreflects hloads hloadable, fun types hloadable => ?_⟩
  rw [mapM_findClass_eq_ok_iff]
  constructor
  · intro hall type htype
    exact (findClass_eq_ok_iff hreflects hloads (hloadable type htype)).mp (hall type htype)
  · intro hall type htype
    exact (findClass_eq_ok_iff hreflects hloads (hloadable type htype)).mpr (hall type htype)

end FindClass

section App

/-- The classes of an app. -/
inductive AppClass where
  | string
  | listener
  deriving DecidableEq, Repr

def AppClass.getName : AppClass → String
  | .string => "java.lang.String"
  | .listener => "app.Listener"

def appClass (name : String) : Except Throwable (JavaType AppClass) :=
  if name = "java.lang.String" then .ok (ElementType.reference .string).type
  else if name = "app.Listener" then .ok (ElementType.reference .listener).type
  else .error .ClassNotFoundException

def appLoader : ClassLoader (JavaType AppClass) := { loadClass := appClass, forName := appClass }

def appVm : Vm (JavaType AppClass) where
  getDeclaredConstructors := fun _ => .ok []
  getDeclaredMethods := fun _ => .ok []
  getDeclaredConstructor := fun _ _ => .error .NoSuchMethodException
  getDeclaredMethod := fun _ _ _ => .error .NoSuchMethodException
  isNative := fun _ => false
  objectMethods := []
  primitiveClass := fun type => (ElementType.primitive type).type
  stringClass := (ElementType.reference .string).type
  newArray := fun component k =>
    if hle : component.dimensions + k ≤ 255 then
      .ok { component with dimensions := component.dimensions + k, dimensions_le := hle }
    else .error .exception
  toString := fun _ => ""
  createCallback := fun _ => .ok ()
  hookMethod := fun _ => .ok ()
  printHook := fun _ => .ok ()
  unhook := fun _ => .ok ()

theorem reflects_appVm : Reflects appVm AppClass.getName where
  primitiveClass := fun _ => rfl
  stringClass := ⟨.string, rfl, rfl⟩
  newArray := fun _ _ _ hle => dif_pos hle

theorem loads_appLoader : Loads appLoader AppClass.getName where
  getName_valid := by
    intro clazz
    cases clazz <;> decide
  loadClass := by
    intro name type hload
    change appClass name = .ok type at hload
    unfold appClass at hload
    split at hload
    · rename_i hname
      exact ⟨.string, (Except.ok.inj hload).symm, hname.symm⟩
    · split at hload
      · rename_i hname
        exact ⟨.listener, (Except.ok.inj hload).symm, hname.symm⟩
      · cases hload
  forName := fun _ _ _ hforName => hforName

theorem params_resolve_app :
    findClass appVm appLoader "long[][]" =
      .ok { element := .primitive .long, dimensions := 2, dimensions_le := by decide } ∧
      findClass appVm appLoader "app.Listener[]" =
        .ok { element := .reference .listener, dimensions := 1, dimensions_le := by decide } :=
  ⟨((params_resolve_iff appVm appLoader AppClass.getName reflects_appVm loads_appLoader).1
      { element := .primitive .long, dimensions := 2, dimensions_le := by decide } trivial).mpr trivial,
    ((params_resolve_iff appVm appLoader AppClass.getName reflects_appVm loads_appLoader).1
      { element := .reference .listener, dimensions := 1, dimensions_le := by decide } rfl).mpr
      ⟨not_clashes_iff.mpr ⟨rfl, by decide⟩, _, rfl⟩⟩

/-- A parameter of the type `short` has no name. -/
theorem not_params_resolve_short :
    ¬ findClass appVm appLoader ((ElementType.short : ElementType AppClass).type.name AppClass.getName) =
      .ok (ElementType.short : ElementType AppClass).type := by
  have hthrown : findClass appVm appLoader "short" = .error .ClassNotFoundException := rfl
  intro hfind
  exact absurd (hthrown.symm.trans hfind) nofun

end App

end inspector.script
