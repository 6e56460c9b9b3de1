import Inspector.Script.MethodHashUtils

open inspector.dex

namespace inspector.script

section Names

variable {name : Name}

/-- A name is its characters. -/
theorem eq_of_chars {other : Name} (hchars : name.chars = other.chars) : name = other := by
  obtain ⟨chars, _, _⟩ := name
  obtain ⟨others, _, _⟩ := other
  obtain rfl : chars = others := hchars
  rfl

def star : BitVec 16 := 0x2A

def opening : BitVec 16 := 0x28

/-- An ASCII character that no name has is not in a simple name. -/
theorem SimpleName.notMem {c : BitVec 16} (hname : SimpleName name) (hascii : c < 0x80) (hc : c ∉ nameChars) :
    c ∉ name.chars :=
  fun hmem => hc (hname c hmem hascii)

/-- A simple name has no star. -/
theorem SimpleName.star_notMem (hname : SimpleName name) : star ∉ name.chars := hname.notMem (by decide) (by decide)

/-- The name of a class has no star. -/
theorem star_notMem_className {name : ClassName} (hnames : ∀ n ∈ (JavaType.object name).names, SimpleName n) :
    star ∉ name.getName := by
  rw [ClassName.getName, ClassName.mem_separatedBy, not_or]
  refine ⟨?_, (hnames _ (List.mem_append_right _ (List.mem_singleton_self _))).star_notMem⟩
  rintro ⟨n, hn, hmem | hdot⟩
  · exact (hnames n (List.mem_append_left _ hn)).star_notMem hmem
  · exact absurd hdot (by decide)

/-- The name of a type in an array has no star. -/
theorem star_notMem_componentName {t : JavaType} (hnames : ∀ n ∈ t.names, SimpleName n) : star ∉ t.componentName := by
  induction t with
  | primitive p => cases p <;> decide
  | object name =>
    have hfirst : star ∉ javaString "L" := by decide
    have hlast : star ∉ javaString ";" := by decide
    simp only [JavaType.componentName, List.mem_append, hfirst, hlast, false_or, or_false]
    exact star_notMem_className hnames
  | array component ih =>
    have hfirst : star ∉ javaString "[" := by decide
    simp only [JavaType.componentName, List.mem_append, hfirst, false_or]
    exact ih hnames

/-- The name of a type has no star. -/
theorem star_notMem_getName {clazz : JavaClass} (hnames : ∀ n ∈ clazz.names, SimpleName n) : star ∉ getName clazz := by
  cases clazz with
  | void => decide
  | type t =>
    cases t with
    | primitive p => cases p <;> decide
    | object name => exact star_notMem_className hnames
    | array component =>
      have hfirst : star ∉ javaString "[" := by decide
      simp only [getName, arrayName, List.mem_append, hfirst, false_or]
      exact star_notMem_componentName hnames

end Names

section Texts

/-- Texts are split where a character stands first. -/
theorem append_cons_inj {c : BitVec 16} {s s' t t' : JavaString} (hs : c ∉ s) (hs' : c ∉ s') :
    s ++ c :: t = s' ++ c :: t' ↔ s = s' ∧ t = t' := by
  induction s generalizing s' with
  | nil =>
    cases s' with
    | nil => simp
    | cons b s' =>
      rw [List.mem_cons, not_or] at hs'
      simp [hs'.1]
  | cons a s ih =>
    rw [List.mem_cons, not_or] at hs
    cases s' with
    | nil => simp [Ne.symm hs.1]
    | cons b s' =>
      rw [List.mem_cons, not_or] at hs'
      rw [List.cons_append, List.cons_append, List.cons.injEq, List.cons.injEq, ih hs.2 hs'.2, and_assoc]

/-- A text says as much of a method as its names and those of its parameters in a row. -/
theorem Method.text_inj {method other : Method} (hsimple : method.Simple) (hother : other.Simple) :
    method.text = other.text ↔ getName method.returnType = getName other.returnType ∧ method.name = other.name ∧
      parameterNames method.parameterTypes = parameterNames other.parameterTypes := by
  have hopening (name : Name) (hname : SimpleName name) : opening ∉ name.chars := hname.notMem (by decide) (by decide)
  have htext (m : Method) : m.text = getName m.returnType ++ star ::
      (m.name.chars ++ opening :: (parameterNames m.parameterTypes ++ javaString ")")) := by
    simp [Method.text, star, opening, javaString]
  rw [htext, htext, append_cons_inj (star_notMem_getName hsimple.returnType) (star_notMem_getName hother.returnType),
    append_cons_inj (hopening _ hsimple.name) (hopening _ hother.name), List.append_left_inj]
  exact and_congr_right fun _ => and_congr_left fun _ => ⟨eq_of_chars, congrArg Name.chars⟩

/-- The texts of constructors differ where the names of their parameters do. -/
theorem Constructor.text_inj {constructor other : Constructor} :
    constructor.text = other.text ↔
      parameterNames constructor.parameterTypes = parameterNames other.parameterTypes := by
  rw [text, text, List.append_left_inj, List.append_right_inj]

/-- The texts of simple fields differ where their types or names do. -/
theorem Field.text_inj {field other : Field} (hsimple : field.Simple) (hother : other.Simple) :
    field.text = other.text ↔ getName (.type field.type) = getName (.type other.type) ∧ field.name = other.name := by
  have htext (f : Field) : f.text = getName (.type f.type) ++ star :: f.name.chars := by
    simp [Field.text, star, javaString]
  have hstar (f : Field) (hf : f.Simple) : star ∉ getName (.type f.type) := star_notMem_getName hf.type
  rw [htext, htext, append_cons_inj (hstar field hsimple) (hstar other hother)]
  exact and_congr_right fun _ => ⟨eq_of_chars, congrArg Name.chars⟩

end Texts

section Hash

/-- The texts differ at most in a decimal digit at their beginning. -/
def Alike (hash other : JavaString) : Prop :=
  hash.head?.any isDigit ∧ other.head?.any isDigit ∧ hash.tail = other.tail

instance (hash other : JavaString) : Decidable (Alike hash other) := inferInstanceAs (Decidable (_ ∧ _ ∧ _))

/-- No hexadecimal digit is a v. -/
theorem toDigit_ne (value : BitVec 4) : toDigit value ≠ 0x76 := by
  revert value
  decide

variable {md5 : JavaString → Digest} {data other : JavaString}

/-- What is lost is which digit a text begins with. -/
theorem fix_md5Hex_inj :
    fix (md5Hex md5 data) (md5Hex_ne_nil _) = fix (md5Hex md5 other) (md5Hex_ne_nil _) ↔
      md5Hex md5 data = md5Hex md5 other ∨ Alike (md5Hex md5 data) (md5Hex md5 other) := by
  obtain ⟨value, rest, hhash⟩ : ∃ value rest, md5Hex md5 data = toDigit value :: rest := exists_md5Hex data
  obtain ⟨otherValue, otherRest, hother⟩ : ∃ value rest, md5Hex md5 other = toDigit value :: rest := exists_md5Hex other
  have hv := toDigit_ne value
  have hotherV := toDigit_ne otherValue
  simp only [fix, hhash, hother, List.head_cons, List.tail_cons, Alike, List.head?_cons, Option.any_some]
  cases hdigit : isDigit (toDigit value) <;> cases hotherDigit : isDigit (toDigit otherValue) <;> grind

variable {α : Type} {texts : List JavaString}

/-- Members are told apart by their hashes if they are by their texts, and the digests of the texts
are not alike. -/
theorem fix_apart_iff (members : List α) (text : α → JavaString) (hinjective : Set.InjOn (md5Hex md5) {s | s ∈ texts})
    (htexts : ∀ m ∈ members, text m ∈ texts) :
    (∀ m ∈ members, ∀ other ∈ members, m ≠ other →
      fix (md5Hex md5 (text m)) (md5Hex_ne_nil _) ≠ fix (md5Hex md5 (text other)) (md5Hex_ne_nil _)) ↔
    (∀ m ∈ members, ∀ other ∈ members, m ≠ other → text m ≠ text other) ∧
      ∀ m ∈ members, ∀ other ∈ members, text m ≠ text other →
        ¬ Alike (md5Hex md5 (text m)) (md5Hex md5 (text other)) := by
  constructor
  · intro hapart
    refine ⟨fun m hm other hother hne htext => ?_, fun m hm other hother hne halike => ?_⟩
    · exact hapart m hm other hother hne (fix_md5Hex_inj.mpr (.inl (congrArg _ htext)))
    · exact hapart m hm other hother (fun heq => hne (congrArg text heq)) (fix_md5Hex_inj.mpr (.inr halike))
  · rintro ⟨hapart, hdigests⟩ m hm other hother hne hfix
    have htext := hapart m hm other hother hne
    rcases fix_md5Hex_inj.mp hfix with hsame | halike
    · exact htext (hinjective (htexts m hm) (htexts other hother) hsame)
    · exact hdigests m hm other hother htext halike

end Hash

section Members

variable (md5 : JavaString → Digest) (members : Members)

/-- Different members of a class have different hashes. -/
structure Members.Distinct : Prop where
  methods : ∀ method ∈ members.methods, ∀ other ∈ members.methods, method ≠ other →
    hashMethod md5 method ≠ hashMethod md5 other
  constructors : ∀ constructor ∈ members.constructors, ∀ other ∈ members.constructors, constructor ≠ other →
    hashConstructor md5 constructor ≠ hashConstructor md5 other
  fields : ∀ field ∈ members.fields, ∀ other ∈ members.fields, field ≠ other → hashField md5 field ≠ hashField md5 other

/-- Different members differ in their names, in the names of their types or in those of their
parameters as they stand in a row. -/
structure Members.Separated : Prop where
  methods : ∀ method ∈ members.methods, ∀ other ∈ members.methods, method ≠ other →
    ¬ (getName method.returnType = getName other.returnType ∧ method.name = other.name ∧
      parameterNames method.parameterTypes = parameterNames other.parameterTypes)
  constructors : ∀ constructor ∈ members.constructors, ∀ other ∈ members.constructors, constructor ≠ other →
    ¬ parameterNames constructor.parameterTypes = parameterNames other.parameterTypes
  fields : ∀ field ∈ members.fields, ∀ other ∈ members.fields, field ≠ other →
    ¬ (getName (.type field.type) = getName (.type other.type) ∧ field.name = other.name)

/-- Digests of different texts differ in more than a decimal digit at their beginning. -/
structure Members.DigestsApart : Prop where
  methods : ∀ method ∈ members.methods, ∀ other ∈ members.methods, method.text ≠ other.text →
    ¬ Alike (md5Hex md5 method.text) (md5Hex md5 other.text)
  constructors : ∀ constructor ∈ members.constructors, ∀ other ∈ members.constructors, constructor.text ≠ other.text →
    ¬ Alike (md5Hex md5 constructor.text) (md5Hex md5 other.text)
  fields : ∀ field ∈ members.fields, ∀ other ∈ members.fields, field.text ≠ other.text →
    ¬ Alike (md5Hex md5 field.text) (md5Hex md5 other.text)

variable {md5 members}

/-- The members are separated if their texts differ among each kind. -/
theorem Members.separated_iff :
    members.Separated ↔
      (∀ method ∈ members.methods, ∀ other ∈ members.methods, method ≠ other → method.text ≠ other.text) ∧
      (∀ constructor ∈ members.constructors, ∀ other ∈ members.constructors, constructor ≠ other →
        constructor.text ≠ other.text) ∧
      ∀ field ∈ members.fields, ∀ other ∈ members.fields, field ≠ other → field.text ≠ other.text := by
  have hmethods (method) (hm : method ∈ members.methods) (other) (ho : other ∈ members.methods) :=
    (Method.text_inj (members.methods_simple method hm) (members.methods_simple other ho)).not
  have hfields (field) (hf : field ∈ members.fields) (other) (ho : other ∈ members.fields) :=
    (Field.text_inj (members.fields_simple field hf) (members.fields_simple other ho)).not
  constructor
  · rintro ⟨hm, hc, hf⟩
    exact ⟨fun m hmem o ho hne => (hmethods m hmem o ho).mpr (hm m hmem o ho hne),
      fun c hmem o ho hne => Constructor.text_inj.not.mpr (hc c hmem o ho hne),
      fun f hmem o ho hne => (hfields f hmem o ho).mpr (hf f hmem o ho hne)⟩
  · rintro ⟨hm, hc, hf⟩
    exact ⟨fun m hmem o ho hne => (hmethods m hmem o ho).mp (hm m hmem o ho hne),
      fun c hmem o ho hne => Constructor.text_inj.not.mp (hc c hmem o ho hne),
      fun f hmem o ho hne => (hfields f hmem o ho).mp (hf f hmem o ho hne)⟩

/-- When the members of a class are told apart by their hashes. -/
theorem distinct_iff (hinjective : Set.InjOn (md5Hex md5) {text | text ∈ members.texts}) :
    members.Distinct md5 ↔ members.Separated ∧ members.DigestsApart md5 := by
  have hmethods := fix_apart_iff members.methods Method.text hinjective fun m hm =>
    List.mem_append_left _ (List.mem_append_left _ (List.mem_map_of_mem hm))
  have hconstructors := fix_apart_iff members.constructors Constructor.text hinjective fun c hc =>
    List.mem_append_left _ (List.mem_append_right _ (List.mem_map_of_mem hc))
  have hfields := fix_apart_iff members.fields Field.text hinjective fun f hf =>
    List.mem_append_right _ (List.mem_map_of_mem hf)
  rw [Members.separated_iff]
  constructor
  · rintro ⟨hm, hc, hf⟩
    obtain ⟨hmtext, hmdigest⟩ := hmethods.mp hm
    obtain ⟨hctext, hcdigest⟩ := hconstructors.mp hc
    obtain ⟨hftext, hfdigest⟩ := hfields.mp hf
    exact ⟨⟨hmtext, hctext, hftext⟩, hmdigest, hcdigest, hfdigest⟩
  · rintro ⟨⟨hmtext, hctext, hftext⟩, hmdigest, hcdigest, hfdigest⟩
    exact ⟨hmethods.mpr ⟨hmtext, hmdigest⟩, hconstructors.mpr ⟨hctext, hcdigest⟩, hfields.mpr ⟨hftext, hfdigest⟩⟩

end Members

section Sample

/-- MD5 of a few texts. -/
def sampleMd5 (text : JavaString) : Digest :=
  if text = javaString "void*f(PQ)" then
    ⟨[0xdf, 0x3f, 0xa2, 0x19, 0x1b, 0x8d, 0x04, 0x4d, 0x34, 0x8a, 0xaf, 0x1f, 0x7b, 0xaa, 0x5c, 0x7a], rfl⟩
  else if text = javaString "int*f()" then
    ⟨[0x3c, 0x20, 0x30, 0xb2, 0x4a, 0x36, 0xcc, 0x1d, 0xd5, 0xec, 0xa3, 0x05, 0xf4, 0x6b, 0x74, 0xfa], rfl⟩
  else if text = javaString "()" then
    ⟨[0xbc, 0xd8, 0xb0, 0xc2, 0xeb, 0x1f, 0xce, 0x71, 0x4e, 0xab, 0x6c, 0xef, 0x0d, 0x77, 0x1a, 0xcc], rfl⟩
  else if text = javaString "(int)" then
    ⟨[0x45, 0x9a, 0x04, 0x51, 0x33, 0x8c, 0xbc, 0x67, 0x7f, 0xad, 0xd7, 0xe1, 0x46, 0x15, 0x15, 0xc3], rfl⟩
  else if text = javaString "int*x" then
    ⟨[0x88, 0x15, 0xe6, 0xf1, 0xf4, 0xc2, 0x57, 0x00, 0x59, 0xec, 0x42, 0xdd, 0xf6, 0x89, 0xb9, 0x73], rfl⟩
  else ⟨List.replicate 16 0, rfl⟩

/-- The type `int`, and classes in the package without a name. -/
def typeInt : JavaType := .primitive .int

def classP : JavaType := .object { packages := [], simpleName := ⟨javaString "P", by decide, by decide⟩ }

def classQ : JavaType := .object { packages := [], simpleName := ⟨javaString "Q", by decide, by decide⟩ }

def classPQ : JavaType := .object { packages := [], simpleName := ⟨javaString "PQ", by decide, by decide⟩ }

def nameF : Name := ⟨javaString "f", by decide, by decide⟩

/-- `void f(P, Q)`, `int f()`, two constructors and a field. -/
def sampleMembers : Members where
  methods := [⟨.void, nameF, [classP, classQ]⟩, ⟨.type typeInt, nameF, []⟩]
  constructors := [⟨[]⟩, ⟨[typeInt]⟩]
  fields := [⟨typeInt, ⟨javaString "x", by decide, by decide⟩⟩]
  methods_simple := List.forall_mem_cons.mpr ⟨⟨by decide, by decide, by decide⟩,
    List.forall_mem_singleton.mpr ⟨by decide, by decide, by decide⟩⟩
  constructors_simple := List.forall_mem_cons.mpr ⟨nofun, List.forall_mem_singleton.mpr <| by
    simp [Constructor.Simple, typeInt, JavaType.names]⟩
  fields_simple := List.forall_mem_singleton.mpr ⟨by decide, by decide⟩

theorem distinct_sampleMembers : sampleMembers.Distinct sampleMd5 := by
  have hinjective : ∀ s ∈ sampleMembers.texts, ∀ t ∈ sampleMembers.texts,
      md5Hex sampleMd5 s = md5Hex sampleMd5 t → s = t := by
    decide
  have hseparated : sampleMembers.Separated := Members.separated_iff.mpr
    ⟨fun m hm o ho hne htext => hne (List.inj_on_of_nodup_map (by decide) hm ho htext),
      fun c hc o ho hne htext => hne (List.inj_on_of_nodup_map (by decide) hc ho htext),
      fun f hf o ho hne htext => hne (List.inj_on_of_nodup_map (by decide) hf ho htext)⟩
  exact (distinct_iff fun s hs t ht => hinjective s hs t ht).mpr ⟨hseparated, by decide, by decide, by decide⟩

/-- `void f(P, Q)` and `void f(PQ)`. -/
def overloads : Members where
  methods := [⟨.void, nameF, [classP, classQ]⟩, ⟨.void, nameF, [classPQ]⟩]
  constructors := []
  fields := []
  methods_simple := List.forall_mem_cons.mpr ⟨⟨by decide, by decide, by decide⟩,
    List.forall_mem_singleton.mpr ⟨by decide, by decide, by decide⟩⟩
  constructors_simple := nofun
  fields_simple := nofun

theorem not_distinct_overloads :
    Set.InjOn (md5Hex sampleMd5) {text | text ∈ overloads.texts} ∧ ¬ overloads.Distinct sampleMd5 := by
  have hinjective : ∀ s ∈ overloads.texts, ∀ t ∈ overloads.texts,
      md5Hex sampleMd5 s = md5Hex sampleMd5 t → s = t := by
    decide
  refine ⟨fun s hs t ht => hinjective s hs t ht, fun hdistinct => ?_⟩
  refine hdistinct.methods _ List.mem_cons_self _ (List.mem_cons_of_mem _ List.mem_cons_self) ?_ ?_
  · simp
  · decide

end Sample

end inspector.script
