import Inspector.Base.Descent
import Inspector.Script.AfterHookedMethod

open throwing Relation descent inspector.dex

namespace inspector.script.hook

def separator : JavaString := javaString ", "

/-- Nothing but separators was deleted. -/
def Rendering.OnlySeparators (s : Rendering) : Prop := ∀ text ∈ s.deleted, text = separator

structure Rendering.Has (text : JavaString) (s : Rendering) : Prop where
  buffer : s.buffer = text
  deleted : s.OnlySeparators

/-- What the stack has no room for ends in an error, also without a wrong deletion. -/
structure Overflows (fits : Prop) (e : RenderError) (s : Rendering) : Prop where
  error : e = .StackOverflowError
  deleted : s.OnlySeparators
  not_fits : ¬ fits

section StringBuffer

variable {before text : JavaString} {R : RenderError → Rendering → Prop}

/-- Appending adds its text to the end of the buffer. -/
theorem ensures_append : Ensures (Rendering.Has before) (append text) (fun _ => Rendering.Has (before ++ text)) R :=
  Ensures.of_modify fun _ hs => ⟨by rw [hs.buffer], hs.deleted⟩

/-- A report leaves the buffer as it is. -/
theorem ensures_report {r : Report} : Ensures (Rendering.Has before) (report r) (fun _ => Rendering.Has before) R :=
  Ensures.of_modify fun _ hs => ⟨hs.buffer, hs.deleted⟩

/-- What is deleted from an index on is the rest of the buffer. -/
theorem run_delete {s : Rendering} (start : Nat) (hstart : start ≤ s.buffer.length) :
    (delete start s.buffer.length).run.run s =
      (.ok (), { s with buffer := s.buffer.take start, deleted := s.deleted ++ [s.buffer.drop start] }) := by
  have hrun : (delete start s.buffer.length).run.run s =
      (if (start : Int) < 0 ∨ ((min s.buffer.length s.buffer.length : Nat) : Int) < start then
        (throw .StringIndexOutOfBoundsException : Render)
      else set { s with
        buffer := s.buffer.take (start : Int).toNat ++ s.buffer.drop (min s.buffer.length s.buffer.length)
        deleted := s.deleted ++
          [(s.buffer.take (min s.buffer.length s.buffer.length)).drop (start : Int).toNat] }).run.run s := rfl
  rw [hrun, if_neg (by omega), Nat.min_self, Int.toNat_natCast, List.drop_length, List.append_nil, List.take_length]
  rfl

/-- Deleting the last two characters takes off exactly one separator. -/
theorem run_deleteLastTwo {s : Rendering} (hs : s.buffer = before ++ separator) :
    deleteLastTwo.run.run s = (.ok (), { s with buffer := before, deleted := s.deleted ++ [separator] }) := by
  have hlength : s.buffer.length = before.length + 2 := by
    rw [hs, List.length_append]
    rfl
  have hstart : (s.buffer.length : Int) - 2 = before.length := by omega
  have hdelete := run_delete (s := s) before.length (by omega)
  rw [hs, List.take_left, List.drop_left] at hdelete
  change (delete (s.buffer.length - 2) s.buffer.length).run.run s = _
  rw [hstart, hs]
  exact hdelete

/-- The same as a rule: what was before the separator is what remains. -/
theorem ensures_deleteLastTwo :
    Ensures (Rendering.Has (before ++ separator)) deleteLastTwo (fun _ => Rendering.Has before) R := by
  intro s hs
  refine .inl ⟨(), _, run_deleteLastTwo hs.buffer, rfl, fun text htext => ?_⟩
  rcases List.mem_append.mp htext with hold | hnew
  · exact hs.deleted text hold
  · exact List.mem_singleton.mp hnew

/-- Texts that are each followed by a separator are the texts between separators and one
more. -/
theorem flatMap_separator {texts : List JavaString} (hne : texts ≠ []) :
    texts.flatMap (· ++ separator) = separator.intercalate texts ++ separator := by
  induction texts with
  | nil => exact absurd rfl hne
  | cons text rest ih =>
    cases rest with
    | nil => simp
    | cons next rest =>
      rw [List.flatMap_cons, ih (List.cons_ne_nil _ _), List.intercalate_cons_cons, List.append_assoc,
        List.append_assoc, List.append_assoc]

/-- Behind what is not empty the last separator is deleted. -/
theorem ensures_deleteSeparator (texts : List JavaString) :
    Ensures (Rendering.Has (before ++ texts.flatMap (· ++ separator))) (deleteSeparator texts.length)
      (fun _ => Rendering.Has (before ++ separator.intercalate texts)) R := by
  cases texts with
  | nil => exact Ensures.of_pure fun _ hs => hs
  | cons text rest =>
    rw [flatMap_separator (List.cons_ne_nil _ _), ← List.append_assoc, deleteSeparator, List.length_cons,
      if_pos (Nat.succ_pos _)]
    exact ensures_deleteLastTwo

end StringBuffer

section Object

/-- A block that does nothing but append a text. -/
def Appends (x : Render) (text : JavaString) : Prop :=
  ∀ s, x.run.run s = (.ok (), { s with buffer := s.buffer ++ text })

/-- An append appends its text, whatever the buffer has in it. -/
theorem appends_append (text : JavaString) : Appends (append text) text := fun _ => rfl

/-- Doing nothing appends nothing. -/
theorem appends_pure : Appends (pure ()) [] := fun s => by rw [List.append_nil]; rfl

/-- Two steps in a row append their texts in a row. -/
theorem Appends.bind {x y : Render} {first second : JavaString} (hx : Appends x first) (hy : Appends y second) :
    Appends (x >>= fun _ => y) (first ++ second) := by
  intro s
  rw [Block.run_bind (hx s), hy, List.append_assoc]

/-- A quote is appended or left out, and nothing is deleted. -/
theorem exists_appendQuote (isStr : Bool) : ∃ text, Appends (appendQuote isStr) text := by
  unfold appendQuote
  split
  · exact ⟨_, appends_append _⟩
  · exact ⟨_, appends_pure⟩

/-- The text of an object is appended without a look at the buffer. -/
theorem exists_appendUnquoted (isStr : Bool) (obj : Option JavaObject) (clazz : Option RuntimeClass) :
    ∃ text, Appends (appendUnquoted isStr obj clazz) text := by
  cases clazz with
  | none => exact ⟨_, appends_append _⟩
  | some clazz =>
    rw [appendUnquoted]
    split
    · exact ⟨_, appends_append _⟩
    · cases obj <;> exact ⟨_, (appends_append _).bind (appends_append _)⟩

/-- The text of an object appends something, with or without its quotes. -/
theorem exists_appendObject (obj : Option JavaObject) (clazz : Option RuntimeClass) :
    ∃ text, Appends (appendObject obj clazz) text := by
  obtain ⟨quote, hquote⟩ := exists_appendQuote (obj.any JavaObject.isCharSequence)
  obtain ⟨text, htext⟩ := exists_appendUnquoted (obj.any JavaObject.isCharSequence) obj clazz
  exact ⟨_, hquote.bind (htext.bind hquote)⟩

/-- What appends a text turns a buffer into that buffer followed by the text. -/
theorem Appends.ensures {x : Render} {text before : JavaString} {R : RenderError → Rendering → Prop}
    (happends : Appends x text) : Ensures (Rendering.Has before) x (fun _ => Rendering.Has (before ++ text)) R := by
  intro s hs
  refine .inl ⟨(), _, happends s, ?_, hs.deleted⟩
  rw [hs.buffer]

end Object

variable {n : Nat} {heap : Heap n}

def elementsOf (heap : Heap n) (obj : Reference n) : List (Reference n) :=
  ((arrayOf heap obj).map ArrayContent.values).getD []

/-- A stack that has room for so many calls is deep enough. -/
def Fits (heap : Heap n) : Nat → Reference n → Prop
  | 0, _ => False
  | depth + 1, obj => ∀ v ∈ elementsOf heap obj, Fits heap depth v

/-- The hexadecimal digits of a byte array stand before its elements. -/
def ArrayContent.hex : ArrayContent n → JavaString
  | bytes data => encodeHexString data
  | elements _ => []

/-- Elements are separated, and the last one is not followed by a separator. -/
inductive Rendered (heap : Heap n) : Reference n → JavaString → Prop where
  | null : Rendered heap .null (javaString "null")
  | object {o : JavaObject} {text : JavaString} (happends : Appends (appendObject (some o) (some o.clazz)) text) :
    Rendered heap (.object o) text
  | array {obj : Reference n} {content : ArrayContent n} {texts : List JavaString}
    (harray : arrayOf heap obj = some content)
    (htexts : List.Forall₂ (Rendered heap) content.values texts) :
    Rendered heap obj (content.hex ++ javaString "[" ++ separator.intercalate texts ++ javaString "]")

/-- The bytes of an array are appended as hexadecimal digits. -/
theorem ensures_appendHex {before : JavaString} {R : RenderError → Rendering → Prop} (content : ArrayContent n) :
    Ensures (Rendering.Has before) (appendHex content) (fun _ => Rendering.Has (before ++ content.hex)) R := by
  cases content with
  | bytes data => exact ensures_append.bind fun _ => ensures_report
  | elements values =>
    rw [ArrayContent.hex, List.append_nil]
    exact Ensures.of_pure fun _ hs => hs

/-- The rule of the two loops. -/
theorem ensures_loop {T : Reference n → JavaString → Prop} {body : Reference n → Render} {depth : Nat}
    (hbody : ∀ v before, Ensures (Rendering.Has before) (body v)
      (fun _ s => Fits heap depth v ∧ ∃ text, T v text ∧ s.Has (before ++ (text ++ separator)))
      (Overflows (Fits heap depth v)))
    (l : List (Reference n)) (before : JavaString) :
    Ensures (Rendering.Has before) (l.forM body)
      (fun _ s => (∀ v ∈ l, Fits heap depth v) ∧ ∃ texts, List.Forall₂ T l texts ∧
        s.Has (before ++ texts.flatMap (· ++ separator))) (Overflows (∀ v ∈ l, Fits heap depth v)) := by
  let I : List (Reference n) → Rendering → Prop := fun done s => (∀ v ∈ done, Fits heap depth v) ∧
    ∃ texts, List.Forall₂ T done texts ∧ s.Has (before ++ texts.flatMap (· ++ separator))
  have hloop : Ensures (I []) (l.forM body) (fun _ => I l) (Overflows (∀ v ∈ l, Fits heap depth v)) := by
    refine Ensures.forM l I fun done v rest hl => ?_
    rintro s ⟨hdone, texts, htexts, hs⟩
    refine ((hbody v _).mono ?_ ?_) s hs
    · rintro _ next ⟨hfits, text, htext, hnext⟩
      refine ⟨?_, texts ++ [text], ?_, ?_⟩
      · rw [List.forall_mem_append]
        exact ⟨hdone, List.forall_mem_singleton.mpr hfits⟩
      · exact List.rel_append htexts (.cons htext .nil)
      · rw [List.flatMap_append, List.flatMap_singleton, ← List.append_assoc]
        exact hnext
    · rintro e next ⟨he, hdeleted, hfits⟩
      refine ⟨he, hdeleted, fun hall => hfits (hall v ?_)⟩
      rw [← hl]
      exact List.mem_append_right _ List.mem_cons_self
  intro s hs
  refine hloop s ⟨nofun, [], .nil, ?_⟩
  rw [List.flatMap_nil, List.append_nil]
  exact hs

/-- The rendering of an object that is no array does not descend. -/
theorem exists_appendSingle {obj : Reference n} (hobj : arrayOf heap obj = none) :
    ∃ text, Appends (appendSingle obj) text ∧ Rendered heap obj text := by
  cases obj with
  | null => exact ⟨_, appends_append _, .null⟩
  | object o =>
    obtain ⟨text, htext⟩ := exists_appendObject (some o) (some o.clazz)
    exact ⟨text, htext, .object htext⟩
  | byteArrayOutputStream data => cases hobj
  | array address => cases hobj

/-- A parameter is rendered if the depth suffices for it, and overflows the stack otherwise. -/
theorem ensures_appendParam (depth : Nat) (obj : Reference n) (before : JavaString) :
    Ensures (Rendering.Has before) (appendParam heap depth obj)
      (fun _ s => Fits heap depth obj ∧ ∃ text, Rendered heap obj text ∧ s.Has (before ++ (text ++ separator)))
      (Overflows (Fits heap depth obj)) := by
  induction depth generalizing obj before with
  | zero => exact Ensures.of_throw fun _ hs => ⟨rfl, hs.deleted, id⟩
  | succ depth ih =>
    cases harray : arrayOf heap obj with
    | some content =>
      have helements : elementsOf heap obj = content.values := by
        rw [elementsOf, harray, Option.map_some, Option.getD_some]
      have hloop := ensures_loop (T := Rendered heap) ih content.values (before ++ content.hex ++ javaString "[")
      rw [appendParam, harray]
      refine (ensures_appendHex content).bind fun _ => ensures_append.bind fun _ => ?_
      refine (hloop.mono (fun _ _ hs => hs) fun e s hs => ?_).bind fun _ => ?_
      · rw [Fits, helements]
        exact hs
      · rintro s ⟨hfits, texts, htexts, hs⟩
        rw [htexts.length_eq]
        refine ((ensures_deleteSeparator texts).bind fun _ => (ensures_append.mono ?_ fun _ _ hs => hs)) s hs
        intro _ next hnext
        refine ⟨?_, _, .array harray htexts, ?_⟩
        · rw [Fits, helements]
          exact hfits
        · have hclose : javaString "], " = javaString "]" ++ separator := rfl
          rw [hclose] at hnext
          simpa only [List.append_assoc] using hnext
    | none =>
      obtain ⟨text, happends, htext⟩ := exists_appendSingle harray
      have helements : elementsOf heap obj = [] := by rw [elementsOf, harray]; rfl
      rw [appendParam, harray]
      refine happends.ensures.bind fun _ => ensures_append.mono (fun _ s hs => ?_) fun _ _ hs => hs
      refine ⟨?_, text, htext, ?_⟩
      · rw [Fits, helements]
        exact nofun
      · rw [← List.append_assoc]
        exact hs

/-- The arrays, and the other objects, that are rendered. -/
def roots (result : Reference n) (args : Option (List (Reference n))) : List (Reference n) :=
  args.getD [] ++ if result.isNull then [] else [result]

section Call

variable {depth : Nat} {R : RenderError → Rendering → Prop}

/-- What only appends keeps the buffer free of deletions in the wrong place. -/
theorem Appends.ensures_deleted {x : Render} {text : JavaString} (happends : Appends x text) :
    Ensures Rendering.OnlySeparators x (fun _ => Rendering.OnlySeparators) R :=
  fun s hs => .inl ⟨(), _, happends s, hs⟩

/-- An argument is rendered on a line of its own if the depth suffices for it. -/
theorem ensures_appendArg (arg : Reference n) (before : JavaString) :
    Ensures (Rendering.Has before) (appendArg heap depth arg)
      (fun _ s => Fits heap depth arg ∧ ∃ text,
        (∃ rendered, Rendered heap arg rendered ∧ text = javaString "\n  " ++ rendered) ∧
          s.Has (before ++ (text ++ separator)))
      (Overflows (Fits heap depth arg)) := by
  refine ensures_append.bind fun _ => (ensures_appendParam depth arg _).bind fun _ => ?_
  rintro s ⟨hfits, rendered, hrendered, hs⟩
  have hprint : Ensures (Rendering.Has (before ++ javaString "\n  " ++ (rendered ++ separator))) (printlnThrowable arg)
      (fun _ => Rendering.Has (before ++ javaString "\n  " ++ (rendered ++ separator)))
      (Overflows (Fits heap depth arg)) := by
    unfold printlnThrowable
    split
    · split
      · exact ensures_report
      · exact Ensures.of_pure fun _ hs => hs
    · exact Ensures.of_pure fun _ hs => hs
  refine (hprint.mono (fun _ next hnext => ?_) fun _ _ hs => hs) s hs
  refine ⟨hfits, _, ⟨rendered, hrendered, rfl⟩, ?_⟩
  simpa only [List.append_assoc] using hnext

/-- All arguments are rendered if the depth suffices for each of them. -/
theorem ensures_appendArgs (args : Option (List (Reference n))) :
    Ensures Rendering.OnlySeparators (appendArgs heap depth args)
      (fun _ s => (∀ v ∈ args.getD [], Fits heap depth v) ∧ s.OnlySeparators)
      (Overflows (∀ v ∈ args.getD [], Fits heap depth v)) := by
  cases args with
  | none => exact Ensures.of_pure fun _ hs => ⟨nofun, hs⟩
  | some args =>
    cases args with
    | nil => exact Ensures.of_pure fun _ hs => ⟨nofun, hs⟩
    | cons arg rest =>
      intro s hs
      refine ((ensures_loop ensures_appendArg (arg :: rest) s.buffer).bind fun _ => ?_) s ⟨rfl, hs⟩
      rintro s ⟨hfits, texts, htexts, hs⟩
      have hne : texts ≠ [] := by
        rintro rfl
        cases htexts
      rw [flatMap_separator hne, ← List.append_assoc] at hs
      refine (ensures_deleteLastTwo.bind fun _ => ensures_append.mono (fun _ next hnext => ?_) fun _ _ hs => hs) s hs
      exact ⟨hfits, hnext.deleted⟩

/-- The result is rendered if the depth suffices for it. -/
theorem ensures_appendResult (result : Reference n) :
    Ensures Rendering.OnlySeparators (appendResult heap depth result)
      (fun _ s => (∀ v ∈ roots result none, Fits heap depth v) ∧ s.OnlySeparators)
      (Overflows (∀ v ∈ roots result none, Fits heap depth v)) := by
  unfold appendResult roots
  split
  · exact Ensures.of_pure fun _ hs => ⟨nofun, hs⟩
  · intro s hs
    simp only [Option.getD_none, List.nil_append, List.forall_mem_singleton]
    refine (ensures_append.bind fun _ => (ensures_appendParam depth result _).bind fun _ => ?_) s ⟨rfl, hs⟩
    rintro s ⟨hfits, text, -, hs⟩
    rw [← List.append_assoc] at hs
    exact (ensures_deleteLastTwo.mono (fun _ next hnext => ⟨hfits, hnext.deleted⟩) fun _ _ hs => hs) s hs

/-- The head of the report appends texts only. -/
theorem ensures_appendString (method : HookedMember) (thisObject : Option JavaObject) :
    Ensures Rendering.OnlySeparators (appendString method thisObject) (fun _ => Rendering.OnlySeparators) R := by
  unfold appendString
  split
  · exact ((appends_append _).bind (appends_append _)).ensures_deleted
  · exact appends_pure.ensures_deleted

/-- The time of the call appends texts only. -/
theorem ensures_appendOffset (executeTimeInMillis : BitVec 64) :
    Ensures Rendering.OnlySeparators (appendOffset executeTimeInMillis) (fun _ => Rendering.OnlySeparators) R := by
  unfold appendOffset
  split
  · exact (appends_append _).ensures_deleted
  · exact appends_pure.ensures_deleted

/-- Printing the buffer deletes nothing from it. -/
theorem ensures_printBuffer (executeTimeInMillis : BitVec 64) :
    Ensures Rendering.OnlySeparators (printBuffer executeTimeInMillis) (fun _ => Rendering.OnlySeparators) R := by
  refine Ensures.get_bind fun s hs => ?_
  split <;> exact Ensures.of_modify fun _ heq => heq ▸ hs

/-- What holds of all references of a call holds of its arguments and of its result. -/
theorem forall_roots {P : Reference n → Prop} {result : Reference n} {args : Option (List (Reference n))} :
    (∀ v ∈ roots result args, P v) ↔ (∀ v ∈ args.getD [], P v) ∧ ∀ v ∈ roots result none, P v := by
  unfold roots
  rw [List.forall_mem_append, Option.getD_none, List.nil_append]

/-- A call is rendered when the stack has room for what is rendered, and only then. -/
theorem ensures_afterHookedMethod (heap : Heap n) (depth : Nat) (executeTimeInMillis : BitVec 64)
    (method : HookedMember)
    (thisObject : Option JavaObject) (result : Reference n) (args : Option (List (Reference n))) :
    Ensures Rendering.OnlySeparators (afterHookedMethod heap depth executeTimeInMillis method thisObject result args)
      (fun _ s => (∀ v ∈ roots result args, Fits heap depth v) ∧ s.OnlySeparators)
      (Overflows (∀ v ∈ roots result args, Fits heap depth v)) := by
  obtain ⟨text, hobject⟩ := exists_appendObject thisObject (thisObject.map JavaObject.clazz)
  refine (appends_append _).ensures_deleted.bind fun _ => hobject.ensures_deleted.bind fun _ =>
    (appends_append _).ensures_deleted.bind fun _ =>
      ((ensures_appendArgs args).mono (fun _ _ hs => hs) ?_).bind fun _ => ?_
  · rintro e s ⟨he, hdeleted, hfits⟩
    exact ⟨he, hdeleted, fun hall => hfits (forall_roots.mp hall).1⟩
  rintro s ⟨hargs, hs⟩
  refine ((appends_append _).ensures_deleted.bind fun _ =>
    ((ensures_appendResult result).mono (fun _ _ hs => hs) ?_).bind fun _ => ?_) s hs
  · rintro e s ⟨he, hdeleted, hfits⟩
    exact ⟨he, hdeleted, fun hall => hfits (forall_roots.mp hall).2⟩
  rintro s ⟨hresult, hs⟩
  refine ((ensures_appendString method thisObject).bind fun _ => (appends_append _).ensures_deleted.bind fun _ =>
    (ensures_appendOffset executeTimeInMillis).bind fun _ =>
      (ensures_printBuffer executeTimeInMillis).mono ?_ fun _ _ hs => hs) s hs
  exact fun _ next hnext => ⟨forall_roots.mpr ⟨hargs, hresult⟩, hnext⟩

end Call

/-- One array is an element of another one. -/
def Contains (heap : Heap n) (a b : Fin n) : Prop := .array b ∈ (heap a).values

section Depth

/-- A larger depth suffices for all that a smaller one suffices for. -/
theorem Fits.mono {small large : Nat} {obj : Reference n} (hle : small ≤ large) (hfits : Fits heap small obj) :
    Fits heap large obj := by
  induction large generalizing small obj with
  | zero =>
    obtain rfl : small = 0 := by omega
    exact hfits
  | succ large ih =>
    cases small with
    | zero => exact hfits.elim
    | succ small => exact fun v hv => ih (by omega) (hfits v hv)

/-- One depth is enough for finitely many objects. -/
theorem exists_depth {l : List (Reference n)} (hl : ∀ v ∈ l, ∃ depth, Fits heap depth v) :
    ∃ depth, ∀ v ∈ l, Fits heap depth v := by
  induction l with
  | nil => exact ⟨0, nofun⟩
  | cons v rest ih =>
    obtain ⟨⟨first, hfirst⟩, hothers⟩ := List.forall_mem_cons.mp hl
    obtain ⟨others, hrest⟩ := ih hothers
    refine ⟨max first others, List.forall_mem_cons.mpr ⟨hfirst.mono (le_max_left _ _), fun w hw => ?_⟩⟩
    exact (hrest w hw).mono (le_max_right _ _)

/-- Only arrays from which every descent ends are rendered within some depth. -/
theorem Fits.ends {depth : Nat} {a : Fin n} (hfits : Fits heap depth (.array a)) : Ends (Contains heap) a := by
  induction depth generalizing a with
  | zero => exact hfits.elim
  | succ depth ih => exact .intro _ fun b hb => ih (hfits _ hb)

/-- A depth for an object comes from depths for all its elements. -/
theorem exists_fits_of_elements {obj : Reference n}
    (helements : ∀ v ∈ elementsOf heap obj, ∃ depth, Fits heap depth v) :
    ∃ depth, Fits heap depth obj := by
  obtain ⟨depth, hdepth⟩ := exists_depth helements
  exact ⟨depth + 1, hdepth⟩

/-- Only arrays that are on the heap can be too deep. -/
theorem exists_fits_of_arrays {obj : Reference n}
    (harrays : ∀ a, obj = .array a → ∃ depth, Fits heap depth (.array a)) :
    ∃ depth, Fits heap depth obj := by
  cases obj with
  | null => exact ⟨1, nofun⟩
  | object o => exact ⟨1, nofun⟩
  | byteArrayOutputStream data =>
    refine ⟨2, fun v hv => ?_⟩
    obtain ⟨b, -, rfl⟩ := List.mem_map.mp hv
    exact nofun
  | array a => exact harrays a rfl

/-- Conversely some depth suffices for an array from which every descent ends. -/
theorem exists_fits_of_ends {a : Fin n} (hends : Ends (Contains heap) a) : ∃ depth, Fits heap depth (.array a) := by
  induction hends with
  | intro a _ ih =>
    refine exists_fits_of_elements fun v hv => exists_fits_of_arrays fun b hb => ?_
    subst hb
    exact ih b hv

end Depth

section Renders

variable (heap) (executeTimeInMillis : BitVec 64) (method : HookedMember) (thisObject : Option JavaObject)
  (result : Reference n) (args : Option (List (Reference n)))

/-- Rendering ends if the stack has room, and deletes separators only, also where it does not end. -/
structure Renders : Prop where
  ends : ∃ depth next,
    (afterHookedMethod heap depth executeTimeInMillis method thisObject result args).run.run .new = (.ok (), next)
  deleted : ∀ depth,
    ((afterHookedMethod heap depth executeTimeInMillis method thisObject result args).after .new).OnlySeparators

/-- No array that is rendered contains itself, directly or through other ones. -/
def Acyclic : Prop :=
  ∀ a, .array a ∈ roots result args → ∀ b, ReflTransGen (Contains heap) a b → ¬ TransGen (Contains heap) b b

variable {heap executeTimeInMillis method thisObject result args}

/-- One depth suffices for all references of a call exactly when no array contains itself. -/
theorem exists_depth_iff : (∃ depth, ∀ v ∈ roots result args, Fits heap depth v) ↔ Acyclic heap result args := by
  constructor
  · rintro ⟨depth, hfits⟩ a ha
    exact (ends_iff (Set.toFinite _)).mp (hfits _ ha).ends
  · intro hacyclic
    refine exists_depth fun v hv => exists_fits_of_arrays fun a ha => ?_
    exact exists_fits_of_ends ((ends_iff (Set.toFinite _)).mpr (hacyclic a (ha ▸ hv)))

/-- Rendering begins with an empty buffer. -/
theorem onlySeparators_new : Rendering.new.OnlySeparators := nofun

/-- The report of a call is made exactly when some depth suffices for all its references. -/
theorem renders_iff_fits :
    Renders heap executeTimeInMillis method thisObject result args ↔
      ∃ depth, ∀ v ∈ roots result args, Fits heap depth v := by
  have hruns (depth : Nat) :=
    ensures_afterHookedMethod heap depth executeTimeInMillis method thisObject result args .new
    onlySeparators_new
  constructor
  · rintro ⟨⟨depth, next, hends⟩, -⟩
    rcases hruns depth with ⟨_, last, hrun, hfits, -⟩ | ⟨e, last, hrun, -⟩
    · exact ⟨depth, hfits⟩
    · rw [hends] at hrun
      cases hrun
  · rintro ⟨depth, hfits⟩
    refine ⟨⟨depth, ?_⟩, fun depth => ?_⟩
    · rcases hruns depth with ⟨_, last, hrun, -⟩ | ⟨e, last, hrun, hoverflows⟩
      · exact ⟨last, hrun⟩
      · exact absurd hfits hoverflows.not_fits
    · unfold Block.after
      rcases hruns depth with ⟨_, last, hrun, -, hdeleted⟩ | ⟨e, last, hrun, hoverflows⟩
      · rw [hrun]
        exact hdeleted
      · rw [hrun]
        exact hoverflows.deleted

/-- Rendering ends exactly when no array contains itself. -/
theorem renders_iff : Renders heap executeTimeInMillis method thisObject result args ↔ Acyclic heap result args :=
  renders_iff_fits.trans exists_depth_iff

end Renders

/-- An array that is an argument and its own element. -/
theorem not_renders_self :
    ¬ Renders (n := 1) (fun a => .elements [.array a]) 0
      { declaringClassName := javaString "C", name := javaString "m", text := javaString "void C.m(Object)"
        isStringConstructor := false } none .null (some [.array 0]) := by
  rw [renders_iff_fits, exists_depth_iff]
  intro hacyclic
  exact hacyclic 0 (List.mem_singleton_self _) 0 .refl (.single (List.mem_singleton_self _))

/-- Nested, shared and empty arrays. -/
example :
    let heap : Heap 2 := fun a => if a = 0 then .elements [.array 1, .null, .array 1] else .bytes [0xFF, 1]
    ((appendParam heap 3 (.array 0)).after .new).buffer = javaString "[ff01[-1, 1], null, ff01[-1, 1]], " := by
  decide

end inspector.script.hook
