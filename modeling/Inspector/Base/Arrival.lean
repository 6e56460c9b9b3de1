import Inspector.Base.DataStream

namespace stream

/-- What a reader meets at a socket with a read timeout. -/
inductive Arrival where
  | byte (b : UInt8)
  | timeout
  deriving DecidableEq, Repr

/-- The bytes that arrive. -/
def bytes : List Arrival → List UInt8
  | [] => []
  | .byte b :: rest => b :: bytes rest
  | .timeout :: rest => bytes rest

@[simp] theorem bytes_append (first second : List Arrival) : bytes (first ++ second) = bytes first ++ bytes second := by
  induction first with
  | nil => rfl
  | cons arrival rest ih =>
    cases arrival with
    | byte b => exact congrArg (b :: ·) ih
    | timeout => exact ih

@[simp] theorem bytes_map_byte (data : List UInt8) : bytes (data.map .byte) = data := by
  induction data with
  | nil => rfl
  | cons b rest ih => exact congrArg (b :: ·) ih

/-- Bytes arrive up to the first timeout. -/
theorem exists_span (items : List Arrival) :
    ∃ data : List UInt8, items = data.map .byte ∨ ∃ rest, items = data.map .byte ++ .timeout :: rest := by
  induction items with
  | nil => exact ⟨[], Or.inl rfl⟩
  | cons arrival rest ih =>
    cases arrival with
    | timeout => exact ⟨[], Or.inr ⟨rest, rfl⟩⟩
    | byte b =>
      obtain ⟨data, hdata | ⟨others, hothers⟩⟩ := ih
      · exact ⟨b :: data, Or.inl (congrArg (.byte b :: ·) hdata)⟩
      · exact ⟨b :: data, Or.inr ⟨others, congrArg (.byte b :: ·) hothers⟩⟩

/-- How a read ends. What was consumed before a timeout is not in the rest. A read for
which nothing more arrives is pending. -/
inductive Outcome (ε α : Type) where
  | ok (value : α) (rest : List Arrival)
  | timeout (rest : List Arrival)
  | failed (error : ε)
  | pending

/-- A program that reads from the socket. -/
def Input (ε α : Type) := List Arrival → Outcome ε α

namespace Input

variable {ε α β : Type}

protected def bind (p : Input ε α) (f : α → Input ε β) : Input ε β := fun items =>
  match p items with
  | .ok value rest => f value rest
  | .timeout rest => .timeout rest
  | .failed error => .failed error
  | .pending => .pending

instance instMonad : Monad (Input ε) where
  pure value := fun items => .ok value items
  bind := Input.bind

def fail (error : ε) : Input ε α := fun _ => .failed error

def readByte : Input ε UInt8
  | [] => .pending
  | .byte b :: rest => .ok b rest
  | .timeout :: rest => .timeout rest

def readUnsignedShort : Input ε (BitVec 16) := do
  let ch1 ← readByte
  let ch2 ← readByte
  return ch1.toBitVec ++ ch2.toBitVec

def readInt : Input ε (BitVec 32) := do
  let high ← readUnsignedShort
  let low ← readUnsignedShort
  return high ++ low

def readLong : Input ε (BitVec 64) := do
  let high ← readInt
  let low ← readInt
  return high ++ low

/-- Exactly so many items. -/
def readItems (p : Input ε α) : (length : Nat) → Input ε { items : List α // items.length = length }
  | 0 => return ⟨[], rfl⟩
  | length + 1 => do
    let item ← p
    let items ← readItems p length
    return ⟨item :: items.1, congrArg (· + 1) items.2⟩

def readFully (length : Nat) : Input ε { data : List UInt8 // data.length = length } := readItems readByte length

variable {p : Input ε α} {f : α → Input ε β} {items rest : List Arrival} {a : α} {b : β}

/-- Behind a read that succeeds, the next one goes on with what is left. -/
theorem bind_of_ok {middle : List Arrival} (hread : p items = .ok a middle) : (p >>= f) items = f a middle := by
  change Input.bind p f items = _
  rw [Input.bind, hread]

/-- Two reads succeed if the first does and the second does with what it leaves. -/
theorem bind_eq_ok : (p >>= f) items = .ok b rest ↔ ∃ a middle, p items = .ok a middle ∧ f a middle = .ok b rest := by
  change Input.bind p f items = _ ↔ _
  unfold Input.bind
  cases p items with
  | ok value middle => simp
  | timeout middle => simp
  | failed error => simp
  | pending => simp

/-- Two reads time out in the first or, behind it, in the second. -/
theorem bind_eq_timeout : (p >>= f) items = .timeout rest ↔
    p items = .timeout rest ∨ ∃ a middle, p items = .ok a middle ∧ f a middle = .timeout rest := by
  change Input.bind p f items = _ ↔ _
  unfold Input.bind
  cases p items with
  | ok value middle => simp
  | timeout middle => simp
  | failed error => simp
  | pending => simp

/-- A program that reads an encoding of its value. -/
structure Reads (p : Input ε α) (Encodes : α → List UInt8 → Prop) : Prop where
  of_ok : ∀ {items a rest}, p items = .ok a rest → ∃ data, Encodes a data ∧ items = data.map .byte ++ rest
  of_timeout : ∀ {items rest}, p items = .timeout rest → ∃ lost : List UInt8, items = lost.map .byte ++ .timeout :: rest
  read : ∀ {a data}, Encodes a data → ∀ rest, p (data.map .byte ++ rest) = .ok a rest

namespace Reads

variable {Encodes : α → List UInt8 → Prop}

protected theorem pure (b : β) : Reads (pure b : Input ε β) (fun a data => b = a ∧ data = []) where
  of_ok := by
    intro items a rest hread
    cases hread
    exact ⟨[], ⟨rfl, rfl⟩, rfl⟩
  of_timeout := by
    intro items rest hread
    cases hread
  read := by
    rintro a data ⟨rfl, rfl⟩ rest
    rfl

/-- A program that throws reads nothing. -/
protected theorem fail (error : ε) : Reads (fail error : Input ε α) (fun _ _ => False) where
  of_ok := by
    intro items a rest hread
    cases hread
  of_timeout := by
    intro items rest hread
    cases hread
  read := by
    intro a data hfalse
    exact hfalse.elim

/-- One read after the other. A timeout in the second loses what the first has read. -/
protected theorem bind {Encodes' : α → β → List UInt8 → Prop} (hp : Reads p Encodes)
    (hf : ∀ a, Reads (f a) (Encodes' a)) :
    Reads (p >>= f) (fun b data => ∃ a first second,
      Encodes a first ∧ Encodes' a b second ∧ data = first ++ second) where
  of_ok := by
    intro items b rest hread
    obtain ⟨a, middle, hfirst, hsecond⟩ := bind_eq_ok.mp hread
    obtain ⟨first, ha, hitems⟩ := hp.of_ok hfirst
    obtain ⟨second, hb, hmiddle⟩ := (hf a).of_ok hsecond
    refine ⟨first ++ second, ⟨a, first, second, ha, hb, rfl⟩, ?_⟩
    rw [hitems, hmiddle, List.map_append, List.append_assoc]
  of_timeout := by
    intro items rest hread
    rcases bind_eq_timeout.mp hread with hfirst | ⟨a, middle, hfirst, hsecond⟩
    · exact hp.of_timeout hfirst
    · obtain ⟨first, -, hitems⟩ := hp.of_ok hfirst
      obtain ⟨lost, hmiddle⟩ := (hf a).of_timeout hsecond
      refine ⟨first ++ lost, ?_⟩
      rw [hitems, hmiddle, List.map_append, List.append_assoc]
  read := by
    rintro b data ⟨a, first, second, ha, hb, rfl⟩ rest
    rw [List.map_append, List.append_assoc, bind_of_ok (hp.read ha _)]
    exact (hf a).read hb rest

/-- The encodings can be described in another way. -/
protected theorem congr {Encodes' : α → List UInt8 → Prop} (hp : Reads p Encodes)
    (h : ∀ a data, Encodes a data ↔ Encodes' a data) : Reads p Encodes' where
  of_ok := by
    intro items a rest hread
    obtain ⟨data, ha, hitems⟩ := hp.of_ok hread
    exact ⟨data, (h a data).mp ha, hitems⟩
  of_timeout := hp.of_timeout
  read := by
    intro a data ha rest
    exact hp.read ((h a data).mpr ha) rest

/-- A value that is computed from what was read. -/
protected theorem map (g : α → β) (hp : Reads p Encodes) :
    Reads (do return g (← p)) (fun b data => ∃ a, Encodes a data ∧ g a = b) := by
  refine (hp.bind fun a => Reads.pure (g a)).congr fun b data => ?_
  constructor
  · rintro ⟨a, first, second, ha, ⟨hb, rfl⟩, rfl⟩
    exact ⟨a, by rwa [List.append_nil], hb⟩
  · rintro ⟨a, ha, hb⟩
    exact ⟨a, data, [], ha, ⟨hb, rfl⟩, (List.append_nil data).symm⟩

/-- No encoding is the beginning of another one. -/
protected theorem unique (hp : Reads p Encodes) {a a' : α} {data data' rest rest' : List UInt8} (ha : Encodes a data)
    (ha' : Encodes a' data') (hsame : data ++ rest = data' ++ rest') : a = a' ∧ rest = rest' := by
  have hread := hp.read ha (rest.map .byte)
  rw [← List.map_append, hsame, List.map_append, hp.read ha'] at hread
  obtain ⟨rfl, hrest⟩ := Outcome.ok.inj hread
  refine ⟨rfl, ?_⟩
  rw [← bytes_map_byte rest, ← bytes_map_byte rest', hrest]

end Reads

/-- One byte is read as it is. -/
theorem reads_readByte : Reads (readByte : Input ε UInt8) (fun b data => data = [b]) where
  of_ok := by
    intro items a rest hread
    cases items with
    | nil => cases hread
    | cons arrival items =>
      cases arrival with
      | byte b =>
        cases hread
        exact ⟨_, rfl, rfl⟩
      | timeout => cases hread
  of_timeout := by
    intro items rest hread
    cases items with
    | nil => cases hread
    | cons arrival items =>
      cases arrival with
      | byte b => cases hread
      | timeout =>
        cases hread
        exact ⟨[], rfl⟩
  read := by
    rintro a data rfl rest
    rfl

/-- A short is read from its two bytes. -/
theorem reads_readUnsignedShort :
    Reads (readUnsignedShort : Input ε (BitVec 16)) (fun s data => data = writeShort s) := by
  refine (reads_readByte.bind fun ch1 => reads_readByte.map fun ch2 =>
    ch1.toBitVec ++ ch2.toBitVec).congr fun s data => ?_
  constructor
  · rintro ⟨ch1, first, second, rfl, ⟨ch2, rfl, rfl⟩, rfl⟩
    rw [writeShort_append]
    rfl
  · rintro rfl
    exact ⟨⟨s.extractLsb' 8 8⟩, _, _, rfl, ⟨⟨s.extractLsb' 0 8⟩, rfl, append_halves (n := 8) s⟩, rfl⟩

/-- A value whose tag says how the rest of it is read. -/
theorem Reads.tagged {tag : α → BitVec 16} {payload : α → List UInt8} {f : BitVec 16 → Input ε α}
    (hf : ∀ type, Reads (f type) (fun a data => tag a = type ∧ data = payload a)) :
    Reads (readUnsignedShort >>= f) (fun a data => data = writeShort (tag a) ++ payload a) := by
  refine (reads_readUnsignedShort.bind hf).congr fun a data => ?_
  constructor
  · rintro ⟨type, first, second, rfl, ⟨rfl, rfl⟩, rfl⟩
    rfl
  · rintro rfl
    exact ⟨tag a, _, _, rfl, ⟨rfl, rfl⟩, rfl⟩

/-- An int is read from its four bytes. -/
theorem reads_readInt : Reads (readInt : Input ε (BitVec 32)) (fun i data => data = writeInt i) := by
  refine (reads_readUnsignedShort.bind fun high => reads_readUnsignedShort.map fun low =>
    high ++ low).congr fun i data => ?_
  constructor
  · rintro ⟨high, first, second, rfl, ⟨low, rfl, rfl⟩, rfl⟩
    rw [writeInt_append]
  · rintro rfl
    exact ⟨i.extractLsb' 16 16, _, _, rfl, ⟨i.extractLsb' 0 16, rfl, append_halves (n := 16) i⟩, rfl⟩

/-- Items are read one behind the other. -/
theorem reads_readItems {encode : α → List UInt8} (hp : Reads p (fun a data => data = encode a)) (length : Nat) :
    Reads (readItems p length) (fun items data => data = items.1.flatMap encode) := by
  induction length with
  | zero =>
    refine (Reads.pure _).congr fun items data => ?_
    obtain ⟨items, hitems⟩ := items
    obtain rfl := List.eq_nil_of_length_eq_zero hitems
    simp
  | succ length ih =>
    refine (hp.bind fun a => ih.map _).congr fun items data => ?_
    constructor
    · rintro ⟨a, first, second, rfl, ⟨others, rfl, rfl⟩, rfl⟩
      rfl
    · rintro rfl
      obtain ⟨items, hitems⟩ := items
      cases items with
      | nil => cases hitems
      | cons a others => exact ⟨a, _, _, rfl, ⟨⟨others, Nat.succ.inj hitems⟩, rfl, rfl⟩, rfl⟩

/-- As many bytes are read as were asked for. -/
theorem reads_readFully (length : Nat) : Reads (readFully length : Input ε _) (fun bytes data => data = bytes.1) := by
  refine (reads_readItems reads_readByte length).congr fun bytes data => ?_
  rw [List.flatMap_singleton']

/-- A long is read from its eight bytes. -/
theorem reads_readLong : Reads (readLong : Input ε (BitVec 64)) (fun l data => data = writeLong l) := by
  refine (reads_readInt.bind fun high => reads_readInt.map fun low => high ++ low).congr fun l data => ?_
  constructor
  · rintro ⟨high, first, second, rfl, ⟨low, rfl, rfl⟩, rfl⟩
    rw [writeLong_append]
  · rintro rfl
    exact ⟨l.extractLsb' 32 32, _, _, rfl, ⟨l.extractLsb' 0 32, rfl, append_halves (n := 32) l⟩, rfl⟩

end Input

end stream
