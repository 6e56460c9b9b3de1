import Inspector.Dex.FixDalvikBytecode

namespace inspector.dex

namespace Section

variable {α β : Type} {data : List UInt8}

/-- A section goes on where it has come to. -/
theorem bind_apply (s : Section α) (f : α → Section β) (position : Nat) :
    (s >>= f) position = s position >>= fun r => f r.1 r.2 := rfl

/-- Two reads in a row succeed when each of them does. -/
theorem run_bind_eq_ok {s : Section α} {f : α → Section β} {position : Nat} {r : β × Nat} :
    ((s >>= f) position).run data = .ok r ↔
      ∃ a next, (s position).run data = .ok (a, next) ∧ (f a next).run data = .ok r := by
  rw [bind_apply, Reader.run_bind_eq_ok]
  constructor
  · rintro ⟨⟨a, next⟩, hs, hf⟩
    exact ⟨a, next, hs, hf⟩
  · rintro ⟨a, next, hs, hf⟩
    exact ⟨(a, next), hs, hf⟩

/-- Two reads in a row read what each of them reads. -/
theorem mem_reads_bind {s : Section α} {f : α → Section β} {position q : Nat} :
    q ∈ ((s >>= f) position).reads data ↔ q ∈ (s position).reads data ∨
      ∃ a next, (s position).run data = .ok (a, next) ∧ q ∈ (f a next).reads data := by
  rw [bind_apply, Reader.mem_reads_bind]
  refine or_congr_right ?_
  constructor
  · rintro ⟨⟨a, next⟩, hs, hf⟩
    exact ⟨a, next, hs, hf⟩
  · rintro ⟨a, next, hs, hf⟩
    exact ⟨(a, next), hs, hf⟩

/-- The second read begins where the first one has ended. -/
theorem mem_reads_bind_of_ok {s : Section α} {f : α → Section β} {position q next : Nat} {a : α}
    (hs : (s position).run data = .ok (a, next)) :
    q ∈ ((s >>= f) position).reads data ↔ q ∈ (s position).reads data ∨ q ∈ (f a next).reads data := by
  rw [mem_reads_bind]
  refine or_congr_right ?_
  constructor
  · rintro ⟨b, other, hother, hq⟩
    rw [hs] at hother
    cases hother
    exact hq
  · intro hq
    exact ⟨a, next, hs, hq⟩

/-- From a position at or after `start` on, nothing before `start` is read, and the
section stays at or after it. -/
def After (start : Nat) (s : Section α) : Prop :=
  ∀ data position, start ≤ position → (∀ q ∈ (s position).reads data, start ≤ q) ∧
    ∀ a next, (s position).run data = .ok (a, next) → start ≤ next

variable {start : Nat}

/-- Nothing is read for a value that is at hand. -/
theorem After.pure (a : α) : After start (pure a) := by
  intro data position hposition
  refine ⟨fun q hq => absurd hq List.not_mem_nil, fun b next hrun => ?_⟩
  cases hrun
  exact hposition

/-- Nothing is read for an exception. -/
theorem After.throw (error : Throwable) : After start (throw error : Section α) := by
  intro data position _
  exact ⟨fun q hq => absurd hq List.not_mem_nil, fun b next hrun => by cases hrun⟩

/-- Two reads that stay behind a position do so in a row. -/
theorem After.bind {s : Section α} {f : α → Section β} (hs : After start s) (hf : ∀ a, After start (f a)) :
    After start (s >>= f) := by
  intro data position hposition
  obtain ⟨hreads, hnext⟩ := hs data position hposition
  constructor
  · intro q hq
    rcases mem_reads_bind.mp hq with hfirst | ⟨a, next, hrun, hsecond⟩
    · exact hreads q hfirst
    · exact (hf a data next (hnext a next hrun)).1 q hsecond
  · intro b last hrun
    obtain ⟨a, next, hfirst, hsecond⟩ := run_bind_eq_ok.mp hrun
    exact (hf a data next (hnext a next hfirst)).2 b last hsecond

/-- A byte is read at the position or behind it. -/
theorem After.readByte : After start readByte := by
  intro data position hposition
  unfold Section.readByte
  refine ⟨fun q hq => ?_, fun b next hrun => ?_⟩
  · rw [Reader.reads] at hq
    cases hbyte : data[position]? with
    | none =>
      simp only [hbyte, Reader.reads_failed, List.mem_singleton] at hq
      omega
    | some b =>
      simp only [hbyte, Reader.reads, List.mem_singleton] at hq
      omega
  · rw [Reader.run] at hrun
    cases hbyte : data[position]? with
    | none =>
      rw [hbyte] at hrun
      cases hrun
    | some b =>
      rw [hbyte] at hrun
      cases hrun
      omega

/-- A position that is asked for is at or after the start too. -/
theorem After.getPosition_bind {f : Nat → Section β} (hf : ∀ position, start ≤ position → After start (f position)) :
    After start (getPosition >>= f) := by
  intro data position hposition
  exact hf position hposition data position hposition

/-- So are the two bytes of a short. -/
theorem After.readShort : After start readShort :=
  .bind .readByte fun _ => .bind .readByte fun _ => .pure _

/-- So are those of an unsigned short. -/
theorem After.readUnsignedShort : After start readUnsignedShort := .bind .readShort fun _ => .pure _

/-- So are the four bytes of an int. -/
theorem After.readInt : After start readInt := .bind .readShort fun _ => .bind .readShort fun _ => .pure _

/-- Items that are read one after the other stay behind the start of the first one. -/
theorem After.readItems {read : Section α} (hread : After start read) (count : Nat) :
    After start (readItems read count) := by
  induction count with
  | zero => exact .pure _
  | succ count ih => exact .bind hread fun _ => .bind ih fun _ => .pure _

/-- So do the items of an array. -/
theorem After.readArray {read : Section α} (hread : After start read) (length : BitVec 32) :
    After start (readArray read length) := by
  unfold Section.readArray
  split
  · exact .throw _
  · exact .readItems hread _

/-- The loop over an unsigned number only moves on. -/
theorem After.unsignedLoop (left : Nat) (result : BitVec 32) : After start (unsignedLoop left result) := by
  induction left generalizing result with
  | zero => exact .throw _
  | succ left ih =>
    refine .bind .readByte fun cur => ?_
    dsimp only
    split
    · exact .pure _
    · exact ih _

/-- So does that over a signed number. -/
theorem After.signedLoop (left : Nat) (result signBits : BitVec 32) :
    After start (signedLoop left result signBits) := by
  induction left generalizing result signBits with
  | zero => exact .throw _
  | succ left ih =>
    refine .bind .readByte fun cur => ?_
    dsimp only
    split
    · exact .pure _
    · exact ih _ _

/-- Skipped bytes are not read. -/
theorem After.skip (capacity count : Nat) : After start (skip capacity count) := by
  refine .getPosition_bind fun position hposition => ?_
  intro data from_ _
  unfold setPosition
  split
  · refine ⟨fun q hq => absurd hq List.not_mem_nil, fun b next hrun => ?_⟩
    cases hrun
    omega
  · exact ⟨fun q hq => absurd hq List.not_mem_nil, fun b next hrun => by cases hrun⟩

/-- A handler is a type and an address. -/
theorem After.readHandler : After start readHandler :=
  .bind (.unsignedLoop _ _) fun _ => .bind (.unsignedLoop _ _) fun _ => .pure _

/-- A catch handler reads its pairs one after the other. -/
theorem After.readCatchHandler (offset : Nat) : After start (readCatchHandler offset) := by
  refine .bind (.signedLoop _ _ _) fun size => .bind (.readArray .readHandler _) fun handlers => ?_
  dsimp only
  split
  · exact .bind (.unsignedLoop _ _) fun _ => .pure _
  · exact .bind (.pure _) fun _ => .pure _

/-- The catch handlers lie one after the other. -/
theorem After.readCatchHandlers : After start readCatchHandlers := by
  refine .getPosition_bind fun baseOffset _ => .bind (.unsignedLoop _ _) fun size => .readArray ?_ _
  exact .getPosition_bind fun position _ => .readCatchHandler _

/-- The try table is read before the handlers it refers to. -/
theorem After.readTries (triesSize : BitVec 32) (catchHandlers : List CatchHandler) :
    After start (readTries triesSize catchHandlers) := by
  refine .readItems (.bind .readInt fun _ => .bind .readUnsignedShort fun _ =>
    .bind .readUnsignedShort fun offset => .bind ?_ fun _ => .pure _) _
  unfold findCatchHandlerIndex
  split
  · exact .pure _
  · exact .throw _

/-- What is opened behind the start is read behind the start. -/
theorem After.openAt (dex : Dex) {position : Nat} (hposition : start ≤ position) {read : Section α}
    (hread : After start read) : After start (openAt dex position read) := by
  intro data next hnext
  unfold Section.openAt
  split
  · constructor
    · intro q hq
      rcases Reader.mem_reads_bind.mp hq with hfirst | ⟨r, -, hsecond⟩
      · exact (hread data position hposition).1 q hfirst
      · cases hsecond
    · intro a last hrun
      obtain ⟨r, -, hpair⟩ := Reader.run_bind_eq_ok.mp hrun
      cases hpair
      exact hnext
  · exact ⟨fun q hq => absurd hq List.not_mem_nil, fun b last hrun => by cases hrun⟩

/-- The tries and their handlers lie behind the instructions. -/
theorem After.readTriesAndCatchHandlers (dex : Dex) (triesSize : BitVec 32) (instructions : Nat) :
    After start (readTriesAndCatchHandlers dex triesSize instructions) := by
  have hrest : After start (do
      let triesSection ← getPosition
      Section.skip dex.capacity (8 * triesSize.toNat)
      let catchHandlers ← Section.readCatchHandlers
      let tries ← Section.openAt dex triesSection (Section.readTries triesSize catchHandlers)
      return (tries, catchHandlers)) := by
    refine .getPosition_bind fun triesSection hsection => ?_
    refine .bind (.skip _ _) fun _ => .bind .readCatchHandlers fun catchHandlers => ?_
    exact .bind (.openAt dex hsection (.readTries _ _)) fun _ => .pure _
  unfold Section.readTriesAndCatchHandlers
  dsimp only
  split
  · exact .pure _
  · split
    · exact .bind (.bind .readShort fun _ => .pure _) fun _ => hrest
    · exact hrest

end Section

end inspector.dex
