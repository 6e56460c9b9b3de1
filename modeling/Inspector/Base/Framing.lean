import Mathlib.Data.List.Forall2
import Inspector.Base.Arrival

namespace stream

/-- A format of frames, with the program that reads one. -/
structure Framing (ε α : Type) where
  read : Input ε α
  encode : α → List UInt8
  reads : Input.Reads read (fun a data => data = encode a)
  encode_ne_nil : ∀ a, encode a ≠ []
  read_timeout : ∀ rest, read (.timeout :: rest) = .timeout rest

namespace Framing

variable {ε α : Type} (framing : Framing ε α) {frames : List α} {items rest : List Arrival} {a : α}

def encodeAll (frames : List α) : List UInt8 := frames.flatMap framing.encode

@[simp] theorem encodeAll_nil : framing.encodeAll [] = [] := rfl

@[simp] theorem encodeAll_cons (a : α) (frames : List α) :
    framing.encodeAll (a :: frames) = framing.encode a ++ framing.encodeAll frames := rfl

variable {framing}

/-- What is read as a frame is the encoding of that frame. -/
theorem of_ok (hread : framing.read items = .ok a rest) : items = (framing.encode a).map .byte ++ rest := by
  obtain ⟨data, rfl, hitems⟩ := framing.reads.of_ok hread
  exact hitems

variable (framing) in
/-- The encoding of a frame is read as that frame. -/
theorem read_encode (a : α) (rest : List Arrival) :
    framing.read ((framing.encode a).map .byte ++ rest) = .ok a rest := framing.reads.read rfl rest

/-- Reading a frame takes something from the stream. -/
theorem length_of_ok (hread : framing.read items = .ok a rest) : rest.length < items.length := by
  have hpos := List.length_pos_of_ne_nil (framing.encode_ne_nil a)
  rw [of_ok hread, List.length_append, List.length_map]
  omega

/-- So does running into a timeout. -/
theorem length_of_timeout (hread : framing.read items = .timeout rest) : rest.length < items.length := by
  obtain ⟨lost, rfl⟩ := framing.reads.of_timeout hread
  rw [List.length_append, List.length_cons]
  omega

variable (framing)

/-- Reads frame after frame. A read that times out is started again from the top, and an
exception ends the loop. -/
def loop (items : List Arrival) : List α :=
  match _ : framing.read items with
  | .ok a rest => a :: loop rest
  | .timeout rest => loop rest
  | .failed _ => []
  | .pending => []
  termination_by items.length
  decreasing_by
  · exact length_of_ok ‹_›
  · exact length_of_timeout ‹_›

/-- Before every timeout, exactly the bytes of some first frames have arrived. -/
def AtBoundaries (frames : List α) (items : List Arrival) : Prop :=
  ∀ before after, items = before ++ .timeout :: after → ∃ sent, sent <+: frames ∧ bytes before = framing.encodeAll sent

/-- A timeout comes after bytes that arrive in one piece. -/
theorem split_of_map_byte {data : List UInt8} {before after : List Arrival}
    (hitems : data.map .byte ++ rest = before ++ .timeout :: after) :
    ∃ middle, before = data.map .byte ++ middle ∧ rest = middle ++ .timeout :: after := by
  rcases List.append_eq_append_iff.mp hitems with ⟨middle, hbefore, hrest⟩ | ⟨part, hdata, hafter⟩
  · exact ⟨middle, hbefore, hrest⟩
  · cases part with
    | nil =>
      rw [List.append_nil] at hdata
      exact ⟨[], by rw [hdata, List.append_nil], hafter.symm⟩
    | cons first others =>
      obtain ⟨rfl, -⟩ := List.cons.inj hafter
      have hmem : Arrival.timeout ∈ data.map .byte := by simp [hdata]
      simp at hmem

variable {framing}

/-- The loop goes on behind a frame. -/
theorem loop_of_ok (hread : framing.read items = .ok a rest) : framing.loop items = a :: framing.loop rest := by
  rw [loop]
  split <;> simp_all

/-- The loop goes on behind a timeout, with what was read before it lost. -/
theorem loop_of_timeout (hread : framing.read items = .timeout rest) : framing.loop items = framing.loop rest := by
  rw [loop]
  split <;> simp_all

/-- The loop ends with an exception. -/
theorem loop_of_failed {error : ε} (hread : framing.read items = .failed error) : framing.loop items = [] := by
  rw [loop]
  split <;> simp_all

/-- The loop waits where the bytes of a frame are not all there. -/
theorem loop_of_pending (hread : framing.read items = .pending) : framing.loop items = [] := by
  rw [loop]
  split <;> simp_all

variable (framing) in
/-- No more is received than arrives. -/
theorem length_encodeAll_loop (items : List Arrival) :
    (framing.encodeAll (framing.loop items)).length ≤ (bytes items).length := by
  induction items using loop.induct framing with
  | case1 items a rest hread ih =>
    rw [loop_of_ok hread, of_ok hread, encodeAll_cons, List.length_append, bytes_append, bytes_map_byte,
      List.length_append]
    omega
  | case2 items rest hread ih =>
    obtain ⟨lost, hitems⟩ := framing.reads.of_timeout hread
    rw [loop_of_timeout hread, hitems, bytes_append, List.length_append, bytes]
    omega
  | case3 items error hread =>
    rw [loop_of_failed hread]
    exact Nat.zero_le _
  | case4 items hread =>
    rw [loop_of_pending hread]
    exact Nat.zero_le _

/-- Timeouts alone bring no frame. -/
theorem loop_of_bytes_eq_nil (hbytes : bytes items = []) : framing.loop items = [] := by
  have hlength := length_encodeAll_loop framing items
  rw [hbytes] at hlength
  cases hloop : framing.loop items with
  | nil => rfl
  | cons a frames =>
    rw [hloop, encodeAll_cons, List.length_append] at hlength
    have hpos := List.length_pos_of_ne_nil (framing.encode_ne_nil a)
    simp only [List.length_nil] at hlength
    omega

/-- The frame that arrives first moves every boundary by its length. -/
theorem atBoundaries_append_iff : framing.AtBoundaries (a :: frames) ((framing.encode a).map .byte ++ rest) ↔
    framing.AtBoundaries frames rest := by
  constructor
  · intro h before after hrest
    obtain ⟨sent, hsent, hbytes⟩ := h ((framing.encode a).map .byte ++ before) after (by rw [hrest, List.append_assoc])
    rw [bytes_append, bytes_map_byte] at hbytes
    cases sent with
    | nil => exact absurd (List.append_eq_nil_iff.mp hbytes).1 (framing.encode_ne_nil a)
    | cons first others =>
      obtain ⟨rfl, hothers⟩ := List.cons_prefix_cons.mp hsent
      exact ⟨others, hothers, List.append_cancel_left hbytes⟩
  · intro h before after hitems
    obtain ⟨middle, rfl, hrest⟩ := split_of_map_byte hitems
    obtain ⟨sent, hsent, hbytes⟩ := h middle after hrest
    refine ⟨a :: sent, List.cons_prefix_cons.mpr ⟨rfl, hsent⟩, ?_⟩
    rw [bytes_append, bytes_map_byte, hbytes, encodeAll_cons]

/-- A timeout before the first byte is between two frames. -/
theorem atBoundaries_timeout_iff :
    framing.AtBoundaries frames (.timeout :: rest) ↔ framing.AtBoundaries frames rest := by
  constructor
  · intro h before after hrest
    exact h (.timeout :: before) after (congrArg (.timeout :: ·) hrest)
  · intro h before after hitems
    cases before with
    | nil => exact ⟨[], List.nil_prefix, rfl⟩
    | cons arrival before =>
      obtain ⟨rfl, hrest⟩ := List.cons.inj hitems
      exact h before after hrest

/-- Without bytes every timeout comes before the first frame. -/
theorem atBoundaries_of_bytes_eq_nil (hbytes : bytes items = []) : framing.AtBoundaries frames items := by
  intro before after hitems
  rw [hitems, bytes_append] at hbytes
  exact ⟨[], List.nil_prefix, (List.append_eq_nil_iff.mp hbytes).1⟩

/-- If all bytes make up the frames that are read, then no timeout came within a frame. -/
theorem atBoundaries_of_loop (items : List Arrival) (hbytes : bytes items = framing.encodeAll (framing.loop items)) :
    framing.AtBoundaries (framing.loop items) items := by
  induction items using loop.induct framing with
  | case1 items a rest hread ih =>
    have hitems := of_ok hread
    rw [loop_of_ok hread] at hbytes ⊢
    rw [hitems, bytes_append, bytes_map_byte, encodeAll_cons] at hbytes
    rw [hitems, atBoundaries_append_iff]
    exact ih (List.append_cancel_left hbytes)
  | case2 items rest hread ih =>
    obtain ⟨lost, hitems⟩ := framing.reads.of_timeout hread
    have hlength := length_encodeAll_loop framing rest
    rw [loop_of_timeout hread] at hbytes ⊢
    rw [hitems, bytes_append, bytes_map_byte, bytes] at hbytes
    -- What was lost cannot have been made up for.
    have hlost : lost = [] := by
      have hsum := congrArg List.length hbytes
      rw [List.length_append] at hsum
      exact List.eq_nil_of_length_eq_zero (by omega)
    subst hlost
    rw [hitems]
    exact atBoundaries_timeout_iff.mpr (ih hbytes)
  | case3 items error hread =>
    refine atBoundaries_of_bytes_eq_nil ?_
    rw [hbytes, loop_of_failed hread, encodeAll_nil]
  | case4 items hread =>
    refine atBoundaries_of_bytes_eq_nil ?_
    rw [hbytes, loop_of_pending hread, encodeAll_nil]

/-- Where bytes arrive first, the first frame arrives in one piece. -/
theorem AtBoundaries.exists_first {b : UInt8} (h : framing.AtBoundaries frames (.byte b :: rest))
    (hbytes : b :: bytes rest = framing.encodeAll frames) :
    ∃ a others after, frames = a :: others ∧ .byte b :: rest = (framing.encode a).map .byte ++ after := by
  cases frames with
  | nil => cases hbytes
  | cons a others =>
    refine ⟨a, others, ?_⟩
    obtain ⟨data, hdata | ⟨after, hdata⟩⟩ := exists_span (.byte b :: rest)
    · have hall := congrArg bytes hdata
      rw [bytes_map_byte] at hall
      refine ⟨(framing.encodeAll others).map .byte, rfl, ?_⟩
      rw [hdata, ← hall, bytes, hbytes, encodeAll_cons, List.map_append]
    · obtain ⟨sent, hsent, hbefore⟩ := h _ _ hdata
      rw [bytes_map_byte] at hbefore
      cases sent with
      | nil =>
        rw [hbefore] at hdata
        cases hdata
      | cons first more =>
        obtain ⟨rfl, -⟩ := List.cons_prefix_cons.mp hsent
        refine ⟨(framing.encodeAll more).map .byte ++ .timeout :: after, rfl, ?_⟩
        rw [hdata, hbefore, encodeAll_cons, List.map_append, List.append_assoc]

/-- Conversely, all frames are read if no timeout comes within one. -/
theorem loop_of_atBoundaries {frames : List α} {items : List Arrival} (hbytes : bytes items = framing.encodeAll frames)
    (h : framing.AtBoundaries frames items) : framing.loop items = frames := by
  induction hn : items.length using Nat.strong_induction_on generalizing items frames with
  | _ n ih =>
    cases items with
    | nil =>
      cases frames with
      | nil => exact loop_of_bytes_eq_nil rfl
      | cons a others => exact absurd (List.append_eq_nil_iff.mp hbytes.symm).1 (framing.encode_ne_nil a)
    | cons arrival rest =>
      subst hn
      cases arrival with
      | timeout =>
        rw [loop_of_timeout (framing.read_timeout rest)]
        exact ih rest.length (Nat.lt_succ_self _) hbytes (atBoundaries_timeout_iff.mp h) rfl
      | byte b =>
        obtain ⟨a, others, after, rfl, hfirst⟩ := h.exists_first hbytes
        have hread := framing.read_encode a after
        have hshorter := length_of_ok hread
        rw [hfirst] at hbytes h ⊢
        rw [bytes_append, bytes_map_byte, encodeAll_cons] at hbytes
        rw [loop_of_ok hread, ih after.length (hfirst ▸ hshorter) (List.append_cancel_left hbytes)
          (atBoundaries_append_iff.mp h) rfl]

/-- The frames that are sent are the ones that are received exactly when every timeout
comes between two frames. -/
theorem loop_eq_iff (hbytes : bytes items = framing.encodeAll frames) :
    framing.loop items = frames ↔ framing.AtBoundaries frames items := by
  constructor
  · rintro rfl
    exact atBoundaries_of_loop items hbytes
  · exact loop_of_atBoundaries hbytes

/-- What is written one after the other, unless an exception is thrown. -/
def writeAll {β : Type} (write : β → Option (List UInt8)) : List β → Option (List UInt8)
  | [] => some []
  | b :: bs => do
    let out ← write b
    let outs ← writeAll write bs
    return out ++ outs

/-- All is written if the first is and the others are. -/
theorem writeAll_cons_eq_some {β : Type} {write : β → Option (List UInt8)} {b : β} {bs : List β} {all : List UInt8} :
    writeAll write (b :: bs) = some all ↔
      ∃ out outs, write b = some out ∧ writeAll write bs = some outs ∧ out ++ outs = all := by
  simp [writeAll, Option.bind_eq_some_iff]

/-- What is written in two rows stands in the order of the rows. -/
theorem writeAll_append {β : Type} (write : β → Option (List UInt8)) (first second : List β) :
    writeAll write (first ++ second) = (do
      let out ← writeAll write first
      let outs ← writeAll write second
      return out ++ outs) := by
  induction first with
  | nil =>
    rw [List.nil_append]
    cases writeAll write second <;> simp [writeAll]
  | cons b bs ih =>
    rw [List.cons_append, writeAll, ih, writeAll]
    simp [Option.bind_assoc, List.append_assoc]

/-- Writers that may or may not write a frame for what they carry. If a writer writes a
frame exactly when it is sound, then a reader finds what all of them carry exactly when
all of them are sound. -/
theorem forall₂_loop_iff {β : Type} {write : β → Option (List UInt8)} {Carries : β → α → Prop} {Sound : β → Prop}
    (hsound : ∀ b out, write b = some out → Sound b → ∃ a, Carries b a ∧ out = framing.encode a)
    (hunsound : ∀ b out a rest rest',
      write b = some out → Carries b a → out ++ rest = framing.encode a ++ rest' → Sound b)
    {bs : List β} {all : List UInt8} (hall : writeAll write bs = some all) :
    List.Forall₂ Carries bs (framing.loop (all.map .byte)) ↔ ∀ b ∈ bs, Sound b := by
  induction bs generalizing all with
  | nil =>
    cases hall
    rw [List.map_nil, loop_of_bytes_eq_nil rfl]
    simp
  | cons b bs ih =>
    obtain ⟨out, outs, hout, houts, rfl⟩ := writeAll_cons_eq_some.mp hall
    rw [List.forall_mem_cons]
    by_cases hb : Sound b
    · obtain ⟨a, ha, rfl⟩ := hsound b out hout hb
      rw [List.map_append, loop_of_ok (framing.read_encode a _), List.forall₂_cons, ih houts]
      simp [ha, hb]
    · refine iff_of_false (fun hcarries => hb ?_) fun h => hb h.1
      cases hread : framing.read ((out ++ outs).map .byte) with
      | ok a rest =>
        rw [loop_of_ok hread, List.forall₂_cons] at hcarries
        have hsame := congrArg bytes (of_ok hread)
        rw [bytes_map_byte, bytes_append, bytes_map_byte] at hsame
        exact hunsound b out a outs (bytes rest) hout hcarries.1 hsame
      | timeout rest =>
        obtain ⟨lost, hitems⟩ := framing.reads.of_timeout hread
        have hmem : Arrival.timeout ∈ (out ++ outs).map .byte := by simp [hitems]
        simp at hmem
      | failed error =>
        rw [loop_of_failed hread] at hcarries
        cases hcarries
      | pending =>
        rw [loop_of_pending hread] at hcarries
        cases hcarries

end Framing

end stream
