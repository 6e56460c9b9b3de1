import Mathlib.Logic.Relation
import Inspector.Vpn.Effect

open nio Relation

namespace inspector.vpn.Session

@[simp] theorem view_log (s : Session) : s.view.log = s.log := rfl

theorem chunkLength_eq (s : Session) : s.chunkLength = min 0x2000 s.tcp.readBuffer.toList.length := by
  rw [chunkLength, ByteBuffer.length_toList]

theorem isEmpty_toList (b : ByteBuffer UInt8) : b.toList.isEmpty = !b.hasRemaining := by
  cases hremaining : b.hasRemaining with
  | false => simp [b.toList_eq_nil_iff.mpr hremaining]
  | true =>
    have hne : b.toList ≠ [] := by
      rw [ne_eq, b.toList_eq_nil_iff, hremaining]
      simp
    simpa using hne

theorem view_dispatchChunk (s : Session) :
    s.dispatchChunk.view = { s.view with
      toApp := s.view.toApp.drop s.chunkLength
      clientSeq := s.view.clientSeq + BitVec.ofNat 32 (s.view.toApp.take s.chunkLength).length
      log := s.view.log ++ [.sent .dispatchReadBuffer
        { s.view.segment with
          isPsh := (s.view.toApp.drop s.chunkLength).isEmpty
          data := s.view.toApp.take s.chunkLength } true] } := by
  have hmtu : (if s.tcp.readBuffer.remaining ≥ 0x2000 then 0x2000 else s.tcp.readBuffer.remaining) =
      s.chunkLength := by
    simp only [chunkLength]
    split <;> omega
  simp only [dispatchChunk, hmtu, view, dispatch, ByteBuffer.fst_get,
    ← ByteBuffer.toList_get, isEmpty_toList]
  rfl

/-- One pass of the sending loop takes one chunk from the front of the queue. -/
theorem dispatchChunk_effect (s : Session) (hvalid : s.key.valid)
    (hremaining : s.tcp.readBuffer.hasRemaining) : Effect s.view s.dispatchChunk.view := by
  rw [view_dispatchChunk]
  apply Effect.chunk s.view _ _ hvalid
  · have hne : s.tcp.readBuffer.toList ≠ [] := by
      rw [ne_eq, ByteBuffer.toList_eq_nil_iff, hremaining]
      simp
    have hpositive : 0 < s.tcp.readBuffer.toList.length := List.length_pos_iff.mpr hne
    rw [ne_eq, ← List.length_eq_zero_iff, List.length_take, chunkLength_eq]
    change ¬ min (min 0x2000 s.tcp.readBuffer.toList.length) s.tcp.readBuffer.toList.length = 0
    omega
  · exact (List.take_append_drop _ _).symm

@[simp] theorem dispatchChunk_key (s : Session) : s.dispatchChunk.key = s.key := rfl

theorem dispatchLoop_effects (s : Session) (window : Nat) (hvalid : s.key.valid) :
    ReflTransGen Effect s.view (s.dispatchLoop window).view := by
  induction s, window using dispatchLoop.induct with
  | case1 s window hloop ih =>
    rw [dispatchLoop, if_pos hloop]
    exact .head (s.dispatchChunk_effect hvalid hloop.2) (ih hvalid)
  | case2 s window hloop =>
    rw [dispatchLoop, if_neg hloop]

/-- The loop sends whole chunks until its window is too small for one more, or
until the buffer is empty. -/
theorem toList_dispatchLoop (s : Session) (window : Nat) :
    (s.dispatchLoop window).tcp.readBuffer.toList =
      s.tcp.readBuffer.toList.drop (0x2000 * (window / 0x2000)) := by
  induction s, window using dispatchLoop.induct with
  | case1 s window hloop ih =>
    have hchunk : s.dispatchChunk.tcp.readBuffer.toList = s.tcp.readBuffer.toList.drop s.chunkLength :=
      congrArg View.toApp s.view_dispatchChunk
    rw [dispatchLoop, if_pos hloop, ih, hchunk, List.drop_drop, chunkLength_eq]
    rcases Nat.le_total 0x2000 s.tcp.readBuffer.toList.length with hfull | hlast
    · rw [Nat.min_eq_left hfull]
      congr 1
      omega
    · rw [Nat.min_eq_right hlast, List.drop_of_length_le (by omega), List.drop_of_length_le (by omega)]
  | case2 s window hloop =>
    rw [dispatchLoop, if_neg hloop]
    rcases Nat.lt_or_ge window 0x2000 with hwindow | hwindow
    · rw [Nat.div_eq_of_lt hwindow]
      rfl
    · have hempty : s.tcp.readBuffer.toList = [] := by
        rw [ByteBuffer.toList_eq_nil_iff]
        simpa [hwindow] using hloop
      simp [hempty]

/-- The client counter moves by what the loop takes from the buffer. -/
theorem clientSeq_dispatchLoop (s : Session) (window : Nat) :
    (s.dispatchLoop window).tcp.clientSeq + BitVec.ofNat 32 (s.dispatchLoop window).tcp.readBuffer.toList.length =
      s.tcp.clientSeq + BitVec.ofNat 32 s.tcp.readBuffer.toList.length := by
  induction s, window using dispatchLoop.induct with
  | case1 s window hloop ih =>
    have hchunk : s.dispatchChunk.tcp.readBuffer.toList = s.tcp.readBuffer.toList.drop s.chunkLength :=
      congrArg View.toApp s.view_dispatchChunk
    have hseq : s.dispatchChunk.tcp.clientSeq =
        s.tcp.clientSeq + BitVec.ofNat 32 (s.tcp.readBuffer.toList.take s.chunkLength).length :=
      congrArg View.clientSeq s.view_dispatchChunk
    rw [dispatchLoop, if_pos hloop, ih, hseq, hchunk, BitVec.add_assoc, ← BitVec.ofNat_add,
      ← List.length_append, List.take_append_drop]
  | case2 s window hloop => rw [dispatchLoop, if_neg hloop]

theorem toList_dispatchReadBuffer (s : Session) :
    s.dispatchReadBuffer.tcp.readBuffer.toList = s.tcp.readBuffer.toList.drop 0x6000 :=
  s.toList_dispatchLoop 0x7FFF

/-- The sending loop touches the read buffer, the client counter and the log. -/
theorem dispatchLoop_frame (s : Session) (window : Nat) :
    ∃ readBuffer clientSeq log, s.dispatchLoop window =
      { s with tcp.readBuffer := readBuffer, tcp.clientSeq := clientSeq, log := log } := by
  induction s, window using dispatchLoop.induct with
  | case1 s window hloop ih =>
    obtain ⟨readBuffer, clientSeq, log, hrest⟩ := ih
    rw [dispatchLoop, if_pos hloop, hrest]
    exact ⟨readBuffer, clientSeq, log, rfl⟩
  | case2 s window hloop =>
    rw [dispatchLoop, if_neg hloop]
    exact ⟨_, _, _, rfl⟩

/-- The loop logs nothing but segments. -/
theorem flatMap_dispatchLoop {f : Event → List UInt8}
    (hsent : ∀ site segment forward, f (.sent site segment forward) = [])
    (s : Session) (window : Nat) : (s.dispatchLoop window).log.flatMap f = s.log.flatMap f := by
  induction s, window using dispatchLoop.induct with
  | case1 s window hloop ih =>
    have hchunk := congrArg View.log s.view_dispatchChunk
    simp only [view_log] at hchunk
    rw [dispatchLoop, if_pos hloop, ih, hchunk]
    simp [hsent]
  | case2 s window hloop => rw [dispatchLoop, if_neg hloop]

theorem txBytes_dispatchLoop (s : Session) (window : Nat) : txBytes (s.dispatchLoop window).log = txBytes s.log :=
  flatMap_dispatchLoop (fun _ _ _ => rfl) s window

theorem capacity_dispatchLoop (s : Session) (window : Nat) :
    (s.dispatchLoop window).tcp.readBuffer.capacity = s.tcp.readBuffer.capacity := by
  induction s, window using dispatchLoop.induct with
  | case1 s window hloop ih =>
    rw [dispatchLoop, if_pos hloop, ih]
    rfl
  | case2 s window hloop => rw [dispatchLoop, if_neg hloop]

end inspector.vpn.Session
