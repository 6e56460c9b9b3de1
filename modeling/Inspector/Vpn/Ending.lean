import Inspector.Vpn.SendLoop

open nio Relation

namespace inspector.vpn.Session

/-- Whether a step gets as far as closing the channel, and with which exception. -/
def closes (s : Session) : Step → Option IOException
  | .connectable result _ =>
    if s.key.valid && s.key.interestOps.connect then
      match result with
      | .finished => none
      | _ => some .other
    else none
  | .writable result _ =>
    if s.key.valid && s.key.interestOps.write && s.connected then
      match result with
      | .accepted _ => none
      | .eof => some .eof
      | .failed => some .other
    else none
  | .readable result _ =>
    if s.key.valid && s.key.interestOps.read && s.connected then
      match result with
      | .offered _ => none
      | .eof => some .eof
      | .failed => some .other
    else none
  | .idle _ =>
    if s.key.valid then
      if s.tcp.reset then some .other
      else if s.tcp.writeBuffer.hasRemaining then none
      else if s.tcp.toServerFin.isSome then some .eof
      else none
    else none
  | _ => none

/-- The decoder's answer to the FIN a step may send. -/
def Step.feedback : Step → Feedback
  | .connectable _ feedback => feedback
  | .writable _ feedback => feedback
  | .readable _ feedback => feedback
  | .idle feedback => feedback
  | _ => none

/-- The bytes a step takes over from the decoder. -/
def Step.txData : Step → List UInt8
  | .handleTx data => data
  | _ => []

/-- The session in which a closing step calls `exceptionRaised`. -/
def beforeClose (s : Session) : Step → Session
  | .readable _ _ => s.compactRead
  | .idle _ =>
    if s.tcp.reset then s
    else if s.tcp.readBuffer.hasRemaining then s.dispatchReadBuffer
    else s
  | _ => s

/-- Bytes that the channel takes leave the write buffer and are acknowledged. -/
theorem acceptWrite_effect (s : Session) (count : Nat) (hvalid : s.key.valid)
    (hconnected : s.connected) : Effect s.view (s.acceptWrite count).view := by
  have haccept := Effect.accept s.view (s.tcp.writeBuffer.toList.take count)
    (s.tcp.writeBuffer.toList.drop count) hvalid hconnected (List.take_append_drop _ _).symm
  simpa [view, acceptWrite] using haccept

/-- A writable key takes some bytes and does not touch what was read. -/
theorem processWritableKey_effects (s : Session) (count : Nat) (hvalid : s.key.valid)
    (hconnected : s.connected) :
    ∃ next, s.processWritableKey (.accepted count) = .returns next ∧
      ReflTransGen Effect s.view next.view ∧ next.tcp.readBuffer = s.tcp.readBuffer ∧
      next.tcp.writeBuffer.capacity = s.tcp.writeBuffer.capacity ∧ txBytes next.log = txBytes s.log := by
  have haccept := s.acceptWrite_effect count hvalid hconnected
  have htx : txBytes (s.acceptWrite count).log = txBytes s.log := by simp [acceptWrite]
  unfold processWritableKey
  rw [if_neg (by simp [hconnected])]
  dsimp only
  split
  · exact ⟨_, rfl, .head haccept (.single (.interest _ true)), rfl, rfl, htx⟩
  · refine ⟨_, rfl, .head haccept (.head (.interest _ false) (.single ?_)), rfl, rfl, ?_⟩
    · exact .acknowledge _ hvalid hconnected
    · exact (txBytes_snoc _ _).trans ((List.append_nil _).trans htx)

/-- Bytes that are read go to the end of those for the app. -/
theorem storeRead_effect (s : Session) (data : List UInt8) (hvalid : s.key.valid)
    (hconnected : s.connected) : Effect s.view (s.storeRead data).view := by
  have hreceive := Effect.receive s.view (data.take s.tcp.readBuffer.compact.remaining) hvalid hconnected
  simpa [view, storeRead] using hreceive

/-- Compacting the buffer leaves its bytes as they are. -/
@[simp] theorem view_compactRead (s : Session) : s.compactRead.view = s.view := by
  simp [view, compactRead]

/-- Bytes of the app go to the write buffer and to the log, all of them. -/
theorem handleTx_effect {s next : Session} {data : List UInt8} (htx : s.handleTx data = .ok next) :
    Effect s.view next.view ∧ txBytes next.log = txBytes s.log ++ data := by
  unfold handleTx at htx
  split at htx
  · cases htx
  · rename_i writeBuffer hput
    cases htx
    have happend := (ByteBuffer.put_compact_eq_some hput).1
    refine ⟨?_, by simp⟩
    simpa [view, happend] using Effect.tx s.view data

/-- What is left in the read buffer is sent before the close. -/
theorem flush_effects (s : Session) (hvalid : s.key.valid) :
    ReflTransGen Effect s.view
      (if s.tcp.readBuffer.hasRemaining then s.dispatchReadBuffer else s).view := by
  split
  · exact s.dispatchLoop_effects _ hvalid
  · exact .refl

/-- Sending it takes nothing from the app. -/
theorem flush_txBytes (s : Session) :
    txBytes (if s.tcp.readBuffer.hasRemaining then s.dispatchReadBuffer else s).log = txBytes s.log := by
  split
  · exact s.txBytes_dispatchLoop _
  · rfl

/-- Sending it changes the read buffer, the number and the log only. -/
theorem flush_frame (s : Session) :
    ∃ readBuffer clientSeq log, (if s.tcp.readBuffer.hasRemaining then s.dispatchReadBuffer else s) =
      { s with tcp.readBuffer := readBuffer, tcp.clientSeq := clientSeq, log := log } := by
  split
  · exact s.dispatchLoop_frame _
  · exact ⟨_, _, _, rfl⟩

/-- The buffers keep their capacities, and the read buffer holds no more than
before or what a sending loop can leave behind. -/
structure Fits (s next : Session) : Prop where
  readCapacity : next.tcp.readBuffer.capacity = s.tcp.readBuffer.capacity
  writeCapacity : next.tcp.writeBuffer.capacity = s.tcp.writeBuffer.capacity
  readLength : next.tcp.readBuffer.toList.length ≤
    max s.tcp.readBuffer.toList.length (s.tcp.readBuffer.capacity - 0x6000)

/-- Buffers that are left alone keep their sizes. -/
theorem Fits.refl (s : Session) : Fits s s := ⟨rfl, rfl, Nat.le_max_left _ _⟩

/-- Compacting keeps the size of the buffer. -/
theorem compactRead_fits (s : Session) : Fits s s.compactRead := by
  refine ⟨by simp [compactRead], rfl, ?_⟩
  rw [compactRead, ByteBuffer.toList_flip_compact]
  exact Nat.le_max_left _ _

/-- Reading keeps the sizes of the buffers. -/
theorem storeRead_fits (s : Session) (data : List UInt8) : Fits s (s.storeRead data).dispatchReadBuffer := by
  obtain ⟨readBuffer, clientSeq, log, hframe⟩ := (s.storeRead data).dispatchLoop_frame 0x7FFF
  refine ⟨?_, ?_, ?_⟩
  · rw [dispatchReadBuffer, capacity_dispatchLoop]
    simp [storeRead]
  · rw [dispatchReadBuffer, hframe]
    rfl
  · have hlength := ByteBuffer.length_toList (s.storeRead data).tcp.readBuffer
    have hcapacity := ByteBuffer.remaining_le_capacity (s.storeRead data).tcp.readBuffer
    have hstored : (s.storeRead data).tcp.readBuffer.capacity = s.tcp.readBuffer.capacity := by simp [storeRead]
    rw [toList_dispatchReadBuffer, List.length_drop]
    omega

/-- Sending keeps the sizes of the buffers. -/
theorem flush_fits (s : Session) :
    Fits s (if s.tcp.readBuffer.hasRemaining then s.dispatchReadBuffer else s) := by
  obtain ⟨readBuffer, clientSeq, log, hframe⟩ := s.dispatchLoop_frame 0x7FFF
  split
  · refine ⟨s.capacity_dispatchLoop _, by rw [dispatchReadBuffer, hframe], ?_⟩
    rw [toList_dispatchReadBuffer, List.length_drop]
    omega
  · exact .refl s

/-- Bytes of the app keep the sizes of the buffers, since an overflow would throw. -/
theorem handleTx_fits {s next : Session} {data : List UInt8} (htx : s.handleTx data = .ok next) :
    Fits s next := by
  unfold handleTx at htx
  split at htx
  · cases htx
  · rename_i writeBuffer hput
    cases htx
    exact ⟨rfl, (ByteBuffer.put_compact_eq_some hput).2, Nat.le_max_left _ _⟩

/-- The ways one step can end, apart from a step that remembers a FIN: with some
effects, or with some effects before the channel is closed. -/
inductive Ending (s : Session) (a : Step) (next : Session) : Prop where
  | effects (hcloses : s.closes a = none) (heffects : ReflTransGen Effect s.view next.view)
      (hfits : Fits s next) (htx : txBytes next.log = txBytes s.log ++ a.txData)
  | closed (e : IOException) (hcloses : s.closes a = some e)
      (heffects : ReflTransGen Effect s.view (s.beforeClose a).view)
      (hfits : Fits s (s.beforeClose a)) (htx : txBytes (s.beforeClose a).log = txBytes s.log)
      (hnext : next = (s.beforeClose a).exceptionRaised e a.feedback)

/-- The step of the connection ends in an answer to the app or in the close of the channel. -/
theorem connectable_ending {s next : Session} {result : ConnectResult} {feedback : Feedback}
    (hstep : s.step (.connectable result feedback) = .ok next) :
    Ending s (.connectable result feedback) next := by
  simp only [step] at hstep
  split at hstep
  · rename_i hready
    obtain ⟨hvalid, hinterest⟩ := Bool.and_eq_true_iff.mp hready
    cases result with
    | finished =>
      cases hstep
      exact .effects (by simp [closes]) (.single (.connect s.view hvalid hinterest))
        ⟨rfl, rfl, Nat.le_max_left _ _⟩ (by simp [finishConnect, dispatch, Step.txData])
    | pending =>
      cases hstep
      exact .closed .other (by simp [closes, hvalid, hinterest]) .refl (.refl s) rfl rfl
    | refused =>
      cases hstep
      exact .closed .other (by simp [closes, hvalid, hinterest]) .refl (.refl s) rfl rfl
  · rename_i hready
    cases hstep
    exact .effects (by simp [closes, Bool.and_eq_true_iff.not.mp hready]) .refl (.refl s)
      (by simp [Step.txData])

/-- The step of a writable key ends behind its write, or in the close. -/
theorem writable_ending {s next : Session} {result : WriteResult} {feedback : Feedback}
    (hstep : s.step (.writable result feedback) = .ok next) :
    Ending s (.writable result feedback) next := by
  simp only [step] at hstep
  split at hstep
  · rename_i hready
    obtain ⟨hvalid, hinterest⟩ := Bool.and_eq_true_iff.mp hready
    by_cases hconnected : s.connected
    · cases result with
      | accepted count =>
        obtain ⟨written, hwrite, heffects, hread, hcapacity, htx⟩ :=
          s.processWritableKey_effects count hvalid hconnected
        rw [hwrite] at hstep
        cases hstep
        exact .effects (by simp [closes]) heffects
          ⟨by rw [hread], hcapacity, by rw [hread]; exact Nat.le_max_left _ _⟩ (by simp [htx, Step.txData])
      | eof =>
        rw [processWritableKey, if_neg (by simp [hconnected])] at hstep
        cases hstep
        exact .closed .eof (by simp [closes, hvalid, hinterest, hconnected]) .refl (.refl s) rfl rfl
      | failed =>
        rw [processWritableKey, if_neg (by simp [hconnected])] at hstep
        cases hstep
        exact .closed .other (by simp [closes, hvalid, hinterest, hconnected]) .refl (.refl s) rfl rfl
    · unfold processWritableKey at hstep
      rw [if_pos (by simp [hconnected])] at hstep
      cases hstep
  · rename_i hready
    cases hstep
    exact .effects (by simp [closes, Bool.and_eq_true_iff.not.mp hready]) .refl (.refl s)
      (by simp [Step.txData])

/-- The step of a readable key ends behind its segment, or in the close. -/
theorem readable_ending {s next : Session} {result : ReadResult} {feedback : Feedback}
    (hstep : s.step (.readable result feedback) = .ok next) :
    Ending s (.readable result feedback) next := by
  simp only [step] at hstep
  split at hstep
  · rename_i hready
    obtain ⟨hvalid, hinterest⟩ := Bool.and_eq_true_iff.mp hready
    unfold processReadableKey at hstep
    split at hstep
    · cases hstep
    · split at hstep
      · cases hstep
      · rename_i hconnected
        simp only [Bool.not_eq_true, Bool.not_eq_false'] at hconnected
        cases result with
        | offered data =>
          cases hstep
          refine .effects (by simp [closes])
            (.head (s.storeRead_effect data hvalid hconnected) (dispatchLoop_effects _ _ hvalid))
            (s.storeRead_fits data) ?_
          rw [dispatchReadBuffer, txBytes_dispatchLoop]
          simp [storeRead, Step.txData]
        | eof =>
          cases hstep
          exact .closed .eof (by simp [closes, hvalid, hinterest, hconnected])
            (by simp [beforeClose, ReflTransGen.refl]) s.compactRead_fits rfl rfl
        | failed =>
          cases hstep
          exact .closed .other (by simp [closes, hvalid, hinterest, hconnected])
            (by simp [beforeClose, ReflTransGen.refl]) s.compactRead_fits rfl rfl
  · rename_i hready
    cases hstep
    exact .effects (by simp [closes, Bool.and_eq_true_iff.not.mp hready]) .refl (.refl s)
      (by simp [Step.txData])

/-- A turn without a ready key ends where it began, or in the close. -/
theorem idle_ending {s next : Session} {feedback : Feedback}
    (hstep : s.step (.idle feedback) = .ok next) : Ending s (.idle feedback) next := by
  simp only [step] at hstep
  split at hstep
  · rename_i hvalid
    obtain ⟨readBuffer, clientSeq, log, hframe⟩ := s.flush_frame
    have hflush := s.flush_effects hvalid
    have hfits := s.flush_fits
    have htx := s.flush_txBytes
    unfold checkRegisteredKey at hstep
    split at hstep
    · rename_i hreset
      cases hstep
      refine .closed .other (by simp [closes, hvalid, hreset]) ?_ ?_ ?_ ?_
      · simp [beforeClose, hreset, ReflTransGen.refl]
      · simpa [beforeClose, hreset] using Fits.refl s
      · simp [beforeClose, hreset]
      · simp [beforeClose, hreset, Step.feedback]
    · rename_i hreset
      simp only [hframe] at hstep hflush hfits htx
      split at hstep
      · rename_i hwrite
        cases hstep
        exact .effects (by simp [closes, hvalid, hreset, hwrite]) (.tail hflush (.interest _ true))
          ⟨hfits.1, hfits.2, hfits.3⟩ (by simpa [setWriteInterest, Step.txData] using htx)
      · rename_i hwrite
        split at hstep
        · rename_i hfin
          cases hstep
          exact .closed .eof (by simp [closes, hvalid, hreset, hwrite, hfin])
            (by simpa [beforeClose, hreset, hframe] using hflush)
            (by simpa [beforeClose, hreset, hframe] using hfits)
            (by simpa [beforeClose, hreset, hframe] using htx)
            (by simp [beforeClose, hreset, hframe, Step.feedback])
        · rename_i hfin
          cases hstep
          exact .effects (by simp [closes, hvalid, hreset, hwrite, hfin]) hflush hfits
            (by simpa [Step.txData] using htx)
  · rename_i hvalid
    cases hstep
    exact .effects (by simp [closes, hvalid]) .refl (.refl s)
      (by simp [Step.txData])

/-- What one step can do. -/
theorem step_cases {s next : Session} {a : Step} (hstep : s.step a = .ok next) :
    (∃ segment direction time, a = .handleFin segment direction time ∧
      next = (s.handleFin segment direction time).1) ∨
    (∀ segment direction time, a ≠ .handleFin segment direction time) ∧ Ending s a next := by
  cases a with
  | connectable result feedback => exact .inr ⟨by simp, connectable_ending hstep⟩
  | writable result feedback => exact .inr ⟨by simp, writable_ending hstep⟩
  | readable result feedback => exact .inr ⟨by simp, readable_ending hstep⟩
  | idle feedback => exact .inr ⟨by simp, idle_ending hstep⟩
  | handleTx data =>
    obtain ⟨heffect, htx⟩ := handleTx_effect hstep
    exact .inr ⟨by simp, .effects rfl (.single heffect) (handleTx_fits hstep) htx⟩
  | handleFin segment direction time =>
    cases hstep
    exact .inl ⟨segment, direction, time, rfl, rfl⟩
  | onReset =>
    cases hstep
    exact .inr ⟨by simp, .effects rfl (.single (.reset s.view)) ⟨rfl, rfl, Nat.le_max_left _ _⟩
      (by simp [onReset, Step.txData])⟩

/-- The unchecked exceptions of a step, with what each of them needs. -/
inductive Failure (s : Session) (a : Step) : RuntimeException → Prop where
  | unconnected : Failure s a .NotYetConnectedException
  | cancelled : Failure s a .CancelledKeyException
  | underflow (hfull : s.tcp.readBuffer.compact.hasRemaining = false) : Failure s a .BufferUnderflowException
  | overflow (data : List UInt8) (ha : a = .handleTx data)
      (hfull : s.tcp.writeBuffer.capacity < s.tcp.writeBuffer.toList.length + data.length) :
      Failure s a .BufferOverflowException

/-- What a step throws is thrown by its outcome and not by the decoder. -/
theorem handle_eq_error {feedback : Feedback} {outcome : Outcome} {e : RuntimeException}
    (hhandle : handle feedback outcome = .error e) : outcome = .throws e := by
  cases outcome with
  | throws other =>
    cases hhandle
    rfl
  | _ => cases hhandle

/-- The ways one step can fail. -/
theorem step_failure {s : Session} {a : Step} {e : RuntimeException} (hstep : s.step a = .error e) :
    Failure s a e := by
  cases a with
  | connectable result feedback =>
    simp only [step] at hstep
    split at hstep
    · have hthrows := handle_eq_error hstep
      cases result <;> cases hthrows
    · cases hstep
  | writable result feedback =>
    simp only [step] at hstep
    split at hstep
    · have hthrows := handle_eq_error hstep
      unfold processWritableKey at hthrows
      split at hthrows
      · cases hthrows
        exact .unconnected
      · cases result with
        | accepted count =>
          dsimp only at hthrows
          split at hthrows <;> cases hthrows
        | _ => cases hthrows
    · cases hstep
  | readable result feedback =>
    simp only [step] at hstep
    split at hstep
    · have hthrows := handle_eq_error hstep
      unfold processReadableKey at hthrows
      split at hthrows
      · rename_i hfull
        cases hthrows
        exact .underflow (by simpa using hfull)
      · split at hthrows
        · cases hthrows
          exact .unconnected
        · cases result <;> cases hthrows
    · cases hstep
  | idle feedback =>
    simp only [step] at hstep
    split at hstep
    · unfold checkRegisteredKey at hstep
      split at hstep
      · cases hstep
      · dsimp only at hstep
        generalize (if s.tcp.readBuffer.hasRemaining then s.dispatchReadBuffer else s) = flushed at hstep
        split at hstep
        · split at hstep
          · cases hstep
          · cases hstep
            exact .cancelled
        · split at hstep <;> cases hstep
    · cases hstep
  | handleTx data =>
    simp only [step, handleTx] at hstep
    split at hstep
    · rename_i hput
      cases hstep
      exact .overflow data rfl ((ByteBuffer.put_compact_eq_none_iff _ _).mp hput)
    · cases hstep
  | handleFin segment direction time => cases hstep
  | onReset => cases hstep

end inspector.vpn.Session
