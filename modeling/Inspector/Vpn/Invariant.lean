import Inspector.Vpn.Ending

open nio Relation machine

namespace inspector.vpn

/-- Nothing but segments is logged when a FIN is remembered or the channel is closed. -/
theorem flatMap_teardowns {f : Event → List UInt8} (hsent : ∀ site segment forward, f (.sent site segment forward) = [])
    {v w : View} (hteardowns : ReflTransGen Teardown v w) : w.log.flatMap f = v.log.flatMap f := by
  refine invariant_of_reflTransGen (I := fun u => u.log.flatMap f = v.log.flatMap f) ?_ rfl hteardowns
  intro u u' hsame hteardown
  cases hteardown <;> simpa [hsent] using hsame

/-- The event of acknowledging a remembered FIN. -/
def TCPDispatcher.Fin.ackEvent (fin : TCPDispatcher.Fin) : Event :=
  .sent .finAck fin.ackSegment fin.forward

/-- Sorting two FINs neither loses nor makes one. -/
theorem TCPDispatcher.Fin.mem_sort {first second fin : TCPDispatcher.Fin}
    (hfin : fin ∈ TCPDispatcher.Fin.sort first second) : fin = first ∨ fin = second := by
  unfold TCPDispatcher.Fin.sort at hfin
  split at hfin
  · simpa [or_comm] using hfin
  · simpa using hfin

/-- The FINs that `handleFin` acknowledges: none before both have been seen. -/
def TCPDispatcher.Fin.both : Option TCPDispatcher.Fin → Option TCPDispatcher.Fin → List TCPDispatcher.Fin
  | some toServerFin, some toClientFin => TCPDispatcher.Fin.sort toServerFin toClientFin
  | _, _ => []

namespace Session

/-- Acknowledging FINs adds their events to the log and changes nothing else. -/
theorem foldl_ackFin (s : Session) (fins : List TCPDispatcher.Fin) :
    fins.foldl ackFin s = { s with log := s.log ++ fins.map TCPDispatcher.Fin.ackEvent } := by
  induction fins generalizing s with
  | nil => simp
  | cons fin rest ih =>
    rw [List.foldl_cons, ih]
    simp [ackFin, dispatch, TCPDispatcher.Fin.ackEvent, TCPDispatcher.Fin.ackSegment]

/-- Keeping a FIN is a step of the teardown. -/
theorem rememberFin_teardown (s : Session) (segment : TcpSegment) (direction : TcpDirection)
    (time : BitVec 64) : Teardown s.view (s.rememberFin segment direction time).view := by
  cases direction with
  | ToServer => exact .toServerFin s.view segment time
  | ToClient => exact .toClientFin s.view segment time

/-- Acknowledging the FINs that are kept is a series of such steps. -/
theorem foldl_ackFin_teardown (s : Session) (fins : List TCPDispatcher.Fin)
    (hfins : ∀ fin ∈ fins, s.tcp.toServerFin = some fin ∨ s.tcp.toClientFin = some fin) :
    ReflTransGen Teardown s.view (fins.foldl ackFin s).view := by
  induction fins generalizing s with
  | nil => exact .refl
  | cons fin rest ih =>
    rw [List.foldl_cons]
    refine .head (.ack s.view fin (hfins fin (by simp))) ?_
    exact ih (s.ackFin fin) (fun other hother => hfins other (by simp [hother]))

/-- `handleFin` remembers the FIN and logs nothing but acknowledgements. -/
theorem handleFin_eq (s : Session) (segment : TcpSegment) (direction : TcpDirection) (time : BitVec 64) :
    (s.handleFin segment direction time).1 = { s.rememberFin segment direction time with
      log := s.log ++ (TCPDispatcher.Fin.both (s.rememberFin segment direction time).tcp.toServerFin
        (s.rememberFin segment direction time).tcp.toClientFin).map TCPDispatcher.Fin.ackEvent } := by
  have hremember : (s.rememberFin segment direction time).log = s.log := by cases direction <;> rfl
  unfold handleFin
  dsimp only
  split
  · rename_i toServerFin toClientFin hserver hclient
    rw [foldl_ackFin, hremember, hserver, hclient]
    rfl
  · rename_i hmissing
    have hnone : TCPDispatcher.Fin.both (s.rememberFin segment direction time).tcp.toServerFin
        (s.rememberFin segment direction time).tcp.toClientFin = [] := by
      unfold TCPDispatcher.Fin.both
      split
      · rename_i toServerFin toClientFin hserver hclient
        exact absurd hclient (hmissing _ _ hserver)
      · rfl
    rw [hnone, List.map_nil, List.append_nil, ← hremember]

/-- A FIN adds nothing to the log but acknowledgements of FINs. -/
theorem handleFin_log (s : Session) (segment : TcpSegment) (direction : TcpDirection) (time : BitVec 64) :
    ∃ fins : List TCPDispatcher.Fin,
      (s.handleFin segment direction time).1.log = s.log ++ fins.map TCPDispatcher.Fin.ackEvent := by
  rw [handleFin_eq]
  exact ⟨_, rfl⟩

/-- So a law that allows those is kept by a FIN. -/
theorem law_handleFin {P : List Event → Event → Prop}
    (hack : ∀ (fin : TCPDispatcher.Fin) (before : List Event), P before fin.ackEvent) (s : Session)
    (segment : TcpSegment) (direction : TcpDirection) (time : BitVec 64) :
    Law P (s.handleFin segment direction time).1.log ↔ Law P s.log := by
  obtain ⟨fins, hlog⟩ := s.handleFin_log segment direction time
  rw [hlog]
  apply Law.append_iff_of_forall
  intro event hevent
  obtain ⟨fin, -, rfl⟩ := List.mem_map.mp hevent
  exact hack fin

/-- Closing the channel with this exception sends a segment: always, except that
an end of file after the dispatcher's own FIN sends none. -/
def sendsAtClose (s : Session) (e : IOException) : Prop := e = .eof → s.tcp.toClientFin = none

def closingSegment (s : Session) : IOException → TcpSegment
  | .eof => s.finSegment
  | .other => s.rstSegment

/-- A law that says nothing of the acknowledgements of FINs is kept by closing the channel
exactly when what it sends satisfies the law. -/
theorem law_exceptionRaised {P : List Event → Event → Prop}
    (hack : ∀ (fin : TCPDispatcher.Fin) (before : List Event), P before fin.ackEvent) (s : Session)
    (e : IOException) (feedback : Feedback) :
    Law P (s.exceptionRaised e feedback).log ↔
      Law P s.log ∧ (s.sendsAtClose e → P s.log (.sent .exceptionRaised (s.closingSegment e) true)) := by
  cases e with
  | other =>
    simp only [exceptionRaised, dispatch, Law.snoc_iff, sendsAtClose, reduceCtorEq, false_implies, true_implies]
    exact Iff.rfl
  | eof =>
    simp only [exceptionRaised, sendsAtClose, true_implies]
    split
    · rename_i hfirst
      have hnone : s.tcp.toClientFin = none := Option.isNone_iff_eq_none.mp hfirst
      have hreenter (s : Session) (fin : TcpSegment) : Law P (s.reenter fin feedback).log ↔ Law P s.log := by
        cases feedback with
        | none => exact Iff.rfl
        | some answer => exact law_handleFin hack s fin answer.1 answer.2
      rw [hreenter]
      simp only [dispatch, Law.snoc_iff, hnone, true_implies]
      exact Iff.rfl
    · rename_i hfirst
      have hsome : s.tcp.toClientFin ≠ none := fun hnone => hfirst (Option.isNone_iff_eq_none.mpr hnone)
      simp [hsome, closeKey]

/-- A FIN is a series of steps of the teardown. -/
theorem handleFin_teardown (s : Session) (segment : TcpSegment) (direction : TcpDirection)
    (time : BitVec 64) : ReflTransGen Teardown s.view (s.handleFin segment direction time).1.view := by
  refine .head (s.rememberFin_teardown segment direction time) ?_
  unfold handleFin
  dsimp only
  split
  · rename_i toServerFin toClientFin hserver hclient
    apply foldl_ackFin_teardown
    intro fin hfin
    rcases TCPDispatcher.Fin.mem_sort hfin with rfl | rfl
    · exact .inl hserver
    · exact .inr hclient
  · exact .refl

/-- Keeping a FIN does not touch the buffers. -/
theorem rememberFin_fits (s : Session) (segment : TcpSegment) (direction : TcpDirection)
    (time : BitVec 64) : Fits s (s.rememberFin segment direction time) := by
  cases direction <;> exact ⟨rfl, rfl, Nat.le_max_left _ _⟩

/-- Handling a FIN does not touch the buffers. -/
theorem handleFin_fits (s : Session) (segment : TcpSegment) (direction : TcpDirection) (time : BitVec 64) :
    Fits s (s.handleFin segment direction time).1 := by
  have hfits := s.rememberFin_fits segment direction time
  rw [handleFin_eq]
  exact ⟨hfits.1, hfits.2, hfits.3⟩

/-- The decoder that calls back in the middle of a step causes steps of the teardown only. -/
theorem reenter_teardown (s : Session) (fin : TcpSegment) (feedback : Feedback) :
    ReflTransGen Teardown s.view (s.reenter fin feedback).view := by
  cases feedback with
  | none => exact .refl
  | some answer => exact s.handleFin_teardown fin answer.1 answer.2

/-- Nor does that touch the buffers. -/
theorem reenter_fits (s : Session) (fin : TcpSegment) (feedback : Feedback) :
    Fits s (s.reenter fin feedback) := by
  cases feedback with
  | none => exact .refl s
  | some answer => exact s.handleFin_fits fin answer.1 answer.2

/-- An exception closes the channel in steps of the teardown. -/
theorem exceptionRaised_teardown (s : Session) (e : IOException) (feedback : Feedback)
    (hvalid : s.key.valid) : ReflTransGen Teardown s.view (s.exceptionRaised e feedback).view := by
  cases e with
  | eof =>
    simp only [exceptionRaised]
    split
    · rename_i hfirst
      have hreenter := (s.closeKey.dispatch .exceptionRaised s.closeKey.finSegment true).reenter_teardown
        s.closeKey.finSegment feedback
      exact .head (.fin s.view hvalid (Option.isNone_iff_eq_none.mp hfirst)) hreenter
    · exact .single (.cancel s.view)
  | other => exact .single (.rst s.view hvalid)

/-- An exception does not touch the buffers. -/
theorem exceptionRaised_fits (s : Session) (e : IOException) (feedback : Feedback) :
    Fits s (s.exceptionRaised e feedback) := by
  cases e with
  | eof =>
    simp only [exceptionRaised]
    split
    · have hfits := (s.closeKey.dispatch .exceptionRaised s.closeKey.finSegment true).reenter_fits
        s.closeKey.finSegment feedback
      exact ⟨hfits.1, hfits.2, hfits.3⟩
    · exact ⟨rfl, rfl, Nat.le_max_left _ _⟩
  | other => exact ⟨rfl, rfl, Nat.le_max_left _ _⟩

/-- Only a key that is valid can close its session. -/
theorem valid_of_closes {s : Session} {a : Step} {e : IOException} (hcloses : s.closes a = some e) :
    s.key.valid := by
  cases a <;> simp only [closes] at hcloses <;> grind

/-- What a step does before it closes concerns the read buffer, the numbers and the log. -/
theorem beforeClose_frame (s : Session) (a : Step) :
    ∃ readBuffer clientSeq log, s.beforeClose a =
      { s with tcp.readBuffer := readBuffer, tcp.clientSeq := clientSeq, log := log } := by
  cases a with
  | readable result feedback => exact ⟨_, _, _, rfl⟩
  | idle feedback =>
    simp only [beforeClose]
    split
    · exact ⟨_, _, _, rfl⟩
    · exact s.flush_frame
  | _ => exact ⟨_, _, _, rfl⟩

/-- The key is still valid right before the close. -/
theorem valid_beforeClose {s : Session} {a : Step} {e : IOException} (hcloses : s.closes a = some e) :
    (s.beforeClose a).key.valid := by
  obtain ⟨readBuffer, clientSeq, log, hframe⟩ := s.beforeClose_frame a
  rw [hframe]
  exact valid_of_closes hcloses

/-- What the single effects preserve, every step preserves. -/
theorem step_invariant {I : View → Prop}
    (heffect : ∀ v w, I v → Effect v w → I w) (hteardown : ∀ v w, I v → Teardown v w → I w)
    {s next : Session} {a : Step} (hinit : I s.view) (hstep : s.step a = .ok next) : I next.view := by
  obtain ⟨segment, direction, time, rfl, rfl⟩ | ⟨-, hending⟩ := step_cases hstep
  · exact invariant_of_reflTransGen hteardown hinit (s.handleFin_teardown segment direction time)
  · cases hending with
    | effects hcloses hquiet hfits htx => exact invariant_of_reflTransGen heffect hinit hquiet
    | closed e hcloses hquiet hfits htx hnext =>
      subst hnext
      exact invariant_of_reflTransGen hteardown (invariant_of_reflTransGen heffect hinit hquiet)
        ((s.beforeClose a).exceptionRaised_teardown e a.feedback (valid_beforeClose hcloses))

/-- A step goes through one state in which the buffers have their sizes. -/
theorem step_fits {s next : Session} {a : Step} (hstep : s.step a = .ok next) :
    ∃ middle, Fits s middle ∧ Fits middle next := by
  obtain ⟨segment, direction, time, rfl, rfl⟩ | ⟨-, hending⟩ := step_cases hstep
  · exact ⟨s, .refl s, s.handleFin_fits segment direction time⟩
  · cases hending with
    | effects hcloses hquiet hfits htx => exact ⟨s, .refl s, hfits⟩
    | closed e hcloses hquiet hfits htx hnext =>
      subst hnext
      exact ⟨s.beforeClose a, hfits, exceptionRaised_fits _ e a.feedback⟩

/-- Both buffers keep their size, and after every step the read buffer has room
for at least three chunks. -/
structure Room (s : Session) : Prop where
  readCapacity : s.tcp.readBuffer.capacity = BUFFER_SIZE
  writeCapacity : s.tcp.writeBuffer.capacity = BUFFER_SIZE
  readLength : s.tcp.readBuffer.toList.length ≤ BUFFER_SIZE - 0x6000

/-- The buffers of a new session have their sizes. -/
theorem Room.new (sessionKey : TcpSessionKey) (sync : TcpSegment) (identify : BitVec 32) :
    Room (Session.new sessionKey sync identify) := by
  refine ⟨?_, ?_, ?_⟩
  · rw [Session.new, ByteBuffer.capacity_exhausted, ByteBuffer.capacity_allocate]
  · rw [Session.new, ByteBuffer.capacity_exhausted, ByteBuffer.capacity_allocate]
  · rw [Session.new, ByteBuffer.toList_exhausted]
    exact Nat.zero_le _

/-- What does not touch the buffers keeps their sizes. -/
theorem Room.fits {s next : Session} (hroom : Room s) (hfits : Fits s next) : Room next := by
  obtain ⟨hread, hwrite, hlength⟩ := hroom
  obtain ⟨hreadSame, hwriteSame, hbound⟩ := hfits
  refine ⟨hreadSame.trans hread, hwriteSame.trans hwrite, ?_⟩
  rw [hread] at hbound
  omega

/-- Every step keeps the sizes of the buffers. -/
theorem Room.step {s next : Session} {a : Step} (hroom : Room s) (hstep : s.step a = .ok next) : Room next := by
  obtain ⟨middle, hfirst, hsecond⟩ := step_fits hstep
  exact (hroom.fits hfirst).fits hsecond

end Session

end inspector.vpn
