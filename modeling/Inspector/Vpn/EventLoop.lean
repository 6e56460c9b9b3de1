import Inspector.Vpn.Termination

open nio machine

namespace inspector.vpn

/-- The steps of a dispatcher that one selected key stands for. -/
def Ready.steps (ready : Ready) : List Session.Step :=
  (ready.write.map fun result => .writable result none).toList ++
    ((ready.read.map fun result => .readable result none).toList ++
      (ready.connect.map fun result => .connectable result none).toList)

namespace Session

/-- A method that throws has closed the key, so the steps after it do nothing. -/
theorem handle_andThen {s : Session} {a : Step} {outcome : Outcome} {f : Session → Outcome} {rest : List Step}
    (hstep : s.step a = handle none outcome)
    (hreturns : ∀ next, outcome = .returns next → handle none (f next) = next.run rest)
    (hclosed : ∀ next : Session, next.key.valid = false → next.run rest = .ok next) :
    handle none (outcome.andThen f) = s.run (a :: rest) := by
  cases outcome with
  | returns next =>
    rw [run, machine.run, hstep]
    exact hreturns next rfl
  | throwsChecked e closed =>
    have hinvalid : (closed.exceptionRaised e none).key.valid = false := by
      cases e with
      | other => rfl
      | eof =>
        simp only [exceptionRaised]
        split <;> rfl
    rw [run, machine.run, hstep]
    exact (hclosed _ hinvalid).symm
  | throws e =>
    rw [run, machine.run, hstep]
    rfl

/-- Steps that leave a session as it is make a run that does so. -/
theorem run_of_ignored {s : Session} {steps : List Step} (hsteps : ∀ a ∈ steps, s.step a = .ok s) :
    s.run steps = .ok s := by
  induction steps with
  | nil => rfl
  | cons a rest ih =>
    obtain ⟨ha, hrest⟩ := List.forall_mem_cons.mp hsteps
    exact run_cons_ok.mpr ⟨s, ha, ih hrest⟩

/-- A writable key changes at most whether it waits for more room. -/
theorem processWritableKey_key {s next : Session} {result : WriteResult}
    (hreturns : s.processWritableKey result = .returns next) :
    ∃ write, next.key = { s.key with interestOps.write := write } := by
  unfold processWritableKey at hreturns
  split at hreturns
  · cases hreturns
  · cases result with
    | accepted count =>
      dsimp only at hreturns
      split at hreturns <;> cases hreturns
      · exact ⟨true, rfl⟩
      · exact ⟨false, rfl⟩
    | _ => cases hreturns

/-- A readable key keeps its interests. -/
theorem processReadableKey_key {s next : Session} {result : ReadResult}
    (hreturns : s.processReadableKey result = .returns next) : next.key = s.key := by
  unfold processReadableKey at hreturns
  split at hreturns
  · cases hreturns
  · split at hreturns
    · cases hreturns
    · cases result with
      | offered data =>
        cases hreturns
        obtain ⟨readBuffer, clientSeq, log, hframe⟩ := (s.storeRead data).dispatchLoop_frame 0x7FFF
        rw [dispatchReadBuffer, hframe]
        rfl
      | _ => cases hreturns

variable {s : Session} (hvalid : s.key.valid = true)
include hvalid

/-- A key that is ready to connect takes the step of the connection, if it has asked for it. -/
theorem handle_connect {connect : Option ConnectResult}
    (hready : connect.isSome = true → s.key.interestOps.connect = true) :
    handle none (s.whenReady processConnectableKey connect) =
      s.run (connect.map fun result => .connectable result none).toList := by
  cases connect with
  | none => rfl
  | some result =>
    simp only [Option.map_some, Option.toList_some, run, run_singleton, whenReady]
    simp [step, hvalid, hready rfl]

/-- A key that is ready to be read takes its step before that of the connection. -/
theorem handle_read {read : Option ReadResult} {connect : Option ConnectResult}
    (hread : read.isSome = true → s.key.interestOps.read = true)
    (hconnect : connect.isSome = true → s.key.interestOps.connect = true) :
    handle none ((s.whenReady processReadableKey read).andThen fun s => s.whenReady processConnectableKey connect) =
      s.run ((read.map fun result => .readable result none).toList ++
        (connect.map fun result => .connectable result none).toList) := by
  cases read with
  | none => exact handle_connect hvalid hconnect
  | some result =>
    refine handle_andThen ?_ (fun next hnext => ?_) (fun next hinvalid => run_of_ignored ?_)
    · simp [step, hvalid, hread rfl, whenReady]
    · have hkey := processReadableKey_key hnext
      exact handle_connect (by rw [hkey, hvalid]) (by rwa [hkey])
    · simp [step, hinvalid]

/-- Processing the ready operations of a key is a run of its dispatcher. -/
theorem handle_processKey {ready : Ready} (hready : ready.within s.key.interestOps = true) :
    handle none (s.processKey ready) = s.run ready.steps := by
  obtain ⟨write, read, connect⟩ := ready
  simp only [Ready.within, Bool.and_eq_true, Bool.or_eq_true, Bool.not_eq_eq_eq_not, Bool.not_true] at hready
  obtain ⟨⟨hwrite, hread⟩, hconnect⟩ := hready
  simp only [← Bool.not_eq_true, ← imp_iff_not_or] at hwrite hread hconnect
  cases write with
  | none => exact handle_read hvalid hread hconnect
  | some result =>
    refine handle_andThen ?_ (fun next hnext => ?_) (fun next hinvalid => run_of_ignored ?_)
    · simp [step, hvalid, hwrite rfl, whenReady]
    · obtain ⟨write, hkey⟩ := processWritableKey_key hnext
      exact handle_read (by rw [hkey, hvalid]) (by rwa [hkey]) (by rwa [hkey])
    · cases read <;> cases connect <;> simp [step, hinvalid]

end Session

/-- Data of the app does not change the key. -/
theorem Session.handleTx_key {s next : Session} {data : List UInt8} (htx : s.handleTx data = .ok next) :
    next.key = s.key := by
  unfold Session.handleTx at htx
  split at htx
  · cases htx
  · cases htx
    rfl

/-- Neither does a FIN. -/
theorem Session.handleFin_key (s : Session) (segment : TcpSegment) (direction : TcpDirection)
    (time : BitVec 64) : (s.handleFin segment direction time).1.key = s.key := by
  rw [Session.handleFin_eq]
  cases direction <;> rfl

namespace VpnWorker

/-- Every dispatcher is in a state of its own machine, and the registered keys are
distinct. -/
structure Sound (w : VpnWorker) : Prop where
  dispatched : ∀ s ∈ w.dispatchers, s.Dispatched
  distinct : w.keys.Nodup
  registered : ∀ id ∈ w.keys, id < w.dispatchers.length

/-- A worker begins without dispatchers. -/
theorem Sound.new : Sound new := ⟨by simp [VpnWorker.new], List.nodup_nil, by simp [VpnWorker.new]⟩

/-- The keys of the dispatchers that are already there stay as they are. -/
def SameKeys (w next : VpnWorker) : Prop :=
  w.dispatchers.length ≤ next.dispatchers.length ∧ ∀ id < w.dispatchers.length, next.key id = w.key id

/-- A worker has the keys that it has. -/
theorem SameKeys.refl (w : VpnWorker) : SameKeys w w := ⟨Nat.le_refl _, fun _ _ => rfl⟩

/-- Keys that stay the same in two steps stay the same in both. -/
theorem SameKeys.trans {first second third : VpnWorker} (hfirst : SameKeys first second)
    (hsecond : SameKeys second third) : SameKeys first third :=
  ⟨Nat.le_trans hfirst.1 hsecond.1,
    fun id hid => (hsecond.2 id (Nat.lt_of_lt_of_le hid hfirst.1)).trans (hfirst.2 id hid)⟩

/-- A session that is stored changes no other key. -/
theorem key_store {w : VpnWorker} {id : Nat} (s : Session) {other : Nat} (hother : other ≠ id) :
    (w.store id s).key other = w.key other := by
  simp [key, store, List.getElem?_set_ne (Ne.symm hother)]

/-- A session that is stored with its own key changes no key at all. -/
theorem sameKeys_store {w : VpnWorker} {id : Nat} {tcp next : Session} (htcp : w.dispatchers[id]? = some tcp)
    (hkey : next.key = tcp.key) : SameKeys w (w.store id next) := by
  refine ⟨by simp [store], fun other _ => ?_⟩
  by_cases hother : other = id
  · subst hother
    obtain ⟨hlength, hget⟩ := List.getElem?_eq_some_iff.mp htcp
    simp [key, store, hlength, hget, hkey]
  · exact key_store next hother

/-- A worker stays sound when a dispatched session is stored. -/
theorem Sound.store {w : VpnWorker} (hsound : Sound w) {s : Session} (hs : s.Dispatched) (id : Nat) :
    Sound (w.store id s) := by
  obtain ⟨hdispatched, hdistinct, hregistered⟩ := hsound
  refine ⟨fun other hother => ?_, hdistinct, by simpa [VpnWorker.store] using hregistered⟩
  rcases List.mem_or_eq_of_mem_set hother with hmem | rfl
  · exact hdispatched other hmem
  · exact hs

/-- A worker stays sound when a session is forgotten. -/
theorem Sound.remove {w : VpnWorker} (hsound : Sound w) (sessionKey : TcpSessionKey) :
    Sound (w.remove sessionKey) := ⟨hsound.dispatched, hsound.distinct, hsound.registered⟩

/-- What is found under the key of a session is one of the dispatchers. -/
theorem lookup_eq_some {w : VpnWorker} {sessionKey : TcpSessionKey} {id : Nat} {tcp : Session}
    (hlookup : w.lookup sessionKey = some (id, tcp)) : w.dispatchers[id]? = some tcp := by
  simp only [lookup, Option.bind_eq_bind, Option.bind_eq_some_iff] at hlookup
  obtain ⟨found, -, other, hother, hpair⟩ := hlookup
  cases hpair
  exact hother

/-- Every dispatcher of a sound worker is dispatched. -/
theorem Sound.dispatched_getElem? {w : VpnWorker} (hsound : Sound w) {id : Nat} {tcp : Session}
    (htcp : w.dispatchers[id]? = some tcp) : tcp.Dispatched :=
  hsound.dispatched tcp (List.mem_of_getElem? htcp)

/-- A call of the decoder that steps one dispatcher without touching its key. -/
theorem Sound.store_step {w : VpnWorker} (hsound : Sound w) {id : Nat} {tcp next : Session}
    (htcp : w.dispatchers[id]? = some tcp) {a : Session.Step} (hstep : tcp.step a = .ok next)
    (hkey : next.key = tcp.key) : Sound (w.store id next) ∧ SameKeys w (w.store id next) :=
  ⟨hsound.store ((hsound.dispatched_getElem? htcp).step hstep) id, sameKeys_store htcp hkey⟩

/-- A new connection adds a dispatched session and changes no key before it. -/
theorem Sound.onEstablish {w : VpnWorker} (hsound : Sound w) (sessionKey : TcpSessionKey)
    (result : Option TcpDirection) (segment : TcpSegment) (opened : Bool) (identify : BitVec 32) :
    Sound (w.onEstablish sessionKey result segment opened identify) ∧
      SameKeys w (w.onEstablish sessionKey result segment opened identify) := by
  unfold VpnWorker.onEstablish
  split
  · obtain ⟨hdispatched, hdistinct, hregistered⟩ := hsound
    refine ⟨⟨?_, ?_, ?_⟩, by simp, fun id hid => by simp [key, List.getElem?_append_left hid]⟩
    · simp only [List.mem_append, List.mem_singleton]
      rintro s (hs | rfl)
      · exact hdispatched s hs
      · exact Session.Dispatched.new sessionKey segment identify
    · refine List.nodup_append.mpr ⟨hdistinct, by simp, fun id hid other hother => ?_⟩
      have hlt := hregistered id hid
      rw [List.mem_singleton] at hother
      omega
    · simp only [List.mem_append, List.mem_singleton, List.length_append, List.length_singleton]
      rintro id (hid | rfl)
      · exact Nat.lt_succ_of_lt (hregistered id hid)
      · exact Nat.lt_succ_self _
  · exact ⟨hsound, .refl w⟩

/-- A call of the decoder steps at most one dispatcher and touches no key. -/
theorem Sound.callback {w next : VpnWorker} (hsound : Sound w) {call : Callback}
    (hcall : w.callback call = .ok next) : Sound next ∧ SameKeys w next := by
  cases call with
  | onEstablish sessionKey result segment opened identify =>
    cases hcall
    exact hsound.onEstablish sessionKey result segment opened identify
  | handleTx sessionKey data =>
    simp only [VpnWorker.callback, VpnWorker.handleTx] at hcall
    split at hcall
    · cases hcall
      exact ⟨hsound, .refl w⟩
    · rename_i id tcp hlookup
      cases htx : tcp.handleTx data with
      | error e =>
        rw [htx] at hcall
        cases hcall
      | ok stored =>
        rw [htx] at hcall
        cases hcall
        exact hsound.store_step (lookup_eq_some hlookup) htx (a := .handleTx data) (Session.handleTx_key htx)
  | postProcess sessionKey segment result time =>
    cases hcall
    unfold VpnWorker.postProcess
    split
    · split
      · rename_i id tcp direction hlookup
        have hstored := hsound.store_step (lookup_eq_some hlookup) (a := .handleFin segment direction time) rfl
          (tcp.handleFin_key segment direction time)
        dsimp only
        split
        · exact ⟨hstored.1.remove sessionKey, hstored.2⟩
        · exact hstored
      · exact ⟨hsound, .refl w⟩
    · exact ⟨hsound, .refl w⟩
  | onReset sessionKey =>
    cases hcall
    unfold VpnWorker.onReset
    dsimp only
    split
    · rename_i id tcp hlookup
      have hstored := hsound.store_step (lookup_eq_some hlookup) (a := .onReset) rfl rfl
      exact ⟨hstored.1.remove sessionKey, hstored.2⟩
    · exact ⟨hsound.remove sessionKey, .refl w⟩
  | onFinish sessionKey =>
    cases hcall
    exact ⟨hsound.remove sessionKey, .refl w⟩

/-- The callbacks of the decoder change no key. -/
theorem Sound.callbacks {w next : VpnWorker} (hsound : Sound w) {calls : List Callback}
    (hcalls : w.callbacks calls = .ok next) : Sound next ∧ SameKeys w next := by
  refine run_invariant (I := fun other => Sound other ∧ SameKeys w other) ?_ ⟨hsound, .refl w⟩ hcalls
  rintro other call last ⟨hother, hsame⟩ hcall
  obtain ⟨hlast, hkeys⟩ := hother.callback hcall
  exact ⟨hlast, hsame.trans hkeys⟩

/-- The work on one key is a run of its dispatcher, and leaves the keys of the
others alone. -/
theorem Sound.onKey {w next : VpnWorker} (hsound : Sound w) {method : Session → Except RuntimeException Session}
    {id : Nat} {calls : List Callback} {key : SelectionKey} (hkey : w.key id = some key)
    (hmethod : ∀ s : Session, s.key = key → ∃ steps, method s = s.run steps)
    (hwork : w.onKey method id calls = .ok next) :
    Sound next ∧ ∀ other ≠ id, other < w.dispatchers.length → next.key other = w.key other := by
  obtain ⟨tcp, htcp, htcpKey⟩ := Option.map_eq_some_iff.mp hkey
  obtain ⟨steps, hsteps⟩ := hmethod tcp htcpKey
  simp only [VpnWorker.onKey, htcp, hsteps] at hwork
  cases hrun : tcp.run steps with
  | error e =>
    rw [hrun] at hwork
    cases hwork
  | ok stored =>
    rw [hrun] at hwork
    have hstored := hsound.store ((hsound.dispatched_getElem? htcp).run hrun) id
    obtain ⟨hnext, -, hsame⟩ := hstored.callbacks hwork
    refine ⟨hnext, fun other hother hlength => ?_⟩
    rw [hsame other (by simpa [VpnWorker.store] using hlength)]
    exact key_store stored hother

/-- A loop over distinct keys: each key is still as it was when its turn comes. -/
theorem Sound.forKeys {β : Type} {id : β → Nat} {method : β → Session → Except RuntimeException Session}
    {calls : β → List Callback} {G : β → SelectionKey → Prop}
    (hmethod : ∀ entry (s : Session), G entry s.key → ∃ steps, method entry s = s.run steps)
    {w next : VpnWorker} (hsound : Sound w) {entries : List β} (hdistinct : (entries.map id).Nodup)
    (hgood : ∀ entry ∈ entries, ∃ key, w.key (id entry) = some key ∧ G entry key)
    (hrun : machine.run (fun w entry => w.onKey (method entry) (id entry) (calls entry)) w entries = .ok next) :
    Sound next := by
  induction entries generalizing w with
  | nil =>
    cases hrun
    exact hsound
  | cons entry rest ih =>
    obtain ⟨middle, hwork, hrest⟩ := run_cons_ok.mp hrun
    obtain ⟨⟨key, hkey, hentry⟩, hothers⟩ := List.forall_mem_cons.mp hgood
    obtain ⟨hfresh, hdistinctRest⟩ := List.nodup_cons.mp hdistinct
    obtain ⟨hmiddle, hsame⟩ := hsound.onKey hkey (fun s hs => hmethod entry s (hs ▸ hentry)) hwork
    refine ih hmiddle hdistinctRest (fun other hother => ?_) hrest
    obtain ⟨otherKey, hotherKey, hotherGood⟩ := hothers other hother
    refine ⟨otherKey, ?_, hotherGood⟩
    rw [hsame (id other) ?_ ?_]
    · exact hotherKey
    · intro hclash
      exact hfresh (hclash ▸ List.mem_map_of_mem hother)
    · obtain ⟨tcp, htcp, -⟩ := Option.map_eq_some_iff.mp hotherKey
      exact (List.getElem?_eq_some_iff.mp htcp).1

/-- Selecting drops what was cancelled and keeps the worker sound. -/
theorem Sound.select {w : VpnWorker} (hsound : Sound w) : Sound w.select :=
  ⟨hsound.dispatched, hsound.distinct.filter _, fun id hid => hsound.registered id (List.mem_filter.mp hid).1⟩

/-- After a `select` every registered key is valid. -/
theorem valid_of_mem_select {w : VpnWorker} {id : Nat} (hid : id ∈ w.select.keys) :
    ∃ key, w.select.key id = some key ∧ key.valid = true :=
  (Option.any_eq_true _ _).mp (List.mem_filter.mp hid).2

/-- A turn of the worker keeps it sound. -/
theorem Sound.processVpn {w next : VpnWorker} (hsound : Sound w) {turn : Turn}
    (hturn : w.processVpn turn = .ok next) : Sound next := by
  have hselect := hsound.select
  cases turn with
  | input calls => exact (hsound.callbacks hturn).1
  | idle order =>
    simp only [VpnWorker.processVpn] at hturn
    split at hturn
    · rename_i hperm
      refine hselect.forKeys (G := fun _ key => key.valid = true) ?_
        (hperm.nodup_iff.mpr hselect.distinct) ?_ hturn
      · rintro entry s hvalid
        refine ⟨[.idle none], ?_⟩
        rw [Session.run, run_singleton, Session.step, if_pos hvalid]
      · intro entry hentry
        exact valid_of_mem_select (hperm.mem_iff.mp (List.mem_map_of_mem hentry))
    · cases hturn
      exact hselect
  | selected selected =>
    simp only [VpnWorker.processVpn] at hturn
    split at hturn
    · rename_i hselectable
      simp only [selectable, Bool.and_eq_true, decide_eq_true_eq, List.all_eq_true] at hselectable
      obtain ⟨hdistinct, hready⟩ := hselectable
      refine hselect.forKeys (G := fun entry key => entry.2.1.within key.interestOps = true) ?_ hdistinct ?_ hturn
      · rintro entry s hwithin
        simp only [processSelected]
        split
        · exact ⟨[], rfl⟩
        · rename_i hvalid
          exact ⟨_, Session.handle_processKey (by simpa using hvalid) hwithin⟩
      · intro entry hentry
        exact (Option.any_eq_true _ _).mp (hready entry hentry).2
    · cases hturn
      exact hselect

variable {turns : List Turn} {w : VpnWorker}

/-- Every dispatcher of a worker, after any turns of its loop, is in a state that
the dispatcher's own steps lead to. -/
theorem run_dispatched (hrun : new.run turns = .ok w) : ∀ s ∈ w.dispatchers, s.Dispatched :=
  (run_invariant (fun _ _ _ h => h.processVpn) Sound.new hrun).dispatched

/-- After any turns of the loop, no dispatcher has sent a SYN, data, a FIN or a RST
after its first terminating segment, and no second terminating segment. -/
theorem single_termination (hrun : new.run turns = .ok w) :
    ∀ s ∈ w.dispatchers, ∀ before segment forward after,
      s.log = before ++ .sent .exceptionRaised segment forward :: after →
      ∀ site later forwarded, .sent site later forwarded ∈ after → site ≠ .exceptionRaised ∧
        later.isSyn = false ∧ later.data = [] ∧ later.isFin = false ∧ later.isRst = false := by
  intro s hs before segment forward after hlog site later forwarded hlater
  obtain ⟨between, rest, rfl⟩ := List.append_of_mem hlater
  have hlaw := (run_dispatched hrun s hs).terminated.law (before ++ .sent .exceptionRaised segment forward :: between)
    (.sent site later forwarded) rest (by simpa using hlog)
  obtain ⟨rfl, hbare⟩ := hlaw (by simp [terminated])
  exact ⟨by simp, hbare⟩

/-- A connection that is refused ends in one reset and nothing behind it. -/
theorem single_termination_refused :
    ∃ w, new.run [.input [.onEstablish ⟨⟨1, 40000⟩, ⟨2, 80⟩⟩ (some .ToServer)
          (TcpPacketBuilder ⟨1, 40000⟩ ⟨2, 80⟩) true 7],
        .selected [(0, ⟨none, none, some .refused⟩, [])], .idle []] = .ok w ∧
      w.dispatchers.length = 1 ∧
      ∀ s ∈ w.dispatchers, ∀ before segment forward after,
        s.log = before ++ .sent .exceptionRaised segment forward :: after →
        ∀ site later forwarded, .sent site later forwarded ∈ after → site ≠ .exceptionRaised ∧
          later.isSyn = false ∧ later.data = [] ∧ later.isFin = false ∧ later.isRst = false := by
  obtain ⟨w, hrun, hlength⟩ : ∃ w, new.run [.input [.onEstablish ⟨⟨1, 40000⟩, ⟨2, 80⟩⟩ (some .ToServer)
        (TcpPacketBuilder ⟨1, 40000⟩ ⟨2, 80⟩) true 7],
      .selected [(0, ⟨none, none, some .refused⟩, [])], .idle []] = .ok w ∧
      w.dispatchers.length = 1 := ⟨_, rfl, rfl⟩
  exact ⟨w, hrun, hlength, single_termination hrun⟩

end VpnWorker

end inspector.vpn
