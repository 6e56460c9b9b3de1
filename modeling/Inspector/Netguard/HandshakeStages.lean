import Mathlib.Data.List.Infix
import Inspector.Netguard.SSLProxy

open machine

namespace inspector.netguard

/-- What has become of a server address. -/
inductive Stage where
  | fresh
  | first
  | closing
  | succeeded
  | failedOnce
  | second
  | closingLater
  | succeededLater
  | failedTwice
  deriving DecidableEq, Repr

namespace Stage

open HandshakeStatus

/-- The statuses that have been put by then. -/
def puts : Stage → List HandshakeStatus
  | fresh => []
  | first => [handshaking]
  | closing => [handshaking, success]
  | succeeded => [handshaking, success]
  | failedOnce => [handshaking, failed1]
  | second => [handshaking, failed1, handshaking]
  | closingLater => [handshaking, failed1, handshaking, success]
  | succeededLater => [handshaking, failed1, handshaking, success]
  | failedTwice => [handshaking, failed1, handshaking, failed2]

/-- The threads, each with the status that it has captured and its phase. -/
def threads : Stage → List (Option HandshakeStatus × Phase)
  | fresh => []
  | first => [(none, .connecting)]
  | closing => [(none, .closing)]
  | succeeded => [(none, .finished)]
  | failedOnce => [(none, .finished)]
  | second => [(none, .finished), (some failed1, .connecting)]
  | closingLater => [(none, .finished), (some failed1, .closing)]
  | succeededLater => [(none, .finished), (some failed1, .finished)]
  | failedTwice => [(none, .finished), (some failed1, .finished)]

theorem eq_fresh : ∀ {stage : Stage}, stage.puts.getLast? = none → stage = fresh := by
  intro stage
  cases stage <;> decide

theorem eq_failedOnce : ∀ {stage : Stage}, stage.puts.getLast? = some failed1 → stage = failedOnce := by
  intro stage
  cases stage <;> decide

end Stage

def Handshake.progress (t : Handshake) : Option HandshakeStatus × Phase := (t.status, t.phase)

/-- An address is at a stage. -/
structure Address.At (a : Address) (stage : Stage) : Prop where
  puts : a.puts = stage.puts
  status : a.status = stage.puts.getLast?
  threads : a.threads.map Handshake.progress = stage.threads

namespace Address.At

variable {a : Address} {stage : Stage} {thread : Nat} {t : Handshake} (next : Handshake)

theorem progress (hat : a.At stage) (ht : a.threads[thread]? = some t) :
    stage.threads[thread]? = some t.progress := by
  rw [← hat.threads, List.getElem?_map, ht]
  rfl

/-- A thread that goes on. -/
theorem map_set (hat : a.At stage) :
    (a.threads.set thread next).map Handshake.progress = stage.threads.set thread next.progress := by
  rw [List.map_set, hat.threads]

/-- A thread that stays where it is. -/
theorem set_same (hat : a.At stage) (ht : a.threads[thread]? = some t) (hsame : next.progress = t.progress) :
    { a with threads := a.threads.set thread next }.At stage := by
  refine ⟨hat.puts, hat.status, ?_⟩
  have hprogress := hat.progress ht
  rw [hat.map_set, hsame]
  apply List.ext_getElem?
  intro i
  rw [List.getElem?_set]
  by_cases hi : thread = i
  · subst hi
    obtain ⟨hlt, -⟩ := List.getElem?_eq_some_iff.mp hprogress
    rw [if_pos rfl, if_pos hlt, hprogress]
  · rw [if_neg hi]

/-- A status is put by a thread that goes on. -/
theorem put_set {next} {after : Stage} {status : HandshakeStatus} (hat : a.At stage)
    (hputs : after.puts = stage.puts ++ [status])
    (hthreads : stage.threads.set thread next.progress = after.threads) :
    { a.put status with threads := (a.put status).threads.set thread next }.At after := by
  refine ⟨?_, ?_, ?_⟩
  · rw [hputs, ← hat.puts]
    rfl
  · rw [hputs, List.getLast?_concat]
    rfl
  · exact (hat.map_set _).trans hthreads

/-- The stage in which a thread is within `connectServer`. -/
theorem connecting (hat : a.At stage) (ht : a.threads[thread]? = some t) (hphase : t.phase = .connecting) :
    (stage = .first ∧ thread = 0 ∧ t.status = none) ∨ (stage = .second ∧ thread = 1 ∧ t.status = some .failed1) := by
  have hprogress := hat.progress ht
  rw [Handshake.progress, hphase] at hprogress
  rcases thread with _ | _ | thread <;> cases stage <;> simp_all [Stage.threads]

theorem closing (hat : a.At stage) (ht : a.threads[thread]? = some t) (hphase : t.phase = .closing) :
    (stage = .closing ∧ thread = 0 ∧ t.status = none) ∨
      (stage = .closingLater ∧ thread = 1 ∧ t.status = some .failed1) := by
  have hprogress := hat.progress ht
  rw [Handshake.progress, hphase] at hprogress
  rcases thread with _ | _ | thread <;> cases stage <;> simp_all [Stage.threads]

end Address.At

namespace SSLProxy

variable {Server Certificate Context : Type} [DecidableEq Server]
  {s next : SSLProxy Server Certificate Context} {a : Action Server Certificate Context}

/-- What holds as long as no close throws. -/
structure Staged (s : SSLProxy Server Certificate Context) : Prop where
  stages : ∀ server, ∃ stage, (s.address server).At stage
  creating : ∀ server status, s.creating = some (server, status) → status ≠ some .handshaking →
    (s.address server).status = status
  allowed : ∀ server, ∀ answer ∈ (s.address server).answers, answer.2 = .allowed → answer.1 = some .failed2

/-- An address that changes, while a call of `create` has nothing to do with it. -/
theorem Staged.setAddress {server : Server} {x : Address} (hs : s.Staged) (hat : ∃ stage, x.At stage)
    (hstatus : ∀ status, s.creating = some (server, status) → status ≠ some .handshaking → x.status = status)
    (hanswers : x.answers = (s.address server).answers) : (s.setAddress server x).Staged := by
  refine ⟨fun other => ?_, fun other status hcreating hne => ?_, fun other => ?_⟩
  · by_cases hsame : other = server
    · subst hsame
      simpa [SSLProxy.setAddress] using hat
    · simpa [SSLProxy.setAddress, hsame] using hs.stages other
  · by_cases hsame : other = server
    · subst hsame
      simpa [SSLProxy.setAddress] using hstatus status hcreating hne
    · simpa [SSLProxy.setAddress, hsame] using hs.creating other status hcreating hne
  · by_cases hsame : other = server
    · subst hsame
      simpa [SSLProxy.setAddress, hanswers] using hs.allowed other
    · simpa [SSLProxy.setAddress, hsame] using hs.allowed other

/-- `create` ends, and lets the connection through in the right state only. -/
theorem Staged.returns {server : Server} {answer : Answer} (hs : s.Staged)
    (hallowed : answer = .allowed → (s.address server).status = some .failed2) : (s.returns server answer).Staged := by
  refine ⟨fun other => ?_, fun other status hcreating => ?_, fun other => ?_⟩
  · obtain ⟨stage, hat⟩ := hs.stages other
    by_cases hsame : other = server
    · subst hsame
      refine ⟨stage, ?_⟩
      simp only [SSLProxy.returns, SSLProxy.setAddress, Function.update_self]
      exact ⟨hat.puts, hat.status, hat.threads⟩
    · exact ⟨stage, by simpa [SSLProxy.returns, SSLProxy.setAddress, hsame] using hat⟩
  · simp [SSLProxy.returns] at hcreating
  · by_cases hsame : other = server
    · subst hsame
      intro p hp hp'
      simp only [SSLProxy.returns, SSLProxy.setAddress, Function.update_self, List.mem_append,
        List.mem_singleton] at hp
      rcases hp with hold | rfl
      · exact hs.allowed other p hold hp'
      · exact hallowed hp'
    · simpa [SSLProxy.returns, SSLProxy.setAddress, hsame] using hs.allowed other

/-- A handshake is started, for the first or the second time. -/
theorem Staged.start {server : Server} {status : Option HandshakeStatus} (hs : s.Staged)
    (hcreating : s.creating = some (server, status)) (hstatus : status = none ∨ status = some .failed1) :
    (s.start server status).Staged := by
  have hne : status ≠ some .handshaking := by
    rcases hstatus with rfl | rfl <;> simp
  have hread := hs.creating server status hcreating hne
  obtain ⟨stage, hat⟩ := hs.stages server
  have hlast := hat.status
  rw [hread] at hlast
  have hnext : ∃ after : Stage, after.puts = stage.puts ++ [.handshaking] ∧
      after.threads = stage.threads ++ [(status, .connecting)] := by
    rcases hstatus with rfl | rfl
    · rw [Stage.eq_fresh hlast.symm]
      exact ⟨.first, rfl, rfl⟩
    · rw [Stage.eq_failedOnce hlast.symm]
      exact ⟨.second, rfl, rfl⟩
  obtain ⟨after, hputs, hthreads⟩ := hnext
  have hnone : ({ s with creating := none } : SSLProxy Server Certificate Context).Staged :=
    ⟨hs.stages, fun _ _ hcreating => by simp at hcreating, hs.allowed⟩
  refine Staged.returns (s := SSLProxy.setAddress { s with creating := none } server _) ?_ (by simp)
  refine hnone.setAddress ⟨after, ?_, ?_, ?_⟩ (by simp) rfl
  · rw [hputs, ← hat.puts]
    rfl
  · rw [hputs, List.getLast?_concat]
    rfl
  · rw [hthreads, ← hat.threads, List.map_append]
    rfl

theorem Staged.create {server : Server} {status : Option HandshakeStatus} {opened : Bool} (hs : s.Staged)
    (hcreating : s.creating = some (server, status)) : (s.create server status opened).Staged := by
  have hread := hs.creating server status hcreating
  unfold SSLProxy.create
  split
  · exact hs.start hcreating (.inl rfl)
  · exact hs.start hcreating (.inr rfl)
  · exact hs.returns (by simp)
  · exact hs.returns fun _ => hread (by simp)
  · split
    · refine hs.returns fun hallowed => ?_
      cases opened <;> simp at hallowed
    · exact hs.returns (by simp)

/-- A thread puts a status from within `connectServer`. -/
theorem Staged.putStatus {server : Server} {thread : Nat} {stage : Stage} (after : Stage) {next : Handshake}
    {status : HandshakeStatus} (hs : s.Staged) (hat : (s.address server).At stage)
    (hhandshaking : stage.puts.getLast? = some .handshaking) (hputs : after.puts = stage.puts ++ [status])
    (hthreads : stage.threads.set thread next.progress = after.threads) :
    (s.putStatus server thread next status).Staged := by
  refine hs.setAddress ⟨after, hat.put_set hputs hthreads⟩ (fun read hcreating hne => ?_) rfl
  have hread := hs.creating server read hcreating hne
  rw [hat.status, hhandshaking] at hread
  exact absurd hread.symm hne

omit [DecidableEq Server] in
theorem staged_initial : (initial : SSLProxy Server Certificate Context).Staged := by
  refine ⟨fun _ => ⟨.fresh, rfl, rfl, rfl⟩, fun _ _ hcreating => ?_, fun _ answer hanswer => ?_⟩
  · cases hcreating
  · cases hanswer

variable [DecidableEq Certificate]

/-- Each step that is not a failing close leads from stage to stage. -/
theorem Staged.step (hs : s.Staged) (hcloses : ∀ server thread, a ≠ .closed server thread true)
    (hstep : s.Steps a next) : next.Staged := by
  cases hstep with
  | get server hidle =>
    refine ⟨hs.stages, fun other status hcreating _ => ?_, hs.allowed⟩
    cases hcreating
    rfl
  | answer opened hcreating => exact hs.create hcreating
  | unverified server thread generated => exact hs
  | @completed server thread peer generated t hthread =>
    obtain ⟨stage, hat⟩ := hs.stages server
    have hset := hs.setAddress ⟨stage, hat.set_same { t with countedDown := true } hthread rfl⟩ (hs.creating server) rfl
    exact ⟨hset.stages, hset.creating, hset.allowed⟩
  | connected server thread hthread hphase hlatch =>
    obtain ⟨stage, hat⟩ := hs.stages server
    rcases hat.connecting hthread hphase with ⟨rfl, rfl, hstatus⟩ | ⟨rfl, rfl, hstatus⟩
    · exact Staged.putStatus .closing hs hat rfl rfl (by simp [Stage.threads, Handshake.progress, hstatus])
    · exact Staged.putStatus .closingLater hs hat rfl rfl (by simp [Stage.threads, Handshake.progress, hstatus])
  | failed server thread hthread hphase =>
    obtain ⟨stage, hat⟩ := hs.stages server
    rcases hat.connecting hthread hphase with ⟨rfl, rfl, hstatus⟩ | ⟨rfl, rfl, hstatus⟩
    · rw [hstatus]
      exact Staged.putStatus .failedOnce hs hat rfl rfl (by simp [Stage.threads, Handshake.progress])
    · rw [hstatus]
      exact Staged.putStatus .failedTwice hs hat rfl rfl (by simp [Stage.threads, Handshake.progress])
  | @closed server thread t hthread hphase =>
    obtain ⟨stage, hat⟩ := hs.stages server
    have hafter : ∃ after : Stage, after.puts = stage.puts ∧
        stage.threads.set thread (t.status, .finished) = after.threads := by
      rcases hat.closing hthread hphase with ⟨rfl, rfl, hstatus⟩ | ⟨rfl, rfl, hstatus⟩
      · exact ⟨.succeeded, rfl, by rw [hstatus]; rfl⟩
      · exact ⟨.succeededLater, rfl, by rw [hstatus]; rfl⟩
    obtain ⟨after, hputs, hthreads⟩ := hafter
    refine hs.setAddress ⟨after, ?_, ?_, (hat.map_set _).trans hthreads⟩ (hs.creating server) rfl
    · rw [hputs]
      exact hat.puts
    · rw [hputs]
      exact hat.status
  | closeFailed server thread hthread hphase => exact absurd rfl (hcloses server thread)

/-- What has been put stays in the record. -/
theorem puts_isPrefix (hstep : s.Steps a next) (server : Server) :
    (s.address server).puts <+: (next.address server).puts := by
  have hset : ∀ {p : SSLProxy Server Certificate Context} {other : Server} {x : Address},
      (p.address other).puts <+: x.puts →
        (p.address server).puts <+: ((p.setAddress other x).address server).puts := by
    intro p other x hx
    by_cases hsame : server = other
    · subst hsame
      simpa [SSLProxy.setAddress] using hx
    · simp [SSLProxy.setAddress, hsame]
  have hreturns : ∀ {p : SSLProxy Server Certificate Context} {other : Server} {answer : Answer},
      (p.address server).puts <+: ((p.returns other answer).address server).puts :=
    fun {_ _ _} => hset (List.prefix_refl _)
  have hput : ∀ (x : Address) (status : HandshakeStatus), x.puts <+: (x.put status).puts :=
    fun x status => List.prefix_append x.puts [status]
  have hstart : ∀ (other : Server) (status : Option HandshakeStatus),
      (s.address server).puts <+: ((s.start other status).address server).puts := by
    intro other status
    refine List.IsPrefix.trans ?_ hreturns
    exact hset (hput _ _)
  cases hstep with
  | get other hidle => exact List.prefix_refl _
  | answer opened hcreating =>
    unfold SSLProxy.create
    split
    · exact hstart _ _
    · exact hstart _ _
    · exact hreturns
    · exact hreturns
    · split <;> exact hreturns
  | unverified other thread generated => exact List.prefix_refl _
  | completed other thread peer generated hthread => exact hset (List.prefix_refl _)
  | connected other thread hthread hphase hlatch => exact hset (hput _ _)
  | failed other thread hthread hphase => exact hset (hput _ _)
  | closed other thread hthread hphase => exact hset (List.prefix_refl _)
  | closeFailed other thread hthread hphase => exact hset (hput _ _)

open HandshakeStatus in
/-- The ways that the status of an address can go. -/
def paths : List (List HandshakeStatus) :=
  [[handshaking, success], [handshaking, failed1, handshaking, success], [handshaking, failed1, handshaking, failed2]]

/-- The state machine of the handshakes. -/
structure Orderly (s : SSLProxy Server Certificate Context) : Prop where
  moves : ∀ server, ∃ path ∈ paths, (s.address server).puts <+: path
  status : ∀ server, (s.address server).status = (s.address server).puts.getLast?
  running : ∀ server, ((s.address server).threads.filter fun t => t.phase ≠ .finished).length ≤ 1
  started : ∀ server, (s.address server).threads.length ≤ 2
  allowed : ∀ server, ∀ answer ∈ (s.address server).answers, answer.2 = .allowed → answer.1 = some .failed2

omit [DecidableEq Server] [DecidableEq Certificate] in
theorem Staged.orderly (hs : s.Staged) : s.Orderly := by
  have hstage : ∀ stage : Stage, (∃ path ∈ paths, stage.puts <+: path) ∧
      (stage.threads.filter fun t => t.2 ≠ .finished).length ≤ 1 ∧ stage.threads.length ≤ 2 := by
    intro stage
    cases stage <;> decide
  refine ⟨fun server => ?_, fun server => ?_, fun server => ?_, fun server => ?_, hs.allowed⟩
  · obtain ⟨stage, hat⟩ := hs.stages server
    rw [hat.puts]
    exact (hstage stage).1
  · obtain ⟨stage, hat⟩ := hs.stages server
    rw [hat.puts, hat.status]
  · obtain ⟨stage, hat⟩ := hs.stages server
    have hrunning := (hstage stage).2.1
    rw [← hat.threads, List.filter_map, List.length_map] at hrunning
    exact hrunning
  · obtain ⟨stage, hat⟩ := hs.stages server
    have hstarted := (hstage stage).2.2
    rw [← hat.threads, List.length_map] at hstarted
    exact hstarted

/-- A close that fails puts a failure after the success. -/
theorem Staged.not_moves {server : Server} {thread : Nat} (hs : s.Staged)
    (hstep : s.Steps (.closed server thread true) next) : ¬ ∃ path ∈ paths, (next.address server).puts <+: path := by
  cases hstep with
  | closeFailed _ _ hthread hphase =>
    obtain ⟨stage, hat⟩ := hs.stages server
    simp only [SSLProxy.putStatus, SSLProxy.setAddress, Function.update_self, Address.put, hat.puts]
    rcases hat.closing hthread hphase with ⟨rfl, rfl, hstatus⟩ | ⟨rfl, rfl, hstatus⟩
    · rw [hstatus]
      decide
    · rw [hstatus]
      decide

/-- Along a run without failing closes every state is at its stages. -/
theorem staged_of_run {actions : List (Action Server Certificate Context)} (hs : s.Staged)
    (hcloses : ∀ server thread, .closed server thread true ∉ actions)
    (hrun : machine.run step s actions = .ok next) : next.Staged := by
  induction actions generalizing s with
  | nil =>
    cases hrun
    exact hs
  | cons action rest ih =>
    obtain ⟨middle, hstep, hrest⟩ := run_cons_ok.mp hrun
    refine ih (hs.step (fun server thread hclosed => ?_) (steps_of_step hstep)) (fun server thread hmem => ?_) hrest
    · exact hcloses server thread (by simp [hclosed])
    · exact hcloses server thread (by simp [hmem])

theorem puts_isPrefix_of_run {actions : List (Action Server Certificate Context)}
    (hrun : machine.run step s actions = .ok next) (server : Server) :
    (s.address server).puts <+: (next.address server).puts := by
  refine run_invariant (I := fun p => (s.address server).puts <+: (p.address server).puts) ?_ (List.prefix_refl _) hrun
  intro p action after hbefore hstep
  exact hbefore.trans (puts_isPrefix (steps_of_step hstep) server)

/-- No path goes on after a close that failed. By induction on the run, up to the
first such close. -/
theorem closes_of_moves {actions : List (Action Server Certificate Context)} (hs : s.Staged)
    (hrun : machine.run step s actions = .ok next)
    (hmoves : ∀ server, ∃ path ∈ paths, (next.address server).puts <+: path) (server : Server) (thread : Nat) :
    .closed server thread true ∉ actions := by
  induction actions generalizing s with
  | nil => simp
  | cons action rest ih =>
    obtain ⟨middle, hstep, hrest⟩ := run_cons_ok.mp hrun
    by_cases hfails : ∃ other k, action = .closed other k true
    · obtain ⟨other, k, rfl⟩ := hfails
      obtain ⟨path, hpath, hputs⟩ := hmoves other
      exact absurd ⟨path, hpath, (puts_isPrefix_of_run hrest other).trans hputs⟩
        (hs.not_moves (steps_of_step hstep))
    · have hmiddle : middle.Staged := hs.step (fun other k hclosed => hfails ⟨other, k, hclosed⟩) (steps_of_step hstep)
      rw [List.mem_cons, not_or]
      exact ⟨fun hclosed => hfails ⟨server, thread, hclosed.symm⟩, ih hmiddle hrest⟩

/-- The handshakes keep to their state machine in exactly the runs in which no socket
that has done its handshake fails to close. -/
theorem orderly_iff {actions : List (Action Server Certificate Context)} (hrun : run actions = .ok s) :
    s.Orderly ↔ ∀ server thread, .closed server thread true ∉ actions := by
  constructor
  · intro horderly
    exact closes_of_moves staged_initial hrun horderly.moves
  · intro hcloses
    exact (staged_of_run staged_initial hcloses hrun).orderly

/-- A handshake that fails, and a second one that succeeds. -/
def secondTry : List (Action Nat Nat Nat) :=
  [.get 0, .answer true, .failed 0 0, .get 0, .answer true, .handshakeCompleted 0 1 (some 7) (some 8),
    .connected 0 1, .closed 0 1 false, .get 0, .answer true]

theorem orderly_secondTry : ∃ s, run secondTry = .ok s ∧ s.Orderly := by
  have hok : (run secondTry).isOk = true := by decide
  cases hrun : run secondTry with
  | error e =>
    rw [hrun] at hok
    cases hok
  | ok s => exact ⟨s, rfl, (orderly_iff hrun).mpr (by simp [secondTry])⟩

/-- A socket that fails to close after its handshake turns the success into a
failure. -/
theorem success_lost : ∃ s : SSLProxy Nat Nat Nat,
    run [.get 0, .answer true, .handshakeCompleted 0 0 (some 7) (some 8), .connected 0 0, .closed 0 0 true] = .ok s ∧
      (s.address 0).puts = [.handshaking, .success, .failed1] ∧ ¬ s.Orderly := by
  refine ⟨_, rfl, rfl, fun horderly => ?_⟩
  exact absurd (horderly.moves 0) (by decide)

end SSLProxy

end inspector.netguard
