import Inspector.Vpn.ProcParser

open machine

namespace inspector.vpn

/-- A line that has nothing to do with the sockets of a pair. -/
def Untouched (pair : PortPair) (line : List Char) : Prop :=
  ∀ e, ProcParser.parseLine line = .ok e → e.ports ≠ pair ∧ e.ports.swap ≠ pair

namespace MyProcStat

variable {pair : PortPair} {stat next : MyProcStat} {e : ProcParser.Entry} {line : List Char} {lines : List (List Char)}

/-- The entry of the other direction is the one that is put last. -/
theorem matches_addEntry (stat : MyProcStat) (e : ProcParser.Entry) (pair : PortPair) :
    (stat.addEntry e).matches pair =
      if pair = e.ports.swap then some { direction := .ToClient, uid := e.uid }
      else if pair = e.ports then some { direction := .ToServer, uid := e.uid }
      else stat.matches pair := by
  unfold «matches» addEntry
  simp only [Function.update_apply]

theorem parseStep_ok (hstep : ProcParser.parseStep stat line = .ok next) :
    ∃ e, ProcParser.parseLine line = .ok e ∧ next = stat.addEntry e := by
  unfold ProcParser.parseStep at hstep
  cases hline : ProcParser.parseLine line with
  | error e =>
    rw [hline] at hstep
    cases hstep
  | ok e =>
    rw [hline] at hstep
    cases hstep
    exact ⟨e, rfl, rfl⟩

theorem matches_of_untouched (hlines : ∀ line ∈ lines, Untouched pair line)
    (hrun : machine.run ProcParser.parseStep stat lines = .ok next) : next.matches pair = stat.matches pair := by
  induction lines generalizing stat with
  | nil =>
    cases hrun
    rfl
  | cons line rest ih =>
    obtain ⟨hline, hrest⟩ := List.forall_mem_cons.mp hlines
    obtain ⟨middle, hstep, hafter⟩ := run_cons_ok.mp hrun
    obtain ⟨e, hparse, rfl⟩ := parseStep_ok hstep
    obtain ⟨hports, hswap⟩ := hline e hparse
    rw [ih hrest hafter, matches_addEntry, if_neg (Ne.symm hswap), if_neg (Ne.symm hports)]

/-- What the lines around it leave of a line. -/
theorem matches_of_line {before after : List (List Char)} (hafter : ∀ line ∈ after, Untouched e.ports line)
    (hline : ProcParser.parseLine line = .ok e)
    (hrun : machine.run ProcParser.parseStep .new (before ++ line :: after) = .ok stat) :
    stat.matches e.ports =
      some { direction := if e.ports = e.ports.swap then .ToClient else .ToServer, uid := e.uid } := by
  obtain ⟨middle, hfirst, hrest⟩ := run_append_ok.mp hrun
  obtain ⟨added, hstep, hlast⟩ := run_cons_ok.mp hrest
  obtain ⟨other, hother, rfl⟩ := parseStep_ok hstep
  rw [hline] at hother
  cases hother
  rw [matches_of_untouched hafter hlast, matches_addEntry]
  split <;> simp

end MyProcStat

namespace ProcParser

variable {header header6 line : List Char} {lines lines6 before after : List (List Char)} {stats : ProcStatGroup}
  {e : Entry}

theorem parse_ok {stat : Option MyProcStat} (hparse : parse (header :: lines) = .ok stat) :
    ∃ s, stat = some s ∧ machine.run parseStep .new lines = .ok s := by
  rw [parse] at hparse
  by_cases hheader : isHeader header = true
  · rw [if_pos hheader] at hparse
    cases hrun : machine.run parseStep .new lines with
    | error e =>
      rw [hrun] at hparse
      cases hparse
    | ok s =>
      rw [hrun] at hparse
      cases hparse
      exact ⟨s, rfl, rfl⟩
  · rw [if_neg hheader] at hparse
    cases hparse

theorem parseFiles_ok (hparse : parseFiles (header :: lines) (header6 :: lines6) = .ok stats) :
    ∃ stat stat6, stats = [some stat, some stat6] ∧ machine.run parseStep .new lines = .ok stat ∧
      machine.run parseStep .new lines6 = .ok stat6 := by
  obtain ⟨stat, hstat, hrest⟩ := bind_eq_ok.mp hparse
  obtain ⟨stat6, hstat6, hreturn⟩ := bind_eq_ok.mp hrest
  obtain ⟨s, rfl, hrun⟩ := parse_ok hstat
  obtain ⟨s6, rfl, hrun6⟩ := parse_ok hstat6
  cases hreturn
  exact ⟨s, s6, rfl, hrun, hrun6⟩

/-- A line of two files is a line of one of them. -/
theorem line_of_append {α : Type} {lines lines6 before after : List α} {line : α}
    (htable : lines ++ lines6 = before ++ line :: after) :
    (∃ rest, lines = before ++ line :: rest ∧ after = rest ++ lines6) ∨
      ∃ rest, before = lines ++ rest ∧ lines6 = rest ++ line :: after := by
  rcases List.append_eq_append_iff.mp htable with ⟨rest, hbefore, hlines6⟩ | ⟨rest, hlines, hafter⟩
  · exact .inr ⟨rest, hbefore, hlines6⟩
  · cases rest with
    | nil => exact .inr ⟨[], by simpa using hlines.symm, hafter.symm⟩
    | cons first rest =>
      rw [List.cons_append, List.cons.injEq] at hafter
      obtain ⟨rfl, rfl⟩ := hafter
      exact .inl ⟨rest, hlines, rfl⟩

/-- The result for the only line that has to do with its pair of ports, in either file. -/
theorem matches_line (hparse : parseFiles (header :: lines) (header6 :: lines6) = .ok stats)
    (htable : lines ++ lines6 = before ++ line :: after) (hline : parseLine line = .ok e)
    (hothers : ∀ other ∈ before ++ after, Untouched e.ports other) :
    stats.matches e.ports =
      .ok (some { direction := if e.ports = e.ports.swap then .ToClient else .ToServer, uid := e.uid }) := by
  obtain ⟨stat, stat6, rfl, hrun, hrun6⟩ := parseFiles_ok hparse
  rcases line_of_append htable with ⟨rest, rfl, rfl⟩ | ⟨rest, rfl, rfl⟩
  · have hmatches := MyProcStat.matches_of_line (fun other hother => hothers other (by simp [hother])) hline hrun
    rw [ProcStatGroup.matches, hmatches]
  · have hfirst := MyProcStat.matches_of_untouched (fun other hother => hothers other (by simp [hother])) hrun
    have hmatches := MyProcStat.matches_of_line (fun other hother => hothers other (by simp [hother])) hline hrun6
    have hnew : MyProcStat.new.matches e.ports = none := rfl
    rw [ProcStatGroup.matches, hfirst, hnew]
    simp only [ProcStatGroup.matches, hmatches]

end ProcParser

/-- The packets of a socket are taken for outgoing ones of its uid, and the worker opens
channels for them, whether it has read the files before or reads them now. -/
structure Recognised (stats : ProcStatGroup) (e : ProcParser.Entry) : Prop where
  found : stats.matches e.ports = .ok (some { direction := .ToServer, uid := e.uid })
  tcp : ∀ last, last = none ∨ last = some stats → ∀ (w : VpnWorker) (key : TcpSessionKey),
    VpnWorker.sessionPair key = e.ports →
    ∃ result, VpnWorker.matchesStat last (.ok stats) (VpnWorker.sessionPair key) = .ok result ∧
      ∀ segment identify, (w.onEstablish key (result.map ProcResult.direction) segment true identify).dispatchers =
        w.dispatchers ++ [Session.new key segment identify]
  udp : ∀ last, last = none ∨ last = some stats → ∀ p : VpnWorker.UdpPacket, p.pair = e.ports →
    ∃ result, VpnWorker.matchesStat last (.ok stats) p.pair = .ok result ∧ VpnWorker.process p result true = some p

namespace ProcParser

variable {header header6 line : List Char} {lines lines6 before after : List (List Char)} {stats : ProcStatGroup}
  {e : Entry}

theorem matchesStat_eq {last : Option ProcStatGroup} {result : ProcResult} (hlast : last = none ∨ last = some stats)
    (hmatches : stats.matches e.ports = .ok (some result)) :
    VpnWorker.matchesStat last (.ok stats) e.ports = .ok (some result) := by
  rcases hlast with rfl | rfl
  · exact hmatches
  · unfold VpnWorker.matchesStat
    simp only [hmatches]
    rfl

theorem recognised_of_matches (hmatches : stats.matches e.ports = .ok (some { direction := .ToServer, uid := e.uid })) :
    Recognised stats e where
  found := hmatches
  tcp _ hlast _ _ hkey := ⟨_, hkey ▸ matchesStat_eq hlast hmatches, fun _ _ => rfl⟩
  udp _ hlast _ hpair := ⟨_, hpair ▸ matchesStat_eq hlast hmatches, rfl⟩

/-- The only socket for its ports is recognised exactly if they are different. -/
theorem recognised_iff (hparse : parseFiles (header :: lines) (header6 :: lines6) = .ok stats)
    (htable : lines ++ lines6 = before ++ line :: after) (hline : parseLine line = .ok e)
    (hothers : ∀ other ∈ before ++ after, Untouched e.ports other) :
    Recognised stats e ↔ e.localSocket.port ≠ e.remoteSocket.port := by
  have hmatches := matches_line hparse htable hline hothers
  have hswap : e.ports = e.ports.swap ↔ e.localSocket.port = e.remoteSocket.port := by
    simp only [Entry.ports, PortPair.swap, PortPair.mk.injEq]
    exact ⟨And.left, fun h => ⟨h, h.symm⟩⟩
  constructor
  · intro hrecognised hsame
    rw [if_pos (hswap.mpr hsame), hrecognised.found] at hmatches
    cases hmatches
  · intro hdifferent
    rw [if_neg fun h => hdifferent (hswap.mp h)] at hmatches
    exact recognised_of_matches hmatches

def headerLine : List Char :=
  "  sl  local_address rem_address   st tx_queue rx_queue tr tm->when retrnsmt   uid  timeout inode".toList

/-- A socket from port 40000 to port 53. -/
def dnsLine : List Char :=
  " 33: 0100080A:9C40 08080808:0035 01 00000000:00000000 00:00000000 00000000 10086        0 27136 2 00000000 0".toList

def dnsEntry : Entry where
  localSocket := { address := [10, 8, 0, 1], port := 40000 }
  remoteSocket := { address := [8, 8, 8, 8], port := 53 }
  uid := 10086

/-- A socket from port 123 to port 123. -/
def ntpLine : List Char :=
  " 41: 0100080A:007B 08080808:007B 01 00000000:00000000 00:00000000 00000000 10086        0 27199 2 00000000 0".toList

def ntpEntry : Entry where
  localSocket := { address := [10, 8, 0, 1], port := 123 }
  remoteSocket := { address := [8, 8, 8, 8], port := 123 }
  uid := 10086

/-- The files when there is one socket. -/
theorem parseFiles_one (hline : parseLine line = .ok e) : parseFiles [headerLine, line] [headerLine] =
    .ok [some (MyProcStat.new.addEntry e), some .new] := by
  have hheader : isHeader headerLine = true := by decide +kernel
  have hstep : parseStep .new line = .ok (MyProcStat.new.addEntry e) := by rw [parseStep, hline, Except.map]
  rw [parseFiles, parse, parse, if_pos hheader, if_pos hheader, machine.run_singleton, hstep]
  rfl

theorem recognised_iff_dns : ∃ stats, parseFiles [headerLine, dnsLine] [headerLine] = .ok stats ∧
    (Recognised stats dnsEntry ↔ dnsEntry.localSocket.port ≠ dnsEntry.remoteSocket.port) := by
  have hline : parseLine dnsLine = .ok dnsEntry := by decide +kernel
  have htable : [dnsLine] ++ [] = [] ++ dnsLine :: [] := rfl
  exact ⟨_, parseFiles_one hline, recognised_iff (parseFiles_one hline) htable hline (by simp)⟩

/-- The packets of a socket with the same port on both sides are taken for incoming ones. -/
theorem same_ports_to_client : ∃ stats, parseFiles [headerLine, ntpLine] [headerLine] = .ok stats ∧
    parseLine ntpLine = .ok ntpEntry ∧
    stats.matches ntpEntry.ports = .ok (some { direction := .ToClient, uid := 10086 }) ∧
      ¬ Recognised stats ntpEntry := by
  have hline : parseLine ntpLine = .ok ntpEntry := by decide +kernel
  refine ⟨_, parseFiles_one hline, hline, rfl, fun hrecognised => ?_⟩
  have hfound := hrecognised.found
  revert hfound
  decide

end ProcParser

end inspector.vpn
