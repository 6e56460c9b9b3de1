import Inspector.Base.Machine

open machine

namespace inspector.vpn

/-- A packet with the datalink that it is captured with. -/
structure CapturedPacket where
  packetData : List UInt8
  datalink : BitVec 32
  deriving DecidableEq, Repr

/-- A pcap file: the datalink of its header and the packets behind it. -/
structure PcapFile where
  datalink : BitVec 32
  packets : List CapturedPacket
  deriving DecidableEq, Repr

/-- What comes after the last dot. -/
def getExtension (filename : String) : List Char :=
  if '.' ∈ filename.toList then (filename.toList.reverse.takeWhile (· ≠ '.')).reverse else []

/-- The packets all have one datalink. -/
def SameDatalink (packets : List CapturedPacket) : Prop := ∀ p ∈ packets, ∀ q ∈ packets, p.datalink = q.datalink

/-- The capture with the pcap files of its directory, and the files that the flushes have read. -/
structure PacketCapture where
  dataDir : String → Option PcapFile
  pcapFile : String
  lastDatalink : BitVec 32
  flushed : List PcapFile

namespace PacketCapture

/-- A call, with the name that `createTempFile` finds if it makes a new file. -/
inductive Call where
  | onPacket (packetData : List UInt8) (datalink : BitVec 32) (tempFile : String)
  | flush (tempFile : String)
  deriving DecidableEq, Repr

/-- For each flush, the packets that are passed since the flush before. The first of them
follow the packets at hand. -/
def batches (captured : List CapturedPacket) : List Call → List (List CapturedPacket)
  | [] => []
  | .onPacket packetData datalink _ :: rest => batches (captured ++ [{ packetData, datalink }]) rest
  | .flush _ :: rest => captured :: batches [] rest

section Code

variable (processName : String) (rawIp : BitVec 32) (s : PacketCapture)

def accept (pathname : String) : Bool :=
  (getExtension pathname).map Char.toLower = "pcap".toList && processName.toList.isPrefixOf pathname.toList

/-- The files of the process make way for a new one. -/
def flushFile (datalink : BitVec 32) (tempFile : String) : PacketCapture :=
  let dataDir := fun name => if accept processName name then none else s.dataDir name
  { s with
    lastDatalink := datalink
    pcapFile := tempFile
    dataDir := fun name => if name = tempFile then some { datalink, packets := [] } else dataDir name }

/-- Appends to the current file. -/
def write (packet : CapturedPacket) : PacketCapture :=
  { s with
    dataDir := fun name =>
      if name = s.pcapFile then (s.dataDir name).map fun file => { file with packets := file.packets ++ [packet] }
      else s.dataDir name }

/-- A new capture in a directory. -/
def construct (dataDir : String → Option PcapFile) (tempFile : String) : PacketCapture :=
  flushFile processName { dataDir, pcapFile := "", lastDatalink := 0, flushed := [] } rawIp tempFile

def onPacket (packet : CapturedPacket) (tempFile : String) : PacketCapture :=
  let s := if s.lastDatalink ≠ packet.datalink then flushFile processName s packet.datalink tempFile else s
  s.write packet

/-- The current file is read and deleted. There is none if it has been deleted before. -/
def flush (tempFile : String) : Option PacketCapture := do
  let file ← s.dataDir s.pcapFile
  let dataDir := fun name => if name = s.pcapFile then none else s.dataDir name
  return flushFile processName { s with dataDir, flushed := s.flushed ++ [file] } rawIp tempFile

def step : Call → Except Unit PacketCapture
  | .onPacket packetData datalink tempFile => .ok (onPacket processName s { packetData, datalink } tempFile)
  | .flush tempFile =>
    match flush processName rawIp s tempFile with
    | some next => .ok next
    | none => .error ()

/-- The calls that are made to a new capture. -/
def run (dataDir : String → Option PcapFile) (tempFile : String) (calls : List Call) : Except Unit PacketCapture :=
  machine.run (step processName rawIp) (construct processName rawIp dataDir tempFile) calls

end Code

/-- A file is homogeneous, and has all the packets that were passed if these have one datalink. -/
structure Good (file : PcapFile) (captured : List CapturedPacket) : Prop where
  homogeneous : ∀ p ∈ file.packets, p.datalink = file.datalink
  complete_iff : file.packets = captured ↔ SameDatalink captured

/-- What the current file has of the packets that were passed since the last flush: the last
ones, which have its datalink. Those before them were dropped when the datalink changed. -/
structure Current (captured : List CapturedPacket) (s : PacketCapture) (dropped : List CapturedPacket)
    (file : PcapFile) : Prop where
  open_ : s.dataDir s.pcapFile = some file
  datalink : file.datalink = s.lastDatalink
  captured : captured = dropped ++ file.packets
  homogeneous : ∀ p ∈ file.packets, p.datalink = file.datalink
  dropped : dropped ≠ [] → file.packets ≠ [] ∧ ∃ p ∈ dropped, p.datalink ≠ file.datalink

/-- The file that is written holds what it should. -/
def Kept (captured : List CapturedPacket) (s : PacketCapture) : Prop := ∃ dropped file, Current captured s dropped file

variable {processName : String} {rawIp : BitVec 32} {s : PacketCapture} {captured : List CapturedPacket}

/-- Where a packet was dropped, the packets do not have one datalink. -/
theorem Current.good {dropped : List CapturedPacket} {file : PcapFile} (hcurrent : Current captured s dropped file) :
    Good file captured := by
  refine ⟨hcurrent.homogeneous, ?_⟩
  constructor
  · intro hcomplete p hp q hq
    rw [← hcomplete] at hp hq
    rw [hcurrent.homogeneous p hp, hcurrent.homogeneous q hq]
  · intro hsame
    rw [hcurrent.captured] at hsame ⊢
    by_cases hdropped : dropped = []
    · rw [hdropped, List.nil_append]
    · obtain ⟨hpackets, p, hp, hne⟩ := hcurrent.dropped hdropped
      obtain ⟨q, hq⟩ := List.exists_mem_of_ne_nil _ hpackets
      have heq := hsame p (List.mem_append_left _ hp) q (List.mem_append_right _ hq)
      rw [hcurrent.homogeneous q hq] at heq
      exact absurd heq hne

theorem flushFile_open (datalink : BitVec 32) (tempFile : String) :
    (flushFile processName s datalink tempFile).dataDir (flushFile processName s datalink tempFile).pcapFile =
      some { datalink, packets := [] } := if_pos rfl

/-- A new file is empty, like the packets that were passed since it was made. -/
theorem kept_flushFile (datalink : BitVec 32) (tempFile : String) :
    Kept [] (flushFile processName s datalink tempFile) :=
  ⟨[], _, flushFile_open datalink tempFile, rfl, rfl, by simp, by simp⟩

theorem write_open {file : PcapFile} (hopen : s.dataDir s.pcapFile = some file) (packet : CapturedPacket) :
    (s.write packet).dataDir (s.write packet).pcapFile = some { file with packets := file.packets ++ [packet] } := by
  change (if s.pcapFile = s.pcapFile then (s.dataDir s.pcapFile).map _ else _) = _
  rw [if_pos rfl, hopen, Option.map_some]

theorem Kept.onPacket (hkept : Kept captured s) (packet : CapturedPacket) (tempFile : String) :
    Kept (captured ++ [packet]) (onPacket processName s packet tempFile) := by
  obtain ⟨dropped, file, hcurrent⟩ := hkept
  unfold PacketCapture.onPacket
  by_cases hchange : s.lastDatalink ≠ packet.datalink
  · -- The packets so far are dropped with their file.
    rw [if_pos hchange]
    refine ⟨captured, _, write_open (flushFile_open packet.datalink tempFile) packet, rfl, rfl, by simp, ?_⟩
    intro hcaptured
    refine ⟨by simp, ?_⟩
    have hpackets : file.packets ≠ [] := by
      intro hempty
      rw [hcurrent.captured, hempty, List.append_nil] at hcaptured
      exact (hcurrent.dropped hcaptured).1 hempty
    obtain ⟨p, hp⟩ := List.exists_mem_of_ne_nil _ hpackets
    refine ⟨p, ?_, ?_⟩
    · rw [hcurrent.captured]
      exact List.mem_append_right _ hp
    · rw [hcurrent.homogeneous p hp, hcurrent.datalink]
      exact hchange
  · rw [if_neg hchange]
    have hdatalink : packet.datalink = file.datalink := by
      rw [hcurrent.datalink]
      exact (not_not.mp hchange).symm
    refine ⟨dropped, _, write_open hcurrent.open_ packet, hcurrent.datalink, ?_, ?_, ?_⟩
    · change captured ++ [packet] = dropped ++ (file.packets ++ [packet])
      rw [hcurrent.captured, List.append_assoc]
    · simp only [List.forall_mem_append, List.forall_mem_singleton]
      exact ⟨hcurrent.homogeneous, hdatalink⟩
    · intro hdropped
      exact ⟨by simp, (hcurrent.dropped hdropped).2⟩

theorem flushed_onPacket (packet : CapturedPacket) (tempFile : String) :
    (onPacket processName s packet tempFile).flushed = s.flushed := by
  unfold PacketCapture.onPacket
  split <;> rfl

/-- A flush reads a good file and begins a new one. -/
theorem Kept.flush (hkept : Kept captured s) (tempFile : String) :
    ∃ next file, flush processName rawIp s tempFile = some next ∧ next.flushed = s.flushed ++ [file] ∧
      Good file captured ∧ Kept [] next := by
  obtain ⟨dropped, file, hcurrent⟩ := hkept
  unfold PacketCapture.flush
  rw [hcurrent.open_]
  exact ⟨_, file, rfl, rfl, hcurrent.good, kept_flushFile rawIp tempFile⟩

/-- Every run can be taken, and each of its flushes reads a good file. -/
theorem Kept.run (hkept : Kept captured s) (calls : List Call) :
    ∃ next files, machine.run (step processName rawIp) s calls = .ok next ∧ next.flushed = s.flushed ++ files ∧
      List.Forall₂ Good files (batches captured calls) := by
  induction calls generalizing s captured with
  | nil => exact ⟨s, [], rfl, (List.append_nil _).symm, .nil⟩
  | cons call rest ih =>
    cases call with
    | onPacket packetData datalink tempFile =>
      obtain ⟨next, files, hrun, hflushed, hgood⟩ := ih (hkept.onPacket { packetData, datalink } tempFile)
      exact ⟨next, files, run_cons_ok.mpr ⟨_, rfl, hrun⟩, hflushed.trans (by rw [flushed_onPacket]), hgood⟩
    | flush tempFile =>
      obtain ⟨middle, file, hflush, hread, hfile, hmiddle⟩ := hkept.flush tempFile
      obtain ⟨next, files, hrun, hflushed, hgood⟩ := ih hmiddle
      refine ⟨next, file :: files, run_cons_ok.mpr ⟨middle, ?_, hrun⟩, ?_, .cons hfile hgood⟩
      · rw [step, hflush]
      · rw [hflushed, hread, List.append_assoc, List.singleton_append]

/-- What a file is, and what it should hold, where every file is a good one. -/
theorem forall₂_good_iff {files : List PcapFile} {batches : List (List CapturedPacket)}
    (hgood : List.Forall₂ Good files batches) :
    List.Forall₂ (fun file batch => file.packets = batch ∧ ∀ p ∈ file.packets, p.datalink = file.datalink)
        files batches ↔
      ∀ batch ∈ batches, SameDatalink batch := by
  induction hgood with
  | nil => simp
  | cons hfile _ ih =>
    rw [List.forall₂_cons, List.forall_mem_cons, ih, hfile.complete_iff]
    exact and_congr_left fun _ => and_iff_left hfile.homogeneous

/-- What is flushed is homogeneous. It is all that was passed since the flush before exactly
where the datalink does not change between two flushes. -/
theorem flushed_complete_iff (processName : String) (rawIp : BitVec 32) (dataDir : String → Option PcapFile)
    (tempFile : String) (calls : List Call) :
    ∃ s, run processName rawIp dataDir tempFile calls = .ok s ∧
      (List.Forall₂ (fun file batch => file.packets = batch ∧ ∀ p ∈ file.packets, p.datalink = file.datalink) s.flushed
          (batches [] calls) ↔
        ∀ batch ∈ batches [] calls, SameDatalink batch) := by
  have hinit : Kept [] (construct processName rawIp dataDir tempFile) := kept_flushFile rawIp tempFile
  obtain ⟨s, files, hrun, hflushed, hgood⟩ := hinit.run calls
  refine ⟨s, hrun, ?_⟩
  have hfiles : s.flushed = files := hflushed
  rw [hfiles]
  exact forall₂_good_iff hgood

def changedCalls : List Call :=
  [.onPacket [0x45] 101 "app2.pcap", .onPacket [0xff] 1 "app3.pcap", .flush "app4.pcap"]

/-- A packet of another datalink makes the file of the first one disappear. -/
theorem changed_datalink_drops : ∃ s, run "app" 101 (fun _ => none) "app1.pcap" changedCalls = .ok s ∧
    s.flushed = [{ datalink := 1, packets := [{ packetData := [0xff], datalink := 1 }] }] ∧
    batches [] changedCalls = [[{ packetData := [0x45], datalink := 101 }, { packetData := [0xff], datalink := 1 }]] ∧
    ¬ List.Forall₂ (fun file batch => file.packets = batch ∧ ∀ p ∈ file.packets, p.datalink = file.datalink) s.flushed
      (batches [] changedCalls) := by
  refine ⟨_, rfl, by decide +kernel, rfl, fun hall => ?_⟩
  cases hall with
  | cons hfile _ => exact absurd hfile.1 (by decide +kernel)

end PacketCapture

end inspector.vpn
