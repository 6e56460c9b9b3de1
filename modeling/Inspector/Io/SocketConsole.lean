import Inspector.Io.DataInput

open stream stream.Input

namespace inspector.io

/-- A command with its payload as it was sent. The text of a `TextCommand` and the host
of an `AddressCommand` are the strings that their payloads encode. -/
inductive Command where
  | text (utf : UTF)
  | lua (data : Data)
  | pcap (data : Data)
  | address (utf : UTF)
  deriving DecidableEq

namespace Command

def type : Command → BitVec 16
  | .text _ => 0
  | .lua _ => 1
  | .pcap _ => 2
  | .address _ => 5

def payload : Command → List UInt8
  | .text utf => utf.write
  | .lua data => data.write
  | .pcap data => data.write
  | .address utf => utf.write

/-- How a client sends a command. -/
def encode (c : Command) : List UInt8 := writeShort c.type ++ c.payload

end Command

def readCommand : Input Throwable Command := do
  let type ← readUnsignedShort
  if type = 0 then return .text (← readUTF)
  else if type = 1 then return .lua (← readData)
  else if type = 2 then return .pcap (← readData)
  else if type = 5 then return .address (← readUTF)
  else fail (.illegalArgument type)

theorem reads_readCommand : Reads readCommand (fun c data => data = c.encode) := by
  refine Reads.tagged fun type => ?_
  by_cases htext : type = 0
  · rw [if_pos htext]
    refine (reads_readUTF.map Command.text).congr fun c data => ?_
    cases c <;> simp [Command.type, Command.payload, htext, eq_comm, and_comm]
  rw [if_neg htext]
  by_cases hlua : type = 1
  · rw [if_pos hlua]
    refine (reads_readData.map Command.lua).congr fun c data => ?_
    cases c <;> simp [Command.type, Command.payload, hlua, eq_comm, and_comm]
  rw [if_neg hlua]
  by_cases hpcap : type = 2
  · rw [if_pos hpcap]
    refine (reads_readData.map Command.pcap).congr fun c data => ?_
    cases c <;> simp [Command.type, Command.payload, hpcap, eq_comm, and_comm]
  rw [if_neg hpcap]
  by_cases haddress : type = 5
  · rw [if_pos haddress]
    refine (reads_readUTF.map Command.address).congr fun c data => ?_
    cases c <;> simp [Command.type, Command.payload, haddress, eq_comm, and_comm]
  rw [if_neg haddress]
  refine (Reads.fail _).congr fun c data => iff_of_false id ?_
  rintro ⟨rfl, -⟩
  cases c with
  | text utf => exact htext rfl
  | lua data => exact hlua rfl
  | pcap data => exact hpcap rfl
  | address utf => exact haddress rfl

/-- The commands as the console reads them. -/
def commands : Framing Throwable Command where
  read := readCommand
  encode := Command.encode
  reads := reads_readCommand
  encode_ne_nil := by
    intro c hnil
    cases c <;> cases hnil
  read_timeout := fun _ => rfl

/-- The commands that the loop of `run` executes, one after the other, while bytes
arrive and reads time out. -/
def executed (items : List Arrival) : List Command := commands.loop items

/-- Exactly the commands that are sent are executed, in order and with their payloads,
if and only if no read times out in the middle of a command. -/
theorem executed_eq_iff {sent : List Command} {items : List Arrival} (hbytes : bytes items = commands.encodeAll sent) :
    executed items = sent ↔ commands.AtBoundaries sent items := Framing.loop_eq_iff hbytes

/-- The command `?`. -/
def questionMark : Command := .text ⟨[0x3F], by decide, by decide⟩

/-- Reads time out before, between and after two commands. -/
def betweenCommands : List Arrival :=
  .timeout :: (questionMark.encode.map .byte ++ .timeout :: .timeout :: (questionMark.encode.map .byte ++ [.timeout]))

theorem executed_betweenCommands : bytes betweenCommands = commands.encodeAll [questionMark, questionMark] ∧
    executed betweenCommands = [questionMark, questionMark] := by
  refine ⟨rfl, (executed_eq_iff rfl).mpr ?_⟩
  unfold betweenCommands
  rw [Framing.atBoundaries_timeout_iff]
  apply Framing.atBoundaries_append_iff.mpr
  rw [Framing.atBoundaries_timeout_iff, Framing.atBoundaries_timeout_iff]
  apply Framing.atBoundaries_append_iff.mpr
  exact Framing.atBoundaries_of_bytes_eq_nil rfl

/-- A command whose first byte comes 100 ms before the others is not executed: its length
is read as its type, and its length and its text as a length. -/
theorem slow_command_lost : ∃ items,
    items = [.byte 0, .timeout, .byte 0, .byte 0, .byte 1, .byte 0x3F] ∧
    bytes items = commands.encodeAll [questionMark] ∧ executed items = [] ∧ executed items ≠ [questionMark] := by
  have hfirst : readCommand [.byte 0, .timeout, .byte 0, .byte 0, .byte 1, .byte 0x3F] =
      .timeout [.byte 0, .byte 0, .byte 1, .byte 0x3F] := rfl
  have hsecond : readCommand [.byte 0, .byte 0, .byte 1, .byte 0x3F] = .pending := rfl
  have hlost : executed [.byte 0, .timeout, .byte 0, .byte 0, .byte 1, .byte 0x3F] = [] :=
    (Framing.loop_of_timeout hfirst).trans (Framing.loop_of_pending hsecond)
  refine ⟨_, rfl, rfl, hlost, ?_⟩
  rw [hlost]
  exact (List.cons_ne_nil _ _).symm

end inspector.io
