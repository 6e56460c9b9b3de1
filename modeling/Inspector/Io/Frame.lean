import Inspector.Io.DataInput

open stream stream.Input

namespace inspector.io

/-- What a client reads from the console. The three kinds that are zipped have the bytes of
their body as they come. -/
inductive Frame where
  | message (out : Bool) (msg : UTF)
  | largeMessage (out : Bool) (msg : Data)
  | saveFile (filename : UTF) (data : Data)
  | shortBuffer (date : BitVec 64) (label : UTF) (buffer : Option (JavaArray (BitVec 16))) (mode : BitVec 32)
  | byteBuffer (date : BitVec 64) (label : Data) (buffer : Option Data) (mode : BitVec 32)
  | openTraceFile (keywords title : UTF) (data : Data)
  | smali (zipped : Data)
  | command (zipped : Data)
  | completer (zipped : Data)
  deriving DecidableEq

/-- A value that may be absent. -/
def writeOption {α : Type} (encode : α → List UInt8) : Option α → List UInt8
  | none => [0]
  | some a => 1 :: encode a

def readOption {α : Type} (p : Input Throwable α) : Input Throwable (Option α) := do
  let present ← readByte
  if present = 0 then return none
  else if present = 1 then return some (← p)
  else fail .utfDataFormat

theorem reads_readOption {α : Type} {p : Input Throwable α} {encode : α → List UInt8}
    (hp : Reads p (fun a data => data = encode a)) :
    Reads (readOption p) (fun value data => data = writeOption encode value) := by
  have hrest : ∀ present : UInt8, Reads (if present = 0 then pure none
      else if present = 1 then do return some (← p)
      else fail .utfDataFormat : Input Throwable (Option α))
      (fun value data => present :: data = writeOption encode value) := by
    intro present
    split
    · rename_i hpresent
      refine (Reads.pure _).congr fun value data => ?_
      cases value <;> simp [writeOption, hpresent]
    split
    · rename_i hpresent
      refine (hp.map some).congr fun value data => ?_
      cases value <;> simp [writeOption, hpresent]
    · refine (Reads.fail _).congr fun value data => iff_of_false id ?_
      cases value <;> simp_all [writeOption]
  refine (reads_readByte.bind hrest).congr fun value data => ?_
  constructor
  · rintro ⟨present, first, second, rfl, hsecond, rfl⟩
    exact hsecond
  · rintro rfl
    cases value with
    | none => exact ⟨0, [0], [], rfl, rfl, rfl⟩
    | some a => exact ⟨1, [1], encode a, rfl, rfl, rfl⟩

namespace Frame

def type : Frame → BitVec 16
  | message out _ => if out then 0x1000 else 0x1002
  | largeMessage out _ => if out then 0x1100 else 0x1102
  | saveFile .. => 0x1001
  | shortBuffer .. => 0x2001
  | byteBuffer .. => 0x3000
  | openTraceFile .. => 0x4000
  | smali _ => 0xD000
  | command _ => 0xE000
  | completer _ => 0xA002

def body : Frame → List UInt8
  | message _ msg => msg.write
  | largeMessage _ msg => msg.write
  | saveFile filename data => filename.write ++ data.write
  | shortBuffer date label buffer mode =>
    writeLong date ++ (label.write ++ (writeOption (fun array => array.write writeShort) buffer ++ writeInt mode))
  | byteBuffer date label buffer mode =>
    writeLong date ++ (label.write ++ (writeOption Data.write buffer ++ writeInt mode))
  | openTraceFile keywords title data => keywords.write ++ (title.write ++ data.write)
  | smali zipped => zipped.write
  | command zipped => zipped.write
  | completer zipped => zipped.write

def encode (frame : Frame) : List UInt8 := writeShort frame.type ++ frame.body

end Frame

def readFrame : Input Throwable Frame := do
  let type ← readUnsignedShort
  if type = 0x1000 then return .message true (← readUTF)
  else if type = 0x1002 then return .message false (← readUTF)
  else if type = 0x1100 then return .largeMessage true (← readData)
  else if type = 0x1102 then return .largeMessage false (← readData)
  else if type = 0x1001 then return .saveFile (← readUTF) (← readData)
  else if type = 0x2001 then
    return .shortBuffer (← readLong) (← readUTF) (← readOption (readArray readUnsignedShort)) (← readInt)
  else if type = 0x3000 then return .byteBuffer (← readLong) (← readData) (← readOption readData) (← readInt)
  else if type = 0x4000 then return .openTraceFile (← readUTF) (← readUTF) (← readData)
  else if type = 0xD000 then return .smali (← readData)
  else if type = 0xE000 then return .command (← readData)
  else if type = 0xA002 then return .completer (← readData)
  else fail (.illegalArgument type)

theorem reads_readFrame : Reads readFrame (fun frame data => data = frame.encode) := by
  refine Reads.tagged fun type => ?_
  by_cases hout : type = 0x1000
  · rw [if_pos hout]
    refine (reads_readUTF.map (Frame.message true)).congr fun frame data => ?_
    rcases frame with ⟨_ | _⟩ | ⟨_ | _⟩ <;> simp [Frame.type, Frame.body, hout, eq_comm, and_comm]
  rw [if_neg hout]
  by_cases herr : type = 0x1002
  · rw [if_pos herr]
    refine (reads_readUTF.map (Frame.message false)).congr fun frame data => ?_
    rcases frame with ⟨_ | _⟩ | ⟨_ | _⟩ <;> simp [Frame.type, Frame.body, herr, eq_comm, and_comm]
  rw [if_neg herr]
  by_cases hlargeOut : type = 0x1100
  · rw [if_pos hlargeOut]
    refine (reads_readData.map (Frame.largeMessage true)).congr fun frame data => ?_
    rcases frame with ⟨_ | _⟩ | ⟨_ | _⟩ <;> simp [Frame.type, Frame.body, hlargeOut, eq_comm, and_comm]
  rw [if_neg hlargeOut]
  by_cases hlargeErr : type = 0x1102
  · rw [if_pos hlargeErr]
    refine (reads_readData.map (Frame.largeMessage false)).congr fun frame data => ?_
    rcases frame with ⟨_ | _⟩ | ⟨_ | _⟩ <;> simp [Frame.type, Frame.body, hlargeErr, eq_comm, and_comm]
  rw [if_neg hlargeErr]
  by_cases hsaveFile : type = 0x1001
  · rw [if_pos hsaveFile]
    refine (reads_readUTF.bind fun filename => reads_readData.map (Frame.saveFile filename)).congr fun frame data => ?_
    rcases frame with ⟨_ | _⟩ | ⟨_ | _⟩ <;> simp [Frame.type, Frame.body, hsaveFile, eq_comm, and_comm]
  rw [if_neg hsaveFile]
  by_cases hshort : type = 0x2001
  · rw [if_pos hshort]
    refine (reads_readLong.bind fun date => reads_readUTF.bind fun label =>
      (reads_readOption (reads_readArray reads_readUnsignedShort)).bind fun buffer =>
      reads_readInt.map (Frame.shortBuffer date label buffer)).congr fun frame data => ?_
    rcases frame with ⟨_ | _⟩ | ⟨_ | _⟩ <;> simp [Frame.type, Frame.body, hshort, eq_comm, and_comm]
  rw [if_neg hshort]
  by_cases hbyte : type = 0x3000
  · rw [if_pos hbyte]
    refine (reads_readLong.bind fun date => reads_readData.bind fun label =>
      (reads_readOption reads_readData).bind fun buffer =>
      reads_readInt.map (Frame.byteBuffer date label buffer)).congr fun frame data => ?_
    rcases frame with ⟨_ | _⟩ | ⟨_ | _⟩ <;> simp [Frame.type, Frame.body, hbyte, eq_comm, and_comm]
  rw [if_neg hbyte]
  by_cases htrace : type = 0x4000
  · rw [if_pos htrace]
    refine (reads_readUTF.bind fun keywords => reads_readUTF.bind fun title =>
      reads_readData.map (Frame.openTraceFile keywords title)).congr fun frame data => ?_
    rcases frame with ⟨_ | _⟩ | ⟨_ | _⟩ <;> simp [Frame.type, Frame.body, htrace, eq_comm, and_comm]
  rw [if_neg htrace]
  by_cases hsmali : type = 0xD000
  · rw [if_pos hsmali]
    refine (reads_readData.map Frame.smali).congr fun frame data => ?_
    rcases frame with ⟨_ | _⟩ | ⟨_ | _⟩ <;> simp [Frame.type, Frame.body, hsmali, eq_comm, and_comm]
  rw [if_neg hsmali]
  by_cases hcommand : type = 0xE000
  · rw [if_pos hcommand]
    refine (reads_readData.map Frame.command).congr fun frame data => ?_
    rcases frame with ⟨_ | _⟩ | ⟨_ | _⟩ <;> simp [Frame.type, Frame.body, hcommand, eq_comm, and_comm]
  rw [if_neg hcommand]
  by_cases hcompleter : type = 0xA002
  · rw [if_pos hcompleter]
    refine (reads_readData.map Frame.completer).congr fun frame data => ?_
    rcases frame with ⟨_ | _⟩ | ⟨_ | _⟩ <;> simp [Frame.type, Frame.body, hcompleter, eq_comm, and_comm]
  rw [if_neg hcompleter]
  refine (Reads.fail _).congr fun frame data => iff_of_false id ?_
  rintro ⟨rfl, -⟩
  rcases frame with ⟨_ | _⟩ | ⟨_ | _⟩ <;> simp_all [Frame.type]

/-- The frames as a client reads them. -/
def frames : Framing Throwable Frame where
  read := readFrame
  encode := Frame.encode
  reads := reads_readFrame
  encode_ne_nil := by
    intro frame hnil
    cases hnil
  read_timeout := fun _ => rfl

end inspector.io
