import Inspector.Completer.DefaultServerCommandCompleter

open stream inspector.completer

namespace inspector.io

/-- What the reads of a stream return, up to its end. -/
abbrev InputStream := List (List UInt8)

/-- The loop that reads into a buffer and writes what was read. -/
def copy : InputStream → List UInt8
  | [] => []
  | buf :: rest => buf ++ copy rest

/-- A file with the length that it reports and the reads of its content. A directory
that cannot be listed has no files. -/
inductive File where
  | file (name : JavaString) (length : BitVec 64) (content : InputStream)
  | directory (name : JavaString) (files : List File)

/-- The name of a file behind the path of its directory. -/
def pathName (path : Option JavaString) (name : JavaString) : JavaString :=
  match path with
  | none => name
  | some path => path ++ [0x2F] ++ name

mutual

/-- What `addFile` writes for a file and for all that is in a directory. -/
def addFile (path : Option JavaString) : File → Option (List UInt8)
  | .file name length content => do
    return (← writeUTF (pathName path name)) ++ writeInt (length.setWidth 32) ++ copy content
  | .directory name files => addFiles (pathName path name) files

def addFiles (path : JavaString) : List File → Option (List UInt8)
  | [] => some []
  | file :: rest => do
    let out ← addFile (some path) file
    let outs ← addFiles path rest
    return out ++ outs

end

/-- The messages for the console. Strings that are sent in UTF-8 are given by their bytes,
and buffers by what remains in them. -/
inductive InspectCache where
  | message (msg : JavaString) (out : Bool)
  | largeMessage (msg : List UInt8) (out : Bool)
  | inputStream (filename : JavaString) (content : InputStream) (length : BitVec 32)
  | byteBuffer (filename : JavaString) (data : List UInt8)
  | string (filename : JavaString) (data : List UInt8)
  | shortBufferInspect (date : BitVec 64) (label : JavaString) (buffer : Option (List (BitVec 16))) (mode : BitVec 32)
  | byteBufferInspect (date : BitVec 64) (label buffer : List UInt8) (mode : BitVec 32)
  | openTraceFile (keywords title : JavaString) (content : InputStream) (length : BitVec 32)
  | smali (sdk : BitVec 32) (smaliDir : File) (baseName : JavaString)
  | command (kind data : JavaString)
  | completer (c : DefaultServerCommandCompleter)

namespace InspectCache

def type : InspectCache → BitVec 16
  | message _ out => if out then 0x1000 else 0x1002
  | largeMessage _ out => if out then 0x1100 else 0x1102
  | inputStream .. => 0x1001
  | byteBuffer .. => 0x1001
  | string .. => 0x1001
  | shortBufferInspect .. => 0x2001
  | byteBufferInspect .. => 0x3000
  | openTraceFile .. => 0x4000
  | smali .. => 0x5000
  | command .. => 0x6000
  | completer _ => 0x2002

def zip : InspectCache → Bool
  | smali .. => true
  | command .. => true
  | completer _ => true
  | _ => false

/-- What follows the name of a file. -/
def writeFileData (length : BitVec 32) (content : InputStream) : List UInt8 := writeInt length ++ copy content

def outputBody : InspectCache → Option (List UInt8)
  | message msg _ => writeUTF msg
  | largeMessage msg _ => writeData msg
  | inputStream filename content length => do return (← writeUTF filename) ++ writeFileData length content
  | byteBuffer filename data => do return (← writeUTF filename) ++ (← writeData data)
  | string filename data => do return (← writeUTF filename) ++ (← writeData data)
  | shortBufferInspect date label none mode => do
    return writeLong date ++ (← writeUTF label) ++ [0] ++ writeInt mode
  | shortBufferInspect date label (some buffer) mode => do
    return writeLong date ++ (← writeUTF label) ++ [1] ++ (← writeArray writeShort buffer) ++ writeInt mode
  | byteBufferInspect date label buffer mode => do
    return writeLong date ++ (← writeData label) ++ [1] ++ (← writeData buffer) ++ writeInt mode
  | openTraceFile keywords title content length => do
    return (← writeUTF keywords) ++ (← writeUTF title) ++ writeInt length ++ copy content
  | smali sdk smaliDir baseName => do
    let fileData ← addFile none smaliDir
    return writeInt sdk ++ (← writeUTF baseName) ++ (← writeData fileData)
  | command kind data => do return (← writeUTF kind) ++ (← writeUTF data)
  | completer c => c.outputBody

variable (gzip : List UInt8 → List UInt8)

/-- What is written to the console, unless an exception is thrown. -/
def writeTo (cache : InspectCache) : Option (List UInt8) := do
  let body ← cache.outputBody
  if cache.zip then return writeShort (0x8000 ||| cache.type) ++ (← writeData (gzip body))
  else return writeShort cache.type ++ body

/-- A completer is written as every other message is. -/
theorem writeTo_completer (c : DefaultServerCommandCompleter) : writeTo gzip (completer c) = c.writeTo gzip := rfl

end InspectCache

end inspector.io
