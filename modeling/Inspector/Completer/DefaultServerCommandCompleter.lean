import Inspector.Base.LinkedMap
import Inspector.Io.DataOutput

open stream stream.Framing stream.Input inspector.io

namespace inspector.completer

structure DefaultServerCommandCompleter where
  commandPrefix : Option JavaString
  map : LinkedMap JavaString (List JavaString)
  deriving DecidableEq

namespace DefaultServerCommandCompleter

def new (commandPrefix : Option JavaString) : DefaultServerCommandCompleter :=
  { commandPrefix, map := LinkedMap.empty }

def addCommandHelp (c : DefaultServerCommandCompleter) (command : JavaString) (help : List JavaString) :
    DefaultServerCommandCompleter :=
  { c with map := c.map.put command help }

/-- A command with its help. -/
def outputEntry (entry : JavaString × List JavaString) : Option (List UInt8) := do
  let key ← writeUTF entry.1
  let help ← writeAll writeUTF entry.2
  return key ++ [UInt8.ofNat entry.2.length] ++ help

def outputBody (c : DefaultServerCommandCompleter) : Option (List UInt8) := do
  let head ← writeUTF (c.commandPrefix.getD [])
  let entries ← writeAll outputEntry c.map.entries
  return head ++ writeShort (BitVec.ofNat 16 c.map.size) ++ entries

/-- `writeTo`, which zips the body. -/
def writeTo (gzip : List UInt8 → List UInt8) (c : DefaultServerCommandCompleter) : Option (List UInt8) := do
  let body ← c.outputBody
  return writeShort (0x8000 ||| 0x2002) ++ (← writeData (gzip body))

end DefaultServerCommandCompleter

/-- A client that reads what was written. -/
def readString : Input Throwable JavaString := do return (← readUTF).string

def readEntry : Input Throwable (JavaString × List JavaString) := do
  let key ← readString
  let length ← readByte
  let help ← readItems readString length.toNat
  return (key, help.1)

def readBody : Input Throwable (JavaString × LinkedMap JavaString (List JavaString)) := do
  let head ← readString
  let size ← readUnsignedShort
  let entries ← readItems readEntry size.toNat
  return (head, LinkedMap.ofEntries entries.1)

/-- The frame around a body, which is unzipped. -/
def readFrame (gunzip : List UInt8 → List UInt8) : Input Throwable (BitVec 16 × List UInt8) := do
  let type ← readUnsignedShort
  let data ← readData
  return (type, gunzip data.bytes)

end inspector.completer
