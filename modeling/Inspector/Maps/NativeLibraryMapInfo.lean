import Inspector.Base.Text

open text

namespace inspector.maps

/-- The arguments of a call of the system's `mprotect`. -/
structure ProtectCall where
  addr : BitVec 64
  len : BitVec 32
  prot : BitVec 32
  deriving DecidableEq, Repr

/-- The system: what a call returns, and the last error after it. -/
structure CLibrary where
  mprotect : ProtectCall → BitVec 32
  getLastError : ProtectCall → BitVec 32

def PROT_READ : BitVec 32 := 0x1

def PROT_WRITE : BitVec 32 := 0x2

def PROT_EXEC : BitVec 32 := 0x4

/-- A direct buffer over native memory. -/
structure DirectBuffer where
  address : BitVec 64
  capacity : BitVec 64
  deriving DecidableEq, Repr

/-- `Pointer.getByteBuffer` -/
def getByteBuffer (peer offset length : BitVec 64) : DirectBuffer := { address := peer + offset, capacity := length }

inductive ProtectError where
  | IllegalArgumentException (message : String)
  | IOException (message : String)
  deriving DecidableEq, Repr

/-- The system calls that `mprotect` makes, and what it returns or throws. -/
structure Protection where
  calls : List ProtectCall
  result : Except ProtectError DirectBuffer

structure NativeLibraryMapInfo where
  mStartAddr : Int
  mEndAddr : Int
  mLibrary : List Char
  deriving DecidableEq, Repr

namespace NativeLibraryMapInfo

def isWithinLibrary (info : NativeLibraryMapInfo) (address : Int) : Bool :=
  address ≥ info.mStartAddr && address ≤ info.mEndAddr

def PAGESIZE : BitVec 32 := 4096

def toHexString (value : BitVec 64) : String := String.ofList (Nat.toDigits 16 value.toNat)

/-- The variable `p`, from the address of the first byte. -/
def pageAddress (start : BitVec 64) : BitVec 64 :=
  ((start + PAGESIZE.signExtend 64 - 1) &&& (~~~(PAGESIZE - 1)).signExtend 64) - PAGESIZE.signExtend 64

/-- A length in whole pages. -/
def pageLength (len : BitVec 32) : BitVec 32 :=
  if len.srem PAGESIZE = 0 then len else len.sdiv PAGESIZE * PAGESIZE + PAGESIZE

/-- The call for so many bytes. The length becomes the one of the call. -/
def protectCall (start : BitVec 64) (len : BitVec 32) : ProtectCall :=
  let p := pageAddress start
  { addr := p, len := pageLength ((start - p).setWidth 32 + len), prot := PROT_READ ||| PROT_WRITE ||| PROT_EXEC }

def protectError (p : BitVec 64) (errno : BitVec 32) : ProtectError :=
  .IOException <|
    if errno = 12 then "mprotect: Internal kernel structures could not be allocated."
    else if errno = 13 then "mprotect: The memory cannot be given the specified access."
    else if errno = 14 then "mprotect: The memory cannot be accessed."
    else if errno = 22 then "mprotect: 0x" ++ toHexString p ++ " is not a valid pointer, or not a multiple of PAGESIZE."
    else "mprotect failed: " ++ toString errno.toInt

def mprotect (libc : CLibrary) (info : NativeLibraryMapInfo) (offset : BitVec 64) (len : BitVec 32) : Protection :=
  if len.toInt < 1 then
    { calls := [], result := .error (.IllegalArgumentException "mprotect len must positive.") }
  else
    let mStartAddr := BitVec.ofInt 64 info.mStartAddr
    let call := protectCall (mStartAddr + offset) len
    { calls := [call]
      result :=
        if libc.mprotect call = 0 then .ok (getByteBuffer mStartAddr offset (call.len.signExtend 64))
        else .error (protectError call.addr (libc.getLastError call)) }

/-- The range and the path of a line, if the line is not skipped. -/
def readLine (line : List Char) : Option NativeLibraryMapInfo :=
  if line.length < 16 then none
  else
    match indexOf line '-' with
    | none => none
    | some split =>
      match indexOfFrom line ' ' (split + 1) with
      | none => none
      | some last =>
        -- a `NumberFormatException` is caught, and the next line is read
        match parseLong 16 (substring line 0 split), parseLong 16 (substring line (split + 1) last) with
        | some tmpStart, some tmpEnd =>
          match indexOf line '/' with
          | none => none
          | some index => some { mStartAddr := tmpStart, mEndAddr := tmpEnd, mLibrary := line.drop index }
        | _, _ => none

/-- The variables of `readNativeLibraryMapInfo`. -/
structure Reading where
  startAddr : Int
  endAddr : Int
  library : Option (List Char)
  list : List NativeLibraryMapInfo
  deriving DecidableEq, Repr

namespace Reading

def initial : Reading := { startAddr := 0, endAddr := 0, library := none, list := [] }

/-- The entry so far is added to the list. -/
def addNativeLibraryMapInfo (r : Reading) : List NativeLibraryMapInfo :=
  match r.library with
  | some library => r.list ++ [{ mStartAddr := r.startAddr, mEndAddr := r.endAddr, mLibrary := library }]
  | none => r.list

/-- The body of the loop. -/
def next (r : Reading) (line : List Char) : Reading :=
  match readLine line with
  | none => r
  | some tmp =>
    if r.library = some tmp.mLibrary then { r with endAddr := tmp.mEndAddr }
    else {
      startAddr := tmp.mStartAddr
      endAddr := tmp.mEndAddr
      library := some tmp.mLibrary
      list := r.addNativeLibraryMapInfo }

end Reading

def readNativeLibraryMapInfo (lines : List (List Char)) : List NativeLibraryMapInfo :=
  (lines.foldl Reading.next Reading.initial).addNativeLibraryMapInfo

end NativeLibraryMapInfo

end inspector.maps
