import Inspector.Io.InspectCache

open stream stream.Input

namespace inspector.io

theorem length_copy (content : InputStream) : (copy content).length = (content.map List.length).sum := by
  induction content with
  | nil => rfl
  | cons buf rest ih => rw [copy, List.length_append, ih, List.map_cons, List.sum_cons]

/-- A length that is the number of bytes that the reads of a stream return. -/
def Measured (length : BitVec 32) (content : InputStream) : Prop := length.toInt = (content.map List.length).sum

theorem measured_iff {length : BitVec 32} {content : InputStream} :
    Measured length content ↔ ∃ data : Data, data.bytes = copy content ∧ data.length = length := by
  unfold Measured
  rw [← length_copy]
  constructor
  · intro hlength
    have hlt := length.isLt
    rw [BitVec.toInt_eq_toNat_cond] at hlength
    have hcount : (copy content).length < 2 ^ 31 ∧ length.toNat = (copy content).length := by
      split at hlength
      · omega
      · omega
    refine ⟨⟨copy content, hcount.1⟩, rfl, ?_⟩
    apply BitVec.eq_of_toNat_eq
    exact (JavaArray.toNat_length _).trans hcount.2.symm
  · rintro ⟨data, hbytes, rfl⟩
    have hlt := data.length_lt
    have hlength : data.elements.length = (copy content).length := congrArg List.length hbytes
    rw [BitVec.toInt_eq_toNat_cond, JavaArray.toNat_length]
    split
    · omega
    · omega

/-- The file data of a stream is read as the content of the stream only with the right
length. -/
theorem measured_of_append {length : BitVec 32} {content : InputStream} {data : Data} {rest rest' : List UInt8}
    (hbytes : data.bytes = copy content) (hsame : writeInt length ++ (copy content ++ rest) = data.write ++ rest') :
    Measured length content := by
  rw [Data.write, List.append_assoc] at hsame
  have hlength := (reads_readInt (ε := Throwable)).unique rfl rfl hsame
  exact measured_iff.mpr ⟨data, hbytes, hlength.1.symm⟩

/-- A file of a bundle, with its whole name. -/
structure SourceFile where
  name : JavaString
  length : BitVec 64
  content : InputStream

namespace SourceFile

variable (file : SourceFile)

def write : Option (List UInt8) := do
  return (← writeUTF file.name) ++ writeInt (file.length.setWidth 32) ++ copy file.content

def Measured : Prop := inspector.io.Measured (file.length.setWidth 32) file.content

end SourceFile

mutual

/-- The files of a bundle, in the order in which they are added. -/
def File.sources (path : Option JavaString) : File → List SourceFile
  | .file name length content => [{ name := pathName path name, length, content }]
  | .directory name files => File.sourcesAll (pathName path name) files

def File.sourcesAll (path : JavaString) : List File → List SourceFile
  | [] => []
  | sub :: rest => sub.sources (some path) ++ File.sourcesAll path rest

end

mutual

theorem addFile_eq (path : Option JavaString) : ∀ file : File,
    addFile path file = Framing.writeAll SourceFile.write (file.sources path)
  | .file name length content => by
    rw [addFile, File.sources, Framing.writeAll, Framing.writeAll, SourceFile.write]
    simp
  | .directory name files => by
    rw [addFile, File.sources]
    exact addFiles_eq (pathName path name) files

theorem addFiles_eq (path : JavaString) : ∀ files : List File,
    addFiles path files = Framing.writeAll SourceFile.write (File.sourcesAll path files)
  | [] => by
    rw [addFiles, File.sourcesAll, Framing.writeAll]
  | sub :: rest => by
    rw [addFiles, File.sourcesAll, addFile_eq (some path) sub, addFiles_eq path rest, Framing.writeAll_append]

end

/-- An entry of a bundle as a client reads it. -/
structure Entry where
  name : UTF
  data : Data
  deriving DecidableEq

namespace Entry

def encode (entry : Entry) : List UInt8 := entry.name.write ++ entry.data.write

def readEntry : Input Throwable Entry := do return { name := ← readUTF, data := ← readData }

theorem reads_readEntry : Reads readEntry (fun entry data => data = entry.encode) := by
  refine (reads_readUTF.bind fun name => reads_readData.map fun data => Entry.mk name data).congr fun entry data => ?_
  cases entry
  simp [encode]

def entries : Framing Throwable Entry where
  read := readEntry
  encode := encode
  reads := reads_readEntry
  encode_ne_nil := by
    intro entry hnil
    cases hnil
  read_timeout := fun _ => rfl

end Entry

/-- The entry that a client should read for a file. -/
def SourceFile.Carries (file : SourceFile) (entry : Entry) : Prop :=
  entry.name.string = file.name ∧ entry.data.bytes = copy file.content

theorem SourceFile.exists_of_write {file : SourceFile} {out : List UInt8} (hwrite : file.write = some out) :
    ∃ name : UTF, name.string = file.name ∧
      out = name.write ++ (writeInt (file.length.setWidth 32) ++ copy file.content) := by
  unfold SourceFile.write at hwrite
  obtain ⟨named, hname, hout⟩ := Option.bind_eq_some_iff.mp hwrite
  obtain ⟨name, hstring, rfl⟩ := exists_of_writeUTF hname
  cases hout
  exact ⟨name, hstring, List.append_assoc _ _ _⟩

/-- A client reads the files of a bundle exactly when every length is measured. -/
theorem sources_iff {files : List SourceFile} {fileData : List UInt8}
    (hwrite : Framing.writeAll SourceFile.write files = some fileData) :
    List.Forall₂ SourceFile.Carries files (Entry.entries.loop (fileData.map .byte)) ↔
      ∀ file ∈ files, file.Measured := by
  refine Framing.forall₂_loop_iff ?_ ?_ hwrite
  · intro file out hout hmeasured
    obtain ⟨name, hname, rfl⟩ := SourceFile.exists_of_write hout
    obtain ⟨data, hbytes, hlength⟩ := measured_iff.mp hmeasured
    refine ⟨⟨name, data⟩, ⟨hname, hbytes⟩, ?_⟩
    change _ = name.write ++ data.write
    rw [Data.write, hbytes, hlength]
  · rintro file out ⟨name', data⟩ rest rest' hout ⟨-, hbytes⟩ hsame
    obtain ⟨name, -, rfl⟩ := SourceFile.exists_of_write hout
    change _ = name'.write ++ data.write ++ rest' at hsame
    simp only [List.append_assoc] at hsame
    exact measured_of_append hbytes (reads_readUTF.unique rfl rfl hsame).2

end inspector.io
