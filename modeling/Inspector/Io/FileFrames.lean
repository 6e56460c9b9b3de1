import Inspector.Completer.CompleterFrames
import Inspector.Io.Frame

open stream stream.Input

namespace inspector.io

/-- The body of a bundle. -/
structure Bundle where
  sdk : BitVec 32
  baseName : UTF
  fileData : Data

def readBundle : Input Throwable Bundle := do
  return { sdk := ← readInt, baseName := ← readUTF, fileData := ← readData }

theorem reads_readBundle : Reads readBundle (fun bundle data =>
    data = writeInt bundle.sdk ++ (bundle.baseName.write ++ bundle.fileData.write)) := by
  refine (reads_readInt.bind fun sdk => reads_readUTF.bind fun baseName =>
    reads_readData.map fun fileData => Bundle.mk sdk baseName fileData).congr fun bundle data => ?_
  cases bundle
  simp

def readCommandBody : Input Throwable (UTF × UTF) := do return (← readUTF, ← readUTF)

theorem reads_readCommandBody : Reads readCommandBody (fun body data => data = body.1.write ++ body.2.write) := by
  refine (reads_readUTF.bind fun kind => reads_readUTF.map fun data => (kind, data)).congr fun body data => ?_
  cases body
  simp

namespace InspectCache

/-- The length fields that the three writers of files write, each with the bytes behind it. -/
def fields : InspectCache → List (BitVec 32 × List UInt8)
  | inputStream _ content length => [(length, copy content)]
  | openTraceFile _ _ content length => [(length, copy content)]
  | smali _ smaliDir _ => (smaliDir.sources none).map fun file => (file.length.setWidth 32, copy file.content)
  | _ => []

/-- Every length that is given for a stream is the number of bytes that its reads return. -/
def Measured : InspectCache → Prop
  | inputStream _ content length => io.Measured length content
  | openTraceFile _ _ content length => io.Measured length content
  | smali _ smaliDir _ => ∀ file ∈ smaliDir.sources none, file.Measured
  | _ => True

/-- The frame that a client should read for a message. -/
def Carries (gunzip : List UInt8 → Option (List UInt8)) : InspectCache → Frame → Prop
  | message msg out, .message out' utf => out' = out ∧ utf.string = msg
  | largeMessage msg out, .largeMessage out' data => out' = out ∧ data.bytes = msg
  | inputStream filename content _, .saveFile utf data => utf.string = filename ∧ data.bytes = copy content
  | byteBuffer filename bytes, .saveFile utf data => utf.string = filename ∧ data.bytes = bytes
  | string filename bytes, .saveFile utf data => utf.string = filename ∧ data.bytes = bytes
  | shortBufferInspect date label buffer mode, .shortBuffer date' label' buffer' mode' =>
    date' = date ∧ label'.string = label ∧ buffer'.map JavaArray.elements = buffer ∧ mode' = mode
  | byteBufferInspect date label buffer mode, .byteBuffer date' label' buffer' mode' =>
    date' = date ∧ label'.bytes = label ∧ buffer'.map Data.bytes = some buffer ∧ mode' = mode
  | openTraceFile keywords title content _, .openTraceFile keywords' title' data =>
    keywords'.string = keywords ∧ title'.string = title ∧ data.bytes = copy content
  | smali sdk smaliDir baseName, .smali zipped => ∃ body bundle,
    gunzip zipped.bytes = some body ∧ readBundle (body.map .byte) = .ok bundle [] ∧ bundle.sdk = sdk ∧
    bundle.baseName.string = baseName ∧
    List.Forall₂ SourceFile.Carries (smaliDir.sources none) (Entry.entries.loop (bundle.fileData.bytes.map .byte))
  | command kind data, .command zipped => ∃ body utfs,
    gunzip zipped.bytes = some body ∧ readCommandBody (body.map .byte) = .ok utfs [] ∧
    utfs.1.string = kind ∧ utfs.2.string = data
  | completer c, .completer zipped => ∃ body, gunzip zipped.bytes = some body ∧ c.outputBody = some body ∧
    (c.Counted → inspector.completer.readBody (body.map .byte) = .ok (c.commandPrefix.getD [], c.map) [])
  | _, _ => False

theorem zip_type_smali (sdk : BitVec 32) (smaliDir : File) (baseName : JavaString) :
    0x8000 ||| (smali sdk smaliDir baseName).type = 0xD000 := by
  rw [type]
  decide

theorem zip_type_completer (c : inspector.completer.DefaultServerCommandCompleter) :
    0x8000 ||| (completer c).type = 0xA002 := by
  rw [type]
  decide

theorem zip_type_command (kind data : JavaString) : 0x8000 ||| (command kind data).type = 0xE000 := by
  rw [type]
  decide

section Gzip

variable {gzip : List UInt8 → List UInt8} {gunzip : List UInt8 → Option (List UInt8)}
  (hgzip : ∀ body, gunzip (gzip body) = some body) {cache : InspectCache} {out : List UInt8}

/-- A message that is not zipped is written behind its type. -/
theorem exists_of_writeTo (hzip : cache.zip = false) (hout : cache.writeTo gzip = some out) :
    ∃ body, cache.outputBody = some body ∧ out = writeShort cache.type ++ body := by
  unfold writeTo at hout
  obtain ⟨body, hbody, hout⟩ := Option.bind_eq_some_iff.mp hout
  rw [hzip] at hout
  cases hout
  exact ⟨body, hbody, rfl⟩

/-- The body of a message that is zipped is written behind the length of what it is zipped to. -/
theorem exists_of_writeTo_zip (hzip : cache.zip = true) (hout : cache.writeTo gzip = some out) :
    ∃ body, ∃ zipped : Data, cache.outputBody = some body ∧ zipped.bytes = gzip body ∧
      out = writeShort (0x8000 ||| cache.type) ++ zipped.write := by
  unfold writeTo at hout
  obtain ⟨body, hbody, hout⟩ := Option.bind_eq_some_iff.mp hout
  rw [hzip] at hout
  obtain ⟨behind, hwrite, hout⟩ := Option.bind_eq_some_iff.mp hout
  obtain ⟨zipped, hbytes, rfl⟩ := exists_of_writeData hwrite
  cases hout
  exact ⟨body, zipped, hbody, hbytes, rfl⟩

/-- The bytes of a file are written behind its name and their length. -/
theorem exists_of_file {filename : JavaString} {bytes body : List UInt8}
    (hbody : (do return (← writeUTF filename) ++ (← writeData bytes)) = some body) :
    ∃ utf : UTF, ∃ data : Data, utf.string = filename ∧ data.bytes = bytes ∧ body = utf.write ++ data.write := by
  obtain ⟨named, hname, hbody⟩ := Option.bind_eq_some_iff.mp hbody
  obtain ⟨behind, hdata, hbody⟩ := Option.bind_eq_some_iff.mp hbody
  obtain ⟨utf, hstring, rfl⟩ := exists_of_writeUTF hname
  obtain ⟨data, hbytes, rfl⟩ := exists_of_writeData hdata
  cases hbody
  exact ⟨utf, data, hstring, hbytes, rfl⟩

/-- The body of a command is read back as its two texts. -/
theorem command_texts {kind data : JavaString} {body : List UInt8}
    (hbody : (command kind data).outputBody = some body) :
    ∃ utfs : UTF × UTF, utfs.1.string = kind ∧ utfs.2.string = data ∧
      readCommandBody (body.map .byte) = .ok utfs [] := by
  obtain ⟨first, hfirst, hbody⟩ := Option.bind_eq_some_iff.mp hbody
  obtain ⟨second, hsecond, hbody⟩ := Option.bind_eq_some_iff.mp hbody
  obtain ⟨kindUTF, hkind, rfl⟩ := exists_of_writeUTF hfirst
  obtain ⟨dataUTF, hdata, rfl⟩ := exists_of_writeUTF hsecond
  cases hbody
  have hread := reads_readCommandBody.read (a := (kindUTF, dataUTF)) rfl []
  rw [List.append_nil] at hread
  exact ⟨(kindUTF, dataUTF), hkind, hdata, hread⟩

/-- The body of a bundle is read back as its parts. -/
theorem smali_bundle {sdk : BitVec 32} {smaliDir : File} {baseName : JavaString} {body : List UInt8}
    (hbody : (smali sdk smaliDir baseName).outputBody = some body) :
    ∃ bundle : Bundle, addFile none smaliDir = some bundle.fileData.bytes ∧ bundle.sdk = sdk ∧
      bundle.baseName.string = baseName ∧ readBundle (body.map .byte) = .ok bundle [] := by
  obtain ⟨fileData, hadd, hbody⟩ := Option.bind_eq_some_iff.mp hbody
  obtain ⟨named, hname, hbody⟩ := Option.bind_eq_some_iff.mp hbody
  obtain ⟨behind, hdata, hbody⟩ := Option.bind_eq_some_iff.mp hbody
  obtain ⟨utf, hstring, rfl⟩ := exists_of_writeUTF hname
  obtain ⟨data, hbytes, rfl⟩ := exists_of_writeData hdata
  cases hbody
  have hread := reads_readBundle.read (a := ⟨sdk, utf, data⟩) rfl []
  rw [List.append_nil, ← List.append_assoc] at hread
  exact ⟨⟨sdk, utf, data⟩, hbytes ▸ hadd, rfl, hstring, hread⟩

include hgzip

/-- A message whose lengths are measured is written as the frame that carries it. -/
theorem exists_frame (hout : cache.writeTo gzip = some out) (hmeasured : cache.Measured) :
    ∃ frame, Carries gunzip cache frame ∧ out = frame.encode := by
  cases cache with
  | message msg toOut =>
    obtain ⟨body, hbody, rfl⟩ := exists_of_writeTo rfl hout
    obtain ⟨utf, hstring, rfl⟩ := exists_of_writeUTF hbody
    exact ⟨.message toOut utf, ⟨rfl, hstring⟩, rfl⟩
  | largeMessage msg toOut =>
    obtain ⟨body, hbody, rfl⟩ := exists_of_writeTo rfl hout
    obtain ⟨data, hbytes, rfl⟩ := exists_of_writeData hbody
    exact ⟨.largeMessage toOut data, ⟨rfl, hbytes⟩, rfl⟩
  | inputStream filename content length =>
    obtain ⟨body, hbody, rfl⟩ := exists_of_writeTo rfl hout
    obtain ⟨named, hname, hbody⟩ := Option.bind_eq_some_iff.mp hbody
    obtain ⟨utf, hstring, rfl⟩ := exists_of_writeUTF hname
    obtain ⟨data, hbytes, rfl⟩ := measured_iff.mp hmeasured
    cases hbody
    refine ⟨.saveFile utf data, ⟨hstring, hbytes⟩, ?_⟩
    rw [writeFileData, ← hbytes]
    rfl
  | byteBuffer filename bytes =>
    obtain ⟨body, hbody, rfl⟩ := exists_of_writeTo rfl hout
    obtain ⟨utf, data, hstring, hbytes, rfl⟩ := exists_of_file hbody
    exact ⟨.saveFile utf data, ⟨hstring, hbytes⟩, rfl⟩
  | string filename bytes =>
    obtain ⟨body, hbody, rfl⟩ := exists_of_writeTo rfl hout
    obtain ⟨utf, data, hstring, hbytes, rfl⟩ := exists_of_file hbody
    exact ⟨.saveFile utf data, ⟨hstring, hbytes⟩, rfl⟩
  | shortBufferInspect date label buffer mode =>
    obtain ⟨body, hbody, rfl⟩ := exists_of_writeTo rfl hout
    cases buffer with
    | none =>
      obtain ⟨named, hname, hbody⟩ := Option.bind_eq_some_iff.mp hbody
      obtain ⟨utf, hstring, rfl⟩ := exists_of_writeUTF hname
      cases hbody
      refine ⟨.shortBuffer date utf none mode, ⟨rfl, hstring, rfl, rfl⟩, ?_⟩
      simp [Frame.encode, Frame.type, Frame.body, type, writeOption]
    | some buffer =>
      obtain ⟨named, hname, hbody⟩ := Option.bind_eq_some_iff.mp hbody
      obtain ⟨behind, hdata, hbody⟩ := Option.bind_eq_some_iff.mp hbody
      obtain ⟨utf, hstring, rfl⟩ := exists_of_writeUTF hname
      obtain ⟨array, helements, rfl⟩ := exists_of_writeArray hdata
      cases hbody
      refine ⟨.shortBuffer date utf (some array) mode, ⟨rfl, hstring, congrArg some helements, rfl⟩, ?_⟩
      simp [Frame.encode, Frame.type, Frame.body, type, writeOption]
  | byteBufferInspect date label buffer mode =>
    obtain ⟨body, hbody, rfl⟩ := exists_of_writeTo rfl hout
    obtain ⟨named, hname, hbody⟩ := Option.bind_eq_some_iff.mp hbody
    obtain ⟨behind, hdata, hbody⟩ := Option.bind_eq_some_iff.mp hbody
    obtain ⟨labelData, hlabel, rfl⟩ := exists_of_writeData hname
    obtain ⟨data, hbytes, rfl⟩ := exists_of_writeData hdata
    cases hbody
    refine ⟨.byteBuffer date labelData (some data) mode, ⟨rfl, hlabel, congrArg some hbytes, rfl⟩, ?_⟩
    simp [Frame.encode, Frame.type, Frame.body, type, writeOption]
  | openTraceFile keywords title content length =>
    obtain ⟨body, hbody, rfl⟩ := exists_of_writeTo rfl hout
    obtain ⟨first, hfirst, hbody⟩ := Option.bind_eq_some_iff.mp hbody
    obtain ⟨second, hsecond, hbody⟩ := Option.bind_eq_some_iff.mp hbody
    obtain ⟨keywordsUTF, hkeywords, rfl⟩ := exists_of_writeUTF hfirst
    obtain ⟨titleUTF, htitle, rfl⟩ := exists_of_writeUTF hsecond
    obtain ⟨data, hbytes, rfl⟩ := measured_iff.mp hmeasured
    cases hbody
    refine ⟨.openTraceFile keywordsUTF titleUTF data, ⟨hkeywords, htitle, hbytes⟩, ?_⟩
    rw [← hbytes]
    simp [Frame.encode, Frame.type, Frame.body, type, Data.write]
  | smali sdk smaliDir baseName =>
    obtain ⟨body, zipped, hbody, hzipped, rfl⟩ := exists_of_writeTo_zip rfl hout
    obtain ⟨bundle, hadd, hsdk, hname, hread⟩ := smali_bundle hbody
    rw [addFile_eq] at hadd
    refine ⟨.smali zipped, ⟨body, bundle, ?_, hread, hsdk, hname, (sources_iff hadd).mpr hmeasured⟩, ?_⟩
    · rw [hzipped, hgzip]
    · rw [zip_type_smali, Frame.encode, Frame.type, Frame.body]
  | command kind data =>
    obtain ⟨body, zipped, hbody, hzipped, rfl⟩ := exists_of_writeTo_zip rfl hout
    obtain ⟨utfs, hkind, hdata, hread⟩ := command_texts hbody
    refine ⟨.command zipped, ⟨body, utfs, ?_, hread, hkind, hdata⟩, ?_⟩
    · rw [hzipped, hgzip]
    · rw [zip_type_command, Frame.encode, Frame.type, Frame.body]
  | completer c =>
    obtain ⟨body, zipped, hbody, hzipped, rfl⟩ := exists_of_writeTo_zip rfl hout
    refine ⟨.completer zipped, ⟨body, ?_, hbody, fun hcounted => ?_⟩, ?_⟩
    · rw [hzipped, hgzip]
    · exact inspector.completer.readBody_outputBody hcounted hbody
    · rw [zip_type_completer, Frame.encode, Frame.type, Frame.body]

/-- A message that is read as the frame that carries it has measured lengths. -/
theorem measured_of_frame {frame : Frame} {rest rest' : List UInt8} (hout : cache.writeTo gzip = some out)
    (hcarries : Carries gunzip cache frame) (hsame : out ++ rest = frame.encode ++ rest') : cache.Measured := by
  cases cache with
  | inputStream filename content length =>
    cases frame with
    | saveFile utf data =>
      obtain ⟨body, hbody, rfl⟩ := exists_of_writeTo rfl hout
      obtain ⟨named, hname, hbody⟩ := Option.bind_eq_some_iff.mp hbody
      obtain ⟨utf', -, rfl⟩ := exists_of_writeUTF hname
      cases hbody
      simp only [Frame.encode, Frame.body, writeFileData, List.append_assoc] at hsame
      have hbehind := (reads_readUnsignedShort (ε := Throwable)).unique rfl rfl hsame
      exact measured_of_append hcarries.2 (reads_readUTF.unique rfl rfl hbehind.2).2
    | _ => exact hcarries.elim
  | openTraceFile keywords title content length =>
    cases frame with
    | openTraceFile keywordsUTF titleUTF data =>
      obtain ⟨body, hbody, rfl⟩ := exists_of_writeTo rfl hout
      obtain ⟨first, hfirst, hbody⟩ := Option.bind_eq_some_iff.mp hbody
      obtain ⟨second, hsecond, hbody⟩ := Option.bind_eq_some_iff.mp hbody
      obtain ⟨keywordsUTF', -, rfl⟩ := exists_of_writeUTF hfirst
      obtain ⟨titleUTF', -, rfl⟩ := exists_of_writeUTF hsecond
      cases hbody
      simp only [Frame.encode, Frame.body, List.append_assoc] at hsame
      have hbehind := (reads_readUnsignedShort (ε := Throwable)).unique rfl rfl hsame
      have hbehind := reads_readUTF.unique rfl rfl hbehind.2
      exact measured_of_append hcarries.2.2 (reads_readUTF.unique rfl rfl hbehind.2).2
    | _ => exact hcarries.elim
  | smali sdk smaliDir baseName =>
    cases frame with
    | smali zipped =>
      obtain ⟨body, zipped', hbody, hzipped, rfl⟩ := exists_of_writeTo_zip rfl hout
      obtain ⟨bundle, hadd, -, -, hread⟩ := smali_bundle hbody
      obtain ⟨body', bundle', hunzip, hread', -, -, hfiles⟩ := hcarries
      -- The frame that is read is the one that was written.
      rw [zip_type_smali] at hsame
      obtain rfl : zipped' = zipped := Frame.smali.inj (reads_readFrame.unique (a := .smali zipped') rfl rfl hsame).1
      rw [hzipped, hgzip] at hunzip
      obtain rfl := Option.some.inj hunzip
      rw [hread] at hread'
      obtain rfl := (Outcome.ok.inj hread').1
      rw [addFile_eq] at hadd
      exact (sources_iff hadd).mp hfiles
    | _ => exact hcarries.elim
  | _ => exact trivial

end Gzip

end InspectCache

variable (gzip : List UInt8 → List UInt8) (gunzip : List UInt8 → Option (List UInt8))

/-- Every length field that is written is the number of bytes behind it, and a client
reads exactly the frames that are written, if and only if every length that is given for a
stream is the number of bytes that its reads return. -/
theorem delimited_iff (hgzip : ∀ body, gunzip (gzip body) = some body) {caches : List InspectCache} {all : List UInt8}
    (hall : Framing.writeAll (InspectCache.writeTo gzip) caches = some all) :
    ((∀ cache ∈ caches, ∀ field ∈ cache.fields, field.1.toInt = field.2.length) ∧
      List.Forall₂ (InspectCache.Carries gunzip) caches (frames.loop (all.map .byte))) ↔
    ∀ cache ∈ caches, cache.Measured := by
  have hframes : List.Forall₂ (InspectCache.Carries gunzip) caches (frames.loop (all.map .byte)) ↔
      ∀ cache ∈ caches, cache.Measured := by
    refine Framing.forall₂_loop_iff ?_ ?_ hall
    · intro cache out hout hmeasured
      exact InspectCache.exists_frame hgzip hout hmeasured
    · intro cache out frame rest rest' hout hcarries hsame
      exact InspectCache.measured_of_frame hgzip hout hcarries hsame
  rw [hframes, and_iff_right_iff_imp]
  intro hmeasured cache hcache field hfield
  have hcache := hmeasured cache hcache
  cases cache with
  | inputStream filename content length =>
    rw [List.mem_singleton.mp hfield, length_copy]
    exact hcache
  | openTraceFile keywords title content length =>
    rw [List.mem_singleton.mp hfield, length_copy]
    exact hcache
  | smali sdk smaliDir baseName =>
    obtain ⟨file, hfile, rfl⟩ := List.mem_map.mp hfield
    rw [length_copy]
    exact hcache file hfile
  | _ => cases hfield

/-- The commands of the server, a file in two reads, a trace without keywords, and a message. -/
def measuredCaches : List InspectCache :=
  [.completer inspector.completer.smallCompleter, .inputStream [0x61] [[0x41], [0x42]] 2,
    .openTraceFile [] [0x74] [[1, 2, 3]] 3, .message [0x62] true]

theorem delimited_measuredCaches : ∃ all, Framing.writeAll (InspectCache.writeTo id) measuredCaches = some all ∧
    (∀ cache ∈ measuredCaches, ∀ field ∈ cache.fields, field.1.toInt = field.2.length) ∧
    List.Forall₂ (InspectCache.Carries some) measuredCaches (frames.loop (all.map .byte)) := by
  have hmeasured : ∀ cache ∈ measuredCaches, cache.Measured := by
    unfold measuredCaches
    simp only [List.forall_mem_cons]
    exact ⟨trivial, rfl, rfl, trivial, fun _ hcache => absurd hcache List.not_mem_nil⟩
  exact ⟨_, rfl, (delimited_iff id some (fun _ => rfl) rfl).mpr hmeasured⟩

/-- A file that has grown by a byte, and a message. -/
def grownCaches : List InspectCache := [.inputStream [0x61] [[0x41, 0x42]] 1, .message [0x62] true]

/-- Two bytes are written behind the length 1, and what a client reads behind the file is
not the message. -/
theorem grown_file_desynchronises : ∃ all, Framing.writeAll (InspectCache.writeTo id) grownCaches = some all ∧
    (∃ cache ∈ grownCaches, ∃ field ∈ cache.fields, field.1.toInt = 1 ∧ field.2.length = 2) ∧
    frames.loop (all.map .byte) = [.saveFile ⟨[0x61], by decide, by decide⟩ ⟨[0x41], by decide⟩] ∧
    ¬ List.Forall₂ (InspectCache.Carries some) grownCaches (frames.loop (all.map .byte)) := by
  have hfirst : frames.read ([0x10, 0x01, 0, 1, 0x61, 0, 0, 0, 1, 0x41, 0x42, 0x10, 0, 0, 1, 0x62].map .byte) =
      .ok (.saveFile ⟨[0x61], by decide, by decide⟩ ⟨[0x41], by decide⟩)
        ([0x42, 0x10, 0, 0, 1, 0x62].map .byte) := rfl
  have hsecond : frames.read ([0x42, 0x10, 0, 0, 1, 0x62].map .byte) = .failed (.illegalArgument 0x4210) := rfl
  have hloop := (Framing.loop_of_ok hfirst).trans (congrArg _ (Framing.loop_of_failed hsecond))
  refine ⟨[0x10, 0x01, 0, 1, 0x61, 0, 0, 0, 1, 0x41, 0x42, 0x10, 0, 0, 1, 0x62], rfl,
    ⟨_, List.mem_cons_self, _, List.mem_cons_self, rfl, rfl⟩, hloop, fun hcarries => ?_⟩
  have hlength := hcarries.length_eq
  rw [hloop] at hlength
  cases hlength

end inspector.io
