import Inspector.Completer.DefaultServerCommandCompleter
import Inspector.Io.SmaliBundle

open stream stream.Framing stream.Input inspector.io

namespace inspector.completer

section Input

variable {ε α : Type} {p : Input ε α} {write : α → Option (List UInt8)} {l : List α} {out : List UInt8}
  {items rest : List Arrival}

/-- Where every item can be written, all of them can. -/
theorem exists_writeAll (hwrite : ∀ a ∈ l, ∃ out, write a = some out) : ∃ out, writeAll write l = some out := by
  induction l with
  | nil => exact ⟨[], rfl⟩
  | cons a l ih =>
    obtain ⟨⟨first, hfirst⟩, hothers⟩ := List.forall_mem_cons.mp hwrite
    obtain ⟨others, hall⟩ := ih hothers
    exact ⟨first ++ others, writeAll_cons_eq_some.mpr ⟨first, others, hfirst, hall, rfl⟩⟩

/-- Items that are read one by one are read in a row. -/
theorem readItems_writeAll {n : Nat}
    (hread : ∀ a ∈ l, ∀ out, write a = some out → ∀ rest, p (out.map .byte ++ rest) = .ok a rest)
    (hall : writeAll write l = some out) (hn : l.length = n) (rest : List Arrival) :
    readItems p n (out.map .byte ++ rest) = .ok ⟨l, hn⟩ rest := by
  subst hn
  induction l generalizing out with
  | nil =>
    cases hall
    rfl
  | cons a l ih =>
    obtain ⟨hfirst, hothers⟩ := List.forall_mem_cons.mp hread
    obtain ⟨first, others, hwrite, hrest, rfl⟩ := writeAll_cons_eq_some.mp hall
    rw [List.map_append, List.append_assoc]
    exact (bind_of_ok (hfirst first hwrite _)).trans (bind_of_ok (ih hothers hrest))

/-- Every item of a list that was read has been read itself. -/
theorem exists_of_readItems {n : Nat} {read : { l : List α // l.length = n }}
    (hread : readItems p n items = .ok read rest) :
    ∀ a ∈ read.1, ∃ before after, p before = .ok a after := by
  induction n generalizing items with
  | zero =>
    cases hread
    exact nofun
  | succ n ih =>
    obtain ⟨a, middle, hfirst, hmore⟩ := bind_eq_ok.mp hread
    obtain ⟨others, last, hothers, hpure⟩ := bind_eq_ok.mp hmore
    cases hpure
    exact List.forall_mem_cons.mpr ⟨⟨items, middle, hfirst⟩, ih hothers⟩

end Input

/-- A string for which `writeUTF` has room. -/
def Writable (s : JavaString) : Prop := (encodeUTF s).length < 2 ^ 16

instance (s : JavaString) : Decidable (Writable s) := inferInstanceAs (Decidable ((encodeUTF s).length < 2 ^ 16))

namespace DefaultServerCommandCompleter

structure Limited (c : DefaultServerCommandCompleter) : Prop where
  head : Writable (c.commandPrefix.getD [])
  entries : ∀ entry ∈ c.map.entries, Writable entry.1 ∧ ∀ str ∈ entry.2, Writable str

/-- The numbers of commands and of help strings have room in 16 and in 8 bits. -/
structure Counted (c : DefaultServerCommandCompleter) : Prop where
  size_lt : c.map.size < 2 ^ 16
  help_lt : ∀ entry ∈ c.map.entries, entry.2.length < 2 ^ 8

/-- What is written is read back, up to its last byte. -/
def RoundTrips (c : DefaultServerCommandCompleter) : Prop :=
  ∃ out, c.outputBody = some out ∧ readBody (out.map .byte) = .ok (c.commandPrefix.getD [], c.map) []

end DefaultServerCommandCompleter

open DefaultServerCommandCompleter

variable {c : DefaultServerCommandCompleter} {s : JavaString} {entry : JavaString × List JavaString} {out : List UInt8}
  {items rest : List Arrival}

/-- A text that fits in a `writeUTF` is written. -/
theorem exists_writeUTF (hs : Writable s) : ∃ out, writeUTF s = some out := ⟨_, if_pos hs⟩

/-- A text that was written is read back. -/
theorem readString_writeUTF (hwrite : writeUTF s = some out) (rest : List Arrival) :
    readString (out.map .byte ++ rest) = .ok s rest := by
  obtain ⟨utf, rfl, rfl⟩ := exists_of_writeUTF hwrite
  exact (reads_readUTF.map UTF.string).read ⟨utf, rfl, rfl⟩ rest

/-- An entry whose texts fit is written. -/
theorem exists_outputEntry (hentry : Writable entry.1 ∧ ∀ str ∈ entry.2, Writable str) :
    ∃ out, outputEntry entry = some out := by
  obtain ⟨key, hkey⟩ := exists_writeUTF hentry.1
  obtain ⟨help, hhelp⟩ := exists_writeAll fun str hstr => exists_writeUTF (hentry.2 str hstr)
  refine ⟨key ++ [UInt8.ofNat entry.2.length] ++ help, ?_⟩
  simp only [outputEntry, hkey, hhelp]
  rfl

/-- An entry whose count fits in a byte is read back. -/
theorem readEntry_outputEntry (hcount : entry.2.length < 2 ^ 8) (hwrite : outputEntry entry = some out)
    (rest : List Arrival) :
    readEntry (out.map .byte ++ rest) = .ok entry rest := by
  simp only [outputEntry, Option.bind_eq_bind, Option.bind_eq_some_iff] at hwrite
  obtain ⟨key, hkey, help, hhelp, hout⟩ := hwrite
  cases hout
  have hlength : entry.2.length = (UInt8.ofNat entry.2.length).toNat := (UInt8.toNat_ofNat_of_lt' hcount).symm
  have hcounted := reads_readByte.read (ε := Throwable) (a := UInt8.ofNat entry.2.length) rfl (help.map .byte ++ rest)
  have hstrings := readItems_writeAll (fun str _ out hstr => readString_writeUTF hstr) hhelp hlength rest
  simp only [List.map_append, List.append_assoc]
  rw [readEntry, bind_of_ok (readString_writeUTF hkey _), bind_of_ok hcounted, bind_of_ok hstrings]
  rfl

/-- An entry that was read has less than 256 texts. -/
theorem length_of_readEntry (hread : readEntry items = .ok entry rest) : entry.2.length < 2 ^ 8 := by
  obtain ⟨key, middle, -, hmore⟩ := bind_eq_ok.mp hread
  obtain ⟨length, before, -, hhelp⟩ := bind_eq_ok.mp hmore
  obtain ⟨help, last, -, hpure⟩ := bind_eq_ok.mp hhelp
  cases hpure
  rw [help.2]
  exact length.toNat_lt

/-- A completer within the limits is written. -/
theorem exists_outputBody (hlimited : c.Limited) : ∃ out, c.outputBody = some out := by
  obtain ⟨head, hhead⟩ := exists_writeUTF hlimited.head
  obtain ⟨entries, hentries⟩ := exists_writeAll fun entry hentry => exists_outputEntry (hlimited.entries entry hentry)
  refine ⟨head ++ writeShort (BitVec.ofNat 16 c.map.size) ++ entries, ?_⟩
  simp only [outputBody, hhead, hentries]
  rfl

/-- A body whose counts fit is read back. -/
theorem readBody_outputBody (hcounted : c.Counted) (hwrite : c.outputBody = some out) :
    readBody (out.map .byte) = .ok (c.commandPrefix.getD [], c.map) [] := by
  simp only [outputBody, Option.bind_eq_bind, Option.bind_eq_some_iff] at hwrite
  obtain ⟨head, hhead, entries, hentries, hout⟩ := hwrite
  cases hout
  have hsize : c.map.entries.length = (BitVec.ofNat 16 c.map.size).toNat := by
    rw [BitVec.toNat_ofNat, Nat.mod_eq_of_lt hcounted.size_lt]
    rfl
  have hshort := reads_readUnsignedShort.read (ε := Throwable) (a := BitVec.ofNat 16 c.map.size) rfl (entries.map .byte)
  have hall := readItems_writeAll
    (fun entry hentry out hwrite => readEntry_outputEntry (hcounted.help_lt entry hentry) hwrite)
    hentries hsize []
  rw [List.append_nil] at hall
  simp only [List.map_append, List.append_assoc]
  rw [readBody, bind_of_ok (readString_writeUTF hhead _), bind_of_ok hshort, bind_of_ok hall,
    LinkedMap.ofEntries_entries]
  rfl

/-- A frame is unzipped and read back to the body that was written. -/
theorem readFrame_writeTo {gzip gunzip : List UInt8 → List UInt8} (hgzip : ∀ data, gunzip (gzip data) = data)
    (hcounted : c.Counted) (hwrite : c.writeTo gzip = some out) :
    ∃ body, readFrame gunzip (out.map .byte) = .ok (0xA002, body) [] ∧
      readBody (body.map .byte) = .ok (c.commandPrefix.getD [], c.map) [] := by
  obtain ⟨body, hbody, hwrite⟩ := Option.bind_eq_some_iff.mp hwrite
  obtain ⟨behind, hdata, hwrite⟩ := Option.bind_eq_some_iff.mp hwrite
  obtain ⟨zipped, hbytes, rfl⟩ := exists_of_writeData hdata
  cases hwrite
  have htype := reads_readUnsignedShort.read (ε := Throwable) (a := 0x8000 ||| 0x2002) rfl (zipped.write.map .byte)
  have hzipped := reads_readData.read (a := zipped) rfl []
  rw [List.append_nil] at hzipped
  refine ⟨body, ?_, readBody_outputBody hcounted hbody⟩
  rw [List.map_append, readFrame, bind_of_ok htype, bind_of_ok hzipped, hbytes, hgzip]
  rfl

/-- No map with more entries, and none with more help, is read. -/
theorem counted_of_readBody {head : JavaString} {map : LinkedMap JavaString (List JavaString)}
    (hread : readBody items = .ok (head, map) rest) :
      map.size < 2 ^ 16 ∧ ∀ entry ∈ map.entries, entry.2.length < 2 ^ 8 := by
  obtain ⟨found, middle, -, hmore⟩ := bind_eq_ok.mp hread
  obtain ⟨size, before, -, hentries⟩ := bind_eq_ok.mp hmore
  obtain ⟨entries, last, hitems, hpure⟩ := bind_eq_ok.mp hentries
  cases hpure
  refine ⟨?_, fun entry hentry => ?_⟩
  · have hle := LinkedMap.size_ofEntries_le entries.1
    rw [entries.2] at hle
    exact lt_of_le_of_lt hle size.isLt
  · obtain ⟨before, after, hread⟩ := exists_of_readItems hitems entry (LinkedMap.mem_of_mem_ofEntries hentry)
    exact length_of_readEntry hread

/-- The map is read back exactly when its counts have room. -/
theorem roundTrips_iff (hlimited : c.Limited) : c.RoundTrips ↔ c.Counted := by
  constructor
  · rintro ⟨out, -, hread⟩
    obtain ⟨hsize, hhelp⟩ := counted_of_readBody hread
    exact ⟨hsize, hhelp⟩
  · intro hcounted
    obtain ⟨out, hwrite⟩ := exists_outputBody hlimited
    exact ⟨out, hwrite, readBody_outputBody hcounted hwrite⟩

/-- Two commands, one without help. -/
def smallCompleter : DefaultServerCommandCompleter :=
  ((new (some [0x3A])).addCommandHelp [0x61] [[0x62], []]).addCommandHelp [0x63] []

theorem roundTrips_smallCompleter : smallCompleter.Limited ∧ smallCompleter.RoundTrips := by
  have hlimited : smallCompleter.Limited := ⟨by decide, by simp [smallCompleter, new, addCommandHelp, LinkedMap.put,
    LinkedMap.putEntry, LinkedMap.empty, Writable, encodeUTF, encodeChar]⟩
  exact ⟨hlimited, (roundTrips_iff hlimited).mpr ⟨by decide, by decide⟩⟩

/-- One command with 256 lines of help. -/
def longHelp : DefaultServerCommandCompleter := (new none).addCommandHelp [0x61] (List.replicate 256 [0x62])

theorem not_roundTrips_longHelp : longHelp.Limited ∧ ¬ longHelp.RoundTrips := by
  have hentries : longHelp.map.entries = [([0x61], List.replicate 256 [0x62])] := rfl
  refine ⟨⟨by decide, fun entry hentry => ?_⟩, ?_⟩
  · rw [hentries, List.mem_singleton] at hentry
    subst hentry
    refine ⟨by decide, fun str hstr => ?_⟩
    obtain rfl := List.eq_of_mem_replicate hstr
    decide
  · rintro ⟨out, -, hread⟩
    have hhelp := (counted_of_readBody hread).2 _ (hentries ▸ List.mem_singleton_self _)
    rw [List.length_replicate] at hhelp
    omega

end inspector.completer
