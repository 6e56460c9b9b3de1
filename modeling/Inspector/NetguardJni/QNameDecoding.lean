import Inspector.NetguardJni.QName

open bounded domain

namespace inspector.netguard.jni

/-- The bytes of a name as `get_qname` copies them: a dot behind each label. -/
def joined (labels : List (List UInt8)) : List UInt8 := labels.flatMap fun w => w ++ [46]

@[simp] theorem joined_cons (w : List UInt8) (labels : List (List UInt8)) :
    joined (w :: labels) = w ++ 46 :: joined labels := by simp [joined]

/-- The text of a name: a dot between any two labels. -/
def dotted (labels : List (List UInt8)) : List UInt8 := (joined labels).dropLast

/-- A name, with the number of labels and pointers on the way to its end. It says whether
there are no pointers among them. -/
inductive Route (m : List UInt8) : Nat → Bool → Nat → List (List UInt8) → Nat → Prop where
  | root {i : Nat} (hroot : m[i]? = some 0) : Route m 0 true i [] (i + 1)
  | label {i n e : Nat} {direct : Bool} {b : UInt8} {w : List UInt8} {labels : List (List UInt8)} (hb : m[i]? = some b)
    (hpositive : 0 < b.toNat) (hlength : b.toNat < 64) (hw : Bytes m (i + 1) b.toNat w)
    (hrest : Route m n direct (i + 1 + b.toNat) labels e) : Route m (n + 1) direct i (w :: labels) e
  | pointer {i n e : Nat} {direct : Bool} {hi lo : UInt8} {labels : List (List UInt8)} (hhi : m[i]? = some hi)
    (hpointer : 192 ≤ hi.toNat) (hlo : m[i + 1]? = some lo)
    (hrest : Route m n direct (hi.toNat % 64 * 256 + lo.toNat) labels e) : Route m (n + 1) false i labels (i + 2)

/-- The name begins with a pointer. -/
def StartsWithPointer (m : List UInt8) (i : Nat) : Prop := ∃ b, m[i]? = some b ∧ 192 ≤ b.toNat

variable {m : List UInt8} {i n e : Nat} {direct : Bool} {labels : List (List UInt8)}

/-- Names are what can be read with some number of labels and pointers. -/
theorem name_iff_route : Name m i labels e ↔ ∃ n direct, Route m n direct i labels e := by
  constructor
  · intro hname
    induction hname with
    | root hroot => exact ⟨0, true, .root hroot⟩
    | label hn hpositive hlength hw _ ih =>
      obtain ⟨n, direct, hrest⟩ := ih
      exact ⟨n + 1, direct, .label hn hpositive hlength hw hrest⟩
    | pointer hhi hpointer hlo _ ih =>
      obtain ⟨n, direct, hrest⟩ := ih
      exact ⟨n + 1, false, .pointer hhi hpointer hlo hrest⟩
  · rintro ⟨n, direct, hroute⟩
    induction hroute with
    | root hroot => exact .root hroot
    | label hb hpositive hlength hw _ ih => exact .label hb hpositive hlength hw ih
    | pointer hhi hpointer hlo _ ih => exact .pointer hhi hpointer hlo ih

theorem lt_length_of_getElem? {b : UInt8} (hb : m[i]? = some b) : i < m.length := (List.getElem?_eq_some_iff.mp hb).1

/-- A name has one end. -/
theorem name_end_unique {other : List (List UInt8)} {e' : Nat} (hname : Name m i labels e)
    (hother : Name m i other e') :
    e = e' := by
  induction hname generalizing other e' with
  | root hroot =>
    cases hother with
    | root => rfl
    | label hn hpositive =>
      cases Option.some_inj.mp (hroot.symm.trans hn)
      exact absurd hpositive (by decide)
    | pointer hhi hpointer =>
      cases Option.some_inj.mp (hroot.symm.trans hhi)
      exact absurd hpointer (by decide)
  | label hn hpositive hlength hw hrest ih =>
    cases hother with
    | root hroot =>
      cases Option.some_inj.mp (hroot.symm.trans hn)
      exact absurd hpositive (by decide)
    | label hn' _ _ _ hrest' =>
      cases Option.some_inj.mp (hn.symm.trans hn')
      exact ih hrest'
    | pointer hhi hpointer =>
      cases Option.some_inj.mp (hn.symm.trans hhi)
      omega
  | pointer hhi hpointer hlo hrest ih =>
    cases hother with
    | root hroot =>
      cases Option.some_inj.mp (hroot.symm.trans hhi)
      exact absurd hpointer (by decide)
    | label hn _ hlength =>
      cases Option.some_inj.mp (hn.symm.trans hhi)
      omega
    | pointer => rfl

namespace Route

/-- A name begins within the message. -/
theorem start_lt (hroute : Route m n direct i labels e) : i < m.length := by
  cases hroute with
  | root hroot => exact lt_length_of_getElem? hroot
  | label hb => exact lt_length_of_getElem? hb
  | pointer hhi => exact lt_length_of_getElem? hhi

/-- A name is not empty. -/
theorem start_lt_end (hroute : Route m n direct i labels e) : i < e := by
  induction hroute with
  | root => omega
  | label hb hpositive hlength hw hrest ih => omega
  | pointer => omega

/-- A name ends within the message. -/
theorem end_le (hroute : Route m n direct i labels e) : e ≤ m.length := by
  induction hroute with
  | root hroot =>
    have hlt := lt_length_of_getElem? hroot
    omega
  | label hb hpositive hlength hw hrest ih => exact ih
  | pointer hhi hpointer hlo =>
    have hlt := lt_length_of_getElem? hlo
    omega

/-- The end of a name is two bytes behind its start exactly when it begins with a
pointer. -/
theorem end_eq_iff (hroute : Route m n direct i labels e) (hlabels : labels ≠ []) :
    e = i + 2 ↔ StartsWithPointer m i := by
  cases hroute with
  | root => exact absurd rfl hlabels
  | label hb hpositive hlength hw hrest =>
    have hend := hrest.start_lt_end
    constructor
    · intro heq
      omega
    · rintro ⟨b, hb', hpointer⟩
      rw [hb] at hb'
      cases hb'
      omega
  | pointer hhi hpointer hlo hrest => exact iff_of_true rfl ⟨_, hhi, hpointer⟩

end Route

/-- The bytes of a label can be copied. -/
theorem slice_of_bytes {w : List UInt8} (hw : Bytes m i n w) (hn : 0 < n) : slice m i n = .ok w := by
  obtain ⟨rfl, more, hmore⟩ := hw
  have hlength := congrArg List.length hmore
  rw [List.length_append, List.length_drop] at hlength
  rw [slice_of_le (by omega), ← hmore, List.take_left]

/-- The two highest bits of a length are not set. -/
theorem and_marker_eq_zero {b : UInt8} (hb : b.toNat < 64) : b &&& 0xC0 = 0 := by
  apply UInt8.toNat_inj.mp
  have h : b.toNat % 2 ^ 6 = b.toNat := Nat.mod_eq_of_lt hb
  rw [UInt8.toNat_and, ← h, ← Nat.and_two_pow_sub_one_eq_mod, Nat.and_assoc]
  simp

/-- Those of a pointer are. -/
theorem and_marker_ne_zero {b : UInt8} (hb : 192 ≤ b.toNat) : b &&& 0xC0 ≠ 0 := by
  intro hzero
  have hbit : (b &&& 0xC0).toNat.testBit 7 = true := by
    have h := b.toNat_lt
    rw [UInt8.toNat_and, Nat.testBit_and]
    have hseven : b.toNat.testBit 7 = true := by
      rw [Nat.testBit_eq_decide_div_mod_eq]
      simp
      omega
    rw [hseven]
    rfl
  rw [hzero] at hbit
  exact absurd hbit (by decide)

/-- The other bits of a pointer are its high part. -/
theorem and_low (b : UInt8) : (b &&& 0x3F).toNat = b.toNat % 64 := by
  rw [UInt8.toNat_and]
  exact Nat.and_two_pow_sub_one_eq_mod b.toNat 6

namespace Walk

/-- What the loop has written so far. -/
structure Wrote (w : Walk) (written : List UInt8) : Prop where
  length : w.qname.length = 256
  noff : w.noff.toNat = written.length
  bytes : w.qname.take written.length = written

variable {w : Walk} {written : List UInt8}

/-- What was written follows what was written before. -/
theorem take_overwrite {q bytes : List UInt8} {k : Nat} (hk : k + bytes.length ≤ q.length) :
    (q.overwrite k bytes).take (k + bytes.length) = q.take k ++ bytes := by
  rw [List.overwrite, List.take_take, Nat.min_eq_left hk, ← List.append_assoc, List.take_left']
  rw [List.length_append, List.length_take]
  omega

/-- A label that fits is copied with a dot behind it. -/
theorem copyLabel_eq {bytes : List UInt8} (hwrote : w.Wrote written)
    (hbytes : Bytes m (w.ptr.toNat + 1) w.len.toNat bytes) (hpositive : 0 < w.len.toNat)
    (hfits : (written ++ bytes ++ [46]).length ≤ DNS_QNAME_MAX) :
    ∃ next, w.copyLabel m = .ok next ∧ next.Wrote (written ++ bytes ++ [46]) ∧ next.c = w.c ∧ next.ptr = w.ptr ∧
      next.off = w.off ∧ next.len = w.len := by
  have hmax : DNS_QNAME_MAX = 255 := rfl
  have hcount : bytes.length = w.len.toNat := hbytes.1
  simp only [List.length_append, List.length_singleton] at hfits
  obtain ⟨hlength, hnoff, htake⟩ := hwrote
  have hfirst : w.noff.toNat + bytes.length ≤ w.qname.length := by omega
  have hdot : w.noff.toNat + w.len.toNat + [(46 : UInt8)].length ≤ (w.qname.overwrite w.noff.toNat bytes).length := by
    rw [List.length_overwrite, List.length_singleton]
    omega
  have hcopy : w.copyLabel m = .ok { w with
      qname := (w.qname.overwrite w.noff.toNat bytes).overwrite (w.noff.toNat + w.len.toNat) [46]
      noff := w.noff + w.len.toBitVec + 1 } := by
    rw [copyLabel, slice_of_bytes hbytes hpositive]
    change (store w.qname w.noff.toNat bytes >>= _) = _
    rw [store_of_le hfirst]
    change (store (w.qname.overwrite w.noff.toNat bytes) _ [46] >>= _) = _
    rw [store_of_le hdot]
    rfl
  refine ⟨_, hcopy, ⟨?_, ?_, ?_⟩, rfl, rfl, rfl, rfl⟩
  · rw [List.length_overwrite, List.length_overwrite, hlength]
  · have hlen : w.len.toBitVec.toNat = w.len.toNat := rfl
    have hone : (1 : BitVec 8).toNat = 1 := rfl
    simp only [BitVec.toNat_add, List.length_append, List.length_singleton, hlen, hone]
    omega
  · have hplace : w.noff.toNat + w.len.toNat = w.noff.toNat + bytes.length := by rw [hcount]
    rw [hplace, List.overwrite_overwrite]
    have hall : w.noff.toNat + (bytes ++ [46]).length ≤ w.qname.length := by
      rw [List.length_append, List.length_singleton]
      omega
    have htotal : (written ++ bytes ++ [46]).length = w.noff.toNat + (bytes ++ [46]).length := by
      simp only [List.length_append, hnoff]
      omega
    rw [htotal, take_overwrite hall, hnoff, htake, List.append_assoc]

/-- A jump within the message reads the byte it leads to. -/
theorem goto_eq {jump : BitVec 16} {b : UInt8} (hb : m[jump.toNat]? = some b) :
    w.goto m jump = .ok { w with ptr := jump, len := b } := by
  rw [goto, load_eq_ok.mpr hb]
  rfl

/-- Positions within a message are numbers of 16 bits. -/
theorem toNat_ofNat_of_lt_length (hm : m.length < 2 ^ 16) (hi : i < m.length) : (BitVec.ofNat 16 i).toNat = i := by
  rw [BitVec.toNat_ofNat]
  omega

/-- A pass over a label copies it and moves behind it. -/
theorem pass_label {bytes : List UInt8} {b : UInt8} (hm : m.length < 2 ^ 16) (hwrote : w.Wrote written)
    (hpositive : 0 < w.len.toNat) (hlength : w.len.toNat < 64) (hbytes : Bytes m (w.ptr.toNat + 1) w.len.toNat bytes)
    (hb : m[w.ptr.toNat + 1 + w.len.toNat]? = some b) (hfits : (written ++ bytes ++ [46]).length ≤ DNS_QNAME_MAX) :
    ∃ next, w.pass m = .ok (next, true) ∧ next.Wrote (written ++ bytes ++ [46]) ∧ next.c = w.c ∧ next.off = w.off ∧
      next.ptr.toNat = w.ptr.toNat + 1 + w.len.toNat ∧ next.len = b := by
  have hmax : DNS_QNAME_MAX = 255 := rfl
  have hend := lt_length_of_getElem? hb
  have hjump := toNat_ofNat_of_lt_length hm hend
  have hcount : bytes.length = w.len.toNat := hbytes.1
  have hnoff := hwrote.noff
  obtain ⟨copied, hcopy, hcopied, hc, hptr, hoff, hlen⟩ := copyLabel_eq hwrote hbytes hpositive hfits
  simp only [List.length_append, List.length_singleton] at hfits
  have hplain : ¬ (w.ptr.toNat + 1 < m.length ∧ w.len &&& 0xC0 ≠ 0) :=
    fun hpointer => hpointer.2 (and_marker_eq_zero hlength)
  have hpass : w.pass m =
      .ok ({ copied with ptr := BitVec.ofNat 16 (w.ptr.toNat + 1 + w.len.toNat), len := b }, true) := by
    rw [pass, if_neg hplain, if_pos ⟨hend, by omega⟩, hcopy]
    change (if m.length ≤ (BitVec.ofNat 16 (copied.ptr.toNat + 1 + copied.len.toNat)).toNat then _ else _) = _
    rw [hptr, hlen, if_neg (by omega), goto_eq (hjump ▸ hb)]
    rfl
  exact ⟨_, hpass, ⟨hcopied.length, hcopied.noff, hcopied.bytes⟩, hc, hoff, hjump, rfl⟩

/-- A pass over a pointer jumps and remembers that it did. -/
theorem pass_pointer {lo b : UInt8} (hm : m.length < 2 ^ 16) (hpointer : 192 ≤ w.len.toNat)
    (hlo : m[w.ptr.toNat + 1]? = some lo) (hb : m[w.len.toNat % 64 * 256 + lo.toNat]? = some b) :
    w.pass m = .ok ({ w with
      c := true
      off := if w.c then w.off else w.off + 2
      ptr := BitVec.ofNat 16 (w.len.toNat % 64 * 256 + lo.toNat)
      len := b }, true) := by
  have hjump := toNat_ofNat_of_lt_length hm (lt_length_of_getElem? hb)
  have htarget := lt_length_of_getElem? hb
  rw [pass, if_pos ⟨lt_length_of_getElem? hlo, and_marker_ne_zero hpointer⟩, load_eq_ok.mpr hlo]
  change (if m.length ≤ (BitVec.ofNat 16 ((w.len &&& 0x3F).toNat * 256 + lo.toNat)).toNat then _ else _) = _
  rw [and_low, if_neg (by omega), goto_eq (hjump ▸ hb)]
  rfl

/-- Where the loop ends on a name. -/
theorem loop_of_route (hm : m.length < 2 ^ 16) {count : Nat} (hroute : Route m n direct w.ptr.toNat labels e)
    (hwrote : w.Wrote written) (hlen : m[w.ptr.toNat]? = some w.len) (hcount : n ≤ count)
    (hfits : (written ++ joined labels).length ≤ DNS_QNAME_MAX) :
    ∃ last, w.loop m count = .ok last ∧ last.Wrote (written ++ joined labels) ∧ last.len = 0 ∧
      last.c = (w.c || !direct) ∧ last.off = (if w.c || direct then w.off else w.off + 2) ∧
      (direct = true → last.ptr.toNat + 1 = e) := by
  induction n generalizing w written direct labels e count with
  | zero =>
    cases hroute with
    | root hroot =>
      have hzero : w.len = 0 := Option.some_inj.mp (hlen.symm.trans hroot)
      have hstop : w.loop m count = .ok w := by
        cases count with
        | zero => rfl
        | succ count => rw [loop, if_pos hzero]
      exact ⟨w, hstop, by simpa [joined] using hwrote, hzero, by simp, by simp, fun _ => rfl⟩
  | succ n ih =>
    obtain ⟨count, rfl⟩ := Nat.exists_eq_add_of_le' (Nat.lt_of_lt_of_le (Nat.succ_pos n) hcount)
    cases hroute with
    | @label _ _ _ _ b bytes rest hb hpositive hlength hw hrest =>
      obtain rfl : w.len = b := Option.some_inj.mp (hlen.symm.trans hb)
      have hne : w.len ≠ 0 := by
        rintro hzero
        rw [hzero] at hpositive
        exact absurd hpositive (by decide)
      have hnext : m[w.ptr.toNat + 1 + w.len.toNat]? = some (m.get ⟨_, hrest.start_lt⟩) :=
        List.getElem?_eq_getElem hrest.start_lt
      have hjoined : written ++ joined (bytes :: rest) = written ++ bytes ++ [46] ++ joined rest := by simp
      rw [hjoined] at hfits
      have hone : (written ++ bytes ++ [46]).length ≤ DNS_QNAME_MAX :=
        Nat.le_trans (List.prefix_append _ (joined rest)).length_le hfits
      obtain ⟨next, hpass, hnextWrote, hc, hoff, hptr, hbyte⟩ := pass_label hm hwrote hpositive hlength hw hnext hone
      obtain ⟨last, hloop, hlast, hzero, hlastc, hlastoff, hend⟩ :=
        ih (hptr.symm ▸ hrest) hnextWrote (by rw [hptr, hbyte, hnext]) (show n ≤ count by omega) hfits
      refine ⟨last, ?_, hjoined.symm ▸ hlast, hzero, hc ▸ hlastc, by rw [hlastoff, hc, hoff], hend⟩
      rw [loop, if_neg hne, hpass]
      exact hloop
    | @pointer _ _ _ inner hi lo _ hhi hpointer hlo hrest =>
      obtain rfl : w.len = hi := Option.some_inj.mp (hlen.symm.trans hhi)
      have hne : w.len ≠ 0 := by
        rintro hzero
        rw [hzero] at hpointer
        exact absurd hpointer (by decide)
      have hnext : m[w.len.toNat % 64 * 256 + lo.toNat]? = some (m.get ⟨_, hrest.start_lt⟩) :=
        List.getElem?_eq_getElem hrest.start_lt
      have hjump := toNat_ofNat_of_lt_length hm hrest.start_lt
      have hpass := pass_pointer hm hpointer hlo hnext
      obtain ⟨last, hloop, hlast, hzero, hlastc, hlastoff, -⟩ := ih
        (w := { w with
          c := true
          off := if w.c then w.off else w.off + 2
          ptr := BitVec.ofNat 16 (w.len.toNat % 64 * 256 + lo.toNat)
          len := m.get ⟨_, hrest.start_lt⟩ })
        (hjump.symm ▸ hrest) ⟨hwrote.length, hwrote.noff, hwrote.bytes⟩ (hjump.symm ▸ hnext)
        (show n ≤ count by omega) hfits
      refine ⟨last, ?_, hlast, hzero, by simp [hlastc], by simp [hlastoff], by simp⟩
      rw [loop, if_neg hne, hpass]
      exact hloop

/-- The text behind the loop: its last dot becomes the NUL. -/
theorem finish_of_wrote (hwrote : w.Wrote (joined labels)) (hlabels : labels ≠ []) (hzero : w.len = 0) :
    ∃ rest, w.finish = .ok (some (if w.c then w.off else w.ptr + 1), dotted labels ++ 0 :: rest) := by
  obtain ⟨hlength, hnoff, htake⟩ := hwrote
  obtain ⟨first, others, rfl⟩ := List.exists_cons_of_ne_nil hlabels
  have hpositive : 0 < (joined (first :: others)).length := by
    rw [joined_cons, List.length_append, List.length_cons]
    omega
  have hlt := w.noff.isLt
  have hne : ¬ (0 < w.len ∨ w.noff = 0) := by
    rintro (hlen | hnone)
    · rw [hzero] at hlen
      exact absurd hlen (by decide)
    · rw [hnone] at hnoff
      exact absurd hpositive (by rw [← hnoff]; decide)
  have hfits : w.noff.toNat - 1 + [(0 : UInt8)].length ≤ w.qname.length := by
    rw [List.length_singleton]
    omega
  have hdotted : w.qname.take (w.noff.toNat - 1) = dotted (first :: others) := by
    rw [dotted, List.dropLast_eq_take, ← hnoff, ← htake, List.take_take, Nat.min_eq_left (by omega)]
  refine ⟨(w.qname.drop (w.noff.toNat - 1 + 1)), ?_⟩
  rw [finish, if_neg hne, store_of_le hfits]
  have hsplit := (List.take_append_drop (w.noff.toNat - 1) (w.qname.overwrite (w.noff.toNat - 1) [0])).symm
  rw [List.drop_overwrite hfits, List.length_singleton] at hsplit
  have hbefore : (w.qname.overwrite (w.noff.toNat - 1) [0]).take (w.noff.toNat - 1) =
    w.qname.take (w.noff.toNat - 1) := by
    apply List.ext_getElem?
    intro i
    rw [List.getElem?_take, List.getElem?_take]
    split
    · rename_i hi
      exact List.getElem?_overwrite_before hi
    · rfl
  rw [hbefore, hdotted] at hsplit
  rw [hsplit]
  rfl

end Walk

/-- A name of the message is read in full: `get_qname` leaves its text, and returns an
offset that is where the name ends exactly when the name has no pointer but one that it
begins with. -/
theorem get_qname_reads {off : BitVec 16} {qname : List UInt8} (hm : m.length < 2 ^ 16)
    (hroute : Route m n direct off.toNat labels e) (hcount : n ≤ 26) (hlabels : labels ≠ [])
    (hfits : (joined labels).length ≤ DNS_QNAME_MAX) (hqname : qname.length = DNS_QNAME_MAX + 1) :
    ∃ behind rest, get_qname m off qname = .ok (some behind, dotted labels ++ 0 :: rest) ∧
      (behind.toNat = e ↔ direct = true ∨ StartsWithPointer m off.toNat) := by
  have hmax : DNS_QNAME_MAX = 255 := rfl
  have hstart := hroute.start_lt
  have hstore : 0 + [(0 : UInt8)].length ≤ qname.length := by
    rw [List.length_singleton]
    omega
  have hbyte : m[off.toNat]? = some (m.get ⟨off.toNat, hstart⟩) := List.getElem?_eq_getElem hstart
  have hwrote : Walk.Wrote
      { c := false, noff := 0, ptr := off, off, len := m.get ⟨off.toNat, hstart⟩, qname := qname.overwrite 0 [0] } [] :=
    ⟨by rw [List.length_overwrite, hqname, hmax], rfl, rfl⟩
  obtain ⟨last, hloop, hlast, hzero, hc, hoff, hend⟩ := Walk.loop_of_route hm hroute hwrote hbyte hcount hfits
  obtain ⟨rest, hfinish⟩ := Walk.finish_of_wrote hlast hlabels hzero
  refine ⟨if last.c then last.off else last.ptr + 1, rest, ?_, ?_⟩
  · rw [get_qname, store_of_le hstore]
    change (if m.length ≤ off.toNat then _ else _) = _
    rw [if_neg (by omega), load_of_lt hstart]
    change (Walk.loop m 26 _ >>= _) = _
    rw [hloop]
    exact hfinish
  · rw [← hroute.end_eq_iff hlabels]
    have hle := hroute.end_le
    have hlt := hroute.start_lt_end
    cases direct with
    | true =>
      have hptr := hend rfl
      have hone : (1 : BitVec 16).toNat = 1 := rfl
      simp only [Bool.false_or, Bool.not_true] at hc
      rw [hc]
      simp only [Bool.false_eq_true, if_false, BitVec.toNat_add, hone, true_or, iff_true]
      omega
    | false =>
      have htwo : (2 : BitVec 16).toNat = 2 := rfl
      have hbehind : 2 ≤ e - off.toNat := by
        cases hroute with
        | label hb hpositive hlength hw hrest =>
          have hrestEnd := hrest.start_lt_end
          omega
        | pointer => omega
      simp only [Bool.false_or, Bool.not_false, Bool.false_eq_true, if_false] at hc hoff
      rw [hc, hoff]
      simp only [if_true, BitVec.toNat_add, htwo, Bool.false_eq_true, false_or]
      omega

/-- A label and then a pointer to another one. The offset is one byte short of the end. -/
def pointerBehindLabel : List UInt8 := [1, 98, 0, 1, 97, 0xC0, 0]

/-- For a pointer behind a label the returned offset is not the end of the name. -/
theorem pointerBehindLabel_read : ∃ behind rest,
    get_qname pointerBehindLabel 3 (List.replicate 256 0) = .ok (some behind, [97, 46, 98] ++ 0 :: rest) ∧
      (behind.toNat = 7 ↔ false = true ∨ StartsWithPointer pointerBehindLabel 3) := by
  have hlast : Route pointerBehindLabel 1 true 0 [[98]] 3 :=
    .label (b := 1) rfl (by decide) (by decide) ⟨rfl, [0, 1, 97, 0xC0, 0], rfl⟩ (.root rfl)
  have hhigh : pointerBehindLabel[5]? = some 0xC0 := rfl
  have hlow : pointerBehindLabel[5 + 1]? = some 0 := rfl
  have hroute : Route pointerBehindLabel 3 false (3 : BitVec 16).toNat [[97], [98]] 7 :=
    .label (b := 1) rfl (by decide) (by decide) ⟨rfl, [0xC0, 0], rfl⟩ (.pointer hhigh (by decide) hlow hlast)
  exact get_qname_reads (by decide) hroute (by decide) (by simp) (by decide) List.length_replicate

end inspector.netguard.jni
