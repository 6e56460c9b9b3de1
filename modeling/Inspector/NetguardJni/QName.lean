import Inspector.Base.Bounded
import Inspector.Base.DomainMessage

open bounded domain

namespace inspector.netguard.jni

def DNS_QNAME_MAX : Nat := 255

/-- The variables of the loop of `get_qname`. -/
structure Walk where
  c : Bool
  noff : BitVec 8
  ptr : BitVec 16
  off : BitVec 16
  len : UInt8
  qname : List UInt8
  deriving DecidableEq, Repr

namespace Walk

variable (data : List UInt8)

/-- One more label: its bytes are copied, and a dot behind them. -/
def copyLabel (w : Walk) : Except Fault Walk := do
  let bytes ← slice data (w.ptr.toNat + 1) w.len.toNat
  let qname ← store w.qname w.noff.toNat bytes
  let qname ← store qname (w.noff.toNat + w.len.toNat) [46]
  return { w with qname, noff := w.noff + w.len.toBitVec + 1 }

/-- Goes on at another offset. -/
def goto (w : Walk) (jump : BitVec 16) : Except Fault Walk := do
  return { w with ptr := jump, len := ← load data jump.toNat }

/-- A pass of the loop. It says whether another one follows. -/
def pass (w : Walk) : Except Fault (Walk × Bool) :=
  if w.ptr.toNat + 1 < data.length ∧ w.len &&& 0xC0 ≠ 0 then do
    let low ← load data (w.ptr.toNat + 1)
    let jump := BitVec.ofNat 16 ((w.len &&& 0x3F).toNat * 256 + low.toNat)
    if data.length ≤ jump.toNat then return (w, false)
    else do
      let w ← w.goto data jump
      return ({ w with c := true, off := if w.c then w.off else w.off + 2 }, true)
  else if w.ptr.toNat + 1 + w.len.toNat < data.length ∧ w.noff.toNat + w.len.toNat ≤ DNS_QNAME_MAX then do
    let w ← w.copyLabel data
    let jump := BitVec.ofNat 16 (w.ptr.toNat + 1 + w.len.toNat)
    if data.length ≤ jump.toNat then return (w, false) else do return (← w.goto data jump, true)
  else return (w, false)

/-- The loop of `get_qname`, with the number of passes that `count` still allows. -/
def loop : Nat → Walk → Except Fault Walk
  | 0, w => .ok w
  | count + 1, w =>
    if w.len = 0 then .ok w
    else do
      let (w, more) ← w.pass data
      if more then loop count w else return w

/-- What `get_qname` does behind its loop. -/
def finish (w : Walk) : Except Fault (Option (BitVec 16) × List UInt8) :=
  if 0 < w.len ∨ w.noff = 0 then return (none, w.qname)
  else do return (some (if w.c then w.off else w.ptr + 1), ← store w.qname (w.noff.toNat - 1) [0])

end Walk

/-- `get_qname`: the offset behind the name, or `-1`, and the array of the caller with
the text of the name. -/
def get_qname (data : List UInt8) (off : BitVec 16) (qname : List UInt8) :
    Except Fault (Option (BitVec 16) × List UInt8) := do
  let qname ← store qname 0 [0]
  if data.length ≤ off.toNat then return (none, qname)
  else do
    let len ← load data off.toNat
    let w ← Walk.loop data 26 { c := false, noff := 0, ptr := off, off, len, qname }
    w.finish

namespace Walk

variable {data : List UInt8} {w : Walk}

theorem safe_copyLabel (hread : w.ptr.toNat + 1 + w.len.toNat < data.length)
    (hwrite : w.noff.toNat + w.len.toNat ≤ DNS_QNAME_MAX) (hqname : w.qname.length = 256) :
    Safe (w.copyLabel data) (·.qname.length = 256) := by
  have hmax : DNS_QNAME_MAX = 255 := rfl
  refine Safe.bind (Safe.slice (by omega)) fun bytes hbytes => ?_
  refine Safe.bind (Safe.store (by omega)) fun first hfirst => ?_
  refine Safe.bind (Safe.store (by rw [List.length_singleton]; omega)) fun second hsecond => ?_
  exact Safe.ok (by rw [hsecond, hfirst, hqname])

theorem safe_goto {jump : BitVec 16} (hjump : jump.toNat < data.length) (hqname : w.qname.length = 256) :
    Safe (w.goto data jump) (·.qname.length = 256) :=
  Safe.bind (Safe.load hjump) fun _ _ => Safe.ok hqname

theorem safe_pass (hqname : w.qname.length = 256) : Safe (w.pass data) (·.1.qname.length = 256) := by
  rw [pass]
  split
  · rename_i hpointer
    refine Safe.bind (Safe.load hpointer.1) fun low _ => ?_
    dsimp only
    split
    · exact Safe.ok hqname
    · exact Safe.bind (safe_goto (by omega) hqname) fun next hnext => Safe.ok hnext
  · split
    · rename_i hlabel
      refine Safe.bind (safe_copyLabel hlabel.1 hlabel.2 hqname) fun next hnext => ?_
      dsimp only
      split
      · exact Safe.ok hnext
      · exact Safe.bind (safe_goto (by omega) hnext) fun last hlast => Safe.ok hlast
    · exact Safe.ok hqname

theorem safe_loop {count : Nat} (hqname : w.qname.length = 256) : Safe (w.loop data count) (·.qname.length = 256) := by
  induction count generalizing w with
  | zero => exact Safe.ok hqname
  | succ count ih =>
    rw [loop]
    split
    · exact Safe.ok hqname
    · refine Safe.bind (safe_pass hqname) fun next hnext => ?_
      dsimp only
      split
      · exact ih hnext
      · exact Safe.ok hnext

/-- A text comes with its NUL. -/
theorem safe_finish (hqname : w.qname.length = 256) :
    Safe w.finish fun r => r.2.length = 256 ∧ (r.1.isSome = true → 0 ∈ r.2) := by
  rw [finish]
  split
  · exact Safe.ok ⟨hqname, fun hsome => nomatch hsome⟩
  · have hnoff := w.noff.isLt
    have hfits : w.noff.toNat - 1 + [(0 : UInt8)].length ≤ w.qname.length := by
      rw [List.length_singleton]
      omega
    have hzero : (w.qname.overwrite (w.noff.toNat - 1) [0])[w.noff.toNat - 1]? = some 0 :=
      List.getElem?_overwrite (i := 0) Nat.zero_lt_one hfits
    rw [store_of_le hfits]
    exact Safe.ok ⟨by rw [List.length_overwrite, hqname], fun _ => List.mem_of_getElem? hzero⟩

end Walk

theorem safe_get_qname (data : List UInt8) (off : BitVec 16) {qname : List UInt8} (hqname : qname.length = 256) :
    Safe (get_qname data off qname) fun r => r.2.length = 256 ∧ (r.1.isSome = true → 0 ∈ r.2) := by
  have hfits : 0 + [(0 : UInt8)].length ≤ qname.length := by
    rw [List.length_singleton]
    omega
  refine Safe.bind (Safe.store hfits) fun empty hempty => ?_
  have hlength : empty.length = 256 := hempty.trans hqname
  split
  · exact Safe.ok ⟨hlength, fun hsome => nomatch hsome⟩
  · refine Safe.bind (Safe.load (by omega)) fun len _ => ?_
    exact Safe.bind (Walk.safe_loop hlength) fun w hw => Walk.safe_finish hw

end inspector.netguard.jni
