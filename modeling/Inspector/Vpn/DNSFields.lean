import Inspector.Base.DomainMessage
import Inspector.Vpn.PointerCycles

open domain

namespace inspector.vpn

namespace Decoder

variable {α β : Type} {data : List UInt8} {program : Decoder α} {p e : Nat} {v : α}

/-- What a program ends with and where the packet stands then. -/
def Runs (data : List UInt8) (program : Decoder α) (p : Nat) (v : α) (e : Nat) : Prop :=
  ∃ fuel, program.run data fuel p = some (.ok (v, e))

theorem runs_done {w : α} : Runs data (.done w) p v e ↔ v = w ∧ e = p := by
  constructor
  · rintro ⟨fuel, hrun⟩
    cases hrun
    exact ⟨rfl, rfl⟩
  · rintro ⟨rfl, rfl⟩
    exact ⟨0, rfl⟩

theorem runs_get {next : UInt8 → Decoder α} :
    Runs data (.get next) p v e ↔ ∃ b, data[p]? = some b ∧ Runs data (next b) (p + 1) v e := by
  constructor
  · rintro ⟨fuel, hrun⟩
    rw [run] at hrun
    cases hb : data[p]? with
    | none =>
      rw [hb] at hrun
      cases hrun
    | some b =>
      rw [hb] at hrun
      exact ⟨b, rfl, fuel, hrun⟩
  · rintro ⟨b, hb, fuel, hrun⟩
    exact ⟨fuel, by rw [run, hb]; exact hrun⟩

/-- The text of a name, and the position behind its own bytes. -/
theorem runs_hostname {next : List (BitVec 16) → Decoder α} :
    Runs data (.hostname next) p v e ↔
      ∃ labels m, DNS.Name data (false, (p : Int)) labels ∧ DNS.Field data p m ∧
        Runs data (next (DNS.text labels)) m v e := by
  constructor
  · rintro ⟨fuel, hrun⟩
    rw [run] at hrun
    rcases hresult : DNS.getHostname data fuel (.start p) with _ | (error | s)
    all_goals rw [hresult] at hrun
    · cases hrun
    · cases hrun
    · obtain ⟨labels, hname, hfield, hsb⟩ := exists_name hresult
      exact ⟨labels, s.position, hname, hfield, fuel, hsb ▸ hrun⟩
  · rintro ⟨labels, m, hname, hfield, fuel, hrun⟩
    obtain ⟨s, ⟨fuel', hresult⟩, -⟩ :=
      DNS.Hostname.returns_of_name hname (DNS.Hostname.atLabel_start p) (DNS.Hostname.place_start p)
    obtain ⟨s', hs, hsb, rfl⟩ := getHostname_of_name hname hfield hresult
    cases hs
    refine ⟨fuel + fuel', ?_⟩
    rw [run, DNS.getHostname_mono (Nat.le_add_left fuel' fuel) hresult]
    dsimp only
    rw [hsb]
    exact run_mono (Nat.le_add_right fuel fuel') hrun

theorem runs_position {next : Nat → Decoder α} : Runs data (.position next) p v e ↔ Runs data (next p) p v e := Iff.rfl

/-- Two decoders one after the other run where the second goes on at the end of the first. -/
theorem runs_bind {f : α → Decoder β} {w : β} :
    Runs data (program >>= f) p w e ↔ ∃ a m, Runs data program p a m ∧ Runs data (f a) m w e := by
  induction program generalizing p with
  | done a =>
    change Runs data (f a) p w e ↔ _
    simp only [runs_done]
    constructor
    · intro hrest
      exact ⟨a, p, ⟨rfl, rfl⟩, hrest⟩
    · rintro ⟨_, _, ⟨rfl, rfl⟩, hrest⟩
      exact hrest
  | get next ih =>
    change Runs data (.get fun b => next b >>= f) p w e ↔ _
    simp only [runs_get, ih]
    constructor
    · rintro ⟨b, hb, a, m, hfirst, hrest⟩
      exact ⟨a, m, ⟨b, hb, hfirst⟩, hrest⟩
    · rintro ⟨a, m, ⟨b, hb, hfirst⟩, hrest⟩
      exact ⟨b, hb, a, m, hfirst, hrest⟩
  | hostname next ih =>
    change Runs data (.hostname fun sb => next sb >>= f) p w e ↔ _
    simp only [runs_hostname, ih]
    constructor
    · rintro ⟨labels, i, hname, hfield, a, m, hfirst, hrest⟩
      exact ⟨a, m, ⟨labels, i, hname, hfield, hfirst⟩, hrest⟩
    · rintro ⟨a, m, ⟨labels, i, hname, hfield, hfirst⟩, hrest⟩
      exact ⟨labels, i, hname, hfield, a, m, hfirst, hrest⟩
  | position next ih =>
    change Runs data (next p >>= f) p w e ↔ _
    rw [ih]
    rfl

theorem runs_pure {w : α} : Runs data (pure w : Decoder α) p v e ↔ v = w ∧ e = p := runs_done

theorem runs_replicate_zero {vs : List α} : Runs data (program.replicate 0) p vs e ↔ vs = [] ∧ e = p := runs_pure

/-- A repeated decoder runs once and then as often as is left. -/
theorem runs_replicate_succ {n : Nat} {vs : List α} : Runs data (program.replicate (n + 1)) p vs e ↔
    ∃ v rest m, vs = v :: rest ∧ Runs data program p v m ∧ Runs data (program.replicate n) m rest e := by
  simp only [replicate, runs_bind, runs_pure]
  constructor
  · rintro ⟨v, m, hfirst, rest, _, hrest, rfl, rfl⟩
    exact ⟨v, rest, m, rfl, hfirst, hrest⟩
  · rintro ⟨v, rest, m, rfl, hfirst, hrest⟩
    exact ⟨v, m, hfirst, rest, e, hrest, rfl, rfl⟩

end Decoder

namespace DNS

open Decoder

variable {data : List UInt8} {p e n : Nat}

/-- One byte is read where the message has one. -/
theorem runs_getByte {b : UInt8} : Runs data getByte p b e ↔ data[p]? = some b ∧ e = p + 1 := by
  simp only [getByte, runs_get, runs_done]
  constructor
  · rintro ⟨b', hb, rfl, rfl⟩
    exact ⟨hb, rfl⟩
  · rintro ⟨hb, rfl⟩
    exact ⟨b, hb, rfl, rfl⟩

/-- Two bytes are read as a number in network order. -/
theorem runs_get16Bits : Runs data get16Bits p n e ↔ U16 data p n ∧ e = p + 2 := by
  simp only [get16Bits, runs_bind, runs_getByte, runs_pure]
  constructor
  · rintro ⟨hi, _, ⟨hhi, rfl⟩, lo, _, ⟨hlo, rfl⟩, rfl, rfl⟩
    exact ⟨⟨hi, lo, hhi, hlo, rfl⟩, rfl⟩
  · rintro ⟨⟨hi, lo, hhi, hlo, rfl⟩, rfl⟩
    exact ⟨hi, p + 1, ⟨hhi, rfl⟩, lo, p + 2, ⟨hlo, rfl⟩, rfl, rfl⟩

/-- Four bytes are read as a number in network order. -/
theorem runs_get32Bits : Runs data get32Bits p n e ↔ U32 data p n ∧ e = p + 4 := by
  simp only [get32Bits, runs_bind, runs_get16Bits, runs_pure]
  constructor
  · rintro ⟨hi, _, ⟨hhi, rfl⟩, lo, _, ⟨hlo, rfl⟩, rfl, rfl⟩
    exact ⟨⟨hi, lo, hhi, hlo, rfl⟩, rfl⟩
  · rintro ⟨⟨hi, lo, hhi, hlo, rfl⟩, rfl⟩
    exact ⟨hi, p + 2, ⟨hhi, rfl⟩, lo, p + 4, ⟨hlo, rfl⟩, rfl, rfl⟩

theorem runs_hostname {sb : List (BitVec 16)} : Runs data hostname p sb e ↔
    ∃ labels, Name data (false, (p : Int)) labels ∧ Field data p e ∧ sb = text labels := by
  simp only [hostname, Decoder.runs_hostname, runs_done]
  constructor
  · rintro ⟨labels, m, hname, hfield, rfl, rfl⟩
    exact ⟨labels, hname, hfield, rfl⟩
  · rintro ⟨labels, hname, hfield, rfl⟩
    exact ⟨labels, e, hname, hfield, rfl, rfl⟩

/-- Bytes in a row. -/
theorem runs_bytes {w : List UInt8} (hw : Bytes data p n w) (v : List UInt8) :
    Runs data (getByte.replicate n) p v e ↔ v = w ∧ e = p + n := by
  induction n generalizing p w v with
  | zero =>
    obtain rfl := List.length_eq_zero_iff.mp hw.1
    exact runs_replicate_zero
  | succ n ih =>
    cases w with
    | nil => cases hw.1
    | cons b w =>
      have hb : data[p]? = some b := hw.getElem? (Nat.succ_pos n)
      have hrest := fun v => ih hw.tail v
      simp only [runs_replicate_succ, runs_getByte]
      constructor
      · rintro ⟨b', rest, -, rfl, ⟨hb', rfl⟩, hruns⟩
        obtain ⟨rfl, rfl⟩ := (hrest _).mp hruns
        exact ⟨by rw [Option.some_inj.mp (hb.symm.trans hb')], by omega⟩
      · rintro ⟨rfl, rfl⟩
        exact ⟨b, w, p + 1, rfl, ⟨hb, rfl⟩, (hrest _).mpr ⟨rfl, by omega⟩⟩

/-- A question is a name, a type and a class. -/
theorem runs_question {q : Question} : Runs data question p q e ↔
    ∃ labels m, Name data (false, (p : Int)) labels ∧ Field data p m ∧ q.hostname = text labels ∧ U16 data m q.type ∧
      U16 data (m + 2) q.queryClass ∧ e = m + 4 := by
  simp only [question, runs_bind, runs_hostname, runs_get16Bits, runs_pure]
  constructor
  · rintro ⟨_, m, ⟨labels, hname, hfield, rfl⟩, type, _, ⟨htype, rfl⟩, queryClass, _, ⟨hclass, rfl⟩, rfl, rfl⟩
    exact ⟨labels, m, hname, hfield, rfl, htype, hclass, rfl⟩
  · rintro ⟨labels, m, hname, hfield, hhostname, htype, hclass, rfl⟩
    obtain ⟨hostname, type, queryClass⟩ := q
    subst hhostname
    exact ⟨_, m, ⟨labels, hname, hfield, rfl⟩, type, m + 2, ⟨htype, rfl⟩, queryClass, m + 4, ⟨hclass, rfl⟩, rfl, rfl⟩

/-- An answer is a question with a time to live, a length and the data of its type. -/
theorem runs_answer {a : Answer} : Runs data answer p a e ↔
    ∃ q m, Runs data question p a.toQuestion q ∧ U32 data q a.ttl ∧ U16 data (q + 4) a.length ∧ m = q + 6 ∧
      Runs data (answerData a.type) m (a.address, a.canonicalName) e ∧ a.start = p := by
  simp only [answer, runs_bind, runs_position, runs_done, runs_get32Bits, runs_get16Bits, runs_pure]
  constructor
  · rintro ⟨_, _, ⟨rfl, rfl⟩, q, m, hq, ttl, _, ⟨httl, rfl⟩, length, _, ⟨hlength, rfl⟩, ⟨address, name⟩, _, hdata, rfl,
      rfl⟩
    exact ⟨m, m + 6, hq, httl, hlength, rfl, hdata, rfl⟩
  · rintro ⟨q, m, hq, httl, hlength, rfl, hdata, hstart⟩
    obtain ⟨question, ttl, length, address, name, start⟩ := a
    exact ⟨p, p, ⟨rfl, rfl⟩, question, q, hq, ttl, q + 4, ⟨httl, rfl⟩, length, q + 6, ⟨hlength, rfl⟩, (address, name),
      e, hdata, by rw [← hstart], rfl⟩

end DNS

end inspector.vpn
