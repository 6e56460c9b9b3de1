import Mathlib.Algebra.Order.Ring.Int
import Mathlib.Data.Set.Basic
import Inspector.Vpn.Invariant

namespace inspector.vpn

def TcpDirection.opposite : TcpDirection → TcpDirection
  | .ToServer => .ToClient
  | .ToClient => .ToServer

namespace TCPDispatcher.Fin

/-- The constructor, as `handleFin` calls it. -/
def new (fin : TcpSegment) (direction : TcpDirection) (time : BitVec 64) : TCPDispatcher.Fin where
  fin
  forward := direction = .ToServer
  time

/-- The contract of `Comparable`, among some FINs. -/
structure ConsistentOn (fins : Set TCPDispatcher.Fin) : Prop where
  antisymm : ∀ a ∈ fins, ∀ b ∈ fins, (a.compareTo b).toInt.sign = -(b.compareTo a).toInt.sign
  trans : ∀ a ∈ fins, ∀ b ∈ fins, ∀ c ∈ fins, (a.compareTo b).toInt ≤ 0 → (b.compareTo c).toInt ≤ 0 →
    (a.compareTo c).toInt ≤ 0
  congr : ∀ a ∈ fins, ∀ b ∈ fins, ∀ c ∈ fins, (a.compareTo b).toInt = 0 →
    (a.compareTo c).toInt.sign = (b.compareTo c).toInt.sign

/-- The sign of a comparison is that of the difference of the times. -/
def SignsAgree (a b : TCPDispatcher.Fin) : Prop :=
  (a.compareTo b).toInt.sign = (a.time - b.time).toInt.sign

theorem sign_sub_nonpos_iff {i j : Int} : (i - j).sign ≤ 0 ↔ i ≤ j := by
  rw [Int.sign_nonpos_iff]
  omega

/-- Comparisons that are those of some numbers. -/
theorem consistentOn_of_rank {fins : Set TCPDispatcher.Fin} (rank : TCPDispatcher.Fin → Int)
    (hrank : ∀ a ∈ fins, ∀ b ∈ fins, (a.compareTo b).toInt.sign = (rank a - rank b).sign) : ConsistentOn fins where
  antisymm a ha b hb := by
    rw [hrank a ha b hb, hrank b hb a ha, ← Int.sign_neg, Int.neg_sub]
  trans a ha b hb c hc hab hbc := by
    rw [← Int.sign_nonpos_iff, hrank a ha b hb, sign_sub_nonpos_iff] at hab
    rw [← Int.sign_nonpos_iff, hrank b hb c hc, sign_sub_nonpos_iff] at hbc
    rw [← Int.sign_nonpos_iff, hrank a ha c hc, sign_sub_nonpos_iff]
    exact Int.le_trans hab hbc
  congr a ha b hb c hc hab := by
    have hsame := hrank a ha b hb
    rw [hab, Int.sign_zero, eq_comm, Int.sign_eq_zero_iff_zero] at hsame
    rw [hrank a ha c hc, hrank b hb c hc, Int.eq_of_sub_eq_zero hsame]

section Pair

variable {a b : TCPDispatcher.Fin}

theorem toInt_compareTo (a b : TCPDispatcher.Fin) : (a.compareTo b).toInt = (a.time - b.time).toInt.bmod (2 ^ 32) := by
  rw [compareTo, BitVec.toInt_setWidth, BitVec.toInt_eq_toNat_cond]
  simp only [Int.bmod_def]
  split <;> omega

/-- The difference of the times the other way. -/
theorem toInt_sub_comm (a b : TCPDispatcher.Fin) :
    (b.time - a.time).toInt = (-(a.time - b.time).toInt).bmod (2 ^ 64) := by
  simp only [BitVec.toInt_sub, Int.bmod_def]
  omega

/-- FINs whose times are less than 2^31 nanoseconds apart. -/
def Close (a b : TCPDispatcher.Fin) : Prop := (a.time - b.time).toInt.natAbs < 2 ^ 31

theorem toInt_compareTo_of_close (hclose : a.Close b) : (a.compareTo b).toInt = (a.time - b.time).toInt := by
  unfold Close at hclose
  rw [toInt_compareTo]
  exact Int.bmod_eq_of_le (by omega) (by omega)

/-- FINs that all arrive within little time are compared as they should be. -/
theorem consistentOn_of_close {fins : Set TCPDispatcher.Fin} (hclose : ∀ a ∈ fins, ∀ b ∈ fins, a.Close b) :
    ConsistentOn fins ∧ ∀ a ∈ fins, ∀ b ∈ fins, a.SignsAgree b := by
  refine ⟨?_, fun a ha b hb => congrArg Int.sign (toInt_compareTo_of_close (hclose a ha b hb))⟩
  rcases fins.eq_empty_or_nonempty with rfl | ⟨base, hbase⟩
  · exact consistentOn_of_rank (fun _ => 0) fun a ha => absurd ha (Set.notMem_empty a)
  · refine consistentOn_of_rank (fun a => (a.time - base.time).toInt) fun a ha b hb => ?_
    have hfirst := hclose a ha base hbase
    have hsecond := hclose b hb base hbase
    unfold Close at hfirst hsecond
    rw [toInt_compareTo_of_close (hclose a ha b hb)]
    congr 1
    simp only [BitVec.toInt_sub, Int.bmod_def] at hfirst hsecond ⊢
    omega

/-- A FIN that is no earlier than another one, and compared so both ways. -/
theorem consistentOn_pair (hlater : b.SignsAgree a) (hearlier : a.SignsAgree b)
    (hnonneg : 0 ≤ (b.time - a.time).toInt) :
    ConsistentOn {a, b} := by
  unfold SignsAgree at hlater hearlier
  have hback := toInt_sub_comm b a
  have hlt := (b.time - a.time).toInt_lt
  rw [Int.bmod_eq_of_le (by omega) (by omega)] at hback
  have hself : ∀ c : TCPDispatcher.Fin, (c.compareTo c).toInt = 0 := by
    intro c
    rw [toInt_compareTo, BitVec.sub_self]
    rfl
  refine consistentOn_of_rank (fun c => (c.time - a.time).toInt) ?_
  have hzero : (a.time - a.time).toInt = 0 := by
    rw [BitVec.sub_self]
    rfl
  rintro c (rfl | rfl) d (rfl | rfl)
  · simp [hself]
  · rw [hearlier, hback, hzero, Int.zero_sub]
  · rw [hlater, hzero, Int.sub_zero]
  · simp [hself]

end Pair

end TCPDispatcher.Fin

/-- The times after which two FINs are compared as they should be, when the first one
is in this direction. -/
def InTime (direction : TcpDirection) (elapsed : BitVec 64) : Prop :=
  (elapsed = 0 ∧ direction = .ToServer) ∨
    (0 < elapsed.toInt ∧ 0 < elapsed.toInt % 2 ^ 32 ∧ elapsed.toInt % 2 ^ 32 < 2 ^ 31)

instance (direction : TcpDirection) (elapsed : BitVec 64) : Decidable (InTime direction elapsed) :=
  inferInstanceAs (Decidable (_ ∨ _))

namespace Session

def remembered (s : Session) : TcpDirection → Option TCPDispatcher.Fin
  | .ToServer => s.tcp.toServerFin
  | .ToClient => s.tcp.toClientFin

theorem remembered_handleFin (s : Session) (segment : TcpSegment) (direction : TcpDirection) (time : BitVec 64) :
    (s.handleFin segment direction time).1.remembered direction = some (.new segment direction time) := by
  rw [handleFin_eq]
  cases direction <;> rfl

/-- The acknowledgements of two FINs are sent as the FINs have arrived, and the
comparison is that of their times. -/
structure Ordered (before after : List Event) (first second : TCPDispatcher.Fin) : Prop where
  acks : after = before ++ [first.ackEvent, second.ackEvent]
  later : second.SignsAgree first
  earlier : first.SignsAgree second
  consistent : TCPDispatcher.Fin.ConsistentOn {first, second}

variable {s : Session} {first : TCPDispatcher.Fin} {segment : TcpSegment} {direction : TcpDirection}
  {time arrival : BitVec 64}

theorem acks_of_swap_iff {x y : TCPDispatcher.Fin} (hne : x.forward ≠ y.forward) (log : List Event) (swap : Prop)
    [Decidable swap] :
    log ++ (if swap then [y, x] else [x, y]).map TCPDispatcher.Fin.ackEvent = log ++ [x.ackEvent, y.ackEvent] ↔
      ¬ swap := by
  rw [List.append_cancel_left_eq]
  by_cases hswap : swap
  · rw [if_pos hswap]
    simp only [List.map_cons, List.map_nil, List.cons.injEq, hswap, not_true, iff_false, not_and]
    intro hsame
    injection hsame with _ _ hforward
    exact absurd hforward.symm hne
  · simp [hswap]

/-- The FIN that has arrived first is acknowledged first unless the sort moves it. -/
theorem acks_iff {fin : TcpSegment} (segment : TcpSegment) (arrival : BitVec 64)
    (hfirst : s.remembered direction = some (.new fin direction time)) :
    (s.handleFin segment direction.opposite arrival).1.log =
        s.log ++ [(TCPDispatcher.Fin.new fin direction time).ackEvent,
          (TCPDispatcher.Fin.new segment direction.opposite arrival).ackEvent] ↔
      (direction = .ToServer → 0 ≤ (arrival - time).toInt.bmod (2 ^ 32)) ∧
        (direction = .ToClient → (time - arrival).toInt.bmod (2 ^ 32) < 0) := by
  rw [handleFin_eq]
  cases direction with
  | ToServer =>
    have hserver : s.tcp.toServerFin = some (.new fin .ToServer time) := hfirst
    have hcompare := TCPDispatcher.Fin.toInt_compareTo (.new segment .ToClient arrival) (.new fin .ToServer time)
    simp only [TcpDirection.opposite, rememberFin, hserver, TCPDispatcher.Fin.both, TCPDispatcher.Fin.sort]
    refine (acks_of_swap_iff (by simp [TCPDispatcher.Fin.new]) s.log _).trans ?_
    rw [BitVec.slt_iff_toInt_lt, Int.not_lt]
    refine (iff_of_eq (congrArg (0 ≤ ·) hcompare)).trans ?_
    simp [TCPDispatcher.Fin.new]
  | ToClient =>
    have hclient : s.tcp.toClientFin = some (.new fin .ToClient time) := hfirst
    have hcompare := TCPDispatcher.Fin.toInt_compareTo (.new fin .ToClient time) (.new segment .ToServer arrival)
    simp only [TcpDirection.opposite, rememberFin, hclient, TCPDispatcher.Fin.both, TCPDispatcher.Fin.sort]
    rw [← ite_not]
    refine (acks_of_swap_iff (by simp [TCPDispatcher.Fin.new]) s.log _).trans ?_
    rw [not_not, BitVec.slt_iff_toInt_lt]
    refine (iff_of_eq (congrArg (· < 0) hcompare)).trans ?_
    simp [TCPDispatcher.Fin.new]

theorem sign_bmod_eq_iff {d : Int} (hlow : -2 ^ 63 ≤ d) (hhigh : d < 2 ^ 63) :
    (d.bmod (2 ^ 32)).sign = d.sign ↔
      d = 0 ∨ (0 < d ∧ 0 < d % 2 ^ 32 ∧ d % 2 ^ 32 < 2 ^ 31) ∨ (d < 0 ∧ 2 ^ 31 ≤ d % 2 ^ 32) := by
  rcases Int.lt_trichotomy d 0 with hneg | rfl | hpos
  · rw [Int.sign_eq_neg_one_of_neg hneg, Int.sign_eq_neg_one_iff_neg, Int.bmod_def]
    split <;> omega
  · simp
  · rw [Int.sign_eq_one_of_pos hpos, Int.sign_eq_one_iff_pos, Int.bmod_def]
    split <;> omega

/-- What the sort and the comparisons need of a time and of the time the other way. -/
theorem inTime_iff {elapsed back : BitVec 64} (hback : back.toInt = (-elapsed.toInt).bmod (2 ^ 64)) :
    InTime direction elapsed ↔
      ((direction = .ToServer → 0 ≤ elapsed.toInt.bmod (2 ^ 32)) ∧
        (direction = .ToClient → back.toInt.bmod (2 ^ 32) < 0)) ∧
      (elapsed.toInt.bmod (2 ^ 32)).sign = elapsed.toInt.sign ∧ (back.toInt.bmod (2 ^ 32)).sign = back.toInt.sign := by
  have hzero : elapsed = 0 ↔ elapsed.toInt = 0 := by
    rw [← BitVec.toInt_inj]
    rfl
  have hlow := elapsed.le_toInt
  have hhigh := elapsed.toInt_lt
  unfold InTime
  rw [hzero, sign_bmod_eq_iff hlow hhigh, sign_bmod_eq_iff back.le_toInt back.toInt_lt]
  generalize elapsed.toInt = d at *
  generalize back.toInt = e at *
  cases direction with
  | ToServer =>
    simp only [forall_const, reduceCtorEq, false_implies, and_true, Int.bmod_def] at hback ⊢
    omega
  | ToClient =>
    simp only [forall_const, reduceCtorEq, false_implies, true_and, and_false, false_or, Int.bmod_def] at hback ⊢
    omega

/-- Two FINs are acknowledged and compared as they have arrived exactly after these times,
and the comparison is consistent among FINs that all arrive within little time. -/
theorem ordered_iff {fin : TcpSegment} (hfirst : s.remembered direction = some (.new fin direction time)) :
    (Ordered s.log (s.handleFin segment direction.opposite arrival).1.log (.new fin direction time)
        (.new segment direction.opposite arrival) ↔ InTime direction (arrival - time)) ∧
      ∀ fins : Set TCPDispatcher.Fin, (∀ a ∈ fins, ∀ b ∈ fins, a.Close b) →
        TCPDispatcher.Fin.ConsistentOn fins ∧ ∀ a ∈ fins, ∀ b ∈ fins, a.SignsAgree b := by
  refine ⟨?_, fun fins => TCPDispatcher.Fin.consistentOn_of_close⟩
  have hback : (time - arrival).toInt = (-(arrival - time).toInt).bmod (2 ^ 64) :=
    TCPDispatcher.Fin.toInt_sub_comm (.new segment direction.opposite arrival) (.new fin direction time)
  have hlater : (TCPDispatcher.Fin.new segment direction.opposite arrival).SignsAgree (.new fin direction time) ↔
      ((arrival - time).toInt.bmod (2 ^ 32)).sign = (arrival - time).toInt.sign := by
    unfold TCPDispatcher.Fin.SignsAgree
    rw [TCPDispatcher.Fin.toInt_compareTo]
    rfl
  have hearlier : (TCPDispatcher.Fin.new fin direction time).SignsAgree (.new segment direction.opposite arrival) ↔
      ((time - arrival).toInt.bmod (2 ^ 32)).sign = (time - arrival).toInt.sign := by
    unfold TCPDispatcher.Fin.SignsAgree
    rw [TCPDispatcher.Fin.toInt_compareTo]
    rfl
  rw [inTime_iff hback, ← acks_iff segment arrival hfirst]
  constructor
  · rintro ⟨hacks, hsecond, hsign, -⟩
    exact ⟨hacks, hlater.mp hsecond, hearlier.mp hsign⟩
  · rintro ⟨hacks, hsecond, hsign⟩
    have hin : InTime direction (arrival - time) :=
      (inTime_iff hback).mpr ⟨(acks_iff segment arrival hfirst).mp hacks, hsecond, hsign⟩
    have hnonneg : 0 ≤ (arrival - time).toInt := by
      rcases hin with ⟨hzero, -⟩ | ⟨hpos, -, -⟩
      · rw [hzero]
        decide
      · exact Int.le_of_lt hpos
    exact ⟨hacks, hlater.mpr hsecond, hearlier.mpr hsign,
      TCPDispatcher.Fin.consistentOn_pair (hlater.mpr hsecond) (hearlier.mpr hsign) hnonneg⟩

def appFin : TcpSegment := { TcpPacketBuilder ⟨1, 40000⟩ ⟨2, 80⟩ with seq := 1, ack := 8, isFin := true }

def ownFin : TcpSegment := { TcpPacketBuilder ⟨2, 80⟩ ⟨1, 40000⟩ with seq := 8, ack := 2, isFin := true }

/-- The app has closed its side at time zero. -/
def appClosed : Session :=
  ((Session.new ⟨⟨1, 40000⟩, ⟨2, 80⟩⟩ (TcpPacketBuilder ⟨1, 40000⟩ ⟨2, 80⟩) 7).handleFin appFin .ToServer 0).1

theorem ordered_iff_one_second :
    (Ordered appClosed.log (appClosed.handleFin ownFin .ToClient 1000000000).1.log (.new appFin .ToServer 0)
        (.new ownFin .ToClient 1000000000) ↔ InTime .ToServer (1000000000 - 0)) ∧
      ∀ fins : Set TCPDispatcher.Fin, (∀ a ∈ fins, ∀ b ∈ fins, a.Close b) →
        TCPDispatcher.Fin.ConsistentOn fins ∧ ∀ a ∈ fins, ∀ b ∈ fins, a.SignsAgree b :=
  ordered_iff (s := appClosed) (remembered_handleFin _ appFin .ToServer 0)

/-- The other FIN arrives three seconds later, and is acknowledged first. -/
theorem late_fin_first :
    (appClosed.handleFin ownFin .ToClient 3000000000).1.log =
      appClosed.log ++ [(TCPDispatcher.Fin.new ownFin .ToClient 3000000000).ackEvent,
        (TCPDispatcher.Fin.new appFin .ToServer 0).ackEvent] ∧
    ¬ Ordered appClosed.log (appClosed.handleFin ownFin .ToClient 3000000000).1.log (.new appFin .ToServer 0)
      (.new ownFin .ToClient 3000000000) := by
  have hlog : (appClosed.handleFin ownFin .ToClient 3000000000).1.log =
      appClosed.log ++ [(TCPDispatcher.Fin.new ownFin .ToClient 3000000000).ackEvent,
        (TCPDispatcher.Fin.new appFin .ToServer 0).ackEvent] := by decide
  refine ⟨hlog, fun hordered => ?_⟩
  have hacks := hordered.acks
  rw [hlog] at hacks
  revert hacks
  decide

end Session

end inspector.vpn
