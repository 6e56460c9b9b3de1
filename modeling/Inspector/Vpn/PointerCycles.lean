import Mathlib.Data.Finite.Prod
import Mathlib.Data.Int.Interval
import Inspector.Base.Descent
import Inspector.Vpn.HostnameText

open Relation descent

namespace inspector.vpn

namespace DNS

/-- From the beginning of a label, or of a pointer, to the next one. -/
inductive Follows (data : List UInt8) : Place → Place → Prop where
  | label {signed : Bool} {i c : Int} {w : List Int} (hc : byteAt data (signed, i) = some c) (hpositive : 0 < c)
    (hpointer : isPointer c = false) (hw : bytesAt data signed (i + 1) c.toNat = some w) :
    Follows data (signed, i) (signed, i + 1 + c)
  | pointer {signed : Bool} {i c ch : Int} (hc : byteAt data (signed, i) = some c) (hpointer : isPointer c = true)
    (hch : byteAt data (signed, i + 1) = some ch) : Follows data (signed, i) (true, target c ch)

/-- The pointers of a name come back to where they have been. -/
def Loops (data : List UInt8) (position : Nat) : Prop :=
  ∃ p, ReflTransGen (Follows data) (false, (position : Int)) p ∧ TransGen (Follows data) p p

variable {data : List UInt8}

theorem byteAt_bounds {p : Place} {c : Int} (hc : byteAt data p = some c) : -128 ≤ c ∧ c < 256 := by
  obtain ⟨b, -, rfl⟩ := Option.map_eq_some_iff.mp hc
  have hsigned := b.toBitVec.le_toInt
  have hsigned' := b.toBitVec.toInt_lt
  have hunsigned := b.toNat_lt
  unfold value
  split <;> omega

/-- A name comes to finitely many places. -/
theorem finite_reached (data : List UInt8) (p : Place) : {q | ReflTransGen (Follows data) p q}.Finite := by
  have hbounded : (insert p ((Set.univ : Set Bool) ×ˢ Set.Icc (-200 : Int) (data.length + 20000))).Finite :=
    (Set.finite_univ.prod (Set.finite_Icc _ _)).insert p
  refine hbounded.subset fun q hwalk => ?_
  rcases ReflTransGen.cases_tail hwalk with rfl | ⟨m, -, hstep⟩
  · exact Set.mem_insert _ _
  · refine Set.mem_insert_of_mem _ ⟨Set.mem_univ _, ?_⟩
    cases hstep with
    | label hc hpositive _ _ =>
      have hbounds := byteAt_bounds hc
      have hindex := lt_of_byteAt hc
      simp only [Set.mem_Icc] at hindex ⊢
      omega
    | pointer hc _ hch =>
      have hbounds := byteAt_bounds hch
      simp only [Set.mem_Icc, target]
      omega

namespace Hostname

variable {s s' : Hostname}

theorem exists_walk {q : Place} (hlabel : s.AtLabel) (hfollows : Follows data s.place q) :
    ∃ s', TransGen (Passes data) s s' ∧ s'.AtLabel ∧ s'.place = q := by
  generalize hp : s.place = p at hfollows
  cases hfollows with
  | label hc hpositive hpointer hw =>
    obtain ⟨rfl, rfl⟩ := Prod.ext_iff.mp hp
    obtain ⟨s', hwalk, hend, -, hplace, -⟩ := walk_label hlabel hc hpositive hpointer hw
    exact ⟨s', hwalk, .inr hend, hplace⟩
  | @pointer signed i c ch hc hpointer hch =>
    obtain ⟨rfl, rfl⟩ := Prod.ext_iff.mp hp
    have hlen : (s.afterPointer c ch).len = s.len := by simp [afterPointer]
    exact ⟨s.afterPointer c ch, walk_pointer hlabel hc hpointer hch, by unfold AtLabel; rwa [hlen], rfl⟩

theorem ends_of_fuel {fuel : Nat} {r : Except BufferException Hostname} (hlabel : s.AtLabel)
    (hfuel : getHostname data fuel s = some r) : Ends (Follows data) s.place := by
  induction fuel using Nat.strong_induction_on generalizing s with
  | _ fuel ih =>
    refine .intro _ fun q hfollows => ?_
    obtain ⟨s', hwalk, hlabel', rfl⟩ := exists_walk hlabel hfollows
    obtain ⟨fuel', hlt, hfuel'⟩ := exists_fuel_lt hwalk hfuel
    exact ih fuel' hlt hlabel' hfuel'

theorem returns_of_ends {p : Place} (hends : Ends (Follows data) p) (hlabel : s.AtLabel) (hplace : s.place = p) :
    ∃ r, Returns data s r := by
  induction hends generalizing s with
  | intro p _ ih =>
    subst hplace
    rcases label_cases data hlabel with hend | ⟨c, ch, hc, hpointer, hch⟩ | ⟨c, w, hc, hpositive, hpointer, hw⟩ |
      ⟨e, he⟩
    · exact ⟨_, returns_end (body_end hlabel hend)⟩
    · have hfollows : Follows data s.place (true, target c ch) := .pointer hc hpointer hch
      obtain ⟨s', hwalk, hlabel', hplace⟩ := exists_walk hlabel hfollows
      obtain ⟨r, hr⟩ := ih _ hfollows hlabel' hplace
      exact ⟨r, hr.of_walk hwalk.to_reflTransGen⟩
    · have hfollows : Follows data s.place (s.indexMode, s.place.2 + 1 + c) := .label hc hpositive hpointer hw
      obtain ⟨s', hwalk, hlabel', hplace⟩ := exists_walk hlabel hfollows
      obtain ⟨r, hr⟩ := ih _ hfollows hlabel' hplace
      exact ⟨r, hr.of_walk hwalk.to_reflTransGen⟩
    · exact ⟨_, he⟩

theorem atLabel_start (position : Nat) : (start position).AtLabel := .inl rfl

theorem place_start (position : Nat) : (start position).place = (false, (position : Int)) := rfl

/-- The loop ends unless the pointers of the name come back. -/
theorem returns_start_iff (position : Nat) : (∃ r, Returns data (start position) r) ↔ ¬ Loops data position := by
  have hiff := ends_iff (finite_reached data (false, (position : Int)))
  constructor
  · rintro ⟨r, fuel, hfuel⟩ ⟨p, hwalk, hcycle⟩
    exact hiff.mp (ends_of_fuel (atLabel_start position) hfuel) p hwalk hcycle
  · intro hloops
    refine returns_of_ends (hiff.mpr fun p hwalk hcycle => hloops ⟨p, hwalk, hcycle⟩) (atLabel_start position) rfl

end Hostname

theorem getHostname_mono {fuel fuel' : Nat} {s : Hostname} {r : Except BufferException Hostname} (hle : fuel ≤ fuel')
    (hfuel : getHostname data fuel s = some r) : getHostname data fuel' s = some r := by
  induction fuel generalizing fuel' s with
  | zero => cases hfuel
  | succ fuel ih =>
    obtain ⟨fuel', rfl⟩ : ∃ more, fuel' = more + 1 := ⟨fuel' - 1, by omega⟩
    rw [getHostname] at hfuel ⊢
    rcases hbody : s.body data with e | ⟨s', _ | _⟩
    all_goals rw [hbody] at hfuel
    · exact hfuel
    · exact ih (by omega) hfuel
    · exact hfuel

theorem Field.unique {i e e' : Nat} (hfield : Field data i e) (hfield' : Field data i e') : e = e' := by
  have hroot : isPointer 0 = false := rfl
  induction hfield with
  | root hc =>
    cases hfield' with
    | root => rfl
    | label hc' hpositive _ _ =>
      have hsame := Option.some_inj.mp (hc.symm.trans hc')
      omega
    | pointer hc' hpointer =>
      obtain rfl := Option.some_inj.mp (hc.symm.trans hc')
      cases hpointer
  | label hc hpositive hpointer _ ih =>
    cases hfield' with
    | root hc' =>
      have hsame := Option.some_inj.mp (hc.symm.trans hc')
      omega
    | label hc' _ _ hrest =>
      obtain rfl := Int.ofNat_inj.mp (Option.some_inj.mp (hc.symm.trans hc'))
      exact ih hrest
    | pointer hc' hpointer' =>
      obtain rfl := Option.some_inj.mp (hc.symm.trans hc')
      rw [hpointer] at hpointer'
      cases hpointer'
  | pointer hc hpointer =>
    cases hfield' with
    | root hc' =>
      obtain rfl := Option.some_inj.mp (hc.symm.trans hc')
      cases hpointer
    | label hc' _ hpointer' _ =>
      obtain rfl := Option.some_inj.mp (hc.symm.trans hc')
      rw [hpointer] at hpointer'
      cases hpointer'
    | pointer => rfl

end DNS

namespace Decoder

variable {α : Type} {data : List UInt8}

/-- The program comes to a name at some index. -/
inductive Comes (data : List UInt8) : Decoder α → Nat → Nat → Prop where
  | here (next : List (BitVec 16) → Decoder α) (p : Nat) : Comes data (.hostname next) p p
  | get {next : UInt8 → Decoder α} {b : UInt8} {p i : Nat} (hb : data[p]? = some b)
    (hrest : Comes data (next b) (p + 1) i) :
    Comes data (.get next) p i
  | hostname {next : List (BitVec 16) → Decoder α} {labels : List (List Int)} {p e i : Nat}
    (hname : DNS.Name data (false, (p : Int)) labels) (hfield : DNS.Field data p e)
    (hrest : Comes data (next (DNS.text labels)) e i) : Comes data (.hostname next) p i
  | position {next : Nat → Decoder α} {p i : Nat} (hrest : Comes data (next p) p i) : Comes data (.position next) p i

theorem run_mono {program : Decoder α} {fuel fuel' p : Nat} {r : Except BufferException (α × Nat)} (hle : fuel ≤ fuel')
    (hrun : program.run data fuel p = some r) : program.run data fuel' p = some r := by
  induction program generalizing p with
  | done value => exact hrun
  | get next ih =>
    rw [run] at hrun ⊢
    cases hb : data[p]? with
    | none =>
      rw [hb] at hrun
      exact hrun
    | some b =>
      rw [hb] at hrun
      exact ih b hrun
  | hostname next ih =>
    rw [run] at hrun ⊢
    cases hs : DNS.getHostname data fuel (.start p) with
    | none =>
      rw [hs] at hrun
      cases hrun
    | some result =>
      rw [hs] at hrun
      rw [DNS.getHostname_mono hle hs]
      cases result with
      | error e => exact hrun
      | ok s => exact ih s.sb hrun
  | position next ih => exact ih p hrun

/-- The name that is read at a position, and where the packet stands then. -/
theorem getHostname_of_name {labels : List (List Int)} {p e fuel : Nat} {r : Except BufferException DNS.Hostname}
    (hname : DNS.Name data (false, (p : Int)) labels) (hfield : DNS.Field data p e)
    (hfuel : DNS.getHostname data fuel (.start p) = some r) :
    ∃ s, r = .ok s ∧ s.sb = DNS.text labels ∧ s.position = e := by
  obtain ⟨s, hreturns, hsb, -, hend⟩ :=
    DNS.Hostname.returns_of_name hname (DNS.Hostname.atLabel_start p) (DNS.Hostname.place_start p)
  refine ⟨s, DNS.Hostname.Returns.unique ⟨fuel, hfuel⟩ hreturns, ?_, (hend rfl).unique hfield⟩
  rw [hsb]
  rfl

/-- What the loop has read is a name. -/
theorem exists_name {p fuel : Nat} {s : DNS.Hostname} (hfuel : DNS.getHostname data fuel (.start p) = some (.ok s)) :
    ∃ labels, DNS.Name data (false, (p : Int)) labels ∧ DNS.Field data p s.position ∧ s.sb = DNS.text labels := by
  obtain ⟨labels, hname⟩ := DNS.Hostname.name_of_returns (DNS.Hostname.atLabel_start p) hfuel
  obtain ⟨s', hreturns, hsb, -, hend⟩ :=
    DNS.Hostname.returns_of_name hname (DNS.Hostname.atLabel_start p) (DNS.Hostname.place_start p)
  obtain rfl := Except.ok.inj (DNS.Hostname.Returns.unique hreturns ⟨fuel, hfuel⟩)
  exact ⟨labels, hname, hend rfl, by rw [hsb]; rfl⟩

/-- A program ends, with a value or with an exception, unless it comes to a name whose
pointers come back. -/
theorem run_isSome_iff (program : Decoder α) (p : Nat) :
    (∃ fuel, (program.run data fuel p).isSome = true) ↔ ∀ i, program.Comes data p i → ¬ DNS.Loops data i := by
  induction program generalizing p with
  | done value =>
    constructor
    · rintro - i ⟨⟩
    · exact fun _ => ⟨0, rfl⟩
  | get next ih =>
    constructor
    · rintro ⟨fuel, hfuel⟩ i hcomes
      cases hcomes with
      | @get _ b _ _ hb hrest =>
        rw [run, hb] at hfuel
        exact (ih b (p + 1)).mp ⟨fuel, hfuel⟩ i hrest
    · intro hnames
      cases hb : data[p]? with
      | none => exact ⟨0, by rw [run, hb]; rfl⟩
      | some b =>
        obtain ⟨fuel, hfuel⟩ := (ih b (p + 1)).mpr fun i hcomes => hnames i (.get hb hcomes)
        exact ⟨fuel, by rw [run, hb]; exact hfuel⟩
  | hostname next ih =>
    constructor
    · rintro ⟨fuel, hfuel⟩ i hcomes
      rw [run] at hfuel
      cases hresult : DNS.getHostname data fuel (.start p) with
      | none =>
        rw [hresult] at hfuel
        cases hfuel
      | some result =>
        cases hcomes with
        | here => exact (DNS.Hostname.returns_start_iff p).mp ⟨result, fuel, hresult⟩
        | hostname hname hfield hrest =>
          obtain ⟨s, rfl, hsb, hend⟩ := getHostname_of_name hname hfield hresult
          rw [hresult] at hfuel
          subst hend
          rw [← hsb] at hrest
          exact (ih s.sb s.position).mp ⟨fuel, hfuel⟩ i hrest
    · intro hnames
      obtain ⟨result, fuel, hresult⟩ := (DNS.Hostname.returns_start_iff p).mpr (hnames p (.here next p))
      cases result with
      | error e => exact ⟨fuel, by rw [run, hresult]; rfl⟩
      | ok s =>
        obtain ⟨labels, hname, hfield, hsb⟩ := exists_name hresult
        obtain ⟨fuel', hfuel'⟩ := (ih s.sb s.position).mpr fun i hcomes => by
          rw [hsb] at hcomes
          exact hnames i (.hostname hname hfield hcomes)
        obtain ⟨r, hr⟩ := Option.isSome_iff_exists.mp hfuel'
        refine ⟨fuel + fuel', ?_⟩
        rw [run, DNS.getHostname_mono (Nat.le_add_right fuel fuel') hresult]
        dsimp only
        rw [run_mono (Nat.le_add_left fuel' fuel) hr]
        rfl
  | position next ih =>
    constructor
    · rintro hfuel i hcomes
      cases hcomes with
      | position hrest => exact (ih p p).mp hfuel i hrest
    · intro hnames
      exact (ih p p).mpr fun i hcomes => hnames i (.position hcomes)

end Decoder

namespace DNS

/-- The constructor ends, whatever the packet is, unless it comes to a name whose
compression pointers come back to where they have been. -/
theorem new_ends_iff (data : List UInt8) (position : Nat) :
    (∃ fuel, (new.run data fuel position).isSome = true) ↔ ∀ i, new.Comes data position i → ¬ Loops data i :=
  new.run_isSome_iff position

/-- A question whose name is a pointer to itself. -/
def selfPointer : List UInt8 :=
  List.replicate 28 0 ++ [0, 0, 0, 0, 0, 1, 0, 0, 0, 0, 0, 0] ++ [0xC0, 0x0C, 0, 1, 0, 1]

/-- The constructor never ends on it. -/
theorem new_selfPointer : ¬ ∃ fuel, (new.run selfPointer fuel 28).isSome = true := by
  rw [new.run_isSome_iff 28]
  intro hnames
  have hcomes : new.Comes selfPointer 28 40 :=
    .get rfl (.get rfl (.get rfl (.get rfl (.get rfl (.get rfl (.get rfl (.get rfl (.get rfl (.get rfl (.get rfl
      (.get rfl (.here _ 40))))))))))))
  have hfirst : Follows selfPointer (false, 40) (true, target 192 12) := .pointer rfl rfl rfl
  have hagain : Follows selfPointer (true, 40) (true, target (-64) 12) := .pointer rfl rfl rfl
  exact hnames 40 hcomes ⟨(true, 40), .single hfirst, .single hagain⟩

end DNS

end inspector.vpn
