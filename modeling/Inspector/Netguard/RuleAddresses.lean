import Mathlib.Data.List.ReduceOption
import Inspector.Base.Machine
import Inspector.Netguard.RuleExactness

open machine regex text

namespace inspector.netguard

/-! The pattern that the text of a rule is compiled to. -/
section Compiled

/-- Stars are replaced in the host of a rule. -/
def withoutStars (s : List Char) : List Char := s.flatMap fun c => if c = '*' then "[\\d\\.]+".toList else [c]

/-- Digits have no stars. -/
theorem withoutStars_digits {s : List Char} (hs : ∀ c ∈ s, c.isDigit = true) : withoutStars s = s := by
  induction s with
  | nil => rfl
  | cons c s ih =>
    obtain ⟨hc, hrest⟩ := List.forall_mem_cons.mp hs
    have hstar : c ≠ '*' := by
      rintro rfl
      revert hc
      decide
    unfold withoutStars at ih ⊢
    rw [List.flatMap_cons, if_neg hstar, ih hrest]
    rfl

/-- The stars of a text are those of its parts. -/
theorem withoutStars_append (s t : List Char) : withoutStars (s ++ t) = withoutStars s ++ withoutStars t :=
  List.flatMap_append

/-- A dot stays a dot. -/
theorem withoutStars_dot (s : List Char) : withoutStars ('.' :: s) = ['.'] ++ withoutStars s := rfl

/-- A digit stands for itself in a pattern. -/
theorem isPlain_of_isDigit {c : Char} (hc : c.isDigit = true) : isPlain c = true := by
  simp [isPlain, Char.isAlphanum, hc]

/-- Digits are compiled to themselves. -/
theorem reads_digits {s : List Char} (hs : ∀ c ∈ s, c.isDigit = true) : Reads s (s.map literal) :=
  Reads.literals fun c hc => isPlain_of_isDigit (hs c hc)

/-- A dot is compiled to a piece that matches any sign. -/
theorem reads_dot : Reads ['.'] [dotPiece] := by
  intro rest
  rw [List.singleton_append, tokens]
  cases tokens rest none <;> rfl

/-- What is put for a star is compiled to digits and dots. -/
theorem reads_star : Reads "[\\d\\.]+".toList [starPiece] := by
  intro rest
  have htext : "[\\d\\.]+".toList = ['[', '\\', 'd', '\\', '.', ']', '+'] := by decide
  rw [htext]
  simp only [List.cons_append, List.nil_append, tokens, escape]
  cases tokens rest none <;> rfl

/-- The text of a part is compiled to its pattern. -/
theorem Part.reads {p : Part} (hp : p.WellFormed) : Reads (withoutStars p.text) p.pattern := by
  cases p with
  | star => exact reads_star
  | octet digits =>
    obtain ⟨n, -, hdigits⟩ := hp
    obtain ⟨-, hall⟩ := digits_of_number hdigits
    rw [Part.text, withoutStars_digits hall]
    exact reads_digits hall

/-- The text of a host is compiled to its pattern. -/
theorem Host.reads {h : Host} (hw : h.WellFormed) : Reads (withoutStars h.text) h.pattern := by
  cases h with
  | any => exact reads_star
  | parts p₁ p₂ p₃ p₄ =>
    obtain ⟨hw₁, hw₂, hw₃, hw₄⟩ := hw
    have hfour := (Part.reads hw₁).append (reads_dot.append ((Part.reads hw₂).append (reads_dot.append
      ((Part.reads hw₃).append (reads_dot.append (Part.reads hw₄))))))
    rw [Host.text]
    simp only [withoutStars_append, withoutStars_dot]
    exact hfour

/-- A part makes no group. -/
theorem Part.group_pattern {p : Part} : ∀ piece ∈ p.pattern, piece.group = 0 := by
  cases p with
  | star => simp [Part.pattern, starPiece]
  | octet digits => simp [Part.pattern, literal]

/-- Neither does a host. -/
theorem Host.group_pattern {h : Host} : ∀ piece ∈ h.pattern, piece.group = 0 := by
  cases h with
  | any => simp [Host.pattern, starPiece]
  | parts p₁ p₂ p₃ p₄ =>
    simp only [Host.pattern, List.mem_append, List.mem_cons]
    rintro piece (hp | rfl | hp | rfl | hp | rfl | hp)
    all_goals first | exact Part.group_pattern piece hp | rfl

/-- The pattern of a rule is that of its host with the port behind it. -/
theorem compile_patternText {h : Host} {port : List Char} (hw : h.WellFormed) (hport : ∀ c ∈ port, c.isDigit = true) :
    compile (TcpRedirectRule.patternText h.text port) = some (h.pattern ++ (':' :: port).map literal) := by
  have hcolon : ∀ c ∈ ':' :: port, isPlain c = true :=
    List.forall_mem_cons.mpr ⟨by decide, fun c hc => isPlain_of_isDigit (hport c hc)⟩
  refine ((Host.reads hw).append (Reads.literals hcolon)).compile fun piece hpiece => ?_
  rcases List.mem_append.mp hpiece with hpiece | hpiece
  · exact Host.group_pattern piece hpiece
  · obtain ⟨c, -, rfl⟩ := List.mem_map.mp hpiece
    rfl

end Compiled

/-- The pattern of a rule matches a host and a port. -/
theorem matches_host_port {ps : Pattern} {addr port dport : List Char} (hport : ':' ∉ port) (hdport : ':' ∉ dport) :
    «matches» (ps ++ (':' :: port).map literal) (addr ++ ':' :: dport) = true ↔
      «matches» ps addr = true ∧ dport = port := by
  simp only [matches_append, matches_literals]
  constructor
  · rintro ⟨w, _, hwhole, hw, rfl⟩
    obtain ⟨rfl, rfl⟩ := behind_inj addr w hdport hport hwhole
    exact ⟨hw, rfl⟩
  · rintro ⟨haddr, rfl⟩
    exact ⟨addr, _, rfl, haddr, rfl⟩

/-- Digits have no colon. -/
theorem colon_not_mem_of_digits {s : List Char} (hs : ∀ c ∈ s, c.isDigit = true) : ':' ∉ s := by
  intro hcolon
  have hdigit := hs ':' hcolon
  revert hdigit
  decide

/-- A host stands for some address. -/
theorem Host.exists_denotes {h : Host} (hw : h.WellFormed) :
    ∃ a b c d, a < 256 ∧ b < 256 ∧ c < 256 ∧ d < 256 ∧ h.Denotes a b c d := by
  cases h with
  | any => exact ⟨0, 0, 0, 0, by decide, by decide, by decide, by decide, trivial⟩
  | parts p₁ p₂ p₃ p₄ =>
    obtain ⟨hw₁, hw₂, hw₃, hw₄⟩ := hw
    exact ⟨_, _, _, _, Part.sample_lt hw₁, Part.sample_lt hw₂, Part.sample_lt hw₃, Part.sample_lt hw₄,
      Part.denotes_sample hw₁, Part.denotes_sample hw₂, Part.denotes_sample hw₃, Part.denotes_sample hw₄⟩

/-- A packet to an IPv4 address. -/
structure Packet.IsTo (packet : Packet) (a b c d : BitVec 8) (port : BitVec 16) : Prop where
  daddr : packet.daddr = String.ofList (dotted a.toNat b.toNat c.toNat d.toNat)
  dport : packet.dport = port.toNat

namespace TcpRedirectRule

variable {rule : TcpRedirectRule} {packet : Packet} {a b c d : BitVec 8} {dport : BitVec 16}

/-- The rule redirects what is sent to an address and a port of its own, and nothing else. -/
def Exact (rule : TcpRedirectRule) (h : Host) (port : Nat) (target : Allowed) : Prop :=
  ∀ (packet : Packet) (a b c d : BitVec 8) (dport : BitVec 16), packet.IsTo a b c d dport →
    (rule.createRedirect packet = some target ↔ h.Denotes a.toNat b.toNat c.toNat d.toNat ∧ port = dport.toNat)

/-- The rule for a host and the text of a port. -/
structure IsRule (rule : TcpRedirectRule) (h : Host) (port : List Char) (target : Allowed) : Prop where
  pattern : ∀ s : String, rule.socketPattern s = «matches» (h.pattern ++ (':' :: port).map literal) s.toList
  target : target = { raddr := some rule.redirectAddr, rport := rule.redirectPort }

/-- A rule redirects the packets whose address its host matches and whose port it has. -/
theorem createRedirect_eq_some {h : Host} {port : List Char} {target : Allowed} (hrule : rule.IsRule h port target)
    (hport : ∀ c ∈ port, c.isDigit = true) (hto : packet.IsTo a b c d dport) :
    rule.createRedirect packet = some target ↔
      «matches» h.pattern (dotted a.toNat b.toNat c.toNat d.toNat) = true ∧ decimal dport.toNat = port := by
  have htext : (packet.daddr ++ ":" ++ toString packet.dport).toList =
      dotted a.toNat b.toNat c.toNat d.toNat ++ ':' :: decimal dport.toNat := by
    have hnumber : (toString (dport.toNat : Int)).toList = decimal dport.toNat := Nat.toList_repr
    rw [hto.daddr, hto.dport, String.toList_append, String.toList_append, hnumber, String.toList_ofList,
      List.append_assoc]
    rfl
  unfold createRedirect isMatch
  rw [hrule.pattern, htext, ← matches_host_port (colon_not_mem_of_digits hport)
    (colon_not_mem_of_digits fun c => isDigit_of_mem_decimal), hrule.target]
  split <;> simp_all

/-- A rule matches exactly what it stands for if it has no zeros in front of a number
and its host is clear, or if its port is none. -/
theorem exact_iff {h : Host} {text : List Char} {port : Nat} {target : Allowed} (hw : h.WellFormed)
    (hrule : rule.IsRule h text target) (hport : number 10 text = some port) :
    rule.Exact h port target ↔ 65535 < port ∨ (text = decimal port ∧ h.Canonical ∧ h.Clear) := by
  obtain ⟨-, hdigits⟩ := digits_of_number hport
  constructor
  · intro hexact
    rw [or_iff_not_imp_left, Nat.not_lt]
    intro hle
    have hredirects : ∀ a b c d, a < 256 → b < 256 → c < 256 → d < 256 →
        (h.Denotes a b c d ↔ «matches» h.pattern (dotted a b c d) = true ∧ decimal port = text) := by
      intro a b c d ha hb hc hd
      have hsmall : port % 65536 = port := Nat.mod_eq_of_lt (by omega)
      have hto : Packet.IsTo
          { version := 4, protocol := 6, daddr := String.ofList (dotted a b c d), dport := port, uid := 0 }
          (BitVec.ofNat 8 a) (BitVec.ofNat 8 b) (BitVec.ofNat 8 c) (BitVec.ofNat 8 d) (BitVec.ofNat 16 port) :=
        ⟨by simp [Nat.mod_eq_of_lt, ha, hb, hc, hd], by simp; omega⟩
      have hboth := hexact _ _ _ _ _ _ hto
      rw [createRedirect_eq_some hrule hdigits hto] at hboth
      simpa [Nat.mod_eq_of_lt, ha, hb, hc, hd, hsmall] using hboth.symm
    obtain ⟨a, b, c, d, ha, hb, hc, hd, hdenotes⟩ := Host.exists_denotes hw
    have htext := ((hredirects a b c d ha hb hc hd).mp hdenotes).2
    refine ⟨htext.symm, (Host.matches_exactly hw).mp fun a b c d ha hb hc hd => ?_⟩
    rw [hredirects a b c d ha hb hc hd, and_iff_left htext]
  · intro hwhen packet a b c d dport hto
    rw [createRedirect_eq_some hrule hdigits hto]
    rcases hwhen with hlarge | ⟨rfl, hexact⟩
    · have hne : port ≠ dport.toNat := by omega
      have hother : decimal dport.toNat ≠ text := by
        rintro rfl
        exact hne (Option.some_inj.mp (hport.symm.trans (number_decimal _)))
      simp [hne, hother]
    · rw [(Host.matches_exactly hw).mpr hexact _ _ _ _ a.isLt b.isLt c.isLt d.isLt]
      exact and_congr_right fun _ => ⟨fun hsame => (decimal_inj hsame).symm, fun hsame => by rw [hsame]⟩

/-- The digits of the port of a rule. -/
theorem digits_of_found {found : List (List Char)} (hfound : List.Forall₂ Piece.Matches rulePattern found) :
    regex.group rulePattern found 2 ≠ [] ∧ ∀ c ∈ regex.group rulePattern found 2, c.isDigit = true := by
  unfold rulePattern at hfound
  obtain _ | ⟨-, _ | ⟨-, _ | @⟨_, port, _, _, hport, hbehind⟩⟩⟩ := hfound
  obtain _ | ⟨-, _ | ⟨-, _ | ⟨-, _ | ⟨-, _ | ⟨-, _ | _⟩⟩⟩⟩⟩ := hbehind
  have hgroup : ∀ host colon dash arrow addr colon' rport,
      regex.group rulePattern [host, colon, port, dash, arrow, addr, colon', rport] 2 = port := by
    intros
    exact List.append_nil port
  rw [hgroup]
  refine ⟨hport.nonempty, fun c hc => isDigit_iff.mpr ?_⟩
  simpa [Piece.accepts, Item.accepts] using hport.accepts c hc

/-- If all calls return, each of them does. -/
theorem exists_of_mapM_ok {α β : Type} {f : α → Except Unit β} {l : List α} {l' : List β} {x : α}
    (hl : l.mapM f = .ok l') (hx : x ∈ l) : ∃ y ∈ l', f x = .ok y := by
  induction machine.mapM_eq_ok_iff.mp hl with
  | nil => cases hx
  | cons hfirst hrest ih =>
    rcases List.mem_cons.mp hx with rfl | hx
    · exact ⟨_, List.mem_cons_self, hfirst⟩
    · obtain ⟨z, hz, hfz⟩ := ih (machine.mapM_eq_ok_iff.mpr hrest) hx
      exact ⟨z, List.mem_cons_of_mem _ hz, hfz⟩

/-- Every rule of a text that is accepted is in the list. It redirects exactly what its
host and its port stand for under the condition of `exact_iff`. -/
theorem parsed_exact_iff {rules : String} {list : List TcpRedirectRule} {found : List (List Char)} {h : Host}
    (hparse : parseTcpRedirectRules (some rules) = .ok list) (hfound : found ∈ findAll rulePattern rules.toList 0)
    (hw : h.WellFormed) (hhost : regex.group rulePattern found 1 = h.text) :
    ∃ rule ∈ list, ∃ port rport, ofFound found = .ok (some rule) ∧
      number 10 (regex.group rulePattern found 2) = some port ∧
        parseInt 10 (regex.group rulePattern found 4) = some rport ∧
      (rule.Exact h port { raddr := some (String.ofList (regex.group rulePattern found 3)), rport } ↔
        65535 < port ∨ (regex.group rulePattern found 2 = decimal port ∧ h.Canonical ∧ h.Clear)) := by
  obtain ⟨hnonempty, hdigits⟩ := digits_of_found (findAll_matches hfound)
  have hport := number_ten hnonempty hdigits
  obtain ⟨all, hall, hlist⟩ :
      ∃ all, (findAll rulePattern rules.toList 0).mapM ofFound = .ok all ∧ all.reduceOption = list := by
    unfold parseTcpRedirectRules at hparse
    dsimp only at hparse
    cases hall : (findAll rulePattern rules.toList 0).mapM ofFound with
    | error e =>
      rw [hall] at hparse
      cases hparse
    | ok all =>
      rw [hall] at hparse
      exact ⟨all, rfl, Except.ok.inj hparse⟩
  obtain ⟨made, hmade, hof⟩ := exists_of_mapM_ok hall hfound
  have hshape := hof
  unfold ofFound at hshape
  dsimp only at hshape
  rw [hhost, compile_patternText hw hdigits] at hshape
  cases hrport : parseInt 10 (regex.group rulePattern found 4) with
  | none =>
    rw [hrport] at hshape
    cases hshape
  | some rport =>
    rw [hrport] at hshape
    obtain rfl := Except.ok.inj hshape
    refine ⟨_, hlist ▸ List.reduceOption_mem_iff.mpr hmade, _, rport, hof, hport, rfl, ?_⟩
    exact exact_iff hw ⟨fun s => rfl, rfl⟩ hport

/-- A rule that is documented. -/
theorem documented_rule_exact : ∃ list, parseTcpRedirectRules (some "120.35.*.*:8643->localhost:8888") = .ok list ∧
    ∃ rule ∈ list, rule.Exact (.parts (.octet "120".toList) (.octet "35".toList) .star .star) 8643
      { raddr := some "localhost", rport := 8888 } := by
  have hparse : ∃ list, parseTcpRedirectRules (some "120.35.*.*:8643->localhost:8888") = .ok list := ⟨_, rfl⟩
  obtain ⟨list, hlist⟩ := hparse
  have hfound : [["120.35.*.*", ":", "8643", "-", ">", "localhost", ":", "8888"].map String.toList] =
      findAll rulePattern "120.35.*.*:8643->localhost:8888".toList 0 := by decide
  have hw : (Host.parts (.octet "120".toList) (.octet "35".toList) .star .star).WellFormed :=
    ⟨⟨120, by decide, by decide⟩, ⟨35, by decide, by decide⟩, trivial, trivial⟩
  obtain ⟨rule, hrule, port, rport, -, hport, hrport, hexact⟩ :=
    parsed_exact_iff hlist (hfound ▸ List.mem_cons_self) hw (by decide)
  obtain rfl : 8643 = port := Option.some_inj.mp hport
  obtain rfl : 8888 = rport := Option.some_inj.mp hrport
  refine ⟨list, hlist, rule, hrule, hexact.mpr (.inr ⟨by decide, ?_, .inr ?_⟩)⟩
  · exact ⟨⟨120, by decide, by decide⟩, ⟨35, by decide, by decide⟩, trivial, trivial⟩
  · rintro ((⟨hone, -⟩ | ⟨n, hn, -, hdigits⟩ | hstars) | hlonely)
    · revert hone
      decide
    · obtain rfl : 35 = n := Option.some_inj.mp hdigits
      omega
    · exact hstars
    · exact hlonely

/-- A packet to a neighbouring network. -/
def neighbouringPacket : Packet := { version := 4, protocol := 6, daddr := "192.168.10.5", dport := 80, uid := 10001 }

/-- The dot before a star matches the zero of a ten. -/
theorem ten_redirected_for_one :
    (parseTcpRedirectRules (some "192.168.1.*:80->localhost:8888")).map (·.map (·.createRedirect neighbouringPacket)) =
      .ok [some { raddr := some "localhost", rport := 8888 }] ∧
    neighbouringPacket.IsTo 192 168 10 5 80 ∧
    ¬ (Host.parts (.octet "192".toList) (.octet "168".toList) (.octet "1".toList) .star).Denotes 192 168 10 5 := by
  refine ⟨by decide, ⟨by decide, by decide⟩, fun h => ?_⟩
  have hthird := h.2.2.1
  revert hthird
  unfold Part.Denotes
  decide

end TcpRedirectRule

end inspector.netguard
