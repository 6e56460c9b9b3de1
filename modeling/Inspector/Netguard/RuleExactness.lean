import Inspector.Netguard.RuleHost

open regex text

namespace inspector.netguard

namespace Part

variable {p q : Part} {m n : Nat} {s t : List Char}

/-- A value that a part stands for. -/
def sample : Part → Nat
  | star => 7
  | octet digits => (number 10 digits).getD 0

/-- The sample of a part is an octet. -/
theorem sample_lt (hp : p.WellFormed) : p.sample < 256 := by
  cases p with
  | star => decide
  | octet digits =>
    obtain ⟨n, hn, hdigits⟩ := hp
    simpa [sample, hdigits] using hn

/-- A part stands for its sample. -/
theorem denotes_sample (hp : p.WellFormed) : p.Denotes p.sample := by
  cases p with
  | star => trivial
  | octet digits =>
    obtain ⟨n, -, hdigits⟩ := hp
    simp [Denotes, sample, hdigits]

/-- A star takes every number. -/
theorem star_takes_decimal (n : Nat) : star.Takes (decimal n) := by
  refine ⟨Nat.toDigits_ne_nil, fun c hc => ?_⟩
  have hdigit := isDigit_iff.mp (isDigit_of_mem_decimal hc)
  simp [starPiece, Piece.accepts, Item.accepts, hdigit]

/-- A star takes two numbers with a dot between them, too. -/
theorem star_takes_append (hs : star.Takes s) (ht : star.Takes t) : star.Takes (s ++ '.' :: t) := by
  refine ⟨by simp, fun c hc => ?_⟩
  rcases List.mem_append.mp hc with hc | hc
  · exact hs.2 c hc
  · rcases List.mem_cons.mp hc with rfl | hc
    · decide
    · exact ht.2 c hc

/-- A part takes the octets that it stands for. -/
theorem takes_decimal (hp : p.Canonical) (hn : p.Denotes n) : p.Takes (decimal n) := by
  cases p with
  | star => exact star_takes_decimal n
  | octet digits =>
    obtain ⟨m, -, rfl⟩ := hp
    obtain rfl : m = n := Option.some_inj.mp ((number_decimal m).symm.trans hn)
    rfl

/-- A part takes its sample. -/
theorem takes_sample (hp : p.Canonical) : p.Takes (decimal p.sample) := by
  cases p with
  | star => exact star_takes_decimal 7
  | octet digits =>
    obtain ⟨m, -, rfl⟩ := hp
    simp [Takes, sample]

/-- An octet without zeros in front of it is well formed. -/
theorem Canonical.wellFormed (hp : p.Canonical) : p.WellFormed := by
  cases p with
  | star => trivial
  | octet digits =>
    obtain ⟨n, hn, rfl⟩ := hp
    exact ⟨n, hn, number_decimal n⟩

/-- A part takes at least as much as its sample. -/
theorem length_sample_le (hp : p.WellFormed) (hs : p.Takes s) :
    (decimal p.sample).length ≤ s.length ∧ ((decimal p.sample).length = s.length → p.Canonical) := by
  cases p with
  | star => exact ⟨List.length_pos_iff.mpr hs.1, fun _ => trivial⟩
  | octet digits =>
    obtain rfl : s = digits := hs
    obtain ⟨n, hn, hdigits⟩ := hp
    rw [show (octet s).sample = n by simp [sample, hdigits]]
    by_cases hsame : s = decimal n
    · exact ⟨by rw [hsame], fun _ => ⟨n, hn, hsame⟩⟩
    · have hlt := length_decimal_lt hdigits hsame
      exact ⟨by omega, fun hlength => by omega⟩

/-- A digit that a star leaves to the sign behind it. -/
theorem one_before : ∀ v < 100, '1' :: decimal v = decimal (if v < 10 then 10 + v else 100 + v) := by decide

/-- A digit that the sign before a star takes. -/
theorem zero_behind : ∀ u ≤ 25, 1 ≤ u → decimal u ++ ['0'] = decimal (10 * u) := by decide

/-- With a zero between them, two numbers make a third octet. -/
theorem zero_between : ∀ v < 10, decimal 1 ++ '0' :: decimal v = decimal (100 + v) ∧
    decimal 2 ++ '0' :: decimal v = decimal (200 + v) := by decide

/-- An octet stands for no other number. -/
theorem not_denotes (hne : n ≠ m) (hdigits : number 10 s = some m) : ¬ (octet s).Denotes n := fun hn =>
  hne (Option.some_inj.mp (hn.symm.trans hdigits))

/-- Two octets that are taken as others by neighbours, one of which is a star. -/
theorem Confusable.mistaken (hconfusable : p.Confusable q) (hp : p.Canonical) (hq : q.Canonical)
    (hstar : p = .star ∨ q = .star) :
    ∃ m n s x t, m < 256 ∧ n < 256 ∧ s ++ x :: t = decimal m ++ '.' :: decimal n ∧ p.Takes s ∧ q.Takes t ∧
      ¬ (p.Denotes m ∧ q.Denotes n) := by
  cases p with
  | star =>
    cases q with
    | star => exact hconfusable.elim
    | octet digits =>
      obtain ⟨v, hv, hdigits⟩ := hconfusable
      obtain ⟨v', -, rfl⟩ := hq
      obtain rfl : v' = v := Option.some_inj.mp ((number_decimal v').symm.trans hdigits)
      refine ⟨7, if v' < 10 then 10 + v' else 100 + v', "7.".toList, '1', decimal v', by decide, ?_, ?_, ?_, rfl,
        fun h => not_denotes ?_ (number_decimal v') h.2⟩
      · split <;> omega
      · rw [← one_before v' hv]
        rfl
      · exact ⟨by decide, List.all_eq_true.mp rfl⟩
      · split <;> omega
  | octet digits =>
    cases q with
    | octet _ => exact absurd hstar (by simp)
    | star =>
      obtain ⟨u, hhigh, hlow, hdigits⟩ := hconfusable
      obtain ⟨u', -, rfl⟩ := hp
      obtain rfl : u' = u := Option.some_inj.mp ((number_decimal u').symm.trans hdigits)
      refine ⟨10 * u', 7, decimal u', '0', ".7".toList, by omega, by decide, ?_, rfl,
        ⟨by decide, List.all_eq_true.mp rfl⟩, fun h => not_denotes (by omega) (number_decimal u') h.1⟩
      rw [← zero_behind u' hhigh hlow, List.append_assoc]
      rfl

/-- An octet that is taken as two. -/
theorem Confusable.merged {u v : List Char} (hconfusable : (octet u).Confusable (octet v)) (hu : (octet u).Canonical)
    (hv : (octet v).Canonical) :
    ∃ n < 256, u ++ '0' :: v = decimal n ∧ ¬ (octet u).Denotes n ∧ ¬ (octet v).Denotes n := by
  obtain ⟨hone, w, hw, hdigits⟩ := hconfusable
  obtain ⟨v', -, rfl⟩ := hv
  obtain rfl : v' = w := Option.some_inj.mp ((number_decimal v').symm.trans hdigits)
  obtain ⟨u', -, rfl⟩ := hu
  obtain ⟨hfirst, hsecond⟩ := zero_between v' hw
  rcases hone with hone | htwo
  · obtain rfl : u' = 1 := Option.some_inj.mp ((number_decimal u').symm.trans hone)
    exact ⟨100 + v', by omega, hfirst, not_denotes (by omega) (number_decimal 1),
      not_denotes (by omega) (number_decimal v')⟩
  · obtain rfl : u' = 2 := Option.some_inj.mp ((number_decimal u').symm.trans htwo)
    exact ⟨200 + v', by omega, hsecond, not_denotes (by omega) (number_decimal 2),
      not_denotes (by omega) (number_decimal v')⟩

end Part

namespace Host

variable {p₁ p₂ p₃ p₄ : Part} {a b c d : Nat} {s s₁ s₂ s₃ s₄ : List Char} {x₁ x₂ x₃ : Char}

/-- The pattern of four parts matches what can be split into them. -/
theorem matches_parts : «matches» (parts p₁ p₂ p₃ p₄).pattern s = true ↔
    ∃ s₁ s₂ s₃ s₄ x₁ x₂ x₃, Split p₁ p₂ p₃ p₄ s s₁ s₂ s₃ s₄ x₁ x₂ x₃ ∧
      dotPiece.accepts x₁ = true ∧ dotPiece.accepts x₂ = true ∧ dotPiece.accepts x₃ = true := by
  simp only [pattern, matches_dot, Part.matches_pattern]
  constructor
  · rintro ⟨s₁, x₁, _, rfl, h₁, hx₁, s₂, x₂, _, rfl, h₂, hx₂, s₃, x₃, s₄, rfl, h₃, hx₃, h₄⟩
    exact ⟨s₁, s₂, s₃, s₄, x₁, x₂, x₃, ⟨rfl, h₁, h₂, h₃, h₄⟩, hx₁, hx₂, hx₃⟩
  · rintro ⟨s₁, s₂, s₃, s₄, x₁, x₂, x₃, ⟨rfl, h₁, h₂, h₃, h₄⟩, hx₁, hx₂, hx₃⟩
    exact ⟨s₁, x₁, _, rfl, h₁, hx₁, s₂, x₂, _, rfl, h₂, hx₂, s₃, x₃, s₄, rfl, h₃, hx₃, h₄⟩

/-- An address that is split at any three signs is matched. -/
theorem matches_of_split (hsplit : Split p₁ p₂ p₃ p₄ (dotted a b c d) s₁ s₂ s₃ s₄ x₁ x₂ x₃) :
    «matches» (parts p₁ p₂ p₃ p₄).pattern (dotted a b c d) = true := by
  have haccepts : ∀ x ∈ dotted a b c d, dotPiece.accepts x = true := fun x hx => dotPiece_accepts (accepts_of_dotted hx)
  refine matches_parts.mpr ⟨s₁, s₂, s₃, s₄, x₁, x₂, x₃, hsplit, haccepts x₁ ?_, haccepts x₂ ?_, haccepts x₃ ?_⟩
  all_goals simp [← hsplit.whole]

/-- A host matches the addresses that it stands for. -/
theorem matches_of_denotes {h : Host} (hcanonical : h.Canonical) (hdenotes : h.Denotes a b c d) :
    «matches» h.pattern (dotted a b c d) = true := by
  cases h with
  | any =>
    refine (matches_plus rfl).mpr ⟨by simp [dotted], fun x hx => ?_⟩
    rcases accepts_of_dotted hx with rfl | hdigit
    · decide
    · simp [starPiece, Piece.accepts, Item.accepts, isDigit_iff.mp hdigit]
  | parts p₁ p₂ p₃ p₄ =>
    obtain ⟨hc₁, hc₂, hc₃, hc₄⟩ := hcanonical
    obtain ⟨h₁, h₂, h₃, h₄⟩ := hdenotes
    exact matches_of_split ⟨rfl, Part.takes_decimal hc₁ h₁, Part.takes_decimal hc₂ h₂, Part.takes_decimal hc₃ h₃,
      Part.takes_decimal hc₄ h₄⟩

/-- A host with zeros in front of an octet does not match its own sample. -/
theorem canonical_of_matches (hw : (parts p₁ p₂ p₃ p₄).WellFormed)
    (hmatches : «matches» (parts p₁ p₂ p₃ p₄).pattern (dotted p₁.sample p₂.sample p₃.sample p₄.sample) = true) :
    (parts p₁ p₂ p₃ p₄).Canonical := by
  obtain ⟨s₁, s₂, s₃, s₄, x₁, x₂, x₃, ⟨hwhole, h₁, h₂, h₃, h₄⟩, -⟩ := matches_parts.mp hmatches
  obtain ⟨hw₁, hw₂, hw₃, hw₄⟩ := hw
  obtain ⟨hle₁, hc₁⟩ := Part.length_sample_le hw₁ h₁
  obtain ⟨hle₂, hc₂⟩ := Part.length_sample_le hw₂ h₂
  obtain ⟨hle₃, hc₃⟩ := Part.length_sample_le hw₃ h₃
  obtain ⟨hle₄, hc₄⟩ := Part.length_sample_le hw₄ h₄
  have hlength := congrArg List.length hwhole
  simp only [dotted, List.length_append, List.length_cons] at hlength
  exact ⟨hc₁ (by omega), hc₂ (by omega), hc₃ (by omega), hc₄ (by omega)⟩

/-- Another address that the pattern matches. -/
def Mistaken (h : Host) : Prop :=
  ∃ a b c d, a < 256 ∧ b < 256 ∧ c < 256 ∧ d < 256 ∧ «matches» h.pattern (dotted a b c d) = true ∧ ¬ h.Denotes a b c d

/-- A host is mistaken if it matches an address that it does not stand for. -/
theorem mistaken_of_split (x₁ x₂ x₃ : Char) (ha : a < 256) (hb : b < 256) (hc : c < 256) (hd : d < 256)
    (hsplit : Split p₁ p₂ p₃ p₄ (dotted a b c d) s₁ s₂ s₃ s₄ x₁ x₂ x₃) (hnot : ¬ (parts p₁ p₂ p₃ p₄).Denotes a b c d) :
    (parts p₁ p₂ p₃ p₄).Mistaken :=
  ⟨a, b, c, d, ha, hb, hc, hd, matches_of_split hsplit, hnot⟩

/-- The first two parts may be confused for those before the last dots. -/
theorem mistaken_first (hcanonical : (parts p₁ p₂ p₃ p₄).Canonical) (hconfusable : p₁.Confusable p₂)
    (hstar : p₁ = .star ∨ p₂ = .star) : (parts p₁ p₂ p₃ p₄).Mistaken := by
  obtain ⟨hc₁, hc₂, hc₃, hc₄⟩ := hcanonical
  obtain ⟨m, n, s, x, t, hm, hn, hwhole, hs, ht, hnot⟩ := hconfusable.mistaken hc₁ hc₂ hstar
  refine mistaken_of_split x '.' '.' hm hn (Part.sample_lt hc₃.wellFormed) (Part.sample_lt hc₄.wellFormed)
    ⟨?_, hs, ht, Part.takes_sample hc₃, Part.takes_sample hc₄⟩ fun h => hnot ⟨h.1, h.2.1⟩
  rw [← List.cons_append, ← List.append_assoc, hwhole]
  simp [dotted]

/-- The middle parts may be confused. -/
theorem mistaken_second (hcanonical : (parts p₁ p₂ p₃ p₄).Canonical) (hconfusable : p₂.Confusable p₃)
    (hstar : p₂ = .star ∨ p₃ = .star) : (parts p₁ p₂ p₃ p₄).Mistaken := by
  obtain ⟨hc₁, hc₂, hc₃, hc₄⟩ := hcanonical
  obtain ⟨m, n, s, x, t, hm, hn, hwhole, hs, ht, hnot⟩ := hconfusable.mistaken hc₂ hc₃ hstar
  refine mistaken_of_split '.' x '.' (Part.sample_lt hc₁.wellFormed) hm hn (Part.sample_lt hc₄.wellFormed)
    ⟨?_, Part.takes_sample hc₁, hs, ht, Part.takes_sample hc₄⟩ fun h => hnot ⟨h.2.1, h.2.2.1⟩
  rw [show ∀ rest, s ++ x :: (t ++ rest) = (s ++ x :: t) ++ rest by simp, hwhole]
  simp [dotted]

/-- The last two parts may be confused. -/
theorem mistaken_third (hcanonical : (parts p₁ p₂ p₃ p₄).Canonical) (hconfusable : p₃.Confusable p₄)
    (hstar : p₃ = .star ∨ p₄ = .star) : (parts p₁ p₂ p₃ p₄).Mistaken := by
  obtain ⟨hc₁, hc₂, hc₃, hc₄⟩ := hcanonical
  obtain ⟨m, n, s, x, t, hm, hn, hwhole, hs, ht, hnot⟩ := hconfusable.mistaken hc₃ hc₄ hstar
  refine mistaken_of_split '.' '.' x (Part.sample_lt hc₁.wellFormed) (Part.sample_lt hc₂.wellFormed) hm hn
    ⟨?_, Part.takes_sample hc₁, Part.takes_sample hc₂, hs, ht⟩ fun h => hnot ⟨h.2.2.1, h.2.2.2⟩
  rw [hwhole]
  rfl

/-- An octet that is taken as two leaves an octet to a star. -/
theorem mistaken_of_octets {u v : List Char} (hconfusable : (Part.octet u).Confusable (.octet v))
    (hcanonical : (parts p₁ p₂ p₃ p₄).Canonical) (hstar : p₁ = .star ∨ p₂ = .star ∨ p₃ = .star ∨ p₄ = .star)
    (hneighbours : (p₁ = .octet u ∧ p₂ = .octet v) ∨ (p₂ = .octet u ∧ p₃ = .octet v) ∨
      (p₃ = .octet u ∧ p₄ = .octet v)) :
    (parts p₁ p₂ p₃ p₄).Mistaken := by
  obtain ⟨hc₁, hc₂, hc₃, hc₄⟩ := hcanonical
  have htwo : Part.star.Takes (decimal 7 ++ '.' :: decimal 7) :=
    Part.star_takes_append (Part.star_takes_decimal 7) (Part.star_takes_decimal 7)
  have hseven : 7 < 256 := by decide
  rcases hneighbours with ⟨rfl, rfl⟩ | ⟨rfl, rfl⟩ | ⟨rfl, rfl⟩
  · obtain ⟨n, hn, hwhole, hu, -⟩ := hconfusable.merged hc₁ hc₂
    rcases hstar with h | h | rfl | rfl
    · cases h
    · cases h
    · refine mistaken_of_split '0' '.' '.' hn hseven hseven (Part.sample_lt hc₄.wellFormed)
        ⟨?_, rfl, rfl, htwo, Part.takes_sample hc₄⟩ fun h => hu h.1
      simp [dotted, ← hwhole]
    · refine mistaken_of_split '0' '.' '.' hn (Part.sample_lt hc₃.wellFormed) hseven hseven
        ⟨?_, rfl, rfl, Part.takes_sample hc₃, htwo⟩ fun h => hu h.1
      simp [dotted, ← hwhole]
  · obtain ⟨n, hn, hwhole, hu, hv⟩ := hconfusable.merged hc₂ hc₃
    rcases hstar with rfl | h | h | rfl
    · refine mistaken_of_split '.' '0' '.' hseven hseven hn (Part.sample_lt hc₄.wellFormed)
        ⟨?_, htwo, rfl, rfl, Part.takes_sample hc₄⟩ fun h => hv h.2.2.1
      simp [dotted, ← hwhole]
    · cases h
    · cases h
    · refine mistaken_of_split '.' '0' '.' (Part.sample_lt hc₁.wellFormed) hn hseven hseven
        ⟨?_, Part.takes_sample hc₁, rfl, rfl, htwo⟩ fun h => hu h.2.1
      simp [dotted, ← hwhole]
  · obtain ⟨n, hn, hwhole, -, hv⟩ := hconfusable.merged hc₃ hc₄
    rcases hstar with rfl | rfl | h | h
    · refine mistaken_of_split '.' '.' '0' hseven hseven (Part.sample_lt hc₂.wellFormed) hn
        ⟨?_, htwo, Part.takes_sample hc₂, rfl, rfl⟩ fun h => hv h.2.2.2
      simp [dotted, ← hwhole]
    · refine mistaken_of_split '.' '.' '0' (Part.sample_lt hc₁.wellFormed) hseven hseven hn
        ⟨?_, Part.takes_sample hc₁, htwo, rfl, rfl⟩ fun h => hv h.2.2.2
      simp [dotted, ← hwhole]
    · cases h
    · cases h

/-- Two stars next to each other and a third behind or before an octet take the same
address in more than one way. -/
theorem mistaken_of_lonely (hcanonical : (parts p₁ p₂ p₃ p₄).Canonical) (hlonely : (parts p₁ p₂ p₃ p₄).Lonely) :
    (parts p₁ p₂ p₃ p₄).Mistaken := by
  obtain ⟨-, hc₂, hc₃, -⟩ := hcanonical
  have hother : ∀ v : Nat, ∃ e < 256, e ≠ v := fun v =>
    if hv : v = 0 then ⟨1, by decide, by omega⟩ else ⟨0, by decide, by omega⟩
  cases p₁ <;> cases p₂ <;> cases p₃ <;> cases p₄ <;> try exact hlonely.elim
  · obtain ⟨v, hv, rfl⟩ := hc₃
    obtain ⟨e, he, hne⟩ := hother v
    refine mistaken_of_split '2' '.' '.' (show 123 < 256 by decide) hv he (show 7 < 256 by decide)
      ⟨?_, Part.star_takes_decimal 1, Part.star_takes_decimal 3, rfl,
        Part.star_takes_append (Part.star_takes_decimal e) (Part.star_takes_decimal 7)⟩
      fun h => Part.not_denotes hne (number_decimal v) h.2.2.1
    rfl
  · obtain ⟨v, hv, rfl⟩ := hc₂
    obtain ⟨e, he, hne⟩ := hother v
    refine mistaken_of_split '.' '.' '2' (show 7 < 256 by decide) he hv (show 123 < 256 by decide)
      ⟨?_, Part.star_takes_append (Part.star_takes_decimal 7) (Part.star_takes_decimal e), rfl,
        Part.star_takes_decimal 1, Part.star_takes_decimal 3⟩ fun h => Part.not_denotes hne (number_decimal v) h.2.1
    simp only [List.append_assoc, List.cons_append]
    rfl

/-- A host that is not clear matches other addresses. -/
theorem mistaken_of_not_clear {h : Host} (hcanonical : h.Canonical) (hclear : ¬ h.Clear) : h.Mistaken := by
  unfold Clear at hclear
  push Not at hclear
  obtain ⟨hfull, hproblem⟩ := hclear
  cases h with
  | any => exact (hproblem.elim id id).elim
  | parts p₁ p₂ p₃ p₄ =>
    have hstar : p₁ = .star ∨ p₂ = .star ∨ p₃ = .star ∨ p₄ = .star := by
      cases p₁ <;> cases p₂ <;> cases p₃ <;> cases p₄ <;> simp
      exact hfull trivial
    rcases hproblem with hconfusable | hlonely
    · rcases hconfusable with hfirst | hsecond | hthird
      · cases p₁ with
        | star => exact mistaken_first hcanonical hfirst (.inl rfl)
        | octet u =>
          cases p₂ with
          | star => exact mistaken_first hcanonical hfirst (.inr rfl)
          | octet v => exact mistaken_of_octets hfirst hcanonical hstar (.inl ⟨rfl, rfl⟩)
      · cases p₂ with
        | star => exact mistaken_second hcanonical hsecond (.inl rfl)
        | octet u =>
          cases p₃ with
          | star => exact mistaken_second hcanonical hsecond (.inr rfl)
          | octet v => exact mistaken_of_octets hsecond hcanonical hstar (.inr (.inl ⟨rfl, rfl⟩))
      · cases p₃ with
        | star => exact mistaken_third hcanonical hthird (.inl rfl)
        | octet u =>
          cases p₄ with
          | star => exact mistaken_third hcanonical hthird (.inr rfl)
          | octet v => exact mistaken_of_octets hthird hcanonical hstar (.inr (.inr ⟨rfl, rfl⟩))
    · exact mistaken_of_lonely hcanonical hlonely

/-- What the pattern of a host matches are its addresses if there are no zeros in front
of an octet and the parts cannot be confused. -/
theorem matches_exactly {h : Host} (hw : h.WellFormed) :
    (∀ a b c d, a < 256 → b < 256 → c < 256 → d < 256 →
      («matches» h.pattern (dotted a b c d) = true ↔ h.Denotes a b c d)) ↔ h.Canonical ∧ h.Clear := by
  constructor
  · intro hexact
    have hcanonical : h.Canonical := by
      cases h with
      | any => trivial
      | parts p₁ p₂ p₃ p₄ =>
        refine canonical_of_matches hw ?_
        obtain ⟨hw₁, hw₂, hw₃, hw₄⟩ := hw
        exact (hexact _ _ _ _ (Part.sample_lt hw₁) (Part.sample_lt hw₂) (Part.sample_lt hw₃) (Part.sample_lt hw₄)).mpr
          ⟨Part.denotes_sample hw₁, Part.denotes_sample hw₂, Part.denotes_sample hw₃, Part.denotes_sample hw₄⟩
    refine ⟨hcanonical, ?_⟩
    by_contra hclear
    obtain ⟨a, b, c, d, ha, hb, hc, hd, hmatches, hnot⟩ := mistaken_of_not_clear hcanonical hclear
    exact hnot ((hexact a b c d ha hb hc hd).mp hmatches)
  · rintro ⟨hcanonical, hclear⟩ a b c d ha hb hc hd
    refine ⟨fun hmatches => ?_, matches_of_denotes hcanonical⟩
    cases h with
    | any => trivial
    | parts p₁ p₂ p₃ p₄ =>
      obtain ⟨s₁, s₂, s₃, s₄, x₁, x₂, x₃, hsplit, -⟩ := matches_parts.mp hmatches
      exact denotes_of_split (by simp [ha, hb, hc, hd]) hcanonical hclear hsplit

end Host

end inspector.netguard
