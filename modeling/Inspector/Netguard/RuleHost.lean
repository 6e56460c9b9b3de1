import Inspector.Netguard.TcpRedirectRule

open regex text

namespace inspector.netguard

/-- An address in dotted decimal. -/
def dotted (a b c d : Nat) : List Char := decimal a ++ '.' :: (decimal b ++ '.' :: (decimal c ++ '.' :: decimal d))

/-- A part of the host of a rule. -/
inductive Part where
  | star
  | octet (digits : List Char)
  deriving DecidableEq, Repr

/-- The piece for a dot. -/
def dotPiece : Piece := { items := [.any], plus := false, group := 0 }

namespace Part

def text : Part → List Char
  | star => ['*']
  | octet digits => digits

def pattern : Part → Pattern
  | star => [starPiece]
  | octet digits => digits.map literal

/-- An octet is a number below 256. There may be zeros in front of it. -/
def WellFormed : Part → Prop
  | star => True
  | octet digits => ∃ n < 256, number 10 digits = some n

/-- An octet as it is in addresses. -/
def Canonical : Part → Prop
  | star => True
  | octet digits => ∃ n < 256, digits = decimal n

def Denotes : Part → Nat → Prop
  | star, _ => True
  | octet digits, n => number 10 digits = some n

/-- What the pattern of a part matches. -/
def Takes : Part → List Char → Prop
  | star, s => s ≠ [] ∧ ∀ c ∈ s, starPiece.accepts c = true
  | octet digits, s => s = digits

/-- The pattern of a part matches what the part takes. -/
theorem matches_pattern {p : Part} {s : List Char} : «matches» p.pattern s = true ↔ p.Takes s := by
  cases p with
  | star => exact matches_plus rfl
  | octet digits => exact matches_literals

/-- Neighbours between which the sign that stands for a dot may match a digit. -/
def Confusable : Part → Part → Prop
  | octet u, octet v => (number 10 u = some 1 ∨ number 10 u = some 2) ∧ ∃ n < 10, number 10 v = some n
  | star, octet v => ∃ n < 100, number 10 v = some n
  | octet u, star => ∃ n ≤ 25, 1 ≤ n ∧ number 10 u = some n
  | star, star => False

end Part

/-- The host of a rule: a lone star, or four parts. -/
inductive Host where
  | any
  | parts (p₁ p₂ p₃ p₄ : Part)
  deriving DecidableEq, Repr

namespace Host

def text : Host → List Char
  | any => ['*']
  | parts p₁ p₂ p₃ p₄ => p₁.text ++ '.' :: (p₂.text ++ '.' :: (p₃.text ++ '.' :: p₄.text))

def pattern : Host → Pattern
  | any => [starPiece]
  | parts p₁ p₂ p₃ p₄ => p₁.pattern ++ dotPiece :: (p₂.pattern ++ dotPiece :: (p₃.pattern ++ dotPiece :: p₄.pattern))

def WellFormed : Host → Prop
  | any => True
  | parts p₁ p₂ p₃ p₄ => p₁.WellFormed ∧ p₂.WellFormed ∧ p₃.WellFormed ∧ p₄.WellFormed

def Canonical : Host → Prop
  | any => True
  | parts p₁ p₂ p₃ p₄ => p₁.Canonical ∧ p₂.Canonical ∧ p₃.Canonical ∧ p₄.Canonical

/-- The addresses that a host stands for. -/
def Denotes : Host → Nat → Nat → Nat → Nat → Prop
  | any, _, _, _, _ => True
  | parts p₁ p₂ p₃ p₄, a, b, c, d => p₁.Denotes a ∧ p₂.Denotes b ∧ p₃.Denotes c ∧ p₄.Denotes d

/-- Four octets. -/
def Full : Host → Prop
  | parts (.octet _) (.octet _) (.octet _) (.octet _) => True
  | _ => False

/-- A single octet within three stars. -/
def Lonely : Host → Prop
  | parts .star .star (.octet _) .star => True
  | parts .star (.octet _) .star .star => True
  | _ => False

/-- Neighbours that may be confused. -/
def Confusable : Host → Prop
  | any => False
  | parts p₁ p₂ p₃ p₄ => p₁.Confusable p₂ ∨ p₂.Confusable p₃ ∨ p₃.Confusable p₄

/-- The hosts whose pattern matches no other addresses. -/
def Clear (h : Host) : Prop := h.Full ∨ ¬ (h.Confusable ∨ h.Lonely)

/-- How the pattern of four parts matches. -/
structure Split (p₁ p₂ p₃ p₄ : Part) (s : List Char) (s₁ s₂ s₃ s₄ : List Char) (x₁ x₂ x₃ : Char) : Prop where
  whole : s₁ ++ x₁ :: (s₂ ++ x₂ :: (s₃ ++ x₃ :: s₄)) = s
  first : p₁.Takes s₁
  second : p₂.Takes s₂
  third : p₃.Takes s₃
  fourth : p₄.Takes s₄

/-- A dot of the pattern stands for a single sign between two parts. -/
theorem matches_dot {ps qs : Pattern} {s : List Char} : «matches» (ps ++ dotPiece :: qs) s = true ↔
    ∃ w x t, s = w ++ x :: t ∧ «matches» ps w = true ∧ dotPiece.accepts x = true ∧ «matches» qs t = true := by
  rw [matches_append]
  constructor
  · rintro ⟨w, t, rfl, hw, ht⟩
    rw [← List.singleton_append, matches_append] at ht
    obtain ⟨first, rest, rfl, hfirst, hrest⟩ := ht
    obtain ⟨x, rfl, hx⟩ := (matches_once rfl).mp hfirst
    exact ⟨w, x, rest, rfl, hw, hx, hrest⟩
  · rintro ⟨w, x, t, rfl, hw, hx, ht⟩
    refine ⟨w, x :: t, rfl, hw, ?_⟩
    rw [← List.singleton_append, matches_append]
    exact ⟨[x], t, rfl, (matches_once rfl).mpr ⟨x, rfl, hx⟩, ht⟩

end Host

/-! Rows of digits within an address. -/
section Runs

variable {c : Char} {pre w post first rest : List Char}

/-- A row without a separator lies before it or behind it. -/
theorem infix_or_behind (hw : c ∉ w) (hsplit : pre ++ (w ++ post) = first ++ c :: rest) :
    w <:+: first ∨ ∃ pre', pre' ++ (w ++ post) = rest := by
  rcases List.append_eq_append_iff.mp hsplit with ⟨more, rfl, hbehind⟩ | ⟨more, rfl, hbehind⟩
  · rcases List.append_eq_append_iff.mp hbehind with ⟨more', rfl, -⟩ | ⟨more', rfl, hcons⟩
    · exact .inl ⟨pre, more', by simp⟩
    · cases more' with
      | nil => exact .inl ⟨pre, [], by simp⟩
      | cons d more' =>
        rw [List.cons_append, List.cons.injEq] at hcons
        exact absurd (by simp [hcons.1]) hw
  · cases more with
    | nil =>
      cases w with
      | nil => exact .inl List.nil_infix
      | cons d w =>
        rw [List.nil_append, List.cons_append, List.cons.injEq] at hbehind
        exact absurd (by simp [hbehind.1]) hw
    | cons d more =>
      rw [List.cons_append, List.cons.injEq] at hbehind
      exact .inr ⟨more, hbehind.2.symm⟩

/-- Nothing comes before it, or a separator. -/
def Begins (c : Char) (pre : List Char) : Prop := pre = [] ∨ ∃ q, pre = q ++ [c]

/-- A row at the beginning of a part is a beginning of it, or lies behind the separator. -/
theorem prefix_or_behind (hw : c ∉ w) (hfirst : c ∉ first) (hbegins : Begins c pre)
    (hsplit : pre ++ (w ++ post) = first ++ c :: rest) :
    w <+: first ∨ ∃ pre', Begins c pre' ∧ pre' ++ (w ++ post) = rest := by
  rcases hbegins with rfl | ⟨q, rfl⟩
  · rw [List.nil_append] at hsplit
    rcases List.append_eq_append_iff.mp hsplit with ⟨more, rfl, -⟩ | ⟨more, rfl, hcons⟩
    · exact .inl ⟨more, rfl⟩
    · cases more with
      | nil => exact .inl ⟨[], by simp⟩
      | cons d more =>
        rw [List.cons_append, List.cons.injEq] at hcons
        exact absurd (by simp [hcons.1]) hw
  · rw [List.append_assoc, List.singleton_append] at hsplit
    rcases List.append_eq_append_iff.mp hsplit with ⟨more, rfl, hcons⟩ | ⟨more, rfl, hcons⟩
    · cases more with
      | nil =>
        rw [List.nil_append, List.cons.injEq] at hcons
        exact .inr ⟨[], .inl rfl, hcons.2⟩
      | cons d more =>
        rw [List.cons_append, List.cons.injEq] at hcons
        exact absurd (by simp [hcons.1]) hfirst
    · cases more with
      | nil =>
        rw [List.nil_append, List.cons.injEq] at hcons
        exact .inr ⟨[], .inl rfl, hcons.2.symm⟩
      | cons d more =>
        rw [List.cons_append, List.cons.injEq] at hcons
        exact .inr ⟨more ++ [c], .inr ⟨more, rfl⟩, by simp [hcons.2]⟩

/-- A number has no dots. -/
theorem dot_not_mem_decimal (n : Nat) : '.' ∉ decimal n := by
  intro hdot
  have hdigit := isDigit_of_mem_decimal hdot
  revert hdigit
  decide

variable {a b c d n : Nat}

/-- A row of digits within an address lies within one of its octets. -/
theorem infix_octet (pre w post : List Char) (hw : '.' ∉ w) (hsplit : pre ++ (w ++ post) = dotted a b c d) :
    ∃ n ∈ [a, b, c, d], w <:+: decimal n := by
  rcases infix_or_behind hw hsplit with h | ⟨pre, hsplit⟩
  · exact ⟨a, by simp, h⟩
  rcases infix_or_behind hw hsplit with h | ⟨pre, hsplit⟩
  · exact ⟨b, by simp, h⟩
  rcases infix_or_behind hw hsplit with h | ⟨pre, hsplit⟩
  · exact ⟨c, by simp, h⟩
  exact ⟨d, by simp, pre, post, by simpa using hsplit⟩

/-- A row of digits behind a dot is the beginning of an octet. -/
theorem prefix_octet (pre w post : List Char) (hw : '.' ∉ w) (hbegins : Begins '.' pre)
    (hsplit : pre ++ (w ++ post) = dotted a b c d) :
    ∃ n ∈ [a, b, c, d], w <+: decimal n := by
  rcases prefix_or_behind hw (dot_not_mem_decimal a) hbegins hsplit with h | ⟨pre, hbegins, hsplit⟩
  · exact ⟨a, by simp, h⟩
  rcases prefix_or_behind hw (dot_not_mem_decimal b) hbegins hsplit with h | ⟨pre, hbegins, hsplit⟩
  · exact ⟨b, by simp, h⟩
  rcases prefix_or_behind hw (dot_not_mem_decimal c) hbegins hsplit with h | ⟨pre, hbegins, hsplit⟩
  · exact ⟨c, by simp, h⟩
  refine ⟨d, by simp, ?_⟩
  rcases hbegins with rfl | ⟨q, rfl⟩
  · exact ⟨post, hsplit⟩
  · have hdot : '.' ∈ decimal d := by simp [← hsplit]
    exact absurd hdot (dot_not_mem_decimal d)

/-- An octet has at most three digits. -/
theorem length_decimal_le (hn : n < 256) : (decimal n).length ≤ 3 :=
  (Nat.length_toDigits_le_iff (by decide) (by decide)).mpr (by omega)

/-- The number of its digits bounds a number. -/
theorem lt_pow_of_length (n k : Nat) (hk : 0 < k) (hlength : (decimal n).length ≤ k) : n < 10 ^ k :=
  (Nat.length_toDigits_le_iff (by decide) hk).mp hlength

/-- A number has a digit. -/
theorem length_decimal_pos (n : Nat) : 0 < (decimal n).length := Nat.length_toDigits_pos

/-- An octet of three digits begins with a one or a two. -/
theorem head_octet : ∀ n < 256, (decimal n).length = 3 →
    (decimal n).head? = some '1' ∨ (decimal n).head? = some '2' := by
  decide +kernel

/-- What an octet begins with, if it is not the whole of it. -/
theorem take_octet : ∀ n < 256, ∀ k < 3, 0 < k → k < (decimal n).length →
    1 ≤ Nat.ofDigitChars 10 ((decimal n).take k) 0 ∧ Nat.ofDigitChars 10 ((decimal n).take k) 0 ≤ 25 := by
  decide +kernel

variable {u v : Nat} {x : Char}

/-- Behind another digit of an octet there are at most two. -/
theorem lt_of_tail_infix (hn : n < 256) (hwithin : (x :: decimal v) <:+: decimal n) : v < 100 := by
  have hlength := hwithin.length_le
  have hle := length_decimal_le hn
  rw [List.length_cons] at hlength
  exact lt_pow_of_length v 2 (by decide) (by omega)

/-- Two numbers with a digit between them are the first and the last digit of an octet. -/
theorem of_middle_infix (hn : n < 256) (hwithin : (decimal u ++ x :: decimal v) <:+: decimal n) :
    (u = 1 ∨ u = 2) ∧ v < 10 := by
  have hlength := hwithin.length_le
  have hle := length_decimal_le hn
  have hu := length_decimal_pos u
  have hv := length_decimal_pos v
  rw [List.length_append, List.length_cons] at hlength
  have hwhole : decimal u ++ x :: decimal v = decimal n := by
    refine hwithin.eq_of_length ?_
    rw [List.length_append, List.length_cons]
    omega
  have hlengths : (decimal n).length = 3 := by
    rw [← hwhole, List.length_append, List.length_cons]
    omega
  refine ⟨?_, lt_pow_of_length v 1 (by decide) (by omega)⟩
  obtain ⟨digit, hdigit⟩ := List.length_eq_one_iff.mp (show (decimal u).length = 1 by omega)
  have hvalue := number_decimal u
  have hhead := head_octet n hn hlengths
  rw [← hwhole, hdigit] at hhead
  rw [hdigit] at hvalue
  rcases hhead with hone | htwo
  · obtain rfl : digit = '1' := by simpa using hone
    exact .inl (Option.some_inj.mp hvalue).symm
  · obtain rfl : digit = '2' := by simpa using htwo
    exact .inr (Option.some_inj.mp hvalue).symm

/-- A number in front of another digit of an octet is at most 25. -/
theorem of_front_prefix (hn : n < 256) (hbegin : (decimal u ++ [x]) <+: decimal n) : 1 ≤ u ∧ u ≤ 25 := by
  have hlength := hbegin.length_le
  have hle := length_decimal_le hn
  rw [List.length_append, List.length_singleton] at hlength
  have htake : (decimal n).take (decimal u).length = decimal u :=
    (List.prefix_iff_eq_take.mp ((List.prefix_append _ _).trans hbegin)).symm
  have hbounds := take_octet n hn (decimal u).length (by omega) (length_decimal_pos u) (by omega)
  rwa [htake, Nat.ofDigitChars_ten_toDigits] at hbounds

end Runs

/-- The characters of an address. -/
theorem accepts_of_dotted {a b c d : Nat} {x : Char} (hx : x ∈ dotted a b c d) :
    (x = '.' ∨ x.isDigit = true) := by
  simp only [dotted, List.mem_append, List.mem_cons] at hx
  rcases hx with h | h | h | h | h | h | h
  all_goals first | exact .inl h | exact .inr (isDigit_of_mem_decimal h)

/-- The sign that stands for a dot also matches a digit. -/
theorem dotPiece_accepts {x : Char} (hx : x = '.' ∨ x.isDigit = true) : dotPiece.accepts x = true := by
  rcases hx with rfl | hdigit
  · decide
  · simp only [dotPiece, Piece.accepts, List.any_cons, List.any_nil, Bool.or_false, Item.accepts, Bool.and_eq_true,
      decide_eq_true_eq]
    refine ⟨⟨⟨⟨?_, ?_⟩, ?_⟩, ?_⟩, ?_⟩ <;> rintro rfl <;> revert hdigit <;> decide

section Separators

variable {p q : Part} {a b c d : Nat} {s t : List Char} {x : Char}

/-- The sign between two parts, one of which is an octet, matches a dot unless they may
be confused. -/
theorem separator_eq_dot (pre post : List Char) (hoctets : ∀ n ∈ [a, b, c, d], n < 256) (hp : p.Canonical)
    (hq : q.Canonical)
    (hstars : ¬ (p = .star ∧ q = .star)) (hclear : ¬ p.Confusable q) (hbegins : p ≠ .star → Begins '.' pre)
    (hs : p.Takes s) (ht : q.Takes t) (hsplit : pre ++ (s ++ x :: t ++ post) = dotted a b c d) : x = '.' := by
  have hx : x ∈ dotted a b c d := by simp [← hsplit]
  rcases accepts_of_dotted hx with hdot | hdigit
  · exact hdot
  have hnot : x ≠ '.' := by
    rintro rfl
    revert hdigit
    decide
  exfalso
  apply hclear
  cases p with
  | star =>
    cases q with
    | star => exact absurd ⟨rfl, rfl⟩ hstars
    | octet digits =>
      obtain ⟨v, -, rfl⟩ := hq
      obtain rfl : t = decimal v := ht
      obtain ⟨n, hn, hwithin⟩ := infix_octet (pre ++ s) (x :: decimal v) post
        (by simp [hnot.symm, dot_not_mem_decimal]) (by simpa using hsplit)
      exact ⟨v, lt_of_tail_infix (hoctets n hn) hwithin, number_decimal v⟩
  | octet digits =>
    obtain ⟨u, -, rfl⟩ := hp
    obtain rfl : s = decimal u := hs
    cases q with
    | star =>
      obtain ⟨n, hn, hbegin⟩ := prefix_octet pre (decimal u ++ [x]) (t ++ post)
        (by simp [hnot.symm, dot_not_mem_decimal]) (hbegins (by simp)) (by simpa using hsplit)
      obtain ⟨hlow, hhigh⟩ := of_front_prefix (hoctets n hn) hbegin
      exact ⟨u, hhigh, hlow, number_decimal u⟩
    | octet digits =>
      obtain ⟨v, -, rfl⟩ := hq
      obtain rfl : t = decimal v := ht
      obtain ⟨n, hn, hwithin⟩ := infix_octet pre (decimal u ++ x :: decimal v) post
        (by simp [hnot.symm, dot_not_mem_decimal]) hsplit
      obtain ⟨hu, hv⟩ := of_middle_infix (hoctets n hn) hwithin
      exact ⟨by simpa using hu, v, hv, number_decimal v⟩

end Separators

/-- A part that takes an octet stands for it. -/
theorem Part.Takes.denotes {p : Part} {n : Nat} (htakes : p.Takes (decimal n)) : p.Denotes n := by
  cases p with
  | star => trivial
  | octet digits =>
    obtain rfl : decimal n = digits := htakes
    exact number_decimal n

/-- What an octet takes has no dots. -/
theorem Part.Takes.dot_not_mem {s digits : List Char} (htakes : (Part.octet digits).Takes s)
    (hcanonical : (Part.octet digits).Canonical) : '.' ∉ s := by
  obtain ⟨n, -, rfl⟩ := hcanonical
  obtain rfl : s = decimal n := htakes
  exact dot_not_mem_decimal n

/-- What lies before the first separator. -/
theorem front_inj {c : Char} {s s' t t' : List Char} (hs : c ∉ s) (hs' : c ∉ s') (hsame : s ++ c :: t = s' ++ c :: t') :
    s = s' ∧ t = t' := by
  rcases List.append_eq_append_iff.mp hsame with ⟨more, rfl, hcons⟩ | ⟨more, rfl, hcons⟩
  all_goals
    cases more with
    | nil => simp_all
    | cons d more =>
      rw [List.cons_append, List.cons.injEq] at hcons
      simp [hcons.1] at hs hs'

/-- What lies behind the last separator. -/
theorem behind_inj {c : Char} {t t' : List Char} (s s' : List Char) (ht : c ∉ t) (ht' : c ∉ t')
    (hsame : s ++ c :: t = s' ++ c :: t') :
    s = s' ∧ t = t' := by
  have hreverse : t.reverse ++ c :: s.reverse = t'.reverse ++ c :: s'.reverse := by
    simpa using congrArg List.reverse hsame
  obtain ⟨hlast, hfirst⟩ := front_inj (by simpa using ht) (by simpa using ht') hreverse
  exact ⟨List.reverse_injective hfirst, List.reverse_injective hlast⟩

/-- An address has three dots. -/
theorem count_dotted (a b c d : Nat) : (dotted a b c d).count '.' = 3 := by
  simp [dotted, List.count_append, List.count_eq_zero_of_not_mem (dot_not_mem_decimal _)]

namespace Host

variable {p₁ p₂ p₃ p₄ : Part} {a b c d : Nat} {s₁ s₂ s₃ s₄ : List Char} {x₁ x₂ x₃ : Char}

/-- A match whose separators are dots is one of the octets. -/
theorem denotes_of_dots (hsplit : Split p₁ p₂ p₃ p₄ (dotted a b c d) s₁ s₂ s₃ s₄ '.' '.' '.') :
    (parts p₁ p₂ p₃ p₄).Denotes a b c d := by
  obtain ⟨hwhole, h₁, h₂, h₃, h₄⟩ := hsplit
  have hcount := congrArg (List.count '.') hwhole
  rw [count_dotted] at hcount
  simp only [List.count_append, List.count_cons_self] at hcount
  have hs₁ : '.' ∉ s₁ := List.count_eq_zero.mp (by omega)
  have hs₂ : '.' ∉ s₂ := List.count_eq_zero.mp (by omega)
  have hs₃ : '.' ∉ s₃ := List.count_eq_zero.mp (by omega)
  unfold dotted at hwhole
  obtain ⟨rfl, hrest⟩ := front_inj hs₁ (dot_not_mem_decimal a) hwhole
  obtain ⟨rfl, hlast⟩ := front_inj hs₂ (dot_not_mem_decimal b) hrest
  obtain ⟨rfl, rfl⟩ := front_inj hs₃ (dot_not_mem_decimal c) hlast
  exact ⟨h₁.denotes, h₂.denotes, h₃.denotes, h₄.denotes⟩

/-- Four octets have no dots of their own. -/
theorem denotes_of_full (hfull : (parts p₁ p₂ p₃ p₄).Full) (hcanonical : (parts p₁ p₂ p₃ p₄).Canonical)
    (hsplit : Split p₁ p₂ p₃ p₄ (dotted a b c d) s₁ s₂ s₃ s₄ x₁ x₂ x₃) : (parts p₁ p₂ p₃ p₄).Denotes a b c d := by
  obtain ⟨hwhole, h₁, h₂, h₃, h₄⟩ := id hsplit
  obtain ⟨hc₁, hc₂, hc₃, hc₄⟩ := hcanonical
  cases p₁ <;> cases p₂ <;> cases p₃ <;> cases p₄ <;> try exact hfull.elim
  have hcount := congrArg (List.count '.') hwhole
  rw [count_dotted] at hcount
  simp only [List.count_append, List.count_cons, List.count_eq_zero_of_not_mem (h₁.dot_not_mem hc₁),
    List.count_eq_zero_of_not_mem (h₂.dot_not_mem hc₂), List.count_eq_zero_of_not_mem (h₃.dot_not_mem hc₃),
    List.count_eq_zero_of_not_mem (h₄.dot_not_mem hc₄), beq_iff_eq] at hcount
  obtain ⟨rfl, rfl, rfl⟩ : x₁ = '.' ∧ x₂ = '.' ∧ x₃ = '.' := by
    by_cases hx₁ : x₁ = '.' <;> by_cases hx₂ : x₂ = '.' <;> by_cases hx₃ : x₃ = '.'
    all_goals simp [hx₁, hx₂, hx₃] at hcount ⊢
  exact denotes_of_dots hsplit

/-- The signs between the parts are dots, but between two stars. -/
theorem separators_eq_dot (hoctets : ∀ n ∈ [a, b, c, d], n < 256) (hcanonical : (parts p₁ p₂ p₃ p₄).Canonical)
    (hclear : ¬ (parts p₁ p₂ p₃ p₄).Confusable) (hsplit : Split p₁ p₂ p₃ p₄ (dotted a b c d) s₁ s₂ s₃ s₄ x₁ x₂ x₃) :
    (¬ (p₁ = .star ∧ p₂ = .star) → x₁ = '.') ∧ (¬ (p₂ = .star ∧ p₃ = .star) → x₂ = '.') ∧
      (¬ (p₃ = .star ∧ p₄ = .star) → x₃ = '.') := by
  obtain ⟨hwhole, h₁, h₂, h₃, h₄⟩ := hsplit
  obtain ⟨hc₁, hc₂, hc₃, hc₄⟩ := hcanonical
  simp only [Confusable, not_or] at hclear
  obtain ⟨hfirst, hsecond, hthird⟩ := hclear
  have hx₁ : ¬ (p₁ = .star ∧ p₂ = .star) → x₁ = '.' := fun hstars =>
    separator_eq_dot [] (x₂ :: (s₃ ++ x₃ :: s₄)) hoctets hc₁ hc₂ hstars hfirst (fun _ => .inl rfl) h₁ h₂
      (by simpa using hwhole)
  have hx₂ : ¬ (p₂ = .star ∧ p₃ = .star) → x₂ = '.' := by
    intro hstars
    refine separator_eq_dot (s₁ ++ [x₁]) (x₃ :: s₄) hoctets hc₂ hc₃ hstars hsecond (fun hp => ?_) h₂ h₃
      (by simpa using hwhole)
    rw [hx₁ fun hboth => hp hboth.2]
    exact .inr ⟨s₁, rfl⟩
  refine ⟨hx₁, hx₂, fun hstars => ?_⟩
  refine separator_eq_dot (s₁ ++ x₁ :: s₂ ++ [x₂]) [] hoctets hc₃ hc₄ hstars hthird (fun hp => ?_) h₃ h₄
    (by simpa using hwhole)
  rw [hx₂ fun hboth => hp hboth.2]
  exact .inr ⟨s₁ ++ x₁ :: s₂, rfl⟩

/-- A clear host matches no addresses but its own. -/
theorem denotes_of_split (hoctets : ∀ n ∈ [a, b, c, d], n < 256) (hcanonical : (parts p₁ p₂ p₃ p₄).Canonical)
    (hclear : (parts p₁ p₂ p₃ p₄).Clear) (hsplit : Split p₁ p₂ p₃ p₄ (dotted a b c d) s₁ s₂ s₃ s₄ x₁ x₂ x₃) :
    (parts p₁ p₂ p₃ p₄).Denotes a b c d := by
  rcases hclear with hfull | hclear
  · exact denotes_of_full hfull hcanonical hsplit
  rw [not_or] at hclear
  obtain ⟨hconfusable, hlonely⟩ := hclear
  obtain ⟨hx₁, hx₂, hx₃⟩ := separators_eq_dot hoctets hcanonical hconfusable hsplit
  obtain ⟨hwhole, h₁, h₂, h₃, h₄⟩ := id hsplit
  obtain ⟨hc₁, hc₂, hc₃, hc₄⟩ := hcanonical
  by_cases hfirst : p₁ = .star ∧ p₂ = .star
  · obtain ⟨rfl, rfl⟩ := hfirst
    cases p₄ with
    | star =>
      cases p₃ with
      | star => exact ⟨trivial, trivial, trivial, trivial⟩
      | octet _ => exact absurd trivial hlonely
    | octet digits =>
      obtain rfl := hx₃ (by simp)
      obtain ⟨hrest, rfl⟩ := behind_inj (s₁ ++ x₁ :: (s₂ ++ x₂ :: s₃))
        (decimal a ++ '.' :: (decimal b ++ '.' :: decimal c)) (h₄.dot_not_mem hc₄) (dot_not_mem_decimal d)
        (by simpa [dotted] using hwhole)
      cases p₃ with
      | star => exact ⟨trivial, trivial, trivial, h₄.denotes⟩
      | octet _ =>
        obtain rfl := hx₂ (by simp)
        obtain ⟨-, rfl⟩ := behind_inj (s₁ ++ x₁ :: s₂) (decimal a ++ '.' :: decimal b) (h₃.dot_not_mem hc₃)
          (dot_not_mem_decimal c) (by simpa using hrest)
        exact ⟨trivial, trivial, h₃.denotes, h₄.denotes⟩
  · obtain rfl := hx₁ hfirst
    by_cases hlast : p₃ = .star ∧ p₄ = .star
    · obtain ⟨rfl, rfl⟩ := hlast
      cases p₁ with
      | star =>
        cases p₂ with
        | star => exact absurd ⟨rfl, rfl⟩ hfirst
        | octet _ => exact absurd trivial hlonely
      | octet _ =>
        obtain ⟨rfl, hrest⟩ := front_inj (h₁.dot_not_mem hc₁) (dot_not_mem_decimal a) hwhole
        cases p₂ with
        | star => exact ⟨h₁.denotes, trivial, trivial, trivial⟩
        | octet _ =>
          obtain rfl := hx₂ (by simp)
          obtain ⟨rfl, -⟩ := front_inj (h₂.dot_not_mem hc₂) (dot_not_mem_decimal b) hrest
          exact ⟨h₁.denotes, h₂.denotes, trivial, trivial⟩
    · obtain rfl := hx₃ hlast
      by_cases hmiddle : p₂ = .star ∧ p₃ = .star
      · obtain ⟨rfl, rfl⟩ := hmiddle
        cases p₁ with
        | star => exact absurd ⟨rfl, rfl⟩ hfirst
        | octet _ =>
          cases p₄ with
          | star => exact absurd ⟨rfl, rfl⟩ hlast
          | octet _ =>
            obtain ⟨rfl, -⟩ := front_inj (h₁.dot_not_mem hc₁) (dot_not_mem_decimal a) hwhole
            obtain ⟨-, rfl⟩ := behind_inj (decimal a ++ '.' :: (s₂ ++ x₂ :: s₃))
              (decimal a ++ '.' :: (decimal b ++ '.' :: decimal c)) (h₄.dot_not_mem hc₄) (dot_not_mem_decimal d)
              (by simpa [dotted] using hwhole)
            exact ⟨h₁.denotes, trivial, trivial, h₄.denotes⟩
      · obtain rfl := hx₂ hmiddle
        exact denotes_of_dots hsplit

end Host

end inspector.netguard
