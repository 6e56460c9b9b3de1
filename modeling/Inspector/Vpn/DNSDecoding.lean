import Inspector.Vpn.DNSFields
import Inspector.Vpn.DNSNames

open domain

namespace inspector.vpn.DNS

open Decoder

def ofQuestion (q : domain.Question) : Question :=
  { hostname := nameText q.labels, type := q.type, queryClass := q.queryClass }

/-- The address and the canonical name that the data of a record is. -/
def ofRData : RData → Option InetAddress × Option (List (BitVec 16))
  | .address bytes => (InetAddress.getByAddress bytes, none)
  | .canonicalName labels => (none, some (nameText labels))
  | .other => (none, none)

def ofResource (r : Resource) : Answer where
  hostname := nameText r.labels
  type := r.type
  queryClass := r.queryClass
  ttl := r.ttl
  length := r.rdlength
  address := (ofRData r.rdata).1
  canonicalName := (ofRData r.rdata).2
  start := 28 + r.start

/-- The constructor ends with the questions and the answers of the message, each answer
read where it begins. -/
def Decoded (data : List UInt8) (questions : List domain.Question) (answers : List Resource) : Prop :=
  ∃ dns e, Runs data new 28 dns e ∧ dns.queries = questions.map ofQuestion ∧ dns.answers = answers.map ofResource

/-- The names of a record. -/
def SameTexts (data : List UInt8) (r : Resource) : Prop :=
  SameText data r.start r.labels ∧ ∀ labels, r.rdata = .canonicalName labels → SameText data r.rdataStart labels

variable {header m : List UInt8} {p e i n : Nat}

theorem runs_of_question (hheader : header.length = 28) {q : domain.Question} (hq : IsQuestion m q e) {v : Question} :
    Runs (header ++ m) question (28 + q.start) v p ↔
      p = 28 + (e + 4) ∧ ∃ read, Name (header ++ m) (false, ((28 + q.start : Nat) : Int)) read ∧
        v = { hostname := text read, type := q.type, queryClass := q.queryClass } := by
  have hfield := field_of_name hheader hq.name
  have htype := hheader ▸ hq.type.behind header
  have hclass := hheader ▸ hq.queryClass.behind header
  rw [runs_question]
  constructor
  · rintro ⟨read, i, hname, hfield', hhostname, htype', hclass', rfl⟩
    obtain rfl := hfield'.unique hfield
    refine ⟨by omega, read, hname, ?_⟩
    obtain ⟨hostname, type, queryClass⟩ := v
    simp only at hhostname htype' hclass'
    rw [hhostname, htype'.unique htype, hclass'.unique hclass]
  · rintro ⟨rfl, read, hname, rfl⟩
    exact ⟨read, 28 + e, hname, hfield, rfl, htype, hclass, by omega⟩

theorem runs_of_questions (hheader : header.length = 28) {qs : List domain.Question} (hqs : Questions m i qs e) :
    Runs (header ++ m) (question.replicate qs.length) (28 + i) (qs.map ofQuestion) p ↔
      p = 28 + e ∧ ∀ q ∈ qs, SameText (header ++ m) q.start q.labels := by
  induction hqs with
  | nil i =>
    rw [List.length_nil, runs_replicate_zero]
    simp
  | @cons q qs middle last hq _ ih =>
    rw [List.length_cons, runs_replicate_succ, List.map_cons]
    constructor
    · rintro ⟨v, rest, i, hsplit, hfirst, hrest⟩
      obtain ⟨rfl, rfl⟩ := List.cons.inj hsplit
      obtain ⟨rfl, read, hname, hv⟩ := (runs_of_question hheader hq).mp hfirst
      obtain ⟨rfl, hall⟩ := ih.mp hrest
      exact ⟨rfl, List.forall_mem_cons.mpr ⟨⟨read, hname, (congrArg Question.hostname hv).symm⟩, hall⟩⟩
    · rintro ⟨rfl, hall⟩
      obtain ⟨⟨read, hname, htext⟩, hrest⟩ := List.forall_mem_cons.mp hall
      refine ⟨_, _, _, rfl, (runs_of_question hheader hq).mpr ⟨rfl, read, hname, ?_⟩, ih.mpr ⟨rfl, hrest⟩⟩
      rw [htext]
      rfl

/-- How much of the data of an answer is read. -/
def taken (r : Resource) : Nat := if r.type = 1 ∨ r.type = 5 ∨ r.type = 28 then r.rdlength else 0

/-- What is read for the data of a record. -/
def IsRead (data : List UInt8) (i : Nat) : RData → Option InetAddress × Option (List (BitVec 16)) → Prop
  | .canonicalName _, v => ∃ read, Name data (false, ((28 + i : Nat) : Int)) read ∧ v = (none, some (text read))
  | .address bytes, v => v = (InetAddress.getByAddress bytes, none)
  | .other, v => v = (none, none)

theorem runs_of_rdata (hheader : header.length = 28) {type : Nat} {rdata : RData} (hdata : IsRData m i type n rdata)
    {v : Option InetAddress × Option (List (BitVec 16))} :
    Runs (header ++ m) (answerData type) (28 + i) v p ↔
      p = 28 + (i + if type = 1 ∨ type = 5 ∨ type = 28 then n else 0) ∧ IsRead (header ++ m) i rdata v := by
  cases hdata with
  | a hbytes =>
    have hall := hheader ▸ hbytes.behind header
    simp only [answerData, getIPAddress, runs_bind, runs_pure, runs_bytes hall, IsRead]
    constructor
    · rintro ⟨_, _, ⟨_, _, ⟨rfl, rfl⟩, rfl, rfl⟩, rfl, rfl⟩
      exact ⟨by simp; omega, rfl⟩
    · rintro ⟨rfl, rfl⟩
      exact ⟨_, _, ⟨_, _, ⟨rfl, rfl⟩, rfl, rfl⟩, rfl, by simp; omega⟩
  | @cname _ labels hname =>
    have hfield := field_of_name hheader hname
    simp only [answerData, runs_bind, runs_pure, runs_hostname, IsRead]
    constructor
    · rintro ⟨_, _, ⟨read, hread, hfield', rfl⟩, rfl, rfl⟩
      exact ⟨by simpa using hfield'.unique hfield, read, hread, rfl⟩
    · rintro ⟨rfl, read, hread, rfl⟩
      exact ⟨_, _, ⟨read, hread, hfield, rfl⟩, rfl, by simp⟩
  | aaaa hbytes =>
    have hall := hheader ▸ hbytes.behind header
    simp only [answerData, getIPv6Address, runs_bind, runs_pure, runs_bytes hall, IsRead]
    constructor
    · rintro ⟨_, _, ⟨_, _, ⟨rfl, rfl⟩, rfl, rfl⟩, rfl, rfl⟩
      exact ⟨by simp; omega, rfl⟩
    · rintro ⟨rfl, rfl⟩
      exact ⟨_, _, ⟨_, _, ⟨rfl, rfl⟩, rfl, rfl⟩, rfl, by simp; omega⟩
  | other ha hcname haaaa _ =>
    have hnone : answerData type = pure (none, none) := by
      unfold answerData
      split <;> first | rfl | contradiction
    rw [hnone, runs_pure, if_neg (by simp [ha, hcname, haaaa]), and_comm]
    rfl

theorem runs_of_resource (hheader : header.length = 28) {r : Resource} (hr : IsResource m r e) {a : Answer} :
    Runs (header ++ m) answer (28 + r.start) a p ↔
      p = 28 + (r.rdataStart + taken r) ∧
        (∃ read, Name (header ++ m) (false, ((28 + r.start : Nat) : Int)) read ∧
          a.toQuestion = { hostname := text read, type := r.type, queryClass := r.queryClass }) ∧
        a.ttl = r.ttl ∧ a.length = r.rdlength ∧
        IsRead (header ++ m) r.rdataStart r.rdata (a.address, a.canonicalName) ∧ a.start = 28 + r.start := by
  have httl := hheader ▸ hr.ttl.behind header
  have hlength := hheader ▸ hr.rdlength.behind header
  have hat : 28 + (e + 4) + 6 = 28 + r.rdataStart := by
    rw [hr.rdataStart]
    omega
  rw [runs_answer]
  constructor
  · rintro ⟨q, i, hq, httl', hlength', rfl, hdata, hstart⟩
    obtain ⟨rfl, read, hname, hquestion⟩ := (runs_of_question hheader hr.question).mp hq
    have htype : a.type = r.type := congrArg Question.type hquestion
    rw [hat, htype] at hdata
    obtain ⟨rfl, hread⟩ := (runs_of_rdata hheader hr.rdata).mp hdata
    exact ⟨rfl, ⟨read, hname, hquestion⟩, httl'.unique httl, hlength'.unique hlength, hread, hstart⟩
  · rintro ⟨rfl, ⟨read, hname, hquestion⟩, hattl, halength, hread, hstart⟩
    have htype : a.type = r.type := congrArg Question.type hquestion
    refine ⟨28 + (e + 4), 28 + r.rdataStart, (runs_of_question hheader hr.question).mpr ⟨rfl, read, hname, hquestion⟩,
      hattl ▸ httl, halength ▸ hlength, hat.symm, ?_, hstart⟩
    rw [htype]
    exact (runs_of_rdata hheader hr.rdata).mpr ⟨rfl, hread⟩

theorem isRead_ofRData (data : List UInt8) (i : Nat) (rdata : RData) :
    IsRead data i rdata (ofRData rdata) ↔ ∀ labels, rdata = .canonicalName labels → SameText data i labels := by
  cases rdata with
  | address bytes => simp [IsRead, ofRData]
  | canonicalName labels =>
    simp only [IsRead, ofRData, Prod.mk.injEq, true_and, Option.some.injEq, RData.canonicalName.injEq, forall_eq']
    constructor
    · rintro ⟨read, hname, htext⟩
      exact ⟨read, hname, htext.symm⟩
    · rintro ⟨read, hname, htext⟩
      exact ⟨read, hname, htext.symm⟩
  | other => simp [IsRead, ofRData]

/-- An answer is read as it should be if its names are. -/
theorem runs_ofResource (hheader : header.length = 28) {r : Resource} (hr : IsResource m r e) :
    Runs (header ++ m) answer (28 + r.start) (ofResource r) p ↔
      p = 28 + (r.rdataStart + taken r) ∧ SameTexts (header ++ m) r := by
  rw [runs_of_resource hheader hr]
  refine and_congr_right fun _ => ?_
  have hdata : IsRead (header ++ m) r.rdataStart r.rdata ((ofResource r).address, (ofResource r).canonicalName) ↔ _ :=
    isRead_ofRData (header ++ m) r.rdataStart r.rdata
  rw [hdata]
  constructor
  · rintro ⟨⟨read, hname, hquestion⟩, -, -, hread, -⟩
    exact ⟨⟨read, hname, (congrArg Question.hostname hquestion).symm⟩, hread⟩
  · rintro ⟨⟨read, hname, htext⟩, hread⟩
    refine ⟨⟨read, hname, ?_⟩, rfl, rfl, hread, rfl⟩
    rw [htext]
    rfl

theorem start_of_resources {r : Resource} {rs : List Resource} (hrs : Resources m i (r :: rs) e) : r.start = i := by
  cases hrs
  rfl

/-- The answers are read as they should be if all of the data of each is read but that of
the last, and their names are right. -/
theorem runs_of_resources (hheader : header.length = 28) {rs : List Resource} (hrs : Resources m i rs e) :
    (∃ p, Runs (header ++ m) (answer.replicate rs.length) (28 + i) (rs.map ofResource) p) ↔
      (∀ r ∈ rs.dropLast, taken r = r.rdlength) ∧ ∀ r ∈ rs, SameTexts (header ++ m) r := by
  induction hrs with
  | nil i =>
    refine iff_of_true ⟨28 + i, runs_replicate_zero.mpr ⟨rfl, rfl⟩⟩ ⟨?_, ?_⟩ <;> simp
  | @cons r rs middle last hr hrs ih =>
    simp only [List.length_cons, runs_replicate_succ, List.map_cons]
    cases rs with
    | nil =>
      constructor
      · rintro ⟨p, v, rest, i, hsplit, hfirst, -⟩
        obtain ⟨rfl, -⟩ := List.cons.inj hsplit
        obtain ⟨-, htexts⟩ := (runs_ofResource hheader hr).mp hfirst
        exact ⟨by simp, by simpa using htexts⟩
      · rintro ⟨-, hall⟩
        have hfirst := (runs_ofResource hheader hr).mpr ⟨rfl, hall r (by simp)⟩
        exact ⟨_, _, _, _, rfl, hfirst, runs_replicate_zero.mpr ⟨rfl, rfl⟩⟩
    | cons r' rs =>
      have hstart := start_of_resources hrs
      rw [List.dropLast_cons_cons, List.forall_mem_cons, List.forall_mem_cons]
      constructor
      · rintro ⟨p, v, rest, i, hsplit, hfirst, hrest⟩
        obtain ⟨rfl, rfl⟩ := List.cons.inj hsplit
        obtain ⟨rfl, htexts⟩ := (runs_ofResource hheader hr).mp hfirst
        -- the next answer is recorded where the packet stands
        have htaken : taken r = r.rdlength := by
          rw [List.length_cons, List.map_cons, runs_replicate_succ] at hrest
          obtain ⟨v, rest, i, hsplit, hnext, -⟩ := hrest
          obtain ⟨rfl, -⟩ := List.cons.inj hsplit
          obtain ⟨-, -, -, -, -, -, -, hat⟩ := runs_answer.mp hnext
          have hsame : 28 + r'.start = 28 + (r.rdataStart + taken r) := hat
          omega
        rw [htaken] at hrest
        obtain ⟨hothers, hall⟩ := ih.mp ⟨p, hrest⟩
        exact ⟨⟨htaken, hothers⟩, htexts, hall⟩
      · rintro ⟨⟨htaken, hothers⟩, htexts, hall⟩
        obtain ⟨p, hrest⟩ := ih.mpr ⟨hothers, hall⟩
        refine ⟨p, _, _, _, rfl, (runs_ofResource hheader hr).mpr ⟨rfl, htexts⟩, ?_⟩
        rw [htaken]
        exact hrest

/-- The header of a message is read, and then its questions and its answers. -/
theorem decoded_of_runs (hheader : header.length = 28) {questions : List domain.Question} {answers : List Resource}
    (hmessage : Message m questions answers) :
    Decoded (header ++ m) questions answers ↔
      ∃ i p, Runs (header ++ m) (question.replicate questions.length) 40 (questions.map ofQuestion) i ∧
        Runs (header ++ m) (answer.replicate answers.length) i (answers.map ofResource) p := by
  have hquestions := hheader ▸ hmessage.questionCount.behind header
  have hanswers := hheader ▸ hmessage.answerCount.behind header
  have hnumber : ∀ i < 11, ∃ n, U16 (header ++ m) (28 + i) n := by
    intro i hi
    have hlong := hmessage.header
    have hlength : (header ++ m).length = 28 + m.length := by rw [List.length_append, hheader]
    exact ⟨_, _, _, List.getElem?_eq_getElem (by omega), List.getElem?_eq_getElem (by omega), rfl⟩
  unfold Decoded
  simp only [new, runs_bind, runs_get16Bits, runs_pure]
  constructor
  · rintro ⟨dns, e, ⟨_, _, ⟨-, rfl⟩, _, _, ⟨-, rfl⟩, nq, _, ⟨hnq, rfl⟩, na, _, ⟨hna, rfl⟩, _, _, ⟨-, rfl⟩, _, _,
      ⟨-, rfl⟩, queries, i, hqs, answers', p, has, rfl, rfl⟩, rfl, rfl⟩
    obtain rfl := hnq.unique hquestions
    obtain rfl := hna.unique hanswers
    exact ⟨i, e, hqs, has⟩
  · rintro ⟨i, p, hqs, has⟩
    obtain ⟨id, hid⟩ := hnumber 0 (by decide)
    obtain ⟨flags, hflags⟩ := hnumber 2 (by decide)
    obtain ⟨authority, hauthority⟩ := hnumber 8 (by decide)
    obtain ⟨additional, hadditional⟩ := hnumber 10 (by decide)
    exact ⟨_, p, ⟨id, 30, ⟨hid, rfl⟩, flags, 32, ⟨hflags, rfl⟩, _, 34, ⟨hquestions, rfl⟩, _, 36, ⟨hanswers, rfl⟩,
      authority, 38, ⟨hauthority, rfl⟩, additional, 40, ⟨hadditional, rfl⟩, _, i, hqs, _, p, has, rfl, rfl⟩, rfl, rfl⟩

/-- A message is decoded as it should be if the data of every answer but the last is of
a type that is read or is empty, and every name has the same text when the bytes behind
its first pointer are taken with their signs. -/
theorem decoded_iff (hheader : header.length = 28) {questions : List domain.Question} {answers : List Resource}
    (hmessage : Message m questions answers) :
    Decoded (header ++ m) questions answers ↔
      (∀ r ∈ answers.dropLast, r.type = 1 ∨ r.type = 5 ∨ r.type = 28 ∨ r.rdlength = 0) ∧
        (∀ q ∈ questions, SameText (header ++ m) q.start q.labels) ∧ ∀ r ∈ answers, SameTexts (header ++ m) r := by
  have htaken : ∀ r : Resource, taken r = r.rdlength ↔ r.type = 1 ∨ r.type = 5 ∨ r.type = 28 ∨ r.rdlength = 0 := by
    intro r
    unfold taken
    split <;> omega
  obtain ⟨i, last, hqs, hrs⟩ := hmessage.records
  have hresources := runs_of_resources hheader hrs
  simp only [htaken] at hresources
  rw [decoded_of_runs hheader hmessage]
  constructor
  · rintro ⟨j, p, hquestions, hanswers⟩
    obtain ⟨rfl, hnames⟩ := (runs_of_questions hheader hqs).mp hquestions
    obtain ⟨htypes, hall⟩ := hresources.mp ⟨p, hanswers⟩
    exact ⟨htypes, hnames, hall⟩
  · rintro ⟨htypes, hnames, hall⟩
    obtain ⟨p, hanswers⟩ := hresources.mpr ⟨htypes, hall⟩
    exact ⟨28 + i, p, (runs_of_questions hheader hqs).mpr ⟨rfl, hnames⟩, hanswers⟩

/-- A question for `a`, with an alias and its address. -/
def aliasMessage : List UInt8 :=
  [0x12, 0x34, 0x81, 0x80, 0, 1, 0, 2, 0, 0, 0, 0] ++ [1, 97, 0, 0, 1, 0, 1] ++
    [0xC0, 12, 0, 5, 0, 1, 0, 0, 0, 60, 0, 4, 1, 98, 0xC0, 12] ++
    [0xC0, 31, 0, 1, 0, 1, 0, 0, 0, 60, 0, 4, 10, 0, 0, 1]

def aliasQuestion : domain.Question := { start := 12, labels := [[97]], type := 1, queryClass := 1 }

def aliasAnswer : Resource where
  start := 19
  labels := [[97]]
  type := 5
  queryClass := 1
  ttl := 60
  rdataStart := 31
  rdlength := 4
  rdata := .canonicalName [[98], [97]]

def addressAnswer : Resource where
  start := 35
  labels := [[98], [97]]
  type := 1
  queryClass := 1
  ttl := 60
  rdataStart := 47
  rdlength := 4
  rdata := .address [10, 0, 0, 1]

theorem aliasMessage_decoded :
    Decoded (List.replicate 28 0 ++ aliasMessage) [aliasQuestion] [aliasAnswer, addressAnswer] := by
  have hheader : (List.replicate 28 (0 : UInt8)).length = 28 := rfl
  have hname : domain.Name aliasMessage 12 [[97]] 15 := .label rfl (by decide) (by decide) ⟨rfl, by decide⟩ (.root rfl)
  have hlong : domain.Name aliasMessage 31 [[98], [97]] 35 :=
    .label rfl (by decide) (by decide) ⟨rfl, by decide⟩ (.pointer rfl (by decide) rfl hname)
  have hquestion : IsQuestion aliasMessage aliasQuestion 15 := ⟨hname, ⟨_, _, rfl, rfl, rfl⟩, ⟨_, _, rfl, rfl, rfl⟩⟩
  have halias : IsResource aliasMessage aliasAnswer 21 :=
    ⟨⟨.pointer rfl (by decide) rfl hname, ⟨_, _, rfl, rfl, rfl⟩, ⟨_, _, rfl, rfl, rfl⟩⟩,
      ⟨_, _, ⟨_, _, rfl, rfl, rfl⟩, ⟨_, _, rfl, rfl, rfl⟩, rfl⟩, ⟨_, _, rfl, rfl, rfl⟩, rfl, .cname hlong⟩
  have haddress : IsResource aliasMessage addressAnswer 37 :=
    ⟨⟨.pointer rfl (by decide) rfl hlong, ⟨_, _, rfl, rfl, rfl⟩, ⟨_, _, rfl, rfl, rfl⟩⟩,
      ⟨_, _, ⟨_, _, rfl, rfl, rfl⟩, ⟨_, _, rfl, rfl, rfl⟩, rfl⟩, ⟨_, _, rfl, rfl, rfl⟩, rfl, .a ⟨rfl, by decide⟩⟩
  have hmessage : Message aliasMessage [aliasQuestion] [aliasAnswer, addressAnswer] :=
    ⟨by decide, ⟨_, _, rfl, rfl, rfl⟩, ⟨_, _, rfl, rfl, rfl⟩, 19, 51, .cons hquestion (.nil 19),
      .cons halias (.cons haddress (.nil 51))⟩
  have hplain : Plain aliasMessage 12 [[97]] :=
    .label rfl (by decide) (by decide) ⟨rfl, by decide⟩ (by simp) (.root rfl)
  have hlongPlain : Plain aliasMessage 31 [[98], [97]] :=
    .label rfl (by decide) (by decide) ⟨rfl, by decide⟩ (by simp) (.pointer rfl (by decide) rfl (by decide) hplain)
  refine (decoded_iff hheader hmessage).mpr ⟨by decide, ?_, ?_⟩
  · rw [List.forall_mem_singleton]
    exact sameText_of_safe hheader (.label rfl (by decide) (by decide) ⟨rfl, by decide⟩ (.root rfl))
  · rw [List.forall_mem_cons, List.forall_mem_singleton]
    refine ⟨⟨sameText_of_safe hheader (.pointer rfl (by decide) rfl hplain), ?_⟩,
      sameText_of_safe hheader (.pointer rfl (by decide) rfl hlongPlain), ?_⟩
    · rintro labels ⟨⟩
      exact sameText_of_safe hheader
        (.label rfl (by decide) (by decide) ⟨rfl, by decide⟩ (.pointer rfl (by decide) rfl hplain))
    · rintro labels ⟨⟩

/-- A question for all records of the root, with a text and an address. -/
def textMessage : List UInt8 :=
  [0x12, 0x34, 0x81, 0x80, 0, 1, 0, 2, 0, 0, 0, 0] ++ [0, 0, 255, 0, 1] ++
    [0, 0, 16, 0, 1, 0, 0, 0, 60, 0, 2, 1, 97] ++ [0, 0, 1, 0, 1, 0, 0, 0, 60, 0, 4, 10, 0, 0, 1]

def textQuestion : domain.Question := { start := 12, labels := [], type := 255, queryClass := 1 }

def textAnswer : Resource where
  start := 17
  labels := []
  type := 16
  queryClass := 1
  ttl := 60
  rdataStart := 28
  rdlength := 2
  rdata := .other

def rootAnswer : Resource where
  start := 30
  labels := []
  type := 1
  queryClass := 1
  ttl := 60
  rdataStart := 41
  rdlength := 4
  rdata := .address [10, 0, 0, 1]

/-- The data of the text is not skipped. It is taken for the name of the answer behind it. -/
theorem textMessage_not_decoded : Message textMessage [textQuestion] [textAnswer, rootAnswer] ∧
    ¬ Decoded (List.replicate 28 0 ++ textMessage) [textQuestion] [textAnswer, rootAnswer] := by
  refine ⟨⟨by decide, ⟨_, _, rfl, rfl, rfl⟩, ⟨_, _, rfl, rfl, rfl⟩, 17, 45, ?_, ?_⟩, ?_⟩
  · have hquestion : IsQuestion textMessage textQuestion 13 := ⟨.root rfl, ⟨_, _, rfl, rfl, rfl⟩, ⟨_, _, rfl, rfl, rfl⟩⟩
    exact .cons hquestion (.nil 17)
  · have htext : IsResource textMessage textAnswer 18 :=
      ⟨⟨.root rfl, ⟨_, _, rfl, rfl, rfl⟩, ⟨_, _, rfl, rfl, rfl⟩⟩,
        ⟨_, _, ⟨_, _, rfl, rfl, rfl⟩, ⟨_, _, rfl, rfl, rfl⟩, rfl⟩, ⟨_, _, rfl, rfl, rfl⟩, rfl,
        .other (by decide) (by decide) (by decide) (by decide)⟩
    have hroot : IsResource textMessage rootAnswer 31 :=
      ⟨⟨.root rfl, ⟨_, _, rfl, rfl, rfl⟩, ⟨_, _, rfl, rfl, rfl⟩⟩,
        ⟨_, _, ⟨_, _, rfl, rfl, rfl⟩, ⟨_, _, rfl, rfl, rfl⟩, rfl⟩, ⟨_, _, rfl, rfl, rfl⟩, rfl, .a ⟨rfl, by decide⟩⟩
    exact .cons htext (.cons hroot (.nil 45))
  · rintro ⟨dns, e, ⟨fuel, hrun⟩, -, hanswers⟩
    have hnames : (new.run (List.replicate 28 0 ++ textMessage) 20 28).map (·.map (·.1.answers.map (·.hostname))) =
        some (.ok [[], [97]]) := by decide
    obtain ⟨result, hresult, hmap⟩ := Option.map_eq_some_iff.mp hnames
    have hsame := (run_mono (Nat.le_add_left 20 fuel) hresult).symm.trans (run_mono (Nat.le_add_right fuel 20) hrun)
    obtain rfl := Option.some_inj.mp hsame
    have hlist : dns.answers.map (·.hostname) = [[], [97]] := Except.ok.inj hmap
    rw [hanswers] at hlist
    revert hlist
    decide

end inspector.vpn.DNS
