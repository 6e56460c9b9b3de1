import Inspector.NetguardJni.DnsResponse
import Inspector.NetguardJni.QNameDecoding

open bounded domain

namespace inspector.netguard.jni

namespace DnsResponse

/-- A name that `get_qname` reads, and finds the end of. -/
structure Readable (m : List UInt8) (i : Nat) (labels : List (List UInt8)) : Prop where
  route : ∃ n direct e, Route m n direct i labels e ∧ n ≤ 26 ∧ (direct = true ∨ StartsWithPointer m i)
  nonempty : labels ≠ []
  fits : (joined labels).length ≤ DNS_QNAME_MAX

/-- The text of a name, as a reader of the array sees it. -/
def text (labels : List (List UInt8)) : List UInt8 := (dotted labels).takeWhile (· ≠ 0)

/-- What is reported of an answer: an address of the class of the Internet. -/
def ofResource (qname : List UInt8) (r : Resource) : List Resolved :=
  match r.rdata with
  | .address rd => if r.queryClass = DNS_QCLASS_IN then [{ qname, name := text r.labels, rd, ttl := r.ttl }] else []
  | _ => []

variable {m name : List UInt8} {i e n : Nat} {labels : List (List UInt8)}

/-- A name that is copied ends at its first zero. -/
theorem takeWhile_nul (l rest : List UInt8) : (l ++ 0 :: rest).takeWhile (· ≠ 0) = l.takeWhile (· ≠ 0) := by
  induction l with
  | nil => rfl
  | cons b l ih => simp only [List.cons_append, List.takeWhile_cons, ih]

/-- A name that was read is the dotted text of its labels. -/
theorem cString_text (rest : List UInt8) : cString (dotted labels ++ 0 :: rest) = .ok (text labels) := by
  rw [cString, if_pos (by simp), takeWhile_nul, text]

/-- Bytes that are in the message end within it. -/
theorem end_le_of_bytes {w : List UInt8} (hi : i ≤ m.length) (hw : Bytes m i n w) : i + n ≤ m.length := by
  obtain ⟨rfl, more, hmore⟩ := hw
  have hlength := congrArg List.length hmore
  rw [List.length_append, List.length_drop] at hlength
  omega

/-- A number of two bytes that is in the message is read. -/
theorem ntohs_eq (hn : U16 m i n) : ntohs m i = .ok n := by
  obtain ⟨hi, lo, hhi, hlo, rfl⟩ := hn
  rw [ntohs, load_eq_ok.mpr hhi, load_eq_ok.mpr hlo]
  rfl

/-- So is one of four bytes. -/
theorem ntohl_eq (hn : U32 m i n) : ntohl m i = .ok n := by
  obtain ⟨hi, lo, hhi, hlo, rfl⟩ := hn
  rw [ntohl, ntohs_eq hhi, ntohs_eq hlo]
  rfl

/-- A readable name is read in full, and reading goes on at its end. -/
theorem get_qname_readable (hm : m.length < 2 ^ 16) (hlegal : Name m i labels e) (hreadable : Readable m i labels)
    (hname : name.length = DNS_QNAME_MAX + 1) :
    ∃ behind next rest, get_qname m (BitVec.ofNat 16 i) name = .ok (some behind, next) ∧ behind.toNat = e ∧
      next = dotted labels ++ 0 :: rest ∧ next.length = DNS_QNAME_MAX + 1 := by
  obtain ⟨⟨n, direct, e', hroute, hcount, hpointer⟩, hnonempty, hfits⟩ := hreadable
  obtain rfl := name_end_unique (name_iff_route.mpr ⟨n, direct, hroute⟩) hlegal
  have hoff := Walk.toNat_ofNat_of_lt_length hm hroute.start_lt
  obtain ⟨behind, rest, hget, hend⟩ :=
    get_qname_reads hm (hoff.symm ▸ hroute) hcount hnonempty hfits hname
  obtain ⟨r, hsafe, hlength, -⟩ := safe_get_qname m (BitVec.ofNat 16 i) hname
  rw [hget] at hsafe
  cases hsafe
  exact ⟨behind, _, rest, hget, hend.mpr (by rw [hoff]; exact hpointer), rfl, hlength⟩

/-- The address of a record that lies within the message is copied. -/
theorem address_eq {type : Nat} {w : List UInt8} (hi : i ≤ m.length) (hw : Bytes m i (addressLength type) w) :
    address m type i = .ok (some w) := by
  have hpositive : 0 < addressLength type := by
    rw [addressLength]
    split <;> decide
  rw [address, if_pos (end_le_of_bytes hi hw), slice_of_bytes hw hpositive]
  rfl

/-- The data of a record ends within the message. -/
theorem end_le_of_isRData {type : Nat} {rdata : RData} (hi : i ≤ m.length) (hrdata : IsRData m i type n rdata) :
    i + n ≤ m.length := by
  cases hrdata with
  | a hbytes => exact end_le_of_bytes hi hbytes
  | cname hname =>
    obtain ⟨count, direct, hroute⟩ := name_iff_route.mp hname
    exact hroute.end_le
  | aaaa hbytes => exact end_le_of_bytes hi hbytes
  | other _ _ _ hend => exact hend

/-- A record of an address in the class of the internet is reported. -/
theorem report_address {qname rd : List UInt8} {ttl rdlength : Nat} (type : Nat) (rest : List UInt8) (hi : i ≤ m.length)
    (htype : type = DNS_QTYPE_A ∨ type = DNS_QTYPE_AAAA) (hrd : Bytes m i (addressLength type) rd) :
    report m qname (dotted labels ++ 0 :: rest) type DNS_QCLASS_IN ttl i rdlength =
      .ok (some (i + rdlength, [{ qname, name := text labels, rd, ttl }])) := by
  rw [report, if_pos ⟨rfl, htype⟩, address_eq hi hrd]
  change (cString _ >>= _) = _
  rw [cString_text]
  rfl

/-- A record is reported if it is one of an address, and passed over otherwise. -/
theorem report_eq {qname : List UInt8} {type queryClass ttl start rdlength : Nat} {rdata : RData} (rest : List UInt8)
    (hi : i ≤ m.length) (hrdata : IsRData m i type rdlength rdata) :
    report m qname (dotted labels ++ 0 :: rest) type queryClass ttl i rdlength = .ok (some (i + rdlength,
      ofResource qname { start, labels, type, queryClass, ttl, rdataStart := i, rdlength, rdata })) := by
  have hA : DNS_QTYPE_A = 1 := rfl
  have hAAAA : DNS_QTYPE_AAAA = 28 := rfl
  by_cases hclass : queryClass = DNS_QCLASS_IN
  · subst hclass
    cases hrdata with
    | a hbytes => exact report_address 1 rest hi (.inl rfl) hbytes
    | cname hname =>
      rw [report, if_neg (by omega)]
      rfl
    | aaaa hbytes => exact report_address 28 rest hi (.inr rfl) hbytes
    | other ha hcname haaaa hend =>
      rw [report, if_neg (by omega)]
      rfl
  · have hnone : ofResource qname { start, labels, type, queryClass, ttl, rdataStart := i, rdlength, rdata } = [] := by
      cases rdata with
      | address rd => exact if_neg hclass
      | canonicalName labels => rfl
      | other => rfl
    rw [report, if_neg fun hboth => hclass hboth.1, hnone]
    rfl

/-- The answer behind its name. -/
theorem readRecord_of_isResource {qname : List UInt8} {r : Resource} (rest : List UInt8) (hr : IsResource m r e)
    (he : 0 < e) :
    readRecord m qname (dotted r.labels ++ 0 :: rest) e =
      .ok (some (r.rdataStart + r.rdlength, ofResource qname r)) := by
  obtain ⟨⟨start, labels, type, queryClass⟩, ttl, rdataStart, rdlength, rdata⟩ := r
  obtain ⟨⟨-, htype, hclass⟩, httl, hlength, rfl, hrdata⟩ := hr
  have hfixed : e + 10 ≤ m.length := by
    obtain ⟨hi, lo, -, hlo, -⟩ := hlength
    have hlt := lt_length_of_getElem? hlo
    omega
  rw [readRecord, if_pos ⟨he, hfixed⟩, ntohs_eq htype, ntohs_eq hclass, ntohl_eq httl, ntohs_eq hlength]
  change (if e + 10 + rdlength ≤ m.length then _ else _) = _
  rw [if_pos (end_le_of_isRData hfixed hrdata)]
  exact report_eq rest hfixed hrdata

/-- All records of the answer are read, and those of addresses are reported in order. -/
theorem readAnswers_of_resources (hm : m.length < 2 ^ 16) {qname : List UInt8} {rs : List Resource} {last : Nat}
    (hrs : Resources m i rs last) (hreadable : ∀ r ∈ rs, Readable m r.start r.labels)
    (hname : name.length = DNS_QNAME_MAX + 1) :
    readAnswers m qname rs.length i name = .ok (rs.flatMap (ofResource qname), true) := by
  induction hrs generalizing name with
  | nil => rfl
  | @cons r rs e last hr hrs ih =>
    obtain ⟨hfirst, hothers⟩ := List.forall_mem_cons.mp hreadable
    obtain ⟨behind, next, rest, hget, rfl, rfl, hlength⟩ := get_qname_readable hm hr.question.name hfirst hname
    have hpositive : 0 < behind.toNat := by
      obtain ⟨n, direct, hroute⟩ := name_iff_route.mp hr.question.name
      exact Nat.lt_of_le_of_lt (Nat.zero_le _) hroute.start_lt_end
    rw [List.length_cons, readAnswers, hget]
    change (readRecord m qname (dotted r.labels ++ 0 :: rest) behind.toNat >>= _) = _
    rw [readRecord_of_isResource rest hr hpositive]
    change (readAnswers m qname rs.length (r.rdataStart + r.rdlength) (dotted r.labels ++ 0 :: rest) >>= _) = _
    rw [ih hothers hlength]
    rfl

/-- The flags of the answer to a standard query. -/
def IsAnswered (m : List UInt8) : Prop := ∃ flags, m[2]? = some flags ∧ flags &&& 0x80 ≠ 0 ∧ flags &&& 0x78 = 0

/-- The message that a blocked domain is answered with. -/
def blocked (m : List UInt8) (rcode : BitVec 4) : List UInt8 :=
  (m.overwrite 2 [0x80, ⟨rcode.setWidth 8⟩]).overwrite 6 [0, 0, 0, 0, 0, 0]

/-- A message with a header can be made the answer for a blocked domain. -/
theorem block_eq (rcode : BitVec 4) (hheader : 12 ≤ m.length) : block m rcode = .ok (blocked m rcode) := by
  rw [block, store_of_le (by simp only [List.length_cons, List.length_nil]; omega)]
  refine store_of_le ?_
  rw [List.length_overwrite]
  exact hheader

variable {is_domain_blocked : List UInt8 → Bool} {rcode : BitVec 4}

/-- Without questions the answers begin behind the header. -/
theorem end_of_no_questions (hnone : Questions m i [] e) : e = i := by
  cases hnone
  rfl

/-- The answers are reported under the name of the question, whether it is blocked or not. -/
theorem readResponse_of_message (hm : m.length < 2 ^ 16) {q : Question} {answers : List Resource} {last : Nat}
    (hheader : 12 ≤ m.length) (hquestions : Questions m 12 [q] i) (hanswers : Resources m i answers last)
    (hquestion : Readable m 12 q.labels) (hnames : ∀ r ∈ answers, Readable m r.start r.labels)
    (hname : name.length = DNS_QNAME_MAX + 1) :
    readResponse m is_domain_blocked rcode answers.length name = .ok {
      resolved := answers.flatMap (ofResource (text q.labels))
      data := if is_domain_blocked (text q.labels) then blocked m rcode else m
      datalen := if is_domain_blocked (text q.labels) then i else m.length } := by
  generalize hstart : (12 : Nat) = start at hquestions
  cases hquestions with
  | @cons _ _ e _ hq hqs =>
    obtain rfl := end_of_no_questions hqs
    rw [hstart] at hquestion
    obtain ⟨behind, next, rest, hget, rfl, rfl, hlength⟩ := get_qname_readable hm hq.name hquestion hname
    have hpositive : 0 < behind := by
      obtain ⟨n, direct, hroute⟩ := name_iff_route.mp hq.name
      exact Nat.lt_of_le_of_lt (Nat.zero_le _) hroute.start_lt_end
    have hfits : behind.toNat + 4 ≤ m.length := by
      obtain ⟨hi, lo, -, hlo, -⟩ := hq.queryClass
      have hlt := lt_length_of_getElem? hlo
      omega
    rw [← hstart] at hget
    rw [readResponse, show (12 : BitVec 16) = BitVec.ofNat 16 12 from rfl, hget]
    change (if 0 < behind ∧ behind.toNat + 4 ≤ m.length then _ else _) = _
    rw [if_pos ⟨hpositive, hfits⟩, cString_text, ntohs_eq hq.type, ntohs_eq hq.queryClass]
    change (readAnswers m (text q.labels) answers.length (behind.toNat + 4) (dotted q.labels ++ 0 :: rest) >>= _) = _
    rw [readAnswers_of_resources hm hanswers hnames hlength]
    change settle m is_domain_blocked rcode _ _ _ true = _
    rw [settle]
    cases hblocked : is_domain_blocked (text q.labels) with
    | true =>
      rw [if_pos ⟨rfl, rfl⟩, block_eq rcode hheader]
      rfl
    | false => rfl

end DnsResponse

open DnsResponse in
/-- A response to one question, with answers whose names `get_qname` can read: every
address among the answers is reported, in order and with the name of its record, and
the message is passed on as it is unless the domain is blocked. -/
theorem parse_dns_response_reports {m name : List UInt8} {q : Question} {answers : List Resource}
    (is_domain_blocked : List UInt8 → Bool) (rcode : BitVec 4) (hm : m.length < 2 ^ 16)
    (hmessage : Message m [q] answers)
    (hanswered : IsAnswered m) (hanswers : answers ≠ []) (hquestion : Readable m 12 q.labels)
    (hnames : ∀ r ∈ answers, Readable m r.start r.labels) (hname : name.length = DNS_QNAME_MAX + 1) :
    ∃ aoff, Questions m 12 [q] aoff ∧ parse_dns_response m is_domain_blocked rcode name = .ok {
      resolved := answers.flatMap (ofResource (text q.labels))
      data := if is_domain_blocked (text q.labels) then blocked m rcode else m
      datalen := if is_domain_blocked (text q.labels) then aoff else m.length } := by
  obtain ⟨hheader, hqcount, hacount, i, last, hquestions, hresources⟩ := hmessage
  obtain ⟨flags, hflags, hqr, hopcode⟩ := hanswered
  have hlong : ¬ m.length < 12 + 1 := by
    obtain ⟨n, direct, e, hroute, -⟩ := hquestion.route
    have hlt := hroute.start_lt
    omega
  have hcounts : flags &&& 0x80 ≠ 0 ∧ flags &&& 0x78 = 0 ∧ 0 < [q].length ∧ 0 < answers.length :=
    ⟨hqr, hopcode, Nat.one_pos, List.length_pos_of_ne_nil hanswers⟩
  refine ⟨i, hquestions, ?_⟩
  rw [parse_dns_response, if_neg hlong, load_eq_ok.mpr hflags, ntohs_eq hqcount, ntohs_eq hacount]
  change (if flags &&& 0x80 ≠ 0 ∧ flags &&& 0x78 = 0 ∧ 0 < [q].length ∧ 0 < answers.length then _ else _) = _
  rw [if_pos hcounts]
  exact readResponse_of_message hm hheader hquestions hresources hquestion hnames hname

/-- The response to a query for the address of `a`. -/
def addressMessage : List UInt8 :=
  [0, 1, 0x81, 0x80, 0, 1, 0, 1, 0, 0, 0, 0, 1, 97, 0, 0, 1, 0, 1, 0xC0, 12, 0, 1, 0, 1, 0, 0, 0, 60, 0, 4, 10, 0, 0, 1]

def addressQuestion : Question := { start := 12, labels := [[97]], type := 1, queryClass := 1 }

def addressRecord : Resource where
  start := 19
  labels := [[97]]
  type := 1
  queryClass := 1
  ttl := 60
  rdataStart := 31
  rdlength := 4
  rdata := .address [10, 0, 0, 1]

/-- The sample has one address, which is reported under its own name. -/
theorem addressMessage_reported : ∃ aoff, Questions addressMessage 12 [addressQuestion] aoff ∧
    parse_dns_response addressMessage (fun _ => false) 3 (List.replicate 256 0) = .ok {
      resolved := [addressRecord].flatMap (DnsResponse.ofResource (DnsResponse.text [[97]]))
      data := addressMessage
      datalen := addressMessage.length } := by
  have hroute : Route addressMessage 1 true 12 [[97]] 15 :=
    .label (b := 1) rfl (by decide) (by decide) ⟨rfl, addressMessage.drop 14, rfl⟩ (.root rfl)
  have hhigh : addressMessage[19]? = some 0xC0 := rfl
  have hlow : addressMessage[19 + 1]? = some 12 := rfl
  have hpointer : Route addressMessage 2 false 19 [[97]] 21 := .pointer hhigh (by decide) hlow hroute
  have hquestion : IsQuestion addressMessage addressQuestion 15 :=
    ⟨name_iff_route.mpr ⟨_, _, hroute⟩, ⟨0, 1, rfl, rfl, rfl⟩, ⟨0, 1, rfl, rfl, rfl⟩⟩
  have hrecord : IsResource addressMessage addressRecord 21 :=
    ⟨⟨name_iff_route.mpr ⟨_, _, hpointer⟩, ⟨0, 1, rfl, rfl, rfl⟩, ⟨0, 1, rfl, rfl, rfl⟩⟩,
      ⟨0, 60, ⟨0, 0, rfl, rfl, rfl⟩, ⟨0, 60, rfl, rfl, rfl⟩, rfl⟩, ⟨0, 4, rfl, rfl, rfl⟩, rfl,
      .a ⟨rfl, [], rfl⟩⟩
  have hmessage : Message addressMessage [addressQuestion] [addressRecord] :=
    ⟨by decide, ⟨0, 1, rfl, rfl, rfl⟩, ⟨0, 1, rfl, rfl, rfl⟩, 19, 35, .cons hquestion (.nil 19),
      .cons hrecord (.nil 35)⟩
  have hnames : ∀ r ∈ [addressRecord], DnsResponse.Readable addressMessage r.start r.labels := by
    intro r hr
    rw [List.mem_singleton] at hr
    subst hr
    exact ⟨⟨2, false, 21, hpointer, by decide, .inr ⟨0xC0, rfl, by decide⟩⟩, by decide, by decide⟩
  exact parse_dns_response_reports (fun _ => false) 3 (by decide) hmessage ⟨0x81, rfl, by decide, by decide⟩ (by decide)
    ⟨⟨1, true, 15, hroute, by decide, .inl rfl⟩, by decide, by decide⟩ hnames List.length_replicate

end inspector.netguard.jni
