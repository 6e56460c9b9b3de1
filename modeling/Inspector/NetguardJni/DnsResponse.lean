import Inspector.NetguardJni.QName

open bounded

namespace inspector.netguard.jni

/-- The arguments of `dns_resolved`. -/
structure Resolved where
  qname : List UInt8
  name : List UInt8
  rd : List UInt8
  ttl : Nat
  deriving DecidableEq, Repr

/-- What `parse_dns_response` does: the addresses it reports, and the message and the
length it leaves. -/
structure DnsResponse where
  resolved : List Resolved
  data : List UInt8
  datalen : Nat
  deriving DecidableEq, Repr

namespace DnsResponse

def DNS_QCLASS_IN : Nat := 1

def DNS_QTYPE_A : Nat := 1

def DNS_QTYPE_AAAA : Nat := 28

/-- The text of an array of characters. Without a NUL it would be read past the end. -/
def cString (text : List UInt8) : Except Fault (List UInt8) :=
  if 0 ∈ text then .ok (text.takeWhile (· ≠ 0)) else .error .load

variable (data : List UInt8)

def ntohs (i : Nat) : Except Fault Nat := do return (← load data i).toNat * 2 ^ 8 + (← load data (i + 1)).toNat

def ntohl (i : Nat) : Except Fault Nat := do return (← ntohs data i) * 2 ^ 16 + (← ntohs data (i + 2))

def addressLength (qtype : Nat) : Nat := if qtype = DNS_QTYPE_A then 4 else 16

/-- The address in the data of an answer. Where it does not fit in, the function
returns. -/
def address (qtype off : Nat) : Except Fault (Option (List UInt8)) :=
  if off + addressLength qtype ≤ data.length then do
    return some (← slice data off (addressLength qtype))
  else return none

/-- What is done with an answer whose data begins at `off`. -/
def report (qname name : List UInt8) (qtype qclass ttl off rdlength : Nat) :
    Except Fault (Option (Nat × List Resolved)) :=
  if qclass = DNS_QCLASS_IN ∧ (qtype = DNS_QTYPE_A ∨ qtype = DNS_QTYPE_AAAA) then do
    match ← address data qtype off with
    | some rd => return some (off + rdlength, [{ qname, name := ← cString name, rd, ttl }])
    | none => return none
  else return some (off + rdlength, [])

/-- What is behind the name of an answer. -/
def readRecord (qname name : List UInt8) (off : Nat) : Except Fault (Option (Nat × List Resolved)) :=
  if 0 < off ∧ off + 10 ≤ data.length then do
    let qtype ← ntohs data off
    let qclass ← ntohs data (off + 2)
    let ttl ← ntohl data (off + 4)
    let rdlength ← ntohs data (off + 8)
    if off + 10 + rdlength ≤ data.length then report data qname name qtype qclass ttl (off + 10) rdlength
    else return none
  else return none

/-- The loop over the answers. It says whether it came to its end, which a `return` in
it prevents. -/
def readAnswers (qname : List UInt8) : Nat → Nat → List UInt8 → Except Fault (List Resolved × Bool)
  | 0, _, _ => return ([], true)
  | acount + 1, off, name => do
    let (found, name) ← get_qname data (BitVec.ofNat 16 off) name
    match found with
    | none => return ([], false)
    | some off =>
      match ← readRecord data qname name off.toNat with
      | none => return ([], false)
      | some (off, resolved) =>
        let (others, complete) ← readAnswers qname acount off name
        return (resolved ++ others, complete)

/-- The answer for a blocked domain: the header with the response code and no records. -/
def block (rcode : BitVec 4) : Except Fault (List UInt8) :=
  store data 2 [0x80, ⟨rcode.setWidth 8⟩] >>= fun data => store data 6 [0, 0, 0, 0, 0, 0]

variable (is_domain_blocked : List UInt8 → Bool) (rcode : BitVec 4)

/-- The message once the answers are read. -/
def settle (qname : List UInt8) (aoff : Nat) (resolved : List Resolved) (complete : Bool) : Except Fault DnsResponse :=
  if complete ∧ is_domain_blocked qname then do return { resolved, data := ← block data rcode, datalen := aoff }
  else return { resolved, data, datalen := data.length }

/-- What `parse_dns_response` does with a response that has questions and answers. -/
def readResponse (acount : Nat) (name : List UInt8) : Except Fault DnsResponse := do
  let (found, name) ← get_qname data 12 name
  match found with
  | none => return { resolved := [], data, datalen := data.length }
  | some off =>
    if 0 < off ∧ off.toNat + 4 ≤ data.length then do
      let qname ← cString name
      let _qtype ← ntohs data off.toNat
      let _qclass ← ntohs data (off.toNat + 2)
      let (resolved, complete) ← readAnswers data qname acount (off.toNat + 4) name
      settle data is_domain_blocked rcode qname (off.toNat + 4) resolved complete
    else return { resolved := [], data, datalen := data.length }

end DnsResponse

open DnsResponse in
/-- `parse_dns_response`. The array `name` has any bytes at first. -/
def parse_dns_response (data : List UInt8) (is_domain_blocked : List UInt8 → Bool) (rcode : BitVec 4)
    (name : List UInt8) : Except Fault DnsResponse :=
  if data.length < 12 + 1 then return { resolved := [], data, datalen := data.length }
  else do
    let flags ← load data 2
    let qcount ← ntohs data 4
    let acount ← ntohs data 6
    if flags &&& 0x80 ≠ 0 ∧ flags &&& 0x78 = 0 ∧ 0 < qcount ∧ 0 < acount then
      readResponse data is_domain_blocked rcode acount name
    else return { resolved := [], data, datalen := data.length }

namespace DnsResponse
variable {data : List UInt8} {i : Nat}

/-- A text with a NUL is read up to it. -/
theorem safe_cString {text : List UInt8} (hnul : 0 ∈ text) : Safe (cString text) fun _ => True := by
  rw [cString, if_pos hnul]
  exact Safe.ok trivial

/-- Two bytes within the message are read. -/
theorem safe_ntohs (hi : i + 2 ≤ data.length) : Safe (ntohs data i) fun _ => True :=
  Safe.bind (Safe.load (by omega)) fun _ _ => Safe.bind (Safe.load (by omega)) fun _ _ => Safe.ok trivial

/-- Four bytes within the message are read. -/
theorem safe_ntohl (hi : i + 4 ≤ data.length) : Safe (ntohl data i) fun _ => True :=
  Safe.bind (safe_ntohs (by omega)) fun _ _ => Safe.bind (safe_ntohs (by omega)) fun _ _ => Safe.ok trivial

/-- An address is read only where the message has its bytes. -/
theorem safe_address (data : List UInt8) (qtype off : Nat) : Safe (address data qtype off) fun _ => True := by
  rw [address]
  split
  · rename_i hfits
    exact Safe.bind (Safe.slice hfits) fun _ _ => Safe.ok trivial
  · exact Safe.ok trivial

/-- A report reads a name that has a NUL. -/
theorem safe_report (data qname : List UInt8) {name : List UInt8} (qtype qclass ttl off rdlength : Nat)
    (hnul : 0 ∈ name) :
    Safe (report data qname name qtype qclass ttl off rdlength) fun _ => True := by
  rw [report]
  split
  · refine Safe.bind (safe_address data qtype off) fun rd _ => ?_
    cases rd with
    | some rd => exact Safe.bind (safe_cString hnul) fun _ _ => Safe.ok trivial
    | none => exact Safe.ok trivial
  · exact Safe.ok trivial

/-- Reading a record looks at nothing outside of the message. -/
theorem safe_readRecord (data qname : List UInt8) {name : List UInt8} (off : Nat) (hnul : 0 ∈ name) :
    Safe (readRecord data qname name off) fun _ => True := by
  rw [readRecord]
  split
  · refine Safe.bind (safe_ntohs (by omega)) fun qtype _ => ?_
    refine Safe.bind (safe_ntohs (by omega)) fun qclass _ => ?_
    refine Safe.bind (safe_ntohl (by omega)) fun ttl _ => ?_
    refine Safe.bind (safe_ntohs (by omega)) fun rdlength _ => ?_
    split
    · exact safe_report data qname qtype qclass ttl (off + 10) rdlength hnul
    · exact Safe.ok trivial
  · exact Safe.ok trivial

/-- Reading the answers looks at nothing outside of the message or of the name. -/
theorem safe_readAnswers (data qname : List UInt8) (acount off : Nat) {name : List UInt8} (hname : name.length = 256) :
    Safe (readAnswers data qname acount off name) fun _ => True := by
  induction acount generalizing off name with
  | zero => exact Safe.ok trivial
  | succ acount ih =>
    rw [readAnswers]
    refine Safe.bind (safe_get_qname data _ hname) fun r hr => ?_
    obtain ⟨found, next⟩ := r
    cases found with
    | none => exact Safe.ok trivial
    | some off =>
      refine Safe.bind (safe_readRecord data qname off.toNat (hr.2 rfl)) fun record _ => ?_
      cases record with
      | none => exact Safe.ok trivial
      | some record => exact Safe.bind (ih record.1 hr.1) fun _ _ => Safe.ok trivial

/-- Blocking an answer writes to the header alone. -/
theorem safe_block (rcode : BitVec 4) (hheader : 12 ≤ data.length) :
    Safe (block data rcode) (·.length = data.length) := by
  refine Safe.bind (Safe.store ?_) fun first hfirst => (Safe.store ?_).mono fun last hlast => hlast.trans hfirst
  · simp only [List.length_cons, List.length_nil]
    omega
  · simp only [List.length_cons, List.length_nil]
    omega

variable {is_domain_blocked : List UInt8 → Bool} {rcode : BitVec 4}

/-- A response that is settled keeps its length, and its new end is inside. -/
theorem safe_settle {qname : List UInt8} {aoff : Nat} {resolved : List Resolved} {complete : Bool}
    (hheader : 12 ≤ data.length) (haoff : aoff ≤ data.length) :
    Safe (settle data is_domain_blocked rcode qname aoff resolved complete)
      fun r => r.data.length = data.length ∧ r.datalen ≤ data.length := by
  rw [settle]
  split
  · exact Safe.bind (safe_block rcode hheader) fun blocked hblocked => Safe.ok ⟨hblocked, haoff⟩
  · exact Safe.ok ⟨rfl, le_rfl⟩

/-- Reading a response with a question keeps its length, and its new end is inside. -/
theorem safe_readResponse (acount : Nat) {name : List UInt8} (hheader : 12 ≤ data.length) (hname : name.length = 256) :
    Safe (readResponse data is_domain_blocked rcode acount name)
      fun r => r.data.length = data.length ∧ r.datalen ≤ data.length := by
  refine Safe.bind (safe_get_qname data 12 hname) fun r hr => ?_
  obtain ⟨found, next⟩ := r
  cases found with
  | none => exact Safe.ok ⟨rfl, le_rfl⟩
  | some off =>
    dsimp only
    split
    · rename_i hfits
      refine Safe.bind (safe_cString (hr.2 rfl)) fun qname _ => ?_
      refine Safe.bind (safe_ntohs (by omega)) fun _ _ => ?_
      refine Safe.bind (safe_ntohs (by omega)) fun _ _ => ?_
      refine Safe.bind (safe_readAnswers data qname acount _ hr.1) fun answers _ => ?_
      exact safe_settle hheader hfits.2
    · exact Safe.ok ⟨rfl, le_rfl⟩

end DnsResponse

open DnsResponse in
/-- A response is parsed without a look outside of it, whatever its bytes are. -/
theorem safe_parse_dns_response (data : List UInt8) (is_domain_blocked : List UInt8 → Bool) (rcode : BitVec 4)
    {name : List UInt8} (hname : name.length = DNS_QNAME_MAX + 1) :
    Safe (parse_dns_response data is_domain_blocked rcode name)
      fun r => r.data.length = data.length ∧ r.datalen ≤ data.length := by
  rw [parse_dns_response]
  split
  · exact Safe.ok ⟨rfl, le_rfl⟩
  · refine Safe.bind (Safe.load (by omega)) fun flags _ => ?_
    refine Safe.bind (safe_ntohs (by omega)) fun qcount _ => ?_
    refine Safe.bind (safe_ntohs (by omega)) fun acount _ => ?_
    split
    · exact safe_readResponse acount (by omega) hname
    · exact Safe.ok ⟨rfl, le_rfl⟩

/-- For every message, at every offset, the readers stay inside of the message and of the
arrays for the names. A name that is read is closed by a zero, and a response does not
become longer. -/
theorem parse_dns_response_safe (data : List UInt8) (off : BitVec 16) (is_domain_blocked : List UInt8 → Bool)
    (rcode : BitVec 4) {name : List UInt8} (hname : name.length = DNS_QNAME_MAX + 1) :
    (Safe (get_qname data off name) fun r => r.2.length = DNS_QNAME_MAX + 1 ∧ (r.1.isSome = true → 0 ∈ r.2)) ∧
      Safe (parse_dns_response data is_domain_blocked rcode name)
        fun r => r.data.length = data.length ∧ r.datalen ≤ data.length :=
  ⟨safe_get_qname data off hname, safe_parse_dns_response data is_domain_blocked rcode hname⟩

/-- A response without an answer section behind its counts. -/
theorem truncated_safe :
    (Safe (get_qname (List.replicate 4 0x80 ++ List.replicate 9 1) 12 (List.replicate 256 0))
        fun r => r.2.length = 256 ∧ (r.1.isSome = true → 0 ∈ r.2)) ∧
      Safe (parse_dns_response (List.replicate 4 0x80 ++ List.replicate 9 1) (fun _ => true) 5 (List.replicate 256 0))
        fun r => r.data.length = 13 ∧ r.datalen ≤ 13 :=
  parse_dns_response_safe (List.replicate 4 0x80 ++ List.replicate 9 1) 12 (fun _ => true) 5 List.length_replicate

end inspector.netguard.jni
