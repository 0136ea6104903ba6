import Nport.PortOpen
import Nport.Separated
import Mathlib.Algebra.Order.Ring.Nat

/-! The HttpOpen request: which hostname the server computes from it, and the policy that
hostname obeys. Strings are lists of characters where the source looks inside them. The
Unicode tables behind to_lowercase and the name generator are parameters. -/
namespace HttpOpen

open Libnp (Address)
open PortOpen (Hostnames normalizedClientSubdomain stripSuffix)
open Separated

/-- The Unicode data of str::to_lowercase. An ASCII character has its ASCII lower case, and
no lower case has an ASCII capital in it. -/
structure CaseData where
  lowercase : Char → List Char
  /-- The Final_Sigma condition, on the text before and after a capital sigma. -/
  finalSigma : List Char → List Char → Bool
  ascii : ∀ c, c.toNat < 128 → lowercase c = [c.toLower]
  lowered : ∀ c, ∀ d ∈ lowercase c, d.isUpper = false

def CaseData.lowercaseAt (data : CaseData) (before : List Char) (c : Char) (after : List Char) :
    List Char :=
  if c = 'Σ' then [if data.finalSigma before after then 'ς' else 'σ'] else data.lowercase c

def CaseData.lowercaseFrom (data : CaseData) (before : List Char) : List Char → List Char
  | [] => []
  | c :: after => data.lowercaseAt before c after ++ data.lowercaseFrom (before ++ [c]) after

def CaseData.toLowercase (data : CaseData) (s : String) : String :=
  String.ofList (data.lowercaseFrom [] s.toList)

def isWhitespace (c : Char) : Bool :=
  let n := c.toNat
  (0x9 ≤ n && n ≤ 0xd) || n == 0x20 || n == 0x85 || n == 0xa0 || n == 0x1680 ||
    (0x2000 ≤ n && n ≤ 0x200a) || n == 0x2028 || n == 0x2029 || n == 0x202f || n == 0x205f ||
    n == 0x3000

def stringListFromStr (s : String) : List String :=
  ((trimmedFields isWhitespace ',' (trim isWhitespace s.toList)).filter (· ≠ [])).map
    String.ofList

/-- str::len counts bytes. -/
def len (s : List Char) : ℕ := (s.map Char.utf8Size).sum

/-- The source looks at bytes; those of a character outside ASCII are none of these. -/
def isValidChar (c : Char) : Bool := c.isAlphanum || c == '-' || c == '.'

def isInvalidLabel (label : List Char) : Bool :=
  label.isEmpty || decide (len label > 63) || label.head? == some '-' ||
    label.getLast? == some '-'

def isValid (hostname : String) : Bool :=
  !(hostname.toList.any (fun c => !isValidChar c) ||
    (hostname.toList.splitOn '.').any isInvalidLabel ||
    hostname.toList.isEmpty ||
    decide (len hostname.toList > 253))

def isSubdomainUsed (toLowercase : String → String) (hostnames : Hostnames)
    (subdomain : String) : Bool :=
  let subdomain := toLowercase subdomain
  subdomain == hostnames.api || subdomain == hostnames.tcp

def isSubdomainBlocked (toLowercase : String → String) (hostnames : Hostnames)
    (subdomain : String) : Bool :=
  let subdomain := toLowercase subdomain
  hostnames.subdomainBlocklist.any (· == subdomain)

inductive ValidationError where
  | invalid
  | disallowed
  deriving DecidableEq, Repr

def subdomainForForwarding (toLowercase : String → String) (hostnames : Hostnames)
    (requestedHostname : Option String) : Except ValidationError (Option String) :=
  let requestedHostname := requestedHostname.getD ""
  if requestedHostname = "" then .ok none
  else
    let requestedHostname := normalizedClientSubdomain toLowercase hostnames requestedHostname
    if !isValid requestedHostname || requestedHostname.toList.contains '.' then .error .invalid
    else if isSubdomainUsed toLowercase hostnames requestedHostname then .error .disallowed
    else if isSubdomainBlocked toLowercase hostnames requestedHostname then .error .disallowed
    else .ok (some requestedHostname)

inductive HttpOpenError where
  | inUse
  | invalid
  | disallowed
  deriving DecidableEq, Repr

structure Open where
  hostname : Option String
  localAddress : Option Address
  deriving DecidableEq

structure HttpOpened where
  hostname : String
  localAddress : Option Address
  error : Option HttpOpenError
  deriving DecidableEq

/-- The hostname that http::open claims; generated is what names::Generator gives. -/
def hostnameToClaim (toLowercase : String → String) (hostnames : Hostnames) (generated : String)
    (requested : Option String) : Except HttpOpenError String :=
  match subdomainForForwarding toLowercase hostnames requested with
  | .error .invalid => .error .invalid
  | .error .disallowed => .error .disallowed
  | .ok hostname =>
    let subdomain := hostname.getD generated
    let domain := hostnames.domain
    .ok (if domain = "" then subdomain else subdomain ++ "." ++ domain)

/-- What one HttpOpen does: the name passed to claim_http_hostname, and the answer. -/
structure Outcome where
  claimed : Option String
  response : HttpOpened
  deriving DecidableEq

/-- msghandlers::http::open; claim is the answer of claim_http_hostname. -/
def httpOpen (toLowercase : String → String) (hostnames : Hostnames) (generated : String)
    (claim : String → Bool) (message : Open) : Outcome :=
  match hostnameToClaim toLowercase hostnames generated message.hostname with
  | .error error => ⟨none, ⟨message.hostname.getD "", message.localAddress, some error⟩⟩
  | .ok hostname =>
    if claim hostname then ⟨some hostname, ⟨hostname, message.localAddress, none⟩⟩
    else ⟨some hostname, ⟨hostname, message.localAddress, some .inUse⟩⟩

/-! Lower-casing, as far as the policy depends on it. -/

theorem toLower_of_not_upper {c : Char} (h : c.isUpper = false) : c.toLower = c := by
  delta Char.isUpper at h
  exact dif_neg (of_decide_eq_false h)

section Lowercase

variable (data : CaseData)

theorem lowercaseAt_no_capital {before after : List Char} {c d : Char}
    (hd : d ∈ data.lowercaseAt before c after) : d.isUpper = false := by
  unfold CaseData.lowercaseAt at hd
  by_cases hc : c = 'Σ'
  · rw [if_pos hc, List.mem_singleton] at hd
    subst hd
    cases data.finalSigma before after <;> rfl
  · rw [if_neg hc] at hd
    exact data.lowered c d hd

theorem lowercaseFrom_no_capital {before l : List Char} {d : Char}
    (hd : d ∈ data.lowercaseFrom before l) : d.isUpper = false := by
  induction l generalizing before with
  | nil => simp [CaseData.lowercaseFrom] at hd
  | cons c after ih =>
    rcases List.mem_append.mp hd with hd | hd
    · exact lowercaseAt_no_capital data hd
    · exact ih hd

theorem lowercaseFrom_ascii {before l : List Char} (hl : ∀ c ∈ l, c.toNat < 128) :
    data.lowercaseFrom before l = l.map Char.toLower := by
  induction l generalizing before with
  | nil => rfl
  | cons c after ih =>
    have hc := hl c List.mem_cons_self
    have hsigma : c ≠ 'Σ' := by
      rintro rfl
      exact absurd hc (by decide)
    rw [CaseData.lowercaseFrom, CaseData.lowercaseAt, if_neg hsigma, data.ascii c hc,
      ih fun d hd => hl d (List.mem_cons_of_mem _ hd)]
    rfl

theorem toLowercase_ascii {s : String} (hs : ∀ c ∈ s.toList, c.toNat < 128) :
    data.toLowercase s = Libnp.toAsciiLowercase s := by
  rw [CaseData.toLowercase, lowercaseFrom_ascii data hs]
  rfl

theorem lowercaseFrom_of_lower {before l : List Char}
    (hl : ∀ c ∈ l, c.toNat < 128 ∧ c.isUpper = false) : data.lowercaseFrom before l = l := by
  rw [lowercaseFrom_ascii data fun c hc => (hl c hc).1]
  exact (List.map_congr_left fun c hc => toLower_of_not_upper (hl c hc).2).trans (List.map_id l)

theorem toLowercase_no_capital {s : String} {d : Char}
    (hd : d ∈ (data.toLowercase s).toList) : d.isUpper = false := by
  rw [CaseData.toLowercase, String.toList_ofList] at hd
  exact lowercaseFrom_no_capital data hd

theorem toLowercase_of_lower {s : String}
    (hs : ∀ c ∈ s.toList, c.toNat < 128 ∧ c.isUpper = false) : data.toLowercase s = s := by
  rw [CaseData.toLowercase, lowercaseFrom_of_lower data hs, String.ofList_toList]

end Lowercase

/-! What is_valid accepts. -/

structure Label (s : String) : Prop where
  chars : ∀ c ∈ s.toList, c.isLower ∨ c.isDigit ∨ c = '-'
  length : 1 ≤ s.toList.length ∧ s.toList.length ≤ 63
  first : s.toList.head? ≠ some '-'
  last : s.toList.getLast? ≠ some '-'

theorem isUpper_iff {c : Char} : c.isUpper = true ↔ 65 ≤ c.toNat ∧ c.toNat ≤ 90 := by
  delta Char.isUpper
  rw [decide_eq_true_iff, ge_iff_le, UInt32.le_iff_toNat_le, UInt32.le_iff_toNat_le]
  rfl

theorem isLower_iff {c : Char} : c.isLower = true ↔ 97 ≤ c.toNat ∧ c.toNat ≤ 122 := by
  delta Char.isLower
  rw [Bool.and_eq_true, decide_eq_true_iff, decide_eq_true_iff, ge_iff_le,
    UInt32.le_iff_toNat_le, UInt32.le_iff_toNat_le]
  rfl

theorem isDigit_iff {c : Char} : c.isDigit = true ↔ 48 ≤ c.toNat ∧ c.toNat ≤ 57 := by
  delta Char.isDigit
  rw [Bool.and_eq_true, decide_eq_true_iff, decide_eq_true_iff, ge_iff_le,
    UInt32.le_iff_toNat_le, UInt32.le_iff_toNat_le]
  rfl

theorem isAlphanum_iff {c : Char} :
    c.isAlphanum = true ↔ (c.isUpper = true ∨ c.isLower = true) ∨ c.isDigit = true := by
  delta Char.isAlphanum Char.isAlpha
  rw [Bool.or_eq_true, Bool.or_eq_true]

theorem isValidChar_ascii {c : Char} (hc : isValidChar c = true) : c.toNat < 128 := by
  simp only [isValidChar, Bool.or_eq_true, beq_iff_eq, isAlphanum_iff, isUpper_iff, isLower_iff,
    isDigit_iff] at hc
  rcases hc with (hc | rfl) | rfl
  · omega
  · decide
  · decide

theorem len_of_ascii {l : List Char} (hl : ∀ c ∈ l, c.toNat < 128) : len l = l.length := by
  induction l with
  | nil => rfl
  | cons c l ih =>
    have hc : c.utf8Size = 1 := by
      have hlt : c.val.toNat < 128 := hl c List.mem_cons_self
      have hle : c.val ≤ 0x7f := UInt32.le_iff_toNat_le.mpr (Nat.le_of_lt_succ hlt)
      simp [Char.utf8Size, hle]
    have ih := ih fun d hd => hl d (List.mem_cons_of_mem _ hd)
    simp only [len, List.map_cons, List.sum_cons, List.length_cons] at ih ⊢
    omega

theorem isValid_chars {s : String} (hs : isValid s = true) :
    ∀ c ∈ s.toList, isValidChar c = true := by
  intro c hc
  simp only [isValid, Bool.not_eq_true', Bool.or_eq_false_iff, List.any_eq_false] at hs
  simpa using hs.1.1.1 c hc

theorem isValid_label {s : String} (hs : isValid s = true) (hdot : '.' ∉ s.toList) :
    isInvalidLabel s.toList = false := by
  simp only [isValid, Bool.not_eq_true', Bool.or_eq_false_iff, List.any_eq_false] at hs
  have hlabel := hs.1.1.2 s.toList (by rw [List.splitOn_eq_singleton hdot]; simp)
  simpa using hlabel

theorem label_of_isValid {s : String} (hs : isValid s = true) (hdot : '.' ∉ s.toList)
    (hlow : ∀ c ∈ s.toList, c.isUpper = false) : Label s := by
  have hchars := isValid_chars hs
  have hlabel := isValid_label hs hdot
  rw [isInvalidLabel, len_of_ascii fun c hc => isValidChar_ascii (hchars c hc)] at hlabel
  simp only [Bool.or_eq_false_iff, List.isEmpty_eq_false_iff, decide_eq_false_iff_not,
    beq_eq_false_iff_ne] at hlabel
  obtain ⟨⟨⟨hne, hlen⟩, hfirst⟩, hlast⟩ := hlabel
  refine ⟨?_, ⟨List.length_pos_iff.mpr hne, by omega⟩, hfirst, hlast⟩
  intro c hc
  have hvalid := hchars c hc
  have hcapital := hlow c hc
  have hnotdot : c ≠ '.' := fun he => hdot (he ▸ hc)
  simp only [isValidChar, Bool.or_eq_true, beq_iff_eq, isAlphanum_iff, hcapital, hnotdot,
    Bool.false_eq_true, false_or, or_false] at hvalid
  exact or_assoc.mp hvalid

theorem Label.ascii {s : String} (h : Label s) :
    ∀ c ∈ s.toList, c.toNat < 128 ∧ c.isUpper = false := by
  intro c hc
  have hrange := h.chars c hc
  rw [isLower_iff, isDigit_iff] at hrange
  rw [← Bool.not_eq_true, isUpper_iff]
  rcases hrange with hrange | hrange | rfl
  · omega
  · omega
  · decide

/-! The policy. -/

theorem normalizedClientSubdomain_no_capital (data : CaseData) (hostnames : Hostnames)
    (requested : String) {c : Char}
    (hc : c ∈ (normalizedClientSubdomain data.toLowercase hostnames requested).toList) :
    c.isUpper = false := by
  simp only [normalizedClientSubdomain, stripSuffix] at hc
  split at hc
  · rw [Option.getD_some, String.toList_ofList] at hc
    exact toLowercase_no_capital data (List.mem_of_mem_take hc)
  · exact toLowercase_no_capital data hc

theorem subdomainForForwarding_ok (data : CaseData) {hostnames : Hostnames}
    {requested : String} (hne : requested ≠ "") {subdomain : Option String}
    (hok : subdomainForForwarding data.toLowercase hostnames (some requested) = .ok subdomain) :
    ∃ s, subdomain = some s ∧ Label s ∧ '.' ∉ s.toList ∧ s ≠ hostnames.api ∧
      s ≠ hostnames.tcp ∧ s ∉ hostnames.subdomainBlocklist := by
  have hcapital (c : Char) := normalizedClientSubdomain_no_capital (c := c) data hostnames requested
  simp only [subdomainForForwarding, Option.getD_some, if_neg hne] at hok
  generalize normalizedClientSubdomain data.toLowercase hostnames requested = s at hok hcapital
  by_cases hbad : (!isValid s || s.toList.contains '.') = true
  · rw [if_pos hbad] at hok
    cases hok
  · by_cases hused : isSubdomainUsed data.toLowercase hostnames s = true
    · rw [if_neg hbad, if_pos hused] at hok
      cases hok
    · by_cases hblocked : isSubdomainBlocked data.toLowercase hostnames s = true
      · rw [if_neg hbad, if_neg hused, if_pos hblocked] at hok
        cases hok
      · rw [if_neg hbad, if_neg hused, if_neg hblocked] at hok
        obtain ⟨hvalid, hdot⟩ : isValid s = true ∧ '.' ∉ s.toList := by
          simpa [not_or] using hbad
        have hlabel := label_of_isValid hvalid hdot hcapital
        rw [isSubdomainUsed, toLowercase_of_lower data hlabel.ascii] at hused
        rw [isSubdomainBlocked, toLowercase_of_lower data hlabel.ascii] at hblocked
        obtain ⟨hapi, htcp⟩ : s ≠ hostnames.api ∧ s ≠ hostnames.tcp := by
          simpa [not_or] using hused
        refine ⟨s, (Except.ok.inj hok).symm, hlabel, hdot, hapi, htcp, ?_⟩
        intro hmem
        exact hblocked (List.any_eq_true.mpr ⟨s, hmem, by simp⟩)

def withDomain (domain subdomain : String) : String :=
  if domain = "" then subdomain else subdomain ++ "." ++ domain

theorem hostnameToClaim_ok {toLowercase : String → String} {hostnames : Hostnames}
    {generated hostname : String} {requested : Option String}
    (hok : hostnameToClaim toLowercase hostnames generated requested = .ok hostname) :
    ∃ subdomain, subdomainForForwarding toLowercase hostnames requested = .ok subdomain ∧
      hostname = withDomain hostnames.domain (subdomain.getD generated) := by
  unfold hostnameToClaim at hok
  split at hok
  · cases hok
  · cases hok
  · next subdomain hs =>
    refine ⟨subdomain, hs, ?_⟩
    simpa [withDomain] using hok.symm

theorem claimed_iff {toLowercase : String → String} {hostnames : Hostnames}
    {generated hostname : String} {claim : String → Bool} {message : Open} :
    (httpOpen toLowercase hostnames generated claim message).claimed = some hostname ↔
      hostnameToClaim toLowercase hostnames generated message.hostname = .ok hostname := by
  unfold httpOpen
  cases hostnameToClaim toLowercase hostnames generated message.hostname with
  | error e => simp
  | ok k => by_cases hc : claim k = true <;> simp [hc]

theorem withDomain_ne_newHostname {domain subdomain host : String} (hs : subdomain ≠ "")
    (hdot : '.' ∉ subdomain.toList) (hne : subdomain ≠ host) :
    withDomain domain subdomain ≠ Hostnames.newHostname domain host := by
  intro heq
  by_cases hd : domain = ""
  · rw [withDomain, if_pos hd] at heq
    by_cases hh : host = ""
    · rw [Hostnames.newHostname, if_pos hh, hd] at heq
      exact hs heq
    · rw [Hostnames.newHostname, if_neg hh] at heq
      apply hdot
      rw [heq]
      simp
  · rw [withDomain, if_neg hd] at heq
    by_cases hh : host = ""
    · rw [Hostnames.newHostname, if_pos hh] at heq
      have hlen := congrArg (fun s : String => s.toList.length) heq
      simp only [String.toList_append, List.length_append] at hlen
      have hdot1 : ".".toList.length = 1 := rfl
      omega
    · rw [Hostnames.newHostname, if_neg hh, String.append_left_inj,
        String.append_left_inj] at heq
      exact hne heq

theorem mem_stringListFromStr {raw : String} {field : List Char}
    (hf : field ∈ trimmedFields isWhitespace ',' raw.toList) (hne : field ≠ []) :
    String.ofList field ∈ stringListFromStr raw := by
  rw [stringListFromStr, trimmedFields_trim (by decide)]
  exact List.mem_map_of_mem (List.mem_filter.mpr ⟨hf, by simpa using hne⟩)

/-- Config::server with the environment's four settings. -/
def configuredHostnames (data : CaseData) (domain : String) (api tcp : Option String)
    (blocklist : String) : Hostnames :=
  Hostnames.new data.toLowercase domain api tcp (some (stringListFromStr blocklist))

theorem not_blocked {data : CaseData} {domain : String} {api tcp : Option String}
    {blocklist s : String} (hlabel : Label s)
    (hb : s ∉ (configuredHostnames data domain api tcp blocklist).subdomainBlocklist) :
    ∀ field ∈ trimmedFields isWhitespace ',' blocklist.toList,
      data.toLowercase (String.ofList field) ≠ data.toLowercase s := by
  intro field hf heq
  rw [toLowercase_of_lower data hlabel.ascii] at heq
  by_cases hne : field = []
  · have hs : s = "" := by
      rw [← heq, hne]
      rfl
    have hlen := hlabel.length.1
    simp [hs] at hlen
  · apply hb
    rw [configuredHostnames, Hostnames.new, Option.getD_some]
    exact List.mem_map.mpr ⟨_, mem_stringListFromStr hf hne, heq⟩

/-- A hostname that http::open claims for a name asked for is one lower-case label under the
domain, not reserved, not blocked, and none of the server's own hostnames. -/
theorem claimed_hostname_obeys_policy (data : CaseData) (domain : String)
    (api tcp : Option String) (blocklist generated : String) (claim : String → Bool)
    (message : Open) (requested hostname : String) (hm : message.hostname = some requested)
    (hne : requested ≠ "")
    (hc : (httpOpen data.toLowercase (configuredHostnames data domain api tcp blocklist)
      generated claim message).claimed = some hostname) :
    let hostnames := configuredHostnames data domain api tcp blocklist
    ∃ s, hostname = (if domain = "" then s else s ++ "." ++ domain) ∧ Label s ∧
      s ≠ hostnames.api ∧ s ≠ hostnames.tcp ∧
      (∀ field ∈ trimmedFields isWhitespace ',' blocklist.toList,
        data.toLowercase (String.ofList field) ≠ data.toLowercase s) ∧
      hostname ≠ hostnames.domain ∧ hostname ≠ hostnames.apiHostname ∧
      hostname ≠ hostnames.tcpHostname := by
  intro hostnames
  obtain ⟨subdomain, hsub, rfl⟩ := hostnameToClaim_ok (claimed_iff.mp hc)
  rw [hm] at hsub
  obtain ⟨s, rfl, hlabel, hdot, hapi, htcp, hblocked⟩ := subdomainForForwarding_ok data hne hsub
  have hs : s ≠ "" := by
    rintro rfl
    exact absurd hlabel.length.1 (by decide)
  have hmainHostname : hostnames.domain = Hostnames.newHostname domain "" := rfl
  have hapiHostname : hostnames.apiHostname = Hostnames.newHostname domain hostnames.api := rfl
  have htcpHostname : hostnames.tcpHostname = Hostnames.newHostname domain hostnames.tcp := rfl
  refine ⟨s, rfl, hlabel, hapi, htcp, not_blocked hlabel hblocked, ?_, ?_, ?_⟩
  · rw [hmainHostname]
    exact withDomain_ne_newHostname hs hdot hs
  · rw [hapiHostname]
    exact withDomain_ne_newHostname hs hdot hapi
  · rw [htcpHostname]
    exact withDomain_ne_newHostname hs hdot htcp

theorem toNat_toLower {c : Char} (h : c.isUpper = true) : c.toLower.toNat = c.toNat + 32 := by
  have hle := (isUpper_iff.mp h).2
  delta Char.isUpper at h
  have hlower : c.toLower.toNat = (c.val.toNat + 32) % 2 ^ 32 := by
    delta Char.toLower
    rw [dif_pos (of_decide_eq_true h)]
    rfl
  rw [hlower]
  exact Nat.mod_eq_of_lt (by change c.toNat + 32 < 2 ^ 32; omega)

theorem toLower_no_capital (c : Char) : c.toLower.isUpper = false := by
  by_cases hc : c.isUpper = true
  · have hrange := isUpper_iff.mp hc
    rw [← Bool.not_eq_true, isUpper_iff, toNat_toLower hc]
    omega
  · rw [toLower_of_not_upper (by simpa using hc)]
    simpa using hc

def kelvinData : CaseData where
  lowercase c := if c = '\u212a' then ['k'] else [c.toLower]
  finalSigma _ _ := false
  ascii := by
    intro c hc
    have hne : c ≠ '\u212a' := by
      rintro rfl
      exact absurd hc (by decide)
    rw [if_neg hne]
  lowered := by
    intro c d hd
    split at hd
    · rw [List.mem_singleton.mp hd]
      rfl
    · rw [List.mem_singleton.mp hd]
      exact toLower_no_capital c

/-- The Kelvin sign of this request becomes the letter k of the hostname. -/
theorem claimed_hostname_obeys_policy_kelvin :
    ∃ s, "kite.nport.io" = s ++ "." ++ "nport.io" ∧ Label s := by
  obtain ⟨s, heq, hlabel, _⟩ := claimed_hostname_obeys_policy kelvinData "nport.io" (some "api")
    (some "tcp") "www, Blog" "unused" (fun _ => true) ⟨some "\u212aITE.nport.io", none⟩
    "\u212aITE.nport.io" "kite.nport.io" rfl (by decide) (by decide)
  exact ⟨s, heq, hlabel⟩

end HttpOpen
