import Nport.HttpOpen

/-! The hosts that the remote address of a PortOpen may name: those of the TCP forwardings, in
short or in full, against what validate_open compares. It takes the domain off the host that
was asked for and compares the rest with the full hostname. -/
namespace RemoteHost

open Libnp (Address)
open PortOpen (Hostnames Open PortOpenError normalizedClientSubdomain stripSuffix validateOpen)
open HttpOpen (CaseData)

/-- Unicode data in which a character of a lower case is its own lower case. -/
structure LowerCaseData extends CaseData where
  stable : ∀ c, ∀ d ∈ lowercase c, lowercase d = [d] ∧ d ≠ 'Σ'
  sigma : lowercase 'σ' = ['σ'] ∧ lowercase 'ς' = ['ς']

/-! What is in lower case already. -/

section Lowercase

variable (data : LowerCaseData)

theorem lowercaseAt_stable {before after : List Char} {c d : Char}
    (hd : d ∈ data.lowercaseAt before c after) : data.lowercase d = [d] ∧ d ≠ 'Σ' := by
  unfold CaseData.lowercaseAt at hd
  by_cases hc : c = 'Σ'
  · rw [if_pos hc, List.mem_singleton] at hd
    subst hd
    cases data.finalSigma before after
    · exact ⟨data.sigma.1, by decide⟩
    · exact ⟨data.sigma.2, by decide⟩
  · rw [if_neg hc] at hd
    exact data.stable c d hd

theorem lowercaseFrom_stable {before l : List Char} {d : Char}
    (hd : d ∈ data.lowercaseFrom before l) : data.lowercase d = [d] ∧ d ≠ 'Σ' := by
  induction l generalizing before with
  | nil => simp [CaseData.lowercaseFrom] at hd
  | cons c after ih =>
    rcases List.mem_append.mp hd with hd | hd
    · exact lowercaseAt_stable data hd
    · exact ih hd

theorem lowercaseFrom_of_stable {before l : List Char}
    (hl : ∀ c ∈ l, data.lowercase c = [c] ∧ c ≠ 'Σ') : data.lowercaseFrom before l = l := by
  induction l generalizing before with
  | nil => rfl
  | cons c after ih =>
    obtain ⟨hself, hsigma⟩ := hl c List.mem_cons_self
    rw [CaseData.lowercaseFrom, CaseData.lowercaseAt, if_neg hsigma, hself,
      ih fun d hd => hl d (List.mem_cons_of_mem _ hd)]
    rfl

theorem toLowercase_of_subset {s t : String} (h : s.toList ⊆ (data.toLowercase t).toList) :
    data.toLowercase s = s := by
  have hl : ∀ c ∈ s.toList, data.lowercase c = [c] ∧ c ≠ 'Σ' := by
    intro c hc
    have hmem := h hc
    rw [CaseData.toLowercase, String.toList_ofList] at hmem
    exact lowercaseFrom_stable data hmem
  rw [CaseData.toLowercase, lowercaseFrom_of_stable data hl, String.ofList_toList]

theorem toLowercase_toLowercase (s : String) :
    data.toLowercase (data.toLowercase s) = data.toLowercase s :=
  toLowercase_of_subset data (t := s) (List.Subset.refl _)

end Lowercase

/-! What normalized_client_subdomain leaves of a host. -/

theorem stripSuffix_getD_iff {s suffix t : String} :
    (stripSuffix s suffix).getD s = t ↔
      s = t ++ suffix ∨ (¬ suffix.toList <:+ s.toList ∧ s = t) := by
  unfold stripSuffix
  by_cases hs : suffix.toList <:+ s.toList
  · obtain ⟨before, hbefore⟩ := hs
    have hsuffix : suffix.toList <:+ s.toList := ⟨before, hbefore⟩
    have htake : s.toList.take (s.toList.length - suffix.toList.length) = before := by
      rw [← hbefore]
      simp
    rw [if_pos hsuffix, Option.getD_some, htake]
    simp only [hsuffix, not_true_eq_false, false_and, or_false]
    rw [← String.toList_inj, String.toList_ofList, ← String.toList_inj, String.toList_append,
      ← hbefore]
    exact List.append_left_inj _ |>.symm
  · rw [if_neg hs, Option.getD_none]
    simp only [hs, not_false_eq_true, true_and]
    constructor
    · exact Or.inr
    · rintro (rfl | h)
      · exact absurd (by simp) hs
      · exact h

theorem ne_append_domain (s domain : String) : s ≠ s ++ "." ++ domain := by
  intro h
  have hlen := congrArg (fun t : String => t.toList.length) h
  simp at hlen

/-- A domain is not what comes after a dot in itself. -/
theorem not_suffix_self (domain : String) : ¬ ("." ++ domain).toList <:+ domain.toList := by
  intro h
  have hlen := h.length_le
  simp at hlen

/-! validate_open against the hosts that are documented. -/

def SameHost (data : CaseData) (a b : String) : Prop := data.toLowercase a = data.toLowercase b

/-- The host of TCP forwardings: the tcp subdomain, if there is one, or the full hostname. -/
def IsTcpHost (data : CaseData) (hostnames : Hostnames) (host : String) : Prop :=
  (hostnames.tcp ≠ "" ∧ SameHost data host hostnames.tcp) ∨
    SameHost data host hostnames.tcpHostname

def HostsMeet (message : Open) (p : String → Prop) : Prop :=
  ∀ a host, message.remoteAddress = some a → a.host = some host → p host

def DecidesByHost (data : CaseData) (hostnames : Hostnames) (message : Open) : Prop :=
  (HostsMeet message (IsTcpHost data hostnames) →
    validateOpen data.toLowercase hostnames message = .ok ()) ∧
  (¬ HostsMeet message (IsTcpHost data hostnames) →
    validateOpen data.toLowercase hostnames message = .error .hostNotAllowed)

/-- Only hosts that validate_open and the documentation agree on: with a tcp subdomain, neither
of the two forms of the host, nor the full one with the domain after it. Without one, not the
domain twice, or if the domain is not in lower case, not the domain in any letter case. -/
def Undisputed (data : CaseData) (hostnames : Hostnames) (host : String) : Prop :=
  let lower := data.toLowercase host
  if hostnames.tcp ≠ "" then
    lower ≠ hostnames.tcp ∧ lower ≠ data.toLowercase hostnames.tcpHostname ∧
      lower ≠ hostnames.tcpHostname ++ "." ++ hostnames.domain
  else if data.toLowercase hostnames.domain = hostnames.domain then
    lower ≠ hostnames.domain ++ "." ++ hostnames.domain
  else lower ≠ data.toLowercase hostnames.domain

section Decision

variable (data : LowerCaseData) {domain host : String} {api tcp : Option String}
  {blocklist : Option (List String)}

theorem normalized_iff {toLowercase : String → String} {hostnames : Hostnames} :
    normalizedClientSubdomain toLowercase hostnames host = hostnames.tcpHostname ↔
      toLowercase host = hostnames.tcpHostname ++ "." ++ hostnames.domain ∨
        (¬ ("." ++ hostnames.domain).toList <:+ (toLowercase host).toList ∧
          toLowercase host = hostnames.tcpHostname) := by
  rw [normalizedClientSubdomain, stripSuffix_getD_iff, String.append_assoc]

theorem accepted_with_tcp (hostnames : Hostnames)
    (hfull : hostnames.tcpHostname = hostnames.tcp ++ "." ++ hostnames.domain) :
    normalizedClientSubdomain data.toLowercase hostnames host = hostnames.tcpHostname ↔
      data.toLowercase host = hostnames.tcpHostname ++ "." ++ hostnames.domain := by
  rw [normalized_iff]
  constructor
  · rintro (h | ⟨hsuffix, h⟩)
    · exact h
    · exfalso
      apply hsuffix
      rw [h, hfull, String.append_assoc, String.toList_append (s := hostnames.tcp)]
      exact List.suffix_append _ _
  · exact Or.inl

theorem accepted_without_tcp (hostnames : Hostnames)
    (hfull : hostnames.tcpHostname = hostnames.domain) :
    normalizedClientSubdomain data.toLowercase hostnames host = hostnames.tcpHostname ↔
      data.toLowercase host = hostnames.domain ++ "." ++ hostnames.domain ∨
        data.toLowercase host = hostnames.domain := by
  rw [normalized_iff, hfull]
  refine or_congr Iff.rfl ⟨fun h => h.2, fun h => ⟨?_, h⟩⟩
  rw [h]
  exact not_suffix_self hostnames.domain

/-- Where a lower case is a name with the domain after it, the name is in lower case. -/
theorem lower_of_append {s t domain : String} (h : data.toLowercase s = t ++ "." ++ domain) :
    data.toLowercase t = t := by
  refine toLowercase_of_subset data (t := s) ?_
  rw [h]
  simp

theorem accepted_iff_tcpHost :
    let hostnames := Hostnames.new data.toLowercase domain api tcp blocklist
    (normalizedClientSubdomain data.toLowercase hostnames host = hostnames.tcpHostname ↔
      IsTcpHost data.toCaseData hostnames host) ↔ Undisputed data.toCaseData hostnames host := by
  intro hostnames
  have hlow : data.toLowercase hostnames.tcp = hostnames.tcp := toLowercase_toLowercase data _
  by_cases htcp : hostnames.tcp = ""
  · have hfull : hostnames.tcpHostname = hostnames.domain := if_pos htcp
    rw [accepted_without_tcp data hostnames hfull]
    simp only [IsTcpHost, SameHost, Undisputed, htcp, ne_eq, not_true_eq_false, false_and,
      false_or, if_false, hfull]
    by_cases hd : data.toLowercase hostnames.domain = hostnames.domain
    · rw [if_pos hd, hd]
      constructor
      · intro h heq
        exact ne_append_domain _ _ ((h.mp (Or.inl heq)).symm.trans heq)
      · intro hne
        exact ⟨fun h => h.resolve_left hne, Or.inr⟩
    · rw [if_neg hd]
      have hnone : ¬ (data.toLowercase host = hostnames.domain ++ "." ++ hostnames.domain ∨
          data.toLowercase host = hostnames.domain) := by
        rintro (h | h)
        · exact hd (lower_of_append data h)
        · exact hd (by rw [← h, toLowercase_toLowercase])
      exact ⟨fun h heq => hnone (h.mpr heq), fun h => iff_of_false hnone h⟩
  · have hfull : hostnames.tcpHostname = hostnames.tcp ++ "." ++ hostnames.domain := if_neg htcp
    rw [accepted_with_tcp data hostnames hfull]
    simp only [IsTcpHost, SameHost, Undisputed, htcp, ne_eq, not_false_eq_true, true_and,
      if_true, hlow]
    constructor
    · intro h
      have hnot : data.toLowercase host ≠ hostnames.tcpHostname ++ "." ++ hostnames.domain := by
        intro heq
        have hfixed := lower_of_append data heq
        rcases h.mp heq with hshort | hlong
        · have hlonger := heq.symm.trans hshort
          rw [hfull] at hlonger
          have hlen := congrArg (fun t : String => t.toList.length) hlonger
          simp at hlen
        · rw [hfixed] at hlong
          exact ne_append_domain _ _ (hlong.symm.trans heq)
      exact ⟨fun heq => hnot (h.mpr (Or.inl heq)), fun heq => hnot (h.mpr (Or.inr heq)), hnot⟩
    · rintro ⟨hshort, hlong, hnot⟩
      exact iff_of_false hnot (not_or.mpr ⟨hshort, hlong⟩)

def PortAllowed (message : Open) : Prop :=
  ∀ a, message.remoteAddress = some a → ¬ (a.port > 0 ∧ a.port < 1024)

theorem validateOpen_cases (toLowercase : String → String) (hostnames : Hostnames)
    {message : Open} (hp : PortAllowed message) :
    (validateOpen toLowercase hostnames message = .ok () ∧ ∀ p, HostsMeet message p) ∨
      ∃ host, (∀ p, HostsMeet message p ↔ p host) ∧
        validateOpen toLowercase hostnames message =
          if normalizedClientSubdomain toLowercase hostnames host = hostnames.tcpHostname then
            .ok ()
          else .error .hostNotAllowed := by
  cases ha : message.remoteAddress with
  | none => exact Or.inl ⟨by simp [validateOpen, ha], by simp [HostsMeet, ha]⟩
  | some a =>
    have hport := hp a ha
    cases hh : a.host with
    | none =>
      refine Or.inl ⟨by simp [validateOpen, ha, hport, hh], ?_⟩
      rintro p b host hb hhost
      obtain rfl : a = b := Option.some.inj (ha.symm.trans hb)
      rw [hh] at hhost
      cases hhost
    | some host =>
      refine Or.inr ⟨host, fun p => ⟨fun h => h a host ha hh, ?_⟩, ?_⟩
      · rintro h b k hb hk
        obtain rfl : a = b := Option.some.inj (ha.symm.trans hb)
        obtain rfl : host = k := Option.some.inj (hh.symm.trans hk)
        exact h
      · simp only [validateOpen, ha, hport, if_false, hh, ne_eq, ite_not]

/-- A PortOpen with an allowed port is decided as documented exactly when the host it names, if
it names one, is without dispute. -/
theorem remote_host_decided_iff (data : LowerCaseData) (domain : String)
    (api tcp : Option String) (blocklist : Option (List String)) (message : Open)
    (hport : PortAllowed message) :
    let hostnames := Hostnames.new data.toLowercase domain api tcp blocklist
    DecidesByHost data.toCaseData hostnames message ↔
      HostsMeet message (Undisputed data.toCaseData hostnames) := by
  intro hostnames
  rcases validateOpen_cases data.toLowercase hostnames hport with
    ⟨hok, hall⟩ | ⟨host, hmeet, hvalid⟩
  · exact iff_of_true ⟨fun _ => hok, fun hno => absurd (hall _) hno⟩ (hall _)
  · have hagree : (normalizedClientSubdomain data.toLowercase hostnames host =
        hostnames.tcpHostname ↔ IsTcpHost data.toCaseData hostnames host) ↔
          Undisputed data.toCaseData hostnames host := accepted_iff_tcpHost data
    rw [DecidesByHost, hmeet, hmeet, hvalid, ← hagree]
    by_cases hn : normalizedClientSubdomain data.toLowercase hostnames host =
        hostnames.tcpHostname
    · rw [if_pos hn]
      constructor
      · rintro ⟨_, hrefused⟩
        refine iff_of_true hn ?_
        by_contra hnot
        cases hrefused hnot
      · intro h
        exact ⟨fun _ => rfl, fun hnot => absurd (h.mp hn) hnot⟩
    · rw [if_neg hn]
      constructor
      · rintro ⟨haccepted, _⟩
        refine iff_of_false hn fun hyes => ?_
        cases haccepted hyes
      · intro h
        exact ⟨fun hyes => absurd (h.mpr hyes) hn, fun _ => rfl⟩

end Decision

def asciiData : LowerCaseData where
  lowercase c := if c = 'Σ' then ['σ'] else [c.toLower]
  finalSigma _ _ := false
  ascii := by
    intro c hc
    have hne : c ≠ 'Σ' := by
      rintro rfl
      exact absurd hc (by decide)
    rw [if_neg hne]
  lowered := by
    intro c d hd
    split at hd
    · rw [List.mem_singleton.mp hd]
      rfl
    · rw [List.mem_singleton.mp hd]
      exact HttpOpen.toLower_no_capital c
  stable := by
    intro c d hd
    split at hd
    · rw [List.mem_singleton.mp hd]
      decide
    · next hc =>
      rw [List.mem_singleton.mp hd]
      have hlow := HttpOpen.toLower_no_capital c
      have hne : c.toLower ≠ 'Σ' := by
        intro heq
        by_cases hu : c.isUpper = true
        · have hsmall := (HttpOpen.isUpper_iff.mp hu).2
          have hnat := HttpOpen.toNat_toLower hu
          rw [heq] at hnat
          change 931 = c.toNat + 32 at hnat
          omega
        · rw [HttpOpen.toLower_of_not_upper (by simpa using hu)] at heq
          exact hc heq
      rw [if_neg hne, HttpOpen.toLower_of_not_upper hlow]
      exact ⟨rfl, hne⟩
  sigma := by decide

def configured : Hostnames :=
  Hostnames.new asciiData.toLowercase "nport.io" (some "api") (some "tcp") none

def asks (host : String) : Open := ⟨0, some ⟨some host, 9999⟩, some ⟨none, 3000⟩⟩

theorem remote_host_decided_elsewhere :
    DecidesByHost asciiData.toCaseData configured (asks "example.com") := by
  have hport : PortAllowed (asks "example.com") := by
    rintro a ha
    obtain rfl := Option.some.inj ha
    decide
  refine (remote_host_decided_iff asciiData "nport.io" (some "api") (some "tcp") none
    (asks "example.com") hport).mpr ?_
  rintro a host ha hh
  obtain rfl := Option.some.inj ha
  obtain rfl := Option.some.inj hh
  exact ⟨by decide, by decide, by decide⟩

/-- The host of the example is refused, in full and in short, and what nobody would ask for is
accepted. -/
theorem documented_host_refused :
    IsTcpHost asciiData.toCaseData configured "tcp.nport.io" ∧
      validateOpen asciiData.toLowercase configured (asks "tcp.nport.io") =
        .error .hostNotAllowed ∧
      IsTcpHost asciiData.toCaseData configured "tcp" ∧
      validateOpen asciiData.toLowercase configured (asks "tcp") = .error .hostNotAllowed ∧
      ¬ IsTcpHost asciiData.toCaseData configured "tcp.nport.io.nport.io" ∧
      validateOpen asciiData.toLowercase configured (asks "tcp.nport.io.nport.io") = .ok () ∧
      ¬ DecidesByHost asciiData.toCaseData configured (asks "tcp.nport.io") := by
  have hfull : IsTcpHost asciiData.toCaseData configured "tcp.nport.io" := Or.inr rfl
  have hrefused : validateOpen asciiData.toLowercase configured (asks "tcp.nport.io") =
      .error .hostNotAllowed := by decide
  have hother : ¬ IsTcpHost asciiData.toCaseData configured "tcp.nport.io.nport.io" := by
    unfold IsTcpHost SameHost
    decide
  refine ⟨hfull, hrefused, Or.inl ⟨by decide, rfl⟩, by decide, hother, by decide, ?_⟩
  rintro ⟨haccepted, _⟩
  have hmeets : HostsMeet (asks "tcp.nport.io") (IsTcpHost asciiData.toCaseData configured) := by
    rintro a host ha hh
    obtain rfl := Option.some.inj ha
    obtain rfl := Option.some.inj hh
    exact hfull
  rw [haccepted hmeets] at hrefused
  cases hrefused

end RemoteHost
