import Nport.RemoteHost

/-! The spellings of a hostname that a client may open: the label alone or with the domain
after it, in any letter case. The server puts what it is asked for in lower case and takes the
domain off as it was configured, which is in any case. -/
namespace Spellings

open Libnp (toAsciiLowercase)
open PortOpen (Hostnames normalizedClientSubdomain stripSuffix)
open HttpOpen (CaseData ValidationError isValid subdomainForForwarding hostnameToClaim
  isSubdomainUsed isSubdomainBlocked)
open RemoteHost (LowerCaseData)

def Spelling (s t : String) : Prop := toAsciiLowercase s = toAsciiLowercase t

/-- Short or full, in any letter case, the same answer and the same key in the registry. -/
def OneHostname (data : CaseData) (hostnames : Hostnames) (x : String) : Prop :=
  ∀ short full, Spelling short x → Spelling full (x ++ "." ++ hostnames.domain) →
    subdomainForForwarding data.toLowercase hostnames (some short) =
        subdomainForForwarding data.toLowercase hostnames (some full) ∧
      ∀ generated, hostnameToClaim data.toLowercase hostnames generated (some short) =
        hostnameToClaim data.toLowercase hostnames generated (some full)

section Lowercase

variable (data : LowerCaseData)

/-- What is known of the lower case of l, wherever l stands: only a sigma depends on that. -/
structure Lowered (l lower : List Char) : Prop where
  dots : '.' ∉ l → '.' ∉ lower
  plain : 'Σ' ∉ l → lower = l.flatMap data.lowercase
  sigma : 'Σ' ∈ l → ∃ c ∈ lower, HttpOpen.isValidChar c = false

def DotAlone : Prop := ∀ c, '.' ∈ data.lowercase c → c = '.'

variable {data}

theorem lowered_cons (hdot : DotAlone data) {before after l lower : List Char} {c : Char}
    (h : Lowered data l lower) :
    Lowered data (c :: l) (data.lowercaseAt before c after ++ lower) := by
  by_cases hc : c = 'Σ'
  · have hat : data.lowercaseAt before c after =
        [if data.finalSigma before after then 'ς' else 'σ'] := if_pos hc
    refine ⟨fun hl => ?_, fun hl => ?_, fun _ => ?_⟩
    · rw [hat]
      intro hm
      rcases List.mem_append.mp hm with hm | hm
      · rw [List.mem_singleton] at hm
        split at hm <;> exact absurd hm (by decide)
      · exact h.dots (fun hm => hl (List.mem_cons_of_mem _ hm)) hm
    · rw [hc] at hl
      exact absurd List.mem_cons_self hl
    · refine ⟨_, List.mem_append_left _ (by rw [hat]; exact List.mem_cons_self), ?_⟩
      split <;> decide
  · have hat : data.lowercaseAt before c after = data.lowercase c := if_neg hc
    rw [hat]
    refine ⟨fun hl => ?_, fun hl => ?_, fun hl => ?_⟩
    · intro hm
      rcases List.mem_append.mp hm with hm | hm
      · exact hl (hdot c hm ▸ List.mem_cons_self)
      · exact h.dots (fun hm => hl (List.mem_cons_of_mem _ hm)) hm
    · rw [h.plain fun hm => hl (List.mem_cons_of_mem _ hm), List.flatMap_cons]
    · rcases List.mem_cons.mp hl with heq | hl
      · exact absurd heq.symm hc
      · obtain ⟨d, hd, hbad⟩ := h.sigma hl
        exact ⟨d, List.mem_append_right _ hd, hbad⟩

theorem lowercaseFrom_append (hdot : DotAlone data) (before l m : List Char) :
    ∃ lower, Lowered data l lower ∧
      data.lowercaseFrom before (l ++ m) = lower ++ data.lowercaseFrom (before ++ l) m := by
  induction l generalizing before with
  | nil => exact ⟨[], ⟨by simp, by simp, by simp⟩, by simp⟩
  | cons c l ih =>
    obtain ⟨lower, hlower, heq⟩ := ih (before ++ [c])
    refine ⟨data.lowercaseAt before c (l ++ m) ++ lower, lowered_cons hdot hlower, ?_⟩
    rw [List.cons_append, CaseData.lowercaseFrom, heq, List.append_assoc, List.append_assoc]
    rfl

theorem lowercaseFrom_lowered (hdot : DotAlone data) (before l : List Char) :
    Lowered data l (data.lowercaseFrom before l) := by
  obtain ⟨lower, hlower, heq⟩ := lowercaseFrom_append hdot before l []
  have hsame : data.lowercaseFrom before l = lower := by simpa [CaseData.lowercaseFrom] using heq
  rwa [hsame]

variable (data) in
theorem lowercase_toLower (c : Char) : data.lowercase c.toLower = data.lowercase c := by
  by_cases hu : c.isUpper = true
  · have hrange := HttpOpen.isUpper_iff.mp hu
    have hlower := HttpOpen.toNat_toLower hu
    rw [data.ascii c (by omega), data.ascii c.toLower (by omega),
      HttpOpen.toLower_of_not_upper (HttpOpen.toLower_no_capital c)]
  · rw [HttpOpen.toLower_of_not_upper (by simpa using hu)]

variable (data) in
theorem flatMap_toLower (l : List Char) :
    (l.map Char.toLower).flatMap data.lowercase = l.flatMap data.lowercase := by
  rw [List.flatMap_map]
  exact congrArg (fun f => List.flatMap f l) (funext fun c => lowercase_toLower data c)

theorem mem_map_toLower {l : List Char} {c : Char}
    (hc : c.isUpper = false ∧ c.isLower = false) :
    c ∈ l.map Char.toLower ↔ c ∈ l := by
  rw [List.mem_map]
  constructor
  · rintro ⟨d, hd, rfl⟩
    by_cases hu : d.isUpper = true
    · have hrange := HttpOpen.isUpper_iff.mp hu
      have hlower := HttpOpen.toNat_toLower hu
      have hlow : d.toLower.isLower = true := HttpOpen.isLower_iff.mpr (by omega)
      rw [hlow] at hc
      cases hc.2
    · rwa [HttpOpen.toLower_of_not_upper (by simpa using hu)]
  · intro h
    exact ⟨c, h, HttpOpen.toLower_of_not_upper hc.1⟩

theorem Lowered.respell {l m lower : List Char} (h : Lowered data l lower)
    (heq : m.map Char.toLower = l.map Char.toLower) : Lowered data m lower := by
  have hmem (c : Char) (hc : c.isUpper = false ∧ c.isLower = false) : c ∈ m ↔ c ∈ l := by
    rw [← mem_map_toLower hc, heq, mem_map_toLower hc]
  have hdot := hmem '.' (by decide)
  have hsigma := hmem 'Σ' (by decide)
  refine ⟨fun hm => h.dots (mt hdot.mpr hm), fun hm => ?_, fun hm => h.sigma (hsigma.mp hm)⟩
  rw [h.plain (mt hsigma.mpr hm), ← flatMap_toLower data l, ← heq, flatMap_toLower]

end Lowercase

/-! What the server makes of a name. -/

theorem subdomainForForwarding_invalid_iff {toLowercase : String → String} {hostnames : Hostnames}
    {requested : String} (hne : requested ≠ "") :
    subdomainForForwarding toLowercase hostnames (some requested) = .error .invalid ↔
      isValid (normalizedClientSubdomain toLowercase hostnames requested) = false ∨
        '.' ∈ (normalizedClientSubdomain toLowercase hostnames requested).toList := by
  simp only [subdomainForForwarding, Option.getD_some, if_neg hne]
  generalize normalizedClientSubdomain toLowercase hostnames requested = name
  by_cases hbad : (!isValid name || name.toList.contains '.') = true
  · rw [if_pos hbad]
    simpa using hbad
  · rw [if_neg hbad]
    have hgood : ¬ (isValid name = false ∨ '.' ∈ name.toList) := by simpa using hbad
    simp only [hgood, iff_false]
    split
    · simp
    · split <;> simp

theorem subdomainForForwarding_congr {toLowercase : String → String} {hostnames : Hostnames}
    {a b : String} (ha : a ≠ "") (hb : b ≠ "")
    (h : normalizedClientSubdomain toLowercase hostnames a =
      normalizedClientSubdomain toLowercase hostnames b) :
    subdomainForForwarding toLowercase hostnames (some a) =
      subdomainForForwarding toLowercase hostnames (some b) := by
  simp only [subdomainForForwarding, Option.getD_some, if_neg ha, if_neg hb, h]

section Names

variable {data : LowerCaseData} {hostnames : Hostnames} {x short full : String}

theorem normalized_short (hostnames : Hostnames) (hdot : DotAlone data) (hx : '.' ∉ x.toList)
    (h : Spelling short x) :
    ∃ lower, Lowered data x.toList lower ∧
      normalizedClientSubdomain data.toLowercase hostnames short = String.ofList lower := by
  have hmap : x.toList.map Char.toLower = short.toList.map Char.toLower :=
    (String.ofList_injective h).symm
  have hlower := (lowercaseFrom_lowered hdot [] short.toList).respell hmap
  refine ⟨_, hlower, ?_⟩
  rw [normalizedClientSubdomain, RemoteHost.stripSuffix_getD_iff]
  refine Or.inr ⟨fun hs => ?_, rfl⟩
  apply hlower.dots hx
  have hmem : '.' ∈ (data.toLowercase short).toList := hs.subset (by simp)
  rwa [CaseData.toLowercase, String.toList_ofList] at hmem

theorem toLowercase_full (hdot : DotAlone data)
    (h : Spelling full (x ++ "." ++ hostnames.domain)) :
    ∃ lower domain, Lowered data x.toList lower ∧
      Lowered data hostnames.domain.toList domain ∧ 'Σ' ∉ domain ∧
      (data.toLowercase full).toList = lower ++ '.' :: domain := by
  have hmap : full.toList.map Char.toLower =
      x.toList.map Char.toLower ++ '.' :: hostnames.domain.toList.map Char.toLower := by
    have heq := String.ofList_injective h
    simpa using heq
  obtain ⟨label, rest, hfull, hlabel, hrest⟩ := List.map_eq_append_iff.mp hmap
  obtain ⟨dot, suffix, rfl, hd, hsuffix⟩ := List.map_eq_cons_iff.mp hrest
  obtain rfl : dot = '.' := by
    have hm : '.' ∈ [dot].map Char.toLower := by simp [hd]
    exact (List.mem_singleton.mp ((mem_map_toLower (by decide)).mp hm)).symm
  obtain ⟨lower, hlower, hfrom⟩ := lowercaseFrom_append hdot [] label ('.' :: suffix)
  have hafter := lowercaseFrom_lowered hdot (label ++ ['.']) suffix
  refine ⟨lower, _, hlower.respell hlabel.symm, hafter.respell hsuffix.symm, ?_, ?_⟩
  · exact fun hm => (RemoteHost.lowercaseFrom_stable data hm).2 rfl
  · rw [CaseData.toLowercase, String.toList_ofList, hfull, hfrom, CaseData.lowercaseFrom]
    have hself : data.lowercaseAt label '.' suffix = ['.'] := by
      rw [CaseData.lowercaseAt, if_neg (by decide), data.ascii '.' (by decide)]
      rfl
    rw [List.nil_append, hself]
    rfl

/-- A domain in lower case is one that comes out of the lower case as it was configured. -/
theorem domain_eq_iff (hdot : DotAlone data) {domain : String} {lower : List Char}
    (h : Lowered data domain.toList lower) (hsigma : 'Σ' ∉ lower) :
    lower = domain.toList ↔ data.toLowercase domain = domain := by
  rw [← String.toList_inj, CaseData.toLowercase, String.toList_ofList]
  by_cases hs : 'Σ' ∈ domain.toList
  · have hne : 'Σ' ∉ data.lowercaseFrom [] domain.toList :=
      fun hm => (RemoteHost.lowercaseFrom_stable data hm).2 rfl
    refine iff_of_false ?_ ?_
    · rintro rfl
      exact hsigma hs
    · intro heq
      rw [heq] at hne
      exact hne hs
  · rw [h.plain hs, (lowercaseFrom_lowered hdot [] domain.toList).plain hs]

/-- From the full name the label is left, or something with a dot. -/
theorem normalized_full (hdot : DotAlone data) (hx : '.' ∉ x.toList)
    (h : Spelling full (x ++ "." ++ hostnames.domain)) :
    ∃ lower, Lowered data x.toList lower ∧
      if data.toLowercase hostnames.domain = hostnames.domain then
        normalizedClientSubdomain data.toLowercase hostnames full = String.ofList lower
      else '.' ∈ (normalizedClientSubdomain data.toLowercase hostnames full).toList := by
  obtain ⟨lower, domain, hlower, hdomain, hsigma, hfull⟩ := toLowercase_full hdot h
  refine ⟨lower, hlower, ?_⟩
  have hsame := domain_eq_iff hdot hdomain hsigma
  split
  · next heq =>
    rw [normalizedClientSubdomain, RemoteHost.stripSuffix_getD_iff]
    refine Or.inl ?_
    rw [← String.toList_inj, hfull, hsame.mpr heq]
    simp
  · next hne =>
    have hne := mt hsame.mp hne
    rcases RemoteHost.stripSuffix_getD_iff.mp
      (rfl : normalizedClientSubdomain data.toLowercase hostnames full = _) with heq | ⟨_, heq⟩
    · by_contra hm
      rw [← String.toList_inj, hfull] at heq
      simp only [String.toList_append] at heq
      exact hne (Separated.cut_unique (hlower.dots hx) hm heq).2
    · rw [← heq, hfull]
      simp

theorem isValid_of_sigma {l : List Char} (h : ∃ c ∈ l, HttpOpen.isValidChar c = false) :
    isValid (String.ofList l) = false := by
  obtain ⟨c, hc, hbad⟩ := h
  rw [← Bool.not_eq_true]
  intro hvalid
  have hgood := HttpOpen.isValid_chars hvalid c (by rwa [String.toList_ofList])
  rw [hbad] at hgood
  cases hgood

theorem Lowered.agree {l a b : List Char} (ha : Lowered data l a) (hb : Lowered data l b) :
    a = b ∨ (isValid (String.ofList a) = false ∧ isValid (String.ofList b) = false) := by
  by_cases hs : 'Σ' ∈ l
  · exact Or.inr ⟨isValid_of_sigma (ha.sigma hs), isValid_of_sigma (hb.sigma hs)⟩
  · exact Or.inl (by rw [ha.plain hs, hb.plain hs])

theorem Lowered.invalid_iff {l a b : List Char} (ha : Lowered data l a) (hb : Lowered data l b) :
    isValid (String.ofList a) = false ↔ isValid (String.ofList b) = false := by
  rcases ha.agree hb with rfl | ⟨ha, hb⟩
  · exact Iff.rfl
  · exact iff_of_true ha hb

theorem Spelling.ne_empty {s t : String} (h : Spelling s t) (ht : t ≠ "") : s ≠ "" := by
  rintro rfl
  have hmap : [] = t.toList.map Char.toLower := String.ofList_injective h
  exact ht (String.toList_eq_nil_iff.mp (List.map_eq_nil_iff.mp hmap.symm))

theorem hostnameToClaim_congr {toLowercase : String → String} {generated a b : String}
    (h : subdomainForForwarding toLowercase hostnames (some a) =
      subdomainForForwarding toLowercase hostnames (some b)) :
    hostnameToClaim toLowercase hostnames generated (some a) =
      hostnameToClaim toLowercase hostnames generated (some b) := by
  rw [hostnameToClaim, hostnameToClaim, h]

theorem full_ne_empty (h : Spelling full (x ++ "." ++ hostnames.domain)) : full ≠ "" := by
  refine h.ne_empty fun he => ?_
  have hlen := congrArg (fun s : String => s.toList.length) he
  simp at hlen

theorem short_invalid_iff (hdot : DotAlone data) (hx : x ≠ "") (hlabel : '.' ∉ x.toList)
    (h : Spelling short x) :
    subdomainForForwarding data.toLowercase hostnames (some short) = .error .invalid ↔
      isValid (data.toLowercase x) = false := by
  obtain ⟨lower, hlower, hname⟩ := normalized_short hostnames hdot hlabel h
  have hself : Lowered data x.toList (data.lowercaseFrom [] x.toList) :=
    lowercaseFrom_lowered hdot [] x.toList
  rw [subdomainForForwarding_invalid_iff (h.ne_empty hx), hname, String.toList_ofList]
  constructor
  · rintro (hbad | hm)
    · exact (hself.invalid_iff hlower).mpr hbad
    · exact absurd hm (hlower.dots hlabel)
  · intro hbad
    exact Or.inl ((hself.invalid_iff hlower).mp hbad)

theorem full_invalid (hdot : DotAlone data) (hlabel : '.' ∉ x.toList)
    (h : Spelling full (x ++ "." ++ hostnames.domain))
    (hbad : data.toLowercase hostnames.domain ≠ hostnames.domain ∨
      isValid (data.toLowercase x) = false) :
    subdomainForForwarding data.toLowercase hostnames (some full) = .error .invalid := by
  obtain ⟨lower, hlower, hname⟩ := normalized_full hdot hlabel h
  have hself : Lowered data x.toList (data.lowercaseFrom [] x.toList) :=
    lowercaseFrom_lowered hdot [] x.toList
  rw [subdomainForForwarding_invalid_iff (full_ne_empty h)]
  split at hname
  · next hdomain =>
    rw [hname]
    exact Or.inl ((hself.invalid_iff hlower).mp (hbad.resolve_left (not_not.mpr hdomain)))
  · exact Or.inr hname

theorem normalized_agree (hdot : DotAlone data) (hlabel : '.' ∉ x.toList)
    (hs : Spelling short x) (hf : Spelling full (x ++ "." ++ hostnames.domain))
    (hdomain : data.toLowercase hostnames.domain = hostnames.domain)
    (hvalid : ¬ isValid (data.toLowercase x) = false) :
    normalizedClientSubdomain data.toLowercase hostnames short =
      normalizedClientSubdomain data.toLowercase hostnames full := by
  obtain ⟨a, ha, hnshort⟩ := normalized_short hostnames hdot hlabel hs
  obtain ⟨b, hb, hnfull⟩ := normalized_full hdot hlabel hf
  have hself : Lowered data x.toList (data.lowercaseFrom [] x.toList) :=
    lowercaseFrom_lowered hdot [] x.toList
  rw [if_pos hdomain] at hnfull
  rw [hnshort, hnfull]
  rcases ha.agree hb with heq | ⟨hbad, _⟩
  · rw [heq]
  · exact absurd ((ha.invalid_iff hself).mp hbad) hvalid

end Names

/-- The spellings of a hostname are one hostname when the domain is configured in lower case,
or when the label is refused in all of them. Only then. -/
theorem one_hostname_iff (data : LowerCaseData) (hdot : DotAlone data) (domain : String)
    (api tcp : Option String) (blocklist : Option (List String)) (x : String) (hx : x ≠ "")
    (hlabel : '.' ∉ x.toList) :
    OneHostname data.toCaseData (Hostnames.new data.toLowercase domain api tcp blocklist) x ↔
      data.toLowercase domain = domain ∨ isValid (data.toLowercase x) = false := by
  generalize hnames : Hostnames.new data.toLowercase domain api tcp blocklist = hostnames
  obtain rfl : hostnames.domain = domain := by rw [← hnames]; rfl
  constructor
  · intro hone
    by_contra hnot
    rw [not_or] at hnot
    have hsame := (hone x (x ++ "." ++ hostnames.domain) rfl rfl).1
    rw [full_invalid hdot hlabel rfl (Or.inl hnot.1),
      short_invalid_iff hdot hx hlabel rfl] at hsame
    exact hnot.2 hsame
  · intro hcond short full hs hf
    have hanswer : subdomainForForwarding data.toLowercase hostnames (some short) =
        subdomainForForwarding data.toLowercase hostnames (some full) := by
      by_cases hvalid : isValid (data.toLowercase x) = false
      · rw [(short_invalid_iff hdot hx hlabel hs).mpr hvalid,
          full_invalid hdot hlabel hf (Or.inr hvalid)]
      · have hdomain := hcond.resolve_right hvalid
        exact subdomainForForwarding_congr (hs.ne_empty hx) (full_ne_empty hf)
          (normalized_agree hdot hlabel hs hf hdomain hvalid)
    exact ⟨hanswer, fun generated => hostnameToClaim_congr hanswer⟩

theorem asciiData_dotAlone : DotAlone RemoteHost.asciiData := by
  intro c hc
  by_cases hs : c = 'Σ'
  · subst hs
    exact absurd hc (by decide)
  · have hlower : RemoteHost.asciiData.lowercase c = [c].map Char.toLower := if_neg hs
    rw [hlower] at hc
    exact (List.mem_singleton.mp ((mem_map_toLower (by decide)).mp hc)).symm

theorem one_hostname_in_lower_case : OneHostname RemoteHost.asciiData.toCaseData
    (Hostnames.new RemoteHost.asciiData.toLowercase "nport.io" (some "api") (some "tcp") none)
    "Blog" :=
  (one_hostname_iff RemoteHost.asciiData asciiData_dotAlone "nport.io" (some "api") (some "tcp")
    none "Blog" (by decide) (by decide)).mpr (Or.inl (by decide))

/-- Under a domain with a capital the full name is refused in every letter case. -/
theorem capital_domain_refused :
    let hostnames := Hostnames.new RemoteHost.asciiData.toLowercase "Nport.io" (some "api")
      (some "tcp") none
    subdomainForForwarding RemoteHost.asciiData.toLowercase hostnames (some "blog") =
        .ok (some "blog") ∧
      subdomainForForwarding RemoteHost.asciiData.toLowercase hostnames (some "blog.Nport.io") =
        .error .invalid ∧
      ¬ OneHostname RemoteHost.asciiData.toCaseData hostnames "blog" := by
  intro hostnames
  have hshort : subdomainForForwarding RemoteHost.asciiData.toLowercase hostnames (some "blog") =
      .ok (some "blog") := by decide
  have hfull : subdomainForForwarding RemoteHost.asciiData.toLowercase hostnames
      (some "blog.Nport.io") = .error .invalid := by decide
  refine ⟨hshort, hfull, fun h => ?_⟩
  have hsame := (h "blog" "blog.Nport.io" rfl rfl).1
  rw [hshort, hfull] at hsame
  cases hsame

end Spellings
