import Nport.CertChain
import Nport.CertFiles
import Nport.HostnameGrammar
import Nport.Spellings

/-! A restart of the server. update_cert puts each certificate in the map and in a file; a new
store that loads the directory has the map again, but for what is about to expire. The map goes
by the domain as it is written, and a file by its lower case. -/
namespace Restart

open PortTask (Bytes)
open HttpOpen (CaseData)
open HostnameGrammar (isLabelChar)
open Libnp (toAsciiLowercase)
open CertStore
open CertFiles
open Multimap
open ReadChain
open Separated

def IsLabels (s : String) : Prop :=
  Joined '.' (fun label => label ≠ [] ∧ ∀ c ∈ label, isLabelChar c = true) s.toList

/-- What a certificate is for: a domain, or the names one label below it. -/
def IsCertDomain (s : String) : Prop := IsLabels s ∨ ∃ domain, IsLabels domain ∧ s = "*." ++ domain

/-! The file of a domain is in the directory, and no other domain has it. -/

theorem isLabelChar_ascii {c : Char} (h : isLabelChar c = true) : c.toNat < 128 := by
  apply HttpOpen.isValidChar_ascii
  simp only [isLabelChar, Bool.or_eq_true] at h
  rcases h with h | h <;> simp [HttpOpen.isValidChar, h]

theorem IsCertDomain.chars {s : String} (h : IsCertDomain s) :
    (∀ c ∈ s.toList, isLabelChar c = true ∨ c = '.' ∨ c = '*') ∧
      ∃ c rest, s.toList = c :: rest ∧ c ≠ '.' := by
  have hlabels {t : String} (ht : IsLabels t) :
      ∀ c ∈ t.toList, isLabelChar c = true ∨ c = '.' ∨ c = '*' :=
    ht.forall_mem (Or.inr (Or.inl rfl)) fun _ hp c hc => Or.inl (hp.2 c hc)
  have hfirst {label rest : List Char} (hne : label ≠ [])
      (hc : ∀ c ∈ label, isLabelChar c = true) :
      ∃ c after, label ++ rest = c :: after ∧ c ≠ '.' := by
    obtain ⟨c, label, rfl⟩ := List.exists_cons_of_ne_nil hne
    refine ⟨c, label ++ rest, rfl, ?_⟩
    rintro rfl
    exact absurd (hc '.' List.mem_cons_self) (by decide)
  rcases h with h | ⟨domain, h, rfl⟩
  · refine ⟨hlabels h, ?_⟩
    unfold IsLabels at h
    generalize s.toList = l at h
    cases h with
    | one hp => simpa using @hfirst _ [] hp.1 hp.2
    | cons hp _ => exact hfirst hp.1 hp.2
  · refine ⟨?_, '*', '.' :: domain.toList, by simp, by decide⟩
    simpa using hlabels h

theorem IsCertDomain.toLowercase (data : CaseData) {s : String} (h : IsCertDomain s) :
    data.toLowercase s = toAsciiLowercase s := by
  apply HttpOpen.toLowercase_ascii
  intro c hc
  rcases h.chars.1 c hc with hc | rfl | rfl
  · exact isLabelChar_ascii hc
  · decide
  · decide

theorem IsCertDomain.fileName (data : CaseData) {s : String} (h : IsCertDomain s) :
    IsFileName (certFilename data s) := by
  obtain ⟨hchars, first, rest, hs, hfirst⟩ := h.chars
  have hname : (certFilename data s).toList = (s.toList.map Char.toLower).flatMap fun c =>
      if c = '*' then "STAR".toList else [c] := by
    simp [certFilename, h.toLowercase, toAsciiLowercase]
  have hplain {c : Char} (hletter : c.isUpper = false ∧ c.isLower = false)
      (hstar : c ∉ "STAR".toList) (hc : ¬ (isLabelChar c = true ∨ c = '.' ∨ c = '*')) :
      c ∉ (certFilename data s).toList := by
    rw [hname, List.mem_flatMap]
    intro hm
    obtain ⟨d, hd, hm⟩ := hm
    split at hm
    · exact hstar hm
    · rw [List.mem_singleton] at hm
      exact hc (hchars c ((Spellings.mem_map_toLower hletter).mp (hm ▸ hd)))
  have hhead : ∃ c after, (certFilename data s).toList = c :: after ∧ c ≠ '.' := by
    rw [hname, hs, List.map_cons, List.flatMap_cons]
    split
    · exact ⟨'S', _, rfl, by decide⟩
    · refine ⟨first.toLower, _, rfl, ?_⟩
      intro hdot
      have hm : '.' ∈ [first].map Char.toLower := by simp [hdot]
      have hmem := (Spellings.mem_map_toLower (by decide)).mp hm
      exact hfirst (List.mem_singleton.mp hmem).symm
  obtain ⟨c, after, hcons, hc⟩ := hhead
  have hne {t : String} (ht : t.toList.head? = none ∨ t.toList.head? = some '.') :
      certFilename data s ≠ t := by
    rintro rfl
    rw [hcons] at ht
    simp [hc] at ht
  exact ⟨hne (Or.inl rfl), ⟨hne (Or.inr rfl), hne (Or.inr rfl)⟩,
    hplain (by decide) (by decide) (by decide), hplain (by decide) (by decide) (by decide)⟩

section Run

variable {K : Type*} (lib : CertLib K) (files : FileLib)

def certified (cert : Certificate) : Option (CertifiedKey K) :=
  (lib.anySupportedType cert.privateKeyDer).map fun key => ⟨cert.certificateDer, key⟩

/-- The calls of update_cert, one after the other; none when one of them panics. -/
def updateCerts (state : Store K × Disk) (calls : List (String × Certificate)) :
    Option (Store K × Disk) :=
  calls.foldlM (fun state call => updateCert lib files state.1 state.2 call.1 call.2) state

def aboutToExpire (now : Time) (der : Bytes) : Bool :=
  match certExpiration lib der with
  | .ok expiration => expiration < now + minimumCertLoadDuration
  | .error _ => false

/-- After the calls the map and the directory have, for each domain, what its last call gave. -/
structure Mirrors (calls : List (String × Certificate)) (store : Store K) (dir : Directory) :
    Prop where
  loadable : ∀ call ∈ calls, (certified lib call.2).isSome
  certs : ∀ domain, store.certs domain = (last domain calls).bind (certified lib)
  contents : ∀ name data, dir name = some data ↔ ∃ domain cert, last domain calls = some cert ∧
    certFilename files.caseData domain = name ∧ Intact files data (stored domain cert)

/-- What a restart asks of the calls: domains of the grammar that differ in more than case, keys,
certificates that can be parsed, and files that are written. -/
structure Regular (calls : List (String × Certificate)) : Prop where
  domains : ∀ call ∈ calls, IsCertDomain call.1
  apart : ∀ a ∈ calls, ∀ b ∈ calls,
    toAsciiLowercase a.1 = toAsciiLowercase b.1 → a.1 = b.1
  keys : ∀ call ∈ calls, call.2.privateKeyDer ≠ []
  parseable : ∀ call ∈ calls, ∃ certs, Chain lib.fromDer certs call.2.certificateDer
  written : ∀ call ∈ calls, ∀ disk, ∃ disk', storeCert files disk call.1 call.2 = .ok disk'

variable {lib files} {calls : List (String × Certificate)}

theorem Regular.filename_injective (h : Regular lib files calls) {a b : String × Certificate}
    (ha : a ∈ calls) (hb : b ∈ calls)
    (heq : certFilename files.caseData a.1 = certFilename files.caseData b.1) : a.1 = b.1 := by
  have hlower := certFilename_injective files.caseData heq
  rw [(h.domains a ha).toLowercase, (h.domains b hb).toLowercase] at hlower
  exact h.apart a ha b hb hlower

theorem Regular.storeCert (h : Regular lib files calls) {call : String × Certificate}
    (hc : call ∈ calls) : ∃ text, files.toJson (stored call.1 call.2) = .ok text ∧
      ∀ dir, CertFiles.storeCert files (some dir) call.1 call.2 =
        .ok (some (Function.update dir (certFilename files.caseData call.1)
          (some (utf8 text)))) := by
  cases htext : files.toJson (stored call.1 call.2) with
  | error err =>
    obtain ⟨disk, hdisk⟩ := h.written call hc none
    simp [CertFiles.storeCert, htext] at hdisk
  | ok text =>
    refine ⟨text, rfl, fun dir => ?_⟩
    have hname := files.entry_fileName ((h.domains call hc).fileName files.caseData)
    simp [CertFiles.storeCert, htext, hname]

theorem Regular.exists_last_concat {call : String × Certificate}
    (h : Regular lib files (calls ++ [call])) {name : String} {P : String → Certificate → Prop} :
    (∃ domain cert, last domain (calls ++ [call]) = some cert ∧
        certFilename files.caseData domain = name ∧ P domain cert) ↔
      if name = certFilename files.caseData call.1 then P call.1 call.2
      else ∃ domain cert, last domain calls = some cert ∧
        certFilename files.caseData domain = name ∧ P domain cert := by
  split
  · next hn =>
    constructor
    · intro hlast
      obtain ⟨domain, cert, hlast, hname, hp⟩ := hlast
      have hd : domain = call.1 :=
        h.filename_injective (mem_of_last hlast) (by simp) (hname.trans hn)
      rw [hd, last_concat, if_pos rfl, Option.some.injEq] at hlast
      rwa [hd, ← hlast] at hp
    · intro hp
      exact ⟨call.1, call.2, by rw [last_concat, if_pos rfl], hn.symm, hp⟩
  · next hn =>
    have hother (domain : String) (hname : certFilename files.caseData domain = name) :
        last domain (calls ++ [call]) = last domain calls := by
      rw [last_concat, if_neg]
      rintro rfl
      exact hn hname.symm
    constructor
    · intro hlast
      obtain ⟨domain, cert, hlast, hname, hp⟩ := hlast
      exact ⟨domain, cert, (hother domain hname).symm.trans hlast, hname, hp⟩
    · intro hlast
      obtain ⟨domain, cert, hlast, hname, hp⟩ := hlast
      exact ⟨domain, cert, (hother domain hname).trans hlast, hname, hp⟩

theorem Regular.of_append {more : List (String × Certificate)}
    (h : Regular lib files (calls ++ more)) : Regular lib files calls where
  domains call hc := h.domains call (List.mem_append_left _ hc)
  apart a ha b hb := h.apart a (List.mem_append_left _ ha) b (List.mem_append_left _ hb)
  keys call hc := h.keys call (List.mem_append_left _ hc)
  parseable call hc := h.parseable call (List.mem_append_left _ hc)
  written call hc := h.written call (List.mem_append_left _ hc)

theorem mirrors_nil (domain : String) : Mirrors lib files [] (newStore domain) noFiles where
  loadable := by simp
  certs _ := rfl
  contents := by simp [noFiles, last]

theorem Mirrors.updateCert {call : String × Certificate} {store : Store K} {dir : Directory}
    {state : Store K × Disk} (h : Mirrors lib files calls store dir)
    (hregular : Regular lib files (calls ++ [call]))
    (hupdate : CertFiles.updateCert lib files store (some dir) call.1 call.2 = some state) :
    ∃ dir', state.2 = some dir' ∧ Mirrors lib files (calls ++ [call]) state.1 dir' := by
  have hmem : call ∈ calls ++ [call] := by simp
  obtain ⟨text, htext, hwrite⟩ := hregular.storeCert hmem
  obtain ⟨store', hadd, rfl⟩ := Option.map_eq_some_iff.mp hupdate
  obtain ⟨key, hkey, rfl⟩ := Option.map_eq_some_iff.mp hadd
  have hcertified : certified lib call.2 = some ⟨call.2.certificateDer, key⟩ := by
    rw [certified, hkey]
    rfl
  rw [hwrite dir]
  refine ⟨_, rfl, ?_, ?_, ?_⟩
  · intro other ho
    rcases List.mem_append.mp ho with ho | ho
    · exact h.loadable other ho
    · rw [List.mem_singleton.mp ho, hcertified]
      rfl
  · intro domain
    change Function.update store.certs call.1 _ domain = _
    rw [last_concat]
    by_cases hd : call.1 = domain
    · rw [← hd, Function.update_self, if_pos rfl, Option.bind_some, hcertified]
    · rw [Function.update_of_ne (Ne.symm hd), if_neg hd, h.certs]
  · intro name data
    rw [hregular.exists_last_concat]
    by_cases hn : name = certFilename files.caseData call.1
    · rw [hn, Function.update_self, if_pos rfl]
      constructor
      · intro heq
        exact ⟨text, htext, (Option.some.inj heq).symm⟩
      · intro hintact
        obtain ⟨text', htext', rfl⟩ := hintact
        rw [htext] at htext'
        rw [Except.ok.inj htext']
    · rw [Function.update_of_ne hn, if_neg hn, h.contents]

theorem mirrors_updateCerts {domain : String} {store : Store K} {disk : Disk}
    (hregular : Regular lib files calls)
    (h : updateCerts lib files (newStore domain, some noFiles) calls = some (store, disk)) :
    ∃ dir, disk = some dir ∧ Mirrors lib files calls store dir := by
  induction calls using List.reverseRecOn generalizing store disk with
  | nil =>
    cases h
    exact ⟨noFiles, rfl, mirrors_nil domain⟩
  | append_singleton calls call ih =>
    rw [updateCerts, List.foldlM_append] at h
    obtain ⟨⟨store', disk'⟩, hbefore, hlast⟩ := Option.bind_eq_some_iff.mp h
    obtain ⟨dir, rfl, hmirrors⟩ := ih hregular.of_append hbefore
    exact hmirrors.updateCert hregular (by simpa using hlast)

/-- What load takes from the file of a domain. -/
theorem Mirrors.takenFrom {store : Store K} {dir : Directory}
    (h : Mirrors lib files calls store dir) (hregular : Regular lib files calls)
    (clock : String → Time) {name domain : String} {data : Bytes} {cert : Certificate}
    (hdir : dir name = some data) (hlast : last domain calls = some cert)
    (hintact : Intact files data (stored domain cert)) :
    takenFrom lib files clock dir name =
      some (((store.certs domain).filter fun c => !aboutToExpire lib (clock name) c.cert).map
        fun c => (domain, c)) := by
  have hmem := mem_of_last hlast
  obtain ⟨certs, hchain⟩ := hregular.parseable _ hmem
  obtain ⟨expiration, hexp⟩ : ∃ expiration,
      certExpiration lib cert.certificateDer = .ok expiration :=
    ⟨_, CertChain.certExpirationFrom_eq_ok_iff.mpr ⟨certs, hchain, rfl⟩⟩
  have hvalid : (stored domain cert).validate = .ok () := by
    obtain ⟨first, rest, hcons, _⟩ := (hregular.domains _ hmem).chars.2
    have hdomain : domain ≠ "" := by
      rintro rfl
      cases hcons
    have hder := hchain.ne_nil (CertChain.fromDer_shortens lib)
    simp [StoredCert.validate, stored, hdomain, hregular.keys _ hmem, hder]
  obtain ⟨c, hc⟩ := Option.isSome_iff_exists.mp (h.loadable _ hmem)
  obtain ⟨key, hkey, rfl⟩ := Option.map_eq_some_iff.mp hc
  rw [takenFrom_intact hdir hintact hvalid hexp, h.certs, hlast, Option.bind_some, hc]
  by_cases hexpires : expiration < clock name + minimumCertLoadDuration
  · simp [aboutToExpire, hexp, hexpires]
  · simp [aboutToExpire, stored, hexp, hexpires, hkey]

theorem domain_foldl_put (entry : String → Option (String × CertifiedKey K))
    (listing : List String) (store : Store K) :
    (listing.foldl (fun store name => put store (entry name)) store).domain = store.domain := by
  induction listing generalizing store with
  | nil => rfl
  | cons name names ih =>
    rw [List.foldl_cons, ih]
    cases entry name <;> rfl

/-- load accepts the directory, and gives each domain the certificate of its last call, unless
that is about to expire. -/
theorem load_mirrored {mirror : Store K} {dir : Directory}
    (hmirrors : Mirrors lib files calls mirror dir) (hregular : Regular lib files calls)
    (domain : String) (clock : String → Time) {listing : List String}
    (hlisting : Lists listing dir) :
    ∃ reloaded, load lib files clock (some dir) listing (newStore domain) =
        some (reloaded, .ok ()) ∧ reloaded.domain = domain ∧
      ∀ d, reloaded.certs d = (mirror.certs d).filter fun c =>
        !aboutToExpire lib (clock (certFilename files.caseData d)) c.cert := by
  have hall (name) (hname : name ∈ listing) :
      (takenFrom lib files clock dir name).isSome := by
    obtain ⟨data, hdata⟩ := Option.isSome_iff_exists.mp ((hlisting.mem_iff name).mp hname)
    obtain ⟨d, cert, hlast, _, hintact⟩ := (hmirrors.contents name data).mp hdata
    rw [hmirrors.takenFrom hregular clock hdata hlast hintact]
    rfl
  obtain ⟨reloaded, hload⟩ := exists_loadFiles_iff.mpr hall
  refine ⟨reloaded, hload, ?_, fun d => certs_loaded hlisting hload fun c => ⟨?_, ?_⟩⟩
  · rw [(loadFiles_ok_iff.mp hload).2]
    exact domain_foldl_put _ _ _
  · rintro ⟨name, htaken⟩
    obtain ⟨data, hdata, _⟩ := Option.bind_eq_some_iff.mp htaken
    obtain ⟨e, cert, hlast, rfl, hintact⟩ := (hmirrors.contents name data).mp hdata
    rw [hmirrors.takenFrom hregular clock hdata hlast hintact] at htaken
    obtain ⟨c', hc', heq⟩ := Option.map_eq_some_iff.mp (Option.some.inj htaken)
    obtain ⟨rfl, rfl⟩ := Prod.mk.inj heq
    exact hc'
  · intro hc
    obtain ⟨hstored, _⟩ := Option.filter_eq_some_iff.mp hc
    rw [hmirrors.certs] at hstored
    obtain ⟨cert, hlast, _⟩ := Option.bind_eq_some_iff.mp hstored
    obtain ⟨text, htext, _⟩ := hregular.storeCert (mem_of_last hlast)
    have hintact : Intact files (utf8 text) (stored d cert) := ⟨text, htext, rfl⟩
    have hdata := (hmirrors.contents _ _).mpr ⟨d, cert, hlast, rfl, hintact⟩
    refine ⟨certFilename files.caseData d, ?_⟩
    rw [hmirrors.takenFrom hregular clock hdata hlast hintact, hc]
    rfl

/-- A new store that loads the directory has, for every domain, the certificate of its last call,
if it is not about to expire, and nothing else. -/
theorem restart_keeps_certificates (lib : CertLib K) (files : FileLib) (domain : String)
    (calls : List (String × Certificate)) (hregular : Regular lib files calls)
    {store : Store K} {disk : Disk}
    (h : updateCerts lib files (newStore domain, some noFiles) calls = some (store, disk)) :
    ∃ dir, disk = some dir ∧ ∀ (clock : String → Time) (listing : List String),
      Lists listing dir → ∃ reloaded,
        load lib files clock disk listing (newStore domain) = some (reloaded, .ok ()) ∧
        ∀ d, store.certs d = (last d calls).bind (certified lib) ∧
          reloaded.certs d = (store.certs d).filter fun c =>
            !aboutToExpire lib (clock (certFilename files.caseData d)) c.cert := by
  obtain ⟨dir, rfl, hmirrors⟩ := mirrors_updateCerts hregular h
  refine ⟨dir, rfl, fun clock listing hlisting => ?_⟩
  obtain ⟨reloaded, hload, _, hcerts⟩ := load_mirrored hmirrors hregular domain clock hlisting
  exact ⟨reloaded, hload, fun d => ⟨hmirrors.certs d, hcerts d⟩⟩

end Run

def rootCert : StoredCert := ⟨"nport.io", [1], [90]⟩

def wildcardCert : StoredCert := ⟨"*.nport.io", [1], [0]⟩

def rootText : String :=
  "\x7b\"domain\":\"nport.io\",\"private_key_der\":[1],\"certificate_der\":[90]\x7d"

def wildcardText : String :=
  "\x7b\"domain\":\"*.nport.io\",\"private_key_der\":[1],\"certificate_der\":[0]\x7d"

def twoCerts : FileLib where
  caseData := RemoteHost.asciiData.toCaseData
  toJson cert :=
    if cert = rootCert then .ok rootText
    else if cert = wildcardCert then .ok wildcardText
    else .error "another certificate"
  fromJson text :=
    if text = rootText then .ok rootCert
    else if text = wildcardText then .ok wildcardCert
    else .error "EOF while parsing a value at line 1 column 0"
  entry name := some name
  roundTrips := by
    intro cert text h
    split at h
    · next hcert =>
      rw [← Except.ok.inj h, if_pos rfl, hcert]
    · split at h
      · next hcert =>
        rw [← Except.ok.inj h, if_neg (by decide), if_pos rfl, hcert]
      · cases h
  entry_fileName _ := rfl

def twoCalls : List (String × Certificate) :=
  [("*.nport.io", ⟨[1], [0]⟩), ("nport.io", ⟨[1], [90]⟩)]

def savedDir : Directory :=
  Function.update (Function.update noFiles "STAR.nport.io" (some (utf8 wildcardText)))
    "nport.io" (some (utf8 rootText))

theorem isLabels_nport : IsLabels "nport.io" := by
  have hlabel {l : List Char} (hne : l ≠ []) (hall : l.all isLabelChar = true) :
      l ≠ [] ∧ ∀ c ∈ l, isLabelChar c = true := ⟨hne, List.all_eq_true.mp hall⟩
  change Joined '.' _ ("nport".toList ++ '.' :: "io".toList)
  exact .cons (hlabel (by decide) rfl) (.one (hlabel (by decide) rfl))

theorem forall_twoCalls {P : String × Certificate → Prop}
    (hwildcard : P ("*.nport.io", ⟨[1], [0]⟩)) (hroot : P ("nport.io", ⟨[1], [90]⟩)) :
    ∀ call ∈ twoCalls, P call := by
  intro call hc
  simp only [twoCalls, List.mem_cons, List.not_mem_nil, or_false] at hc
  rcases hc with rfl | rfl
  · exact hwildcard
  · exact hroot

theorem twoCalls_regular : Regular Renewal.byteCerts twoCerts twoCalls where
  domains := forall_twoCalls (Or.inr ⟨"nport.io", isLabels_nport, rfl⟩) (Or.inl isLabels_nport)
  apart := by decide
  keys := by decide
  parseable := forall_twoCalls ⟨_, .one rfl⟩ ⟨_, .one rfl⟩
  written := forall_twoCalls (fun _ => ⟨_, rfl⟩) fun _ => ⟨_, rfl⟩

def savedStore : Store Unit :=
  ⟨Function.update (Function.update (fun _ => none) "*.nport.io" (some ⟨[0], ()⟩))
    "nport.io" (some ⟨[90], ()⟩), "nport.io"⟩

theorem twoCalls_saved : updateCerts Renewal.byteCerts twoCerts
    (newStore "nport.io", some noFiles) twoCalls = some (savedStore, some savedDir) := rfl

theorem savedDir_lists : Lists ["nport.io", "STAR.nport.io"] savedDir where
  nodup := by decide
  mem_iff name := by
    by_cases hroot : name = "nport.io"
    · simp [hroot, savedDir]
    · by_cases hstar : name = "STAR.nport.io"
      · simp [hstar, savedDir]
      · simp [hroot, hstar, savedDir, noFiles]

theorem restart_keeps_root : ∃ reloaded,
    load Renewal.byteCerts twoCerts (fun _ => 0) (some savedDir) ["nport.io", "STAR.nport.io"]
        (newStore "nport.io") = some (reloaded, .ok ()) ∧
      reloaded.certs "nport.io" = some ⟨[90], ()⟩ ∧ reloaded.certs "*.nport.io" = none := by
  obtain ⟨dir, hdir, hload⟩ := restart_keeps_certificates Renewal.byteCerts twoCerts "nport.io"
    twoCalls twoCalls_regular twoCalls_saved
  cases hdir
  obtain ⟨reloaded, hreloaded, hcerts⟩ := hload (fun _ => 0) _ savedDir_lists
  have hexpires (b : UInt8) : aboutToExpire Renewal.byteCerts 0 [b] =
      decide ((b.toNat : ℤ) * day < minimumCertLoadDuration) := by
    rw [aboutToExpire, Renewal.certExpiration_byte]
    simp
  refine ⟨reloaded, hreloaded, ?_, ?_⟩
  · have hroot : savedStore.certs "nport.io" = some ⟨[90], ()⟩ := rfl
    rw [(hcerts _).2, hroot, Option.filter_some, hexpires]
    simp [minimumCertLoadDuration, day]
  · have hwildcard : savedStore.certs "*.nport.io" = some ⟨[0], ()⟩ := rfl
    rw [(hcerts _).2, hwildcard, Option.filter_some, hexpires]
    simp [minimumCertLoadDuration, day]

end Restart
