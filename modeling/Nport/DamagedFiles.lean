import Nport.GuardedMachine
import Nport.Restart

/-! What a crash leaves in the directory of certificates, and what load makes of it at the next
start. load gives up at the first file that fails a check, and panics at a key that it cannot
load; only certificates that are about to expire are passed over. -/
namespace DamagedFiles

open GuardedMachine
open PortTask (Bytes)
open CertStore
open CertFiles
open Multimap
open ReadChain

/-- What a call of store_cert that is cut short leaves. fs::write empties the file before it
writes. -/
inductive CutShort (files : FileLib) (disk : Disk) (cert : StoredCert) : Disk → Prop where
  | before : CutShort files disk cert disk
  | created : CutShort files disk cert (some (disk.getD noFiles))
  | written {text name part} : files.toJson cert = .ok text →
      files.entry (certFilename files.caseData cert.domain) = some name →
      (part <+: utf8 text ∨ ∃ old, disk.getD noFiles name = some old ∧ part <+: old) →
      CutShort files disk cert (some (Function.update (disk.getD noFiles) name (some part)))

inductive Event where
  | stored (domain : String) (cert : Certificate)
  | cut (domain : String) (cert : Certificate) (left : Disk)

def Enabled (files : FileLib) (disk : Disk) : Event → Prop
  | .stored domain cert => (stored domain cert).validate = .ok () ∧
      ∃ disk', storeCert files disk domain cert = .ok disk'
  | .cut domain cert left =>
      (stored domain cert).validate = .ok () ∧ CutShort files disk (stored domain cert) left

def next (files : FileLib) (disk : Disk) : Event → Disk
  | .stored domain cert =>
    match storeCert files disk domain cert with
    | .ok disk' => disk'
    | .error _ => disk
  | .cut _ _ left => left

def writes (files : FileLib) (start : Disk) : Machine Disk Event :=
  ⟨start, Enabled files, next files⟩

/-- A printed certificate ends with its closing brace: none of its beginnings is accepted. -/
def ObjectsEnd (files : FileLib) : Prop := ∀ {cert cert' text text'},
  files.toJson cert = .ok text → files.fromJson text' = .ok cert' → utf8 text' <+: utf8 text →
    text' = text

def Written (files : FileLib) (name : String) (data : Bytes) : Prop :=
  ∃ cert text, cert.validate = .ok () ∧ files.toJson cert = .ok text ∧
    files.entry (certFilename files.caseData cert.domain) = some name ∧ data <+: utf8 text

def Traceable (files : FileLib) (disk : Disk) : Prop :=
  ∀ name data, disk.getD noFiles name = some data → Written files name data

section Runs

variable {files : FileLib}

theorem Traceable.update {disk : Disk} {name : String} {data : Bytes}
    (h : Traceable files disk) (hwritten : Written files name data) :
    Traceable files (some (Function.update (disk.getD noFiles) name (some data))) :=
  forall_files_update h hwritten

theorem step_traceable {disk : Disk} {e : Event} (h : Traceable files disk)
    (he : Enabled files disk e) : Traceable files (next files disk e) := by
  cases e with
  | stored domain cert =>
    obtain ⟨hvalid, disk', hstore⟩ := he
    simp only [next, hstore]
    obtain ⟨text, htext, ⟨_, rfl⟩ | ⟨name, hname, rfl⟩⟩ := storeCert_cases hstore
    · exact h
    · exact h.update ⟨_, text, hvalid, htext, hname, List.prefix_refl _⟩
  | cut domain cert left =>
    obtain ⟨hvalid, hcut⟩ := he
    cases hcut with
    | before => exact h
    | created => exact h
    | @written text name part htext hentry hpart =>
      apply h.update
      rcases hpart with hpart | ⟨old, hold, hpart⟩
      · exact ⟨_, text, hvalid, htext, hentry, hpart⟩
      · obtain ⟨cert', text', hvalid', htext', hentry', hprefix⟩ := h name old hold
        exact ⟨cert', text', hvalid', htext', hentry', hpart.trans hprefix⟩

theorem getD_start {start : Disk} (hstart : start = none ∨ start = some noFiles)
    (name : String) : start.getD noFiles name = none := by
  rcases hstart with rfl | rfl
  · rfl
  · rfl

theorem writes_traceable {start disk : Disk} {tr : List (Disk × Event)}
    (hstart : start = none ∨ start = some noFiles) (h : Run (writes files start) tr disk) :
    ∀ u ∈ visited tr disk, Traceable files u := by
  have hinitial : Traceable files start := by
    intro name data hdata
    rw [getD_start hstart] at hdata
    cases hdata
  exact h.forall_visited_where (C := fun _ _ => True) (fun _ _ ht he _ => step_traceable ht he)
    hinitial fun _ _ => trivial

end Runs

/-! A file that was written for one certificate is read as that one or not at all. -/

section Reading

variable {files : FileLib} {name : String} {data : Bytes} {cert : StoredCert}

theorem Written.of_intact (hjson : ObjectsEnd files) (h : Written files name data)
    (hintact : Intact files data cert) : cert.validate = .ok () ∧
      files.entry (certFilename files.caseData cert.domain) = some name := by
  obtain ⟨cert', text', hvalid, htext', hentry, hprefix⟩ := h
  obtain ⟨text, htext, rfl⟩ := hintact
  have hread := files.roundTrips htext
  obtain rfl := hjson htext' hread hprefix
  rw [files.roundTrips htext'] at hread
  obtain rfl := Except.ok.inj hread
  exact ⟨hvalid, hentry⟩

theorem Written.intact_of_read (hjson : ObjectsEnd files) (h : Written files name data)
    (hread : readStored files data = .ok cert) : Intact files data cert := by
  obtain ⟨cert', text', _, htext', _, hprefix⟩ := h
  obtain ⟨text, htext, hcert, _⟩ := readStored_cases hread
  obtain rfl := utf8_of_readToString htext
  obtain rfl := hjson htext' hcert hprefix
  rw [files.roundTrips htext'] at hcert
  obtain rfl := Except.ok.inj hcert
  exact ⟨text, htext', rfl⟩

end Reading

section Load

variable {K : Type*} (lib : CertLib K) (files : FileLib)

/-- The file is whole, its certificate can be parsed, and its key be loaded unless the
certificate is about to expire. -/
def Sound (now : Time) (data : Bytes) : Prop :=
  ∃ cert expiration, Intact files data cert ∧
    certExpiration lib cert.certificateDer = .ok expiration ∧
    (expiration < now + minimumCertLoadDuration ∨
      (lib.anySupportedType cert.privateKeyDer).isSome)

/-- There is a directory, and no file in it is damaged. -/
structure Undamaged (clock : String → Time) (disk : Disk) : Prop where
  exists_dir : disk.isSome
  sound : ∀ name data, disk.getD noFiles name = some data → Sound lib files (clock name) data

/-- load returns Ok, and every whole file whose certificate is not about to expire is in the map
for resolve. -/
def Survives (clock : String → Time) (disk : Disk) (listing : List String) (domain : String) :
    Prop :=
  ∃ reloaded, load lib files clock disk listing (newStore domain) = some (reloaded, .ok ()) ∧
    ∀ name data cert expiration key, disk.getD noFiles name = some data →
      Intact files data cert → certExpiration lib cert.certificateDer = .ok expiration →
      ¬ expiration < clock name + minimumCertLoadDuration →
      lib.anySupportedType cert.privateKeyDer = some key →
      reloaded.certs cert.domain = some ⟨cert.certificateDer, key⟩

variable {lib files} {clock : String → Time} {dir : Directory}

theorem takenFrom_isSome_iff (hjson : ObjectsEnd files) {name : String} {data : Bytes}
    (hwritten : Written files name data) (hdir : dir name = some data) :
    (takenFrom lib files clock dir name).isSome ↔ Sound lib files (clock name) data := by
  constructor
  · intro h
    rw [takenFrom, hdir, Option.bind_some] at h
    obtain ⟨entry, htaken⟩ := Option.isSome_iff_exists.mp h
    obtain ⟨cert, expiration, hread, hexp, hentry⟩ := taken_cases htaken
    refine ⟨cert, expiration, hwritten.intact_of_read hjson hread, hexp, ?_⟩
    rcases hentry with ⟨hexpires, _⟩ | ⟨key, hkey, _⟩
    · exact Or.inl hexpires
    · exact Or.inr (Option.isSome_iff_exists.mpr ⟨key, hkey⟩)
  · intro h
    obtain ⟨cert, expiration, hintact, hexp, hkey⟩ := h
    rw [takenFrom_intact hdir hintact (hwritten.of_intact hjson hintact).1 hexp]
    split
    · rfl
    · next hexpires =>
      rw [Option.isSome_map]
      exact hkey.resolve_left hexpires

theorem takenFrom_domain (hjson : ObjectsEnd files) (htrace : Traceable files (some dir))
    {name domain : String} {c : CertifiedKey K}
    (h : takenFrom lib files clock dir name = some (some (domain, c))) :
    files.entry (certFilename files.caseData domain) = some name := by
  obtain ⟨data, hdir, htaken⟩ := Option.bind_eq_some_iff.mp h
  have hwritten : Written files name data := htrace name data hdir
  obtain ⟨cert, _, hread, _, ⟨_, hnone⟩ | ⟨key, _, hentry⟩⟩ := taken_cases htaken
  · cases hnone
  · obtain ⟨rfl, _⟩ := Prod.mk.inj (Option.some.inj hentry)
    exact (hwritten.of_intact hjson (hwritten.intact_of_read hjson hread)).2

theorem load_ok_iff (hjson : ObjectsEnd files) {disk : Disk} (htrace : Traceable files disk)
    {listing : List String} (hlisting : Lists listing (disk.getD noFiles)) {store : Store K} :
    (∃ reloaded, load lib files clock disk listing store = some (reloaded, .ok ())) ↔
      Undamaged lib files clock disk := by
  cases disk with
  | none =>
    constructor
    · intro h
      obtain ⟨reloaded, h⟩ := h
      simp [load] at h
    · intro h
      exact absurd h.exists_dir (by simp)
  | some dir =>
    have hfile (name data) (hdir : dir name = some data) :
        (takenFrom lib files clock dir name).isSome ↔ Sound lib files (clock name) data :=
      takenFrom_isSome_iff hjson (htrace name data hdir) hdir
    rw [load, exists_loadFiles_iff]
    constructor
    · intro h
      refine ⟨rfl, fun name data hdir => (hfile name data hdir).mp (h name ?_)⟩
      rw [hlisting.mem_iff, hdir]
      rfl
    · intro h name hname
      obtain ⟨data, hdir⟩ := Option.isSome_iff_exists.mp ((hlisting.mem_iff name).mp hname)
      exact (hfile name data hdir).mpr (h.sound name data hdir)

theorem load_available (hjson : ObjectsEnd files) (htrace : Traceable files (some dir))
    {listing : List String} (hlisting : Lists listing dir) {domain name : String}
    {reloaded : Store K}
    (h : load lib files clock (some dir) listing (newStore domain) = some (reloaded, .ok ()))
    {data : Bytes} {cert : StoredCert} {expiration : Time} {key : K} (hdir : dir name = some data)
    (hintact : Intact files data cert)
    (hexp : certExpiration lib cert.certificateDer = .ok expiration)
    (hexpires : ¬ expiration < clock name + minimumCertLoadDuration)
    (hkey : lib.anySupportedType cert.privateKeyDer = some key) :
    reloaded.certs cert.domain = some ⟨cert.certificateDer, key⟩ := by
  have hwritten : Written files name data := htrace name data hdir
  obtain ⟨hvalid, hentry⟩ := hwritten.of_intact hjson hintact
  have htaken : takenFrom lib files clock dir name = _ :=
    takenFrom_intact hdir hintact hvalid hexp
  rw [if_neg hexpires, hkey, Option.map_some] at htaken
  refine certs_loaded hlisting h fun c => ⟨fun hm => ?_, fun hc => ?_⟩
  · obtain ⟨other, hother⟩ := hm
    have hsame := takenFrom_domain hjson htrace hother
    rw [hentry] at hsame
    obtain rfl := Option.some.inj hsame
    rw [htaken] at hother
    simpa using hother
  · rw [← Option.some.inj hc]
    exact ⟨name, htaken⟩

theorem survives_iff (hjson : ObjectsEnd files) {disk : Disk} (htrace : Traceable files disk)
    {listing : List String} (hlisting : Lists listing (disk.getD noFiles)) (domain : String) :
    Survives lib files clock disk listing domain ↔ Undamaged lib files clock disk := by
  rw [← load_ok_iff hjson htrace hlisting]
  constructor
  · intro h
    obtain ⟨reloaded, h, _⟩ := h
    exact ⟨reloaded, h⟩
  · intro h
    obtain ⟨reloaded, h⟩ := h
    refine ⟨reloaded, h, ?_⟩
    intro name data cert expiration key hdir hintact hexp hexpires hkey
    cases disk with
    | none => cases hdir
    | some dir => exact load_available hjson htrace hlisting h hdir hintact hexp hexpires hkey

theorem certStore_iff {config : Config} (henabled : config.enableCertStore = true) (disk : Disk)
    (listing : List String) :
    (∃ store, config.certStore lib files clock disk listing = some (.ok (some store))) ↔
      ∃ store, load lib files clock disk listing (newStore config.acmeDomain) =
        some (store, .ok ()) := by
  simp only [Config.certStore, henabled, if_true]
  split
  · next h => simp [h]
  · next h => simp [h]
  · next h => simp [h]

def Careful (lib : CertLib K) : Event → Prop
  | .stored _ cert => (∃ certs, Chain lib.fromDer certs cert.certificateDer) ∧
      (lib.anySupportedType cert.privateKeyDer).isSome
  | .cut _ _ _ => False

def Clean (lib : CertLib K) (files : FileLib) (disk : Disk) : Prop :=
  ∀ name data, disk.getD noFiles name = some data → ∃ cert, Intact files data cert ∧
    (∃ certs, Chain lib.fromDer certs cert.certificateDer) ∧
      (lib.anySupportedType cert.privateKeyDer).isSome

theorem step_clean {disk : Disk} {e : Event} (h : Clean lib files disk)
    (he : Enabled files disk e) (hc : Careful lib e) : Clean lib files (next files disk e) := by
  cases e with
  | stored domain cert =>
    obtain ⟨_, disk', hstore⟩ := he
    simp only [next, hstore]
    obtain ⟨text, htext, ⟨_, rfl⟩ | ⟨name, _, rfl⟩⟩ := storeCert_cases hstore
    · exact h
    · exact forall_files_update h ⟨stored domain cert, ⟨text, htext, rfl⟩, hc⟩
  | cut domain cert left => exact absurd hc id

theorem Clean.undamaged {disk : Disk} (h : Clean lib files disk) (hdisk : disk.isSome) :
    Undamaged lib files clock disk where
  exists_dir := hdisk
  sound name data hdata := by
    obtain ⟨cert, hintact, ⟨certs, hchain⟩, hkey⟩ := h name data hdata
    exact ⟨cert, _, hintact, CertChain.certExpirationFrom_eq_ok_iff.mpr ⟨certs, hchain, rfl⟩,
      Or.inr hkey⟩

/-- In every state of every run, load survives and the server has its store exactly when there
is a directory without a damaged file; and that is so where every call is careful. -/
theorem damaged_file_stops_iff (lib : CertLib K) (files : FileLib) (hjson : ObjectsEnd files)
    {start disk : Disk} (hstart : start = none ∨ start = some noFiles)
    {tr : List (Disk × Event)} (h : Run (writes files start) tr disk) :
    (∀ u ∈ visited tr disk, ∀ clock listing, Lists listing (u.getD noFiles) →
      (∀ domain, Survives lib files clock u listing domain ↔ Undamaged lib files clock u) ∧
      ∀ config : Config, config.enableCertStore = true →
        ((∃ store, config.certStore lib files clock u listing = some (.ok (some store))) ↔
          Undamaged lib files clock u)) ∧
    ((∀ p ∈ tr, Careful lib p.2) → ∀ u ∈ visited tr disk, u.isSome →
      ∀ clock, Undamaged lib files clock u) := by
  constructor
  · intro u hu clock listing hlisting
    have htrace := writes_traceable hstart h u hu
    refine ⟨survives_iff hjson htrace hlisting, fun config henabled => ?_⟩
    rw [certStore_iff henabled, load_ok_iff hjson htrace hlisting]
  · intro hcareful u hu hsome clock
    have hinitial : Clean lib files start := by
      intro name data hdata
      rw [getD_start hstart] at hdata
      cases hdata
    have keep (t : Disk) (e : Event) (ht : Clean lib files t)
        (he : (writes files start).Enabled t e) (hc : Careful lib e) :
        Clean lib files ((writes files start).next t e) := step_clean ht he hc
    exact (h.forall_visited_where keep hinitial hcareful u hu).undamaged hsome

end Load

open Restart (rootCert wildcardCert rootText wildcardText twoCerts)

def oneFile (data : Bytes) : Directory := Function.update noFiles "nport.io" (some data)

theorem oneFile_lists (data : Bytes) : Lists ["nport.io"] (oneFile data) where
  nodup := by decide
  mem_iff name := by
    by_cases hname : name = "nport.io"
    · simp [hname, oneFile]
    · simp [hname, oneFile, noFiles]

def noKeys : CertLib Unit := { Renewal.byteCerts with anySupportedType := fun _ => none }

theorem rootText_intact : Intact twoCerts (utf8 rootText) rootCert := ⟨rootText, rfl, rfl⟩

/-- A crash before the first byte is written: load gives up at the empty file. With a key that
cannot be loaded it panics, and no crash is needed. -/
theorem empty_file_stops_load :
    (∃ tr, Run (writes twoCerts (some noFiles)) tr (some (oneFile [])) ∧
      load Renewal.byteCerts twoCerts (fun _ => 0) (some (oneFile [])) ["nport.io"]
          (newStore "nport.io") =
        some (newStore "nport.io", .error "EOF while parsing a value at line 1 column 0")) ∧
    ∃ tr, Run (writes twoCerts (some noFiles)) tr (some (oneFile (utf8 rootText))) ∧
      load noKeys twoCerts (fun _ => 0) (some (oneFile (utf8 rootText))) ["nport.io"]
        (newStore "nport.io") = none := by
  constructor
  · have htext : twoCerts.toJson rootCert = .ok rootText := rfl
    have hcut : CutShort twoCerts (some noFiles) rootCert (some (oneFile [])) :=
      .written htext rfl (Or.inl List.nil_prefix)
    have haccepts : Accepts (writes twoCerts (some noFiles)) (some noFiles)
        [.cut "nport.io" ⟨[1], [90]⟩ (some (oneFile []))] := ⟨⟨rfl, hcut⟩, trivial⟩
    have hread : readToString [] = some "" := readToString_utf8 ""
    have hfile : readStored twoCerts [] =
        .error "EOF while parsing a value at line 1 column 0" := by
      rw [readStored, hread]
      rfl
    exact ⟨_, path_of_accepts haccepts, by simp [load, loadFiles, oneFile, loadFile, hfile]⟩
  · have haccepts : Accepts (writes twoCerts (some noFiles)) (some noFiles)
        [.stored "nport.io" ⟨[1], [90]⟩] := ⟨⟨rfl, _, rfl⟩, trivial⟩
    have hfile : readStored twoCerts (utf8 rootText) = .ok rootCert :=
      rootText_intact.readStored rfl
    have hexp : certExpiration noKeys rootCert.certificateDer = .ok (min (90 * day) maxDate) := by
      have hread : noKeys.fromDer [90] = .ok ([], 90 * day) := rfl
      exact CertChain.certExpirationFrom_ok hread maxDate
    have hkey : noKeys.anySupportedType rootCert.privateKeyDer = none := rfl
    refine ⟨_, path_of_accepts haccepts, ?_⟩
    simp [load, loadFiles, oneFile, loadFile, hfile, hexp, Store.add, hkey, day, maxDate,
      minimumCertLoadDuration]

theorem twoCerts_objectsEnd : ObjectsEnd twoCerts := by
  intro cert cert' text text' htext hread hprefix
  have hprinted : text = rootText ∨ text = wildcardText := by
    simp only [twoCerts] at htext
    split at htext
    · exact Or.inl (Except.ok.inj htext).symm
    · split at htext
      · exact Or.inr (Except.ok.inj htext).symm
      · cases htext
  have haccepted : text' = rootText ∨ text' = wildcardText := by
    simp only [twoCerts] at hread
    split at hread
    · next hroot => exact Or.inl hroot
    · split at hread
      · next hwildcard => exact Or.inr hwildcard
      · cases hread
  rcases hprinted with rfl | rfl
  · rcases haccepted with rfl | rfl
    · rfl
    · exact absurd hprefix (by decide)
  · rcases haccepted with rfl | rfl
    · exact absurd hprefix (by decide)
    · rfl

theorem whole_file_survives : Survives Renewal.byteCerts twoCerts (fun _ => 0)
    (some (oneFile (utf8 rootText))) ["nport.io"] "nport.io" := by
  have haccepts : Accepts (writes twoCerts (some noFiles)) (some noFiles)
      [.stored "nport.io" ⟨[1], [90]⟩] := ⟨⟨rfl, _, rfl⟩, trivial⟩
  have hrun : Run (writes twoCerts (some noFiles))
      [(some noFiles, .stored "nport.io" ⟨[1], [90]⟩)] (some (oneFile (utf8 rootText))) :=
    path_of_accepts haccepts
  obtain ⟨hiff, hundamaged⟩ := damaged_file_stops_iff Renewal.byteCerts twoCerts
    twoCerts_objectsEnd (Or.inr rfl) hrun
  have hlast : some (oneFile (utf8 rootText)) ∈ visited
      [(some noFiles, Event.stored "nport.io" ⟨[1], [90]⟩)] (some (oneFile (utf8 rootText))) := by
    simp [visited]
  refine ((hiff _ hlast _ _ (oneFile_lists _)).1 "nport.io").mpr
    (hundamaged ?_ _ hlast rfl fun _ => 0)
  intro p hp
  rw [List.mem_singleton.mp hp]
  exact ⟨⟨_, .one rfl⟩, rfl⟩

end DamagedFiles
