import Nport.CertStore
import Nport.HttpOpen
import Nport.Multimap

/-! The directory of certificates: Store::store_cert writes a file for each domain, and
Store::load reads them all at the next start. What serde_json prints and accepts is a parameter,
and so is which entry of the directory a path below it leads to. -/
namespace CertFiles

open PortTask (Bytes)
open HttpOpen (CaseData)
open CertStore
open Multimap

structure StoredCert where
  domain : String
  privateKeyDer : Bytes
  certificateDer : Bytes
  deriving DecidableEq, Repr

def StoredCert.validate (cert : StoredCert) : Except String Unit :=
  if cert.domain = "" then .error "empty domain"
  else if cert.privateKeyDer = [] then .error "empty private key"
  else if cert.certificateDer = [] then .error "empty certificate"
  else .ok ()

/-- acme_lib::Certificate, of which two methods are called. -/
structure Certificate where
  privateKeyDer : Bytes
  certificateDer : Bytes
  deriving DecidableEq, Repr

def stored (domain : String) (cert : Certificate) : StoredCert :=
  ⟨domain, cert.privateKeyDer, cert.certificateDer⟩

structure IsFileName (name : String) : Prop where
  nonempty : name ≠ ""
  no_dots : name ≠ "." ∧ name ≠ ".."
  plain : '/' ∉ name.toList ∧ Char.ofNat 0 ∉ name.toList

/-- What is used of the standard library, serde_json and the operating system. A certificate is
read back from what it is printed as. -/
structure FileLib where
  caseData : CaseData
  toJson : StoredCert → Except String String
  fromJson : String → Except String StoredCert
  /-- The entry of the directory that a path below it leads to; none when it leads elsewhere. -/
  entry : String → Option String
  roundTrips : ∀ {cert text}, toJson cert = .ok text → fromJson text = .ok cert
  entry_fileName : ∀ {name}, IsFileName name → entry name = some name

abbrev Directory := String → Option Bytes

def noFiles : Directory := fun _ => none

abbrev Disk := Option Directory

def minimumCertLoadDuration : Time := day

def utf8 (text : String) : Bytes := text.toByteArray.data.toList

/-- fs::read_to_string, on the bytes of the file -/
def readToString (data : Bytes) : Option String := String.fromUTF8? ⟨data.toArray⟩

def certFilename (data : CaseData) (domain : String) : String :=
  String.ofList ((data.toLowercase domain).toList.flatMap fun c =>
    if c = '*' then "STAR".toList else [c])

/-- store_cert where the writing succeeds. -/
def storeCert (files : FileLib) (disk : Disk) (domain : String) (cert : Certificate) :
    Except String Disk :=
  match files.toJson (stored domain cert) with
  | .error err => .error err
  | .ok text =>
    let dir := disk.getD noFiles
    match files.entry (certFilename files.caseData domain) with
    | some name => .ok (some (Function.update dir name (some (utf8 text))))
    | none => .ok (some dir)

section Functions

variable {K : Type*} (lib : CertLib K) (files : FileLib)

/-- Store::new -/
def newStore (domain : String) : Store K := ⟨fun _ => none, domain⟩

/-- update_cert; an error of store_cert is logged and no more. none is the panic of add. -/
def updateCert (store : Store K) (disk : Disk) (domain : String) (cert : Certificate) :
    Option (Store K × Disk) :=
  (store.add lib domain cert.privateKeyDer cert.certificateDer).map fun store =>
    match storeCert files disk domain cert with
    | .ok disk => (store, disk)
    | .error _ => (store, disk)

/-- The first checks of load on a file. -/
def readStored (data : Bytes) : Except String StoredCert :=
  match readToString data with
  | none => .error "stream did not contain valid UTF-8"
  | some text =>
    match files.fromJson text with
    | .error err => .error err
    | .ok cert =>
      match cert.validate with
      | .error err => .error err
      | .ok () => .ok cert

/-- The body of the loop of load; none is the panic of add. -/
def loadFile (store : Store K) (now : Time) (data : Bytes) :
    Option (Store K × Except String Unit) :=
  match readStored files data with
  | .error err => some (store, .error err)
  | .ok cert =>
    match certExpiration lib cert.certificateDer with
    | .error err => some (store, .error err)
    | .ok expiration =>
      if expiration < now + minimumCertLoadDuration then some (store, .ok ())
      else
        match store.add lib cert.domain cert.privateKeyDer cert.certificateDer with
        | some store => some (store, .ok ())
        | none => none

/-- The loop of load, over the names that read_dir lists. The clock is read at each file. -/
def loadFiles (clock : String → Time) (dir : Directory) (store : Store K) :
    List String → Option (Store K × Except String Unit)
  | [] => some (store, .ok ())
  | name :: names =>
    match dir name with
    | none => some (store, .error "No such file or directory (os error 2)")
    | some data =>
      match loadFile lib files store (clock name) data with
      | some (store, .ok ()) => loadFiles clock dir store names
      | stopped => stopped

def load (clock : String → Time) (disk : Disk) (listing : List String) (store : Store K) :
    Option (Store K × Except String Unit) :=
  match disk with
  | none => some (store, .error "No such file or directory (os error 2)")
  | some dir => loadFiles lib files clock dir store listing

/-- The fields of Config that decide whether there is a store. -/
structure Config where
  acmeEmail : String
  acmePersistDir : String
  acmeDomain : String
  certsDir : String
  httpsPort : UInt16

def Config.hasAcme (config : Config) : Bool :=
  config.acmeEmail ≠ "" && config.acmePersistDir ≠ "" && config.acmeDomain ≠ ""

/-- Without the settings for Cloudflare there is a line in the log and no more. -/
def Config.enableCertStore (config : Config) : Bool :=
  if !config.hasAcme then false
  else if config.certsDir = "" then false
  else true

def Config.certStore (config : Config) (clock : String → Time) (disk : Disk)
    (listing : List String) : Option (Except String (Option (Store K))) :=
  if config.enableCertStore then
    match load lib files clock disk listing (newStore config.acmeDomain) with
    | none => none
    | some (_, .error err) => some (.error err)
    | some (store, .ok ()) => some (.ok (some store))
  else if 0 < config.httpsPort then
    some (.error "HTTPS port without certificate configuration")
  else some (.ok none)

structure Lists (listing : List String) (dir : Directory) : Prop where
  nodup : listing.Nodup
  mem_iff : ∀ name, name ∈ listing ↔ (dir name).isSome

/-- What load takes from a file that passes its checks: nothing when the certificate is about to
expire. -/
def taken (now : Time) (data : Bytes) : Option (Option (String × CertifiedKey K)) :=
  match readStored files data with
  | .error _ => none
  | .ok cert =>
    match certExpiration lib cert.certificateDer with
    | .error _ => none
    | .ok expiration =>
      if expiration < now + minimumCertLoadDuration then some none
      else (lib.anySupportedType cert.privateKeyDer).map fun key =>
        some (cert.domain, ⟨cert.certificateDer, key⟩)

def takenFrom (clock : String → Time) (dir : Directory) (name : String) :
    Option (Option (String × CertifiedKey K)) :=
  (dir name).bind (taken lib files (clock name))

end Functions

/-! Text and bytes. -/

@[simp] theorem readToString_utf8 (text : String) : readToString (utf8 text) = some text := by
  have hbytes : (⟨text.toByteArray.data.toList.toArray⟩ : ByteArray) = text.toByteArray := by
    rw [Array.toArray_toList]
  rw [readToString, utf8, hbytes, String.fromUTF8?, dif_pos text.isValidUTF8]
  rfl

theorem utf8_of_readToString {data : Bytes} {text : String}
    (h : readToString data = some text) : utf8 text = data := by
  unfold readToString String.fromUTF8? at h
  split at h
  · rw [← Option.some.inj h]
    exact List.toList_toArray
  · cases h

/-! What a file holds, and what it is called. -/

/-- The file is as store_cert wrote it for the certificate. -/
def Intact (files : FileLib) (data : Bytes) (cert : StoredCert) : Prop :=
  ∃ text, files.toJson cert = .ok text ∧ data = utf8 text

theorem Intact.readStored {files : FileLib} {data : Bytes} {cert : StoredCert}
    (h : Intact files data cert) (hvalid : cert.validate = .ok ()) :
    readStored files data = .ok cert := by
  obtain ⟨text, htext, rfl⟩ := h
  simp [CertFiles.readStored, files.roundTrips htext, hvalid]

theorem readStored_cases {files : FileLib} {data : Bytes} {cert : StoredCert}
    (h : readStored files data = .ok cert) : ∃ text, readToString data = some text ∧
      files.fromJson text = .ok cert ∧ cert.validate = .ok () := by
  unfold CertFiles.readStored at h
  split at h
  · cases h
  · next text htext =>
    split at h
    · cases h
    · next cert' hcert =>
      split at h
      · cases h
      · next hvalid =>
        obtain rfl := Except.ok.inj h
        exact ⟨text, htext, hcert, hvalid⟩

theorem forall_files_update {P : String → Bytes → Prop} {dir : Directory} {name : String}
    {data : Bytes} (h : ∀ other content, dir other = some content → P other content)
    (hnew : P name data) (other : String) (content : Bytes)
    (hcontent : Function.update dir name (some data) other = some content) : P other content := by
  by_cases hother : other = name
  · rw [hother, Function.update_self] at hcontent
    rw [hother, ← Option.some.inj hcontent]
    exact hnew
  · rw [Function.update_of_ne hother] at hcontent
    exact h other content hcontent

theorem storeCert_cases {files : FileLib} {disk disk' : Disk} {domain : String}
    {cert : Certificate} (h : storeCert files disk domain cert = .ok disk') :
    ∃ text, files.toJson (stored domain cert) = .ok text ∧
      ((files.entry (certFilename files.caseData domain) = none ∧
          disk' = some (disk.getD noFiles)) ∨
        ∃ name, files.entry (certFilename files.caseData domain) = some name ∧
          disk' = some (Function.update (disk.getD noFiles) name (some (utf8 text)))) := by
  unfold storeCert at h
  split at h
  · cases h
  · next text htext =>
    refine ⟨text, htext, ?_⟩
    split at h
    · next name hname => exact Or.inr ⟨name, hname, (Except.ok.inj h).symm⟩
    · next hname => exact Or.inl ⟨hname, (Except.ok.inj h).symm⟩

theorem replace_injective {α : Type*} [DecidableEq α] {c x : α} {word l l' : List α}
    (hl : x ∉ l) (hl' : x ∉ l')
    (h : (l.flatMap fun d => if d = c then x :: word else [d]) =
      l'.flatMap fun d => if d = c then x :: word else [d]) : l = l' := by
  induction l generalizing l' with
  | nil =>
    cases l' with
    | nil => rfl
    | cons e l' => by_cases he : e = c <;> simp [he] at h
  | cons d l ih =>
    cases l' with
    | nil => by_cases hd : d = c <;> simp [hd] at h
    | cons e l' =>
      simp only [List.mem_cons, not_or] at hl hl'
      by_cases hd : d = c
      · by_cases he : e = c
        · simp only [List.flatMap_cons, hd, he, if_true, List.append_cancel_left_eq] at h
          rw [hd, he, ih hl.2 hl'.2 h]
        · simp only [List.flatMap_cons, hd, he, if_true, if_false, List.cons_append,
            List.cons.injEq] at h
          exact absurd h.1 hl'.1
      · by_cases he : e = c
        · simp only [List.flatMap_cons, hd, he, if_true, if_false, List.cons_append,
            List.cons.injEq] at h
          exact absurd h.1.symm hl.1
        · simp only [List.flatMap_cons, hd, he, if_false, List.cons_append, List.nil_append,
            List.cons.injEq] at h
          rw [h.1, ih hl.2 hl'.2 h.2]

/-- The capitals of STAR keep the names of files apart: there are none in a lower case. -/
theorem certFilename_injective (data : CaseData) {a b : String}
    (h : certFilename data a = certFilename data b) : data.toLowercase a = data.toLowercase b := by
  have hno (s : String) : 'S' ∉ (data.toLowercase s).toList := by
    intro hm
    have hcapital := HttpOpen.toLowercase_no_capital data hm
    exact absurd hcapital (by decide)
  rw [certFilename, certFilename, String.ofList_inj] at h
  rw [← String.toList_inj]
  exact replace_injective (hno a) (hno b) h

/-! What load makes of a file, and of all of them. -/

section Load

variable {K : Type*} {lib : CertLib K} {files : FileLib}

theorem taken_cases {now : Time} {data : Bytes} {entry : Option (String × CertifiedKey K)}
    (h : taken lib files now data = some entry) :
    ∃ cert expiration, readStored files data = .ok cert ∧
      certExpiration lib cert.certificateDer = .ok expiration ∧
      ((expiration < now + minimumCertLoadDuration ∧ entry = none) ∨
        ∃ key, lib.anySupportedType cert.privateKeyDer = some key ∧
          entry = some (cert.domain, ⟨cert.certificateDer, key⟩)) := by
  unfold taken at h
  split at h
  · cases h
  · next cert hread =>
    split at h
    · cases h
    · next expiration hexp =>
      refine ⟨cert, expiration, hread, hexp, ?_⟩
      split at h
      · next hexpires => exact Or.inl ⟨hexpires, (Option.some.inj h).symm⟩
      · obtain ⟨key, hkey, heq⟩ := Option.map_eq_some_iff.mp h
        exact Or.inr ⟨key, hkey, heq.symm⟩

/-- An intact file passes the checks when its certificate can be parsed and its key be loaded. -/
theorem takenFrom_intact {clock : String → Time} {dir : Directory} {name : String} {data : Bytes}
    {cert : StoredCert} {expiration : Time} (hdir : dir name = some data)
    (h : Intact files data cert) (hvalid : cert.validate = .ok ())
    (hexp : certExpiration lib cert.certificateDer = .ok expiration) :
    takenFrom lib files clock dir name =
      if expiration < clock name + minimumCertLoadDuration then some none
      else (lib.anySupportedType cert.privateKeyDer).map fun key =>
        some (cert.domain, ⟨cert.certificateDer, key⟩) := by
  simp [takenFrom, hdir, taken, h.readStored hvalid, hexp]

def put (store : Store K) (entry : Option (String × CertifiedKey K)) : Store K :=
  match entry with
  | none => store
  | some (domain, cert) =>
    { store with certs := Function.update store.certs domain (some cert) }

theorem loadFile_ok_iff {store reloaded : Store K} {now : Time} {data : Bytes} :
    loadFile lib files store now data = some (reloaded, .ok ()) ↔
      ∃ entry, taken lib files now data = some entry ∧ reloaded = put store entry := by
  unfold loadFile taken
  cases hread : readStored files data with
  | error err => simp
  | ok cert =>
    cases hexp : certExpiration lib cert.certificateDer with
    | error err => simp [hexp]
    | ok expiration =>
      by_cases hexpires : expiration < now + minimumCertLoadDuration
      · simp [hexp, hexpires, put, eq_comm]
      · cases hkey : lib.anySupportedType cert.privateKeyDer with
        | none => simp [hexp, hexpires, Store.add, hkey]
        | some key => simp [hexp, hexpires, Store.add, hkey, put, eq_comm]

theorem loadFiles_cons {clock : String → Time} {dir : Directory} {name : String}
    {names : List String} {store reloaded : Store K} :
    loadFiles lib files clock dir store (name :: names) = some (reloaded, .ok ()) ↔
      ∃ entry, takenFrom lib files clock dir name = some entry ∧
        loadFiles lib files clock dir (put store entry) names = some (reloaded, .ok ()) := by
  rw [loadFiles, takenFrom]
  cases hdir : dir name with
  | none => simp
  | some data =>
    simp only [Option.bind_some]
    split
    · next store' hfile =>
      obtain ⟨entry, hentry, rfl⟩ := loadFile_ok_iff.mp hfile
      simp [hentry]
    · next hstopped =>
      constructor
      · intro h
        exact absurd h (hstopped reloaded)
      · intro h
        obtain ⟨entry, hentry, _⟩ := h
        exact absurd (loadFile_ok_iff.mpr ⟨entry, hentry, rfl⟩) (hstopped _)

theorem loadFiles_ok_iff {clock : String → Time} {dir : Directory} {listing : List String}
    {store reloaded : Store K} :
    loadFiles lib files clock dir store listing = some (reloaded, .ok ()) ↔
      (∀ name ∈ listing, (takenFrom lib files clock dir name).isSome) ∧
        reloaded = listing.foldl
          (fun store name => put store (takenFrom lib files clock dir name).join) store := by
  induction listing generalizing store with
  | nil =>
    simp only [loadFiles, Option.some.injEq, Prod.mk.injEq, and_true, List.not_mem_nil,
      false_imp_iff, implies_true, true_and, List.foldl_nil]
    exact eq_comm
  | cons name names ih =>
    rw [loadFiles_cons, List.forall_mem_cons, List.foldl_cons]
    cases hentry : takenFrom lib files clock dir name with
    | none => simp
    | some entry => simp [ih]

theorem exists_loadFiles_iff {clock : String → Time} {dir : Directory} {listing : List String}
    {store : Store K} :
    (∃ reloaded, loadFiles lib files clock dir store listing = some (reloaded, .ok ())) ↔
      ∀ name ∈ listing, (takenFrom lib files clock dir name).isSome := by
  simp only [loadFiles_ok_iff, exists_and_left, exists_eq, and_true]

theorem certs_put (store : Store K) (entry : Option (String × CertifiedKey K)) (domain : String) :
    (put store entry).certs domain = (last domain entry.toList).or (store.certs domain) := by
  cases entry with
  | none => rfl
  | some e =>
    rw [Option.toList_some, ← List.nil_append [e], last_concat]
    change Function.update store.certs e.1 (some e.2) domain = _
    by_cases hd : e.1 = domain
    · simp [hd]
    · rw [Function.update_of_ne (Ne.symm hd), if_neg hd]
      rfl

theorem certs_foldl_put (entry : String → Option (String × CertifiedKey K))
    (listing : List String) (store : Store K) (domain : String) :
    (listing.foldl (fun store name => put store (entry name)) store).certs domain =
      (last domain (listing.filterMap entry)).or (store.certs domain) := by
  induction listing generalizing store with
  | nil => rfl
  | cons name names ih =>
    rw [List.foldl_cons, ih, certs_put]
    cases hentry : entry name with
    | none => simp [hentry, last]
    | some e =>
      rw [List.filterMap_cons_some hentry, last_cons, Option.or_assoc, Option.toList_some,
        last_cons]
      rfl

theorem certs_loaded {clock : String → Time} {dir : Directory} {listing : List String}
    {domain : String} {reloaded : Store K} (hlisting : Lists listing dir)
    (h : loadFiles lib files clock dir (newStore domain) listing = some (reloaded, .ok ()))
    {d : String} {o : Option (CertifiedKey K)}
    (ho : ∀ c, (∃ name, takenFrom lib files clock dir name = some (some (d, c))) ↔ o = some c) :
    reloaded.certs d = o := by
  obtain ⟨_, rfl⟩ := loadFiles_ok_iff.mp h
  rw [certs_foldl_put]
  change (last d _).or none = o
  rw [Option.or_none]
  apply last_eq_of_forall_mem_iff
  intro c
  rw [List.mem_filterMap, ← ho]
  constructor
  · intro hm
    obtain ⟨name, _, htaken⟩ := hm
    exact ⟨name, Option.join_eq_some_iff.mp htaken⟩
  · intro htaken
    obtain ⟨name, htaken⟩ := htaken
    obtain ⟨data, hdir, _⟩ := Option.bind_eq_some_iff.mp htaken
    refine ⟨name, ?_, Option.join_eq_some_iff.mpr htaken⟩
    rw [hlisting.mem_iff, hdir]
    rfl

end Load

end CertFiles
