import Nport.CertUpdater
import Nport.Restart

/-! The certificates of a server that is restarted any number of times, between any two steps of
its calls of renew. Each certificate is put in the map and in a file; a new process loads the
files into a new store, and leaves out what is about to expire. -/
namespace ServerRestarts

open GuardedMachine
open CertStore
open CertFiles
open Multimap
open ReadChain
open HttpOpen (CaseData)
open Libnp (toAsciiLowercase)
open Renewal (Item renewal)
open Restart (IsLabels Regular Mirrors certified aboutToExpire load_mirrored)
open TlsCoverage (ValidUntil store_kept)

structure State (I K : Type*) where
  renewal : Renewal.State I K
  disk : Disk

inductive Event (I : Type*) where
  /-- A step of a call, or time. -/
  | renewal (e : Renewal.Event I)
  /-- The generator returns a certificate, and update_cert adds it and writes its file. -/
  | granted (i : I) (cert : Certificate)
  /-- The process ends, and Config::cert_store runs in a new one. -/
  | restart (clock : String → Time) (listing : List String) (now : Time)

variable {I K : Type*} [DecidableEq I]

/-- The files after update_cert, which a panic of add keeps from being written. -/
def written (lib : CertLib K) (files : FileLib) (s : State I K) (i : I) (cert : Certificate) :
    Disk :=
  match s.renewal.task i with
  | .requesting item =>
    match updateCert lib files s.renewal.store s.disk (item.domain s.renewal.store) cert with
    | some (_, disk) => disk
    | none => s.disk
  | _ => s.disk

omit [DecidableEq I] in
def Enabled (lib : CertLib K) (files : FileLib) (s : State I K) : Event I → Prop
  | .renewal e => Renewal.Enabled s.renewal e ∧
      ∀ i privateKeyDer certificateDer, e ≠ .granted i privateKeyDer certificateDer
  | .granted i _ => ∃ item, s.renewal.task i = .requesting item
  | .restart clock listing now =>
      s.renewal.now ≤ now ∧ (∀ name, clock name ≤ now) ∧
      (∃ dir, s.disk = some dir ∧ Lists listing dir) ∧
      ∃ store, load lib files clock s.disk listing (newStore s.renewal.store.domain) =
        some (store, .ok ())

def next (lib : CertLib K) (files : FileLib) (s : State I K) : Event I → State I K
  | .renewal e => { s with renewal := Renewal.next lib s.renewal e }
  | .granted i cert =>
    { renewal := Renewal.next lib s.renewal (.granted i cert.privateKeyDer cert.certificateDer)
      disk := written lib files s i cert }
  | .restart clock listing now =>
    match load lib files clock s.disk listing (newStore s.renewal.store.domain) with
    | some (store, .ok ()) => { s with renewal := (renewal lib store now).initial }
    | _ => s

def lives (lib : CertLib K) (files : FileLib) (domain : String) (now : Time) :
    Machine (State I K) (Event I) :=
  ⟨⟨(renewal lib (newStore domain) now).initial, some noFiles⟩, Enabled lib files,
    next lib files⟩

def grants (item : Item) (p : State I K × Event I) : Bool :=
  match p.2 with
  | .granted i _ => decide (p.1.renewal.task i = .requesting item)
  | _ => false

/-- What the generator returns: a key that can be loaded, a certificate that is valid for so long
from then on; and serde_json prints it. -/
def Issued (lib : CertLib K) (files : FileLib) (validity : Time) (s : State I K) : Event I → Prop
  | .granted i cert =>
    cert.privateKeyDer ≠ [] ∧ (lib.anySupportedType cert.privateKeyDer).isSome ∧
    (∃ expiration, certExpiration lib cert.certificateDer = .ok expiration ∧
      s.renewal.now + validity ≤ expiration) ∧
    ∀ item, s.renewal.task i = .requesting item →
      ∃ text, files.toJson (stored (item.domain s.renewal.store) cert) = .ok text
  | _ => True

/-! The two domains, and the files of their certificates. -/

section Files

variable {lib : CertLib K} {files : FileLib} {domain : String}
  {calls : List (String × Certificate)}

def itemDomain (domain : String) : Item → String
  | .root => domain
  | .wildcard => "*." ++ domain

theorem domain_eq (store : Store K) (item : Item) :
    item.domain store = itemDomain store.domain item := by
  cases item <;> rfl

theorem itemDomain_lower_inj {item other : Item}
    (h : toAsciiLowercase (itemDomain domain item) = toAsciiLowercase (itemDomain domain other)) :
    item = other := by
  have hlen := congrArg (fun s : String => s.toList.length) h
  cases item <;> cases other <;> simp [itemDomain, toAsciiLowercase] at hlen ⊢ <;> omega

structure Filed (lib : CertLib K) (files : FileLib) (domain : String)
    (call : String × Certificate) : Prop where
  item : ∃ item, call.1 = itemDomain domain item
  key : call.2.privateKeyDer ≠ []
  parseable : ∃ expiration, certExpiration lib call.2.certificateDer = .ok expiration
  printed : ∃ text, files.toJson (stored call.1 call.2) = .ok text

theorem regular_of_filed (hlabels : IsLabels domain)
    (h : ∀ call ∈ calls, Filed lib files domain call) : Regular lib files calls where
  domains call hc := by
    obtain ⟨item, hitem⟩ := (h call hc).item
    cases item with
    | root => exact Or.inl (hitem ▸ hlabels)
    | wildcard => exact Or.inr ⟨domain, hlabels, hitem⟩
  apart a ha b hb hlower := by
    obtain ⟨item, ha⟩ := (h a ha).item
    obtain ⟨other, hb⟩ := (h b hb).item
    rw [ha, hb] at hlower ⊢
    rw [itemDomain_lower_inj hlower]
  keys call hc := (h call hc).key
  parseable call hc := by
    obtain ⟨_, hexp⟩ := (h call hc).parseable
    obtain ⟨certs, hchain, _⟩ := CertChain.certExpirationFrom_eq_ok_iff.mp hexp
    exact ⟨certs, hchain⟩
  written call hc disk := by
    obtain ⟨text, htext⟩ := (h call hc).printed
    simp only [storeCert, htext]
    split
    · exact ⟨_, rfl⟩
    · exact ⟨_, rfl⟩

end Files

/-! What a process knows, and what the files say. -/

section Step

variable {lib : CertLib K} {files : FileLib} {domain : String}
  {calls : List (String × Certificate)} {s : State I K} {validity time : Time} {item : Item}

/-- The calls of update_cert in all lives: the files hold the last ones, and so does the map, but
for what was about to expire when it was loaded. -/
structure Invariant (lib : CertLib K) (files : FileLib) (domain : String)
    (calls : List (String × Certificate)) (s : State I K) : Prop where
  held : Challenges.Held s.renewal
  named : s.renewal.store.domain = domain
  filed : ∀ call ∈ calls, Filed lib files domain call
  mirrored : ∃ dir mirror, s.disk = some dir ∧ Mirrors lib files calls mirror dir
  certs : ∀ d, s.renewal.store.certs d = (last d calls).bind (certified lib) ∨
    ∃ cert expiration, last d calls = some cert ∧
      certExpiration lib cert.certificateDer = .ok expiration ∧
      expiration < s.renewal.now + minimumCertLoadDuration

/-- The item has a certificate until then and nobody asks for one, or it is due by now. -/
def Lasts (lib : CertLib K) (domain : String) (calls : List (String × Certificate))
    (s : State I K) (time : Time) (item : Item) : Prop :=
  time < s.renewal.now + minimumCertRenewDuration ∨
    ((∃ cert expiration, last (itemDomain domain item) calls = some cert ∧
      certExpiration lib cert.certificateDer = .ok expiration ∧ time ≤ expiration) ∧
      ∀ i, s.renewal.task i ≠ .requesting item)

structure Advances (lib : CertLib K) (files : FileLib) (domain : String) (validity : Time)
    (calls calls' : List (String × Certificate)) (s s' : State I K) : Prop where
  invariant : Invariant lib files domain calls' s'
  now : s.renewal.now ≤ s'.renewal.now
  lasts : ∀ time item, time ≤ s.renewal.now + validity → Lasts lib domain calls s time item →
    Lasts lib domain calls' s' time item

omit [DecidableEq I] in
theorem Invariant.due_soon (h : Invariant lib files domain calls s) {cert : Certificate}
    {expiration : Time} (hlast : last (itemDomain domain item) calls = some cert)
    (hexp : certExpiration lib cert.certificateDer = .ok expiration) (htime : time ≤ expiration)
    (hdue : s.renewal.due lib item = true) :
    time < s.renewal.now + minimumCertRenewDuration := by
  obtain ⟨_, _, _, hmirrors⟩ := h.mirrored
  rcases h.certs (itemDomain domain item) with hcerts | ⟨cert', expiration', hlast', hexp', hlt⟩
  · obtain ⟨c, hc⟩ := Option.isSome_iff_exists.mp (hmirrors.loadable _ (mem_of_last hlast))
    have hder : c.cert = cert.certificateDer := by
      obtain ⟨key, _, rfl⟩ := Option.map_eq_some_iff.mp hc
      rfl
    rw [hlast, Option.bind_some, hc] at hcerts
    refine CertUpdater.ValidUntil.lt_of_due ⟨c, expiration, ?_, hder ▸ hexp, htime⟩ hdue
    rw [domain_eq, h.named, hcerts]
  · rw [hlast, Option.some.injEq] at hlast'
    rw [← hlast', hexp, Except.ok.injEq] at hexp'
    have hload : minimumCertLoadDuration ≤ minimumCertRenewDuration := by decide
    calc time ≤ expiration := htime
      _ = expiration' := hexp'
      _ < s.renewal.now + minimumCertLoadDuration := hlt
      _ ≤ s.renewal.now + minimumCertRenewDuration := Int.add_le_add_left hload _

/-- A step of a call that leaves the item its certificate. -/
theorem Lasts.next {e : Renewal.Event I} {calls' : List (String × Certificate)} {s' : State I K}
    (hlasts : Lasts lib domain calls s time item) (h : Invariant lib files domain calls s)
    (he : Renewal.Enabled s.renewal e) (hs' : s'.renewal = Renewal.next lib s.renewal e)
    (hcalls : last (itemDomain domain item) calls' = last (itemDomain domain item) calls) :
    Lasts lib domain calls' s' time item := by
  have later {t : Time} (ht : t < s.renewal.now + minimumCertRenewDuration) :
      t < s'.renewal.now + minimumCertRenewDuration := by
    rw [hs']
    exact Int.lt_of_lt_of_le ht (Int.add_le_add_right (Challenges.now_next lib he) _)
  rcases hlasts with hlt | ⟨⟨cert, expiration, hlast, hexp, htime⟩, hnobody⟩
  · exact Or.inl (later hlt)
  · by_cases hasked : ∃ i, s'.renewal.task i = .requesting item
    · obtain ⟨i, hi⟩ := hasked
      rw [hs'] at hi
      rcases CertUpdater.requesting_cases he hi with hbefore | hdue
      · exact absurd hbefore (hnobody i)
      · exact Or.inl (later (h.due_soon hlast hexp htime hdue))
    · exact Or.inr ⟨⟨cert, expiration, hcalls.trans hlast, hexp, htime⟩, not_exists.mp hasked⟩

theorem renewal_step {e : Renewal.Event I} (h : Invariant lib files domain calls s)
    (he : Enabled lib files s (.renewal e)) :
    Advances lib files domain validity calls calls s (next lib files s (.renewal e)) := by
  have hstore : (Renewal.next lib s.renewal e).store = s.renewal.store := store_kept he.2
  have hnow := Challenges.now_next lib he.1
  refine ⟨⟨h.held.next lib he.1, ?_, h.filed, h.mirrored, ?_⟩, hnow,
    fun time item _ hlasts => hlasts.next h he.1 rfl rfl⟩
  · simp only [next, hstore, h.named]
  · intro d
    simp only [next, hstore]
    refine (h.certs d).imp_right ?_
    rintro ⟨cert, expiration, hlast, hexp, hlt⟩
    exact ⟨cert, expiration, hlast, hexp, Int.lt_of_lt_of_le hlt (Int.add_le_add_right hnow _)⟩

theorem restart_step {clock : String → Time} {listing : List String} {now : Time}
    (hlabels : IsLabels domain) (h : Invariant lib files domain calls s)
    (he : Enabled lib files s (.restart clock listing now)) :
    Advances lib files domain validity calls calls s
      (next lib files s (.restart clock listing now)) := by
  obtain ⟨hnow, hclock, ⟨dir, hdisk, hlisting⟩, _⟩ := he
  obtain ⟨dir', mirror, hdir', hmirrors⟩ := h.mirrored
  obtain rfl : dir = dir' := Option.some.inj (hdisk.symm.trans hdir')
  have hregular := regular_of_filed hlabels h.filed
  obtain ⟨reloaded, hload, hdomain, hcerts⟩ := load_mirrored hmirrors hregular domain clock hlisting
  have hnext : next lib files s (.restart clock listing now) =
      { s with renewal := (renewal lib reloaded now).initial } := by
    simp only [next, h.named, hdisk, hload]
  rw [hnext]
  refine ⟨⟨?_, hdomain, h.filed, ⟨dir, mirror, hdisk, hmirrors⟩, ?_⟩, hnow, ?_⟩
  · intro i hi
    cases hi
  · intro d
    change reloaded.certs d = _ ∨ _
    rw [hcerts, hmirrors.certs]
    cases hlast : last d calls with
    | none => exact Or.inl rfl
    | some cert =>
      obtain ⟨expiration, hexp⟩ := (h.filed _ (mem_of_last hlast)).parseable
      obtain ⟨c, hc⟩ := Option.isSome_iff_exists.mp (hmirrors.loadable _ (mem_of_last hlast))
      obtain ⟨key, _, rfl⟩ := Option.map_eq_some_iff.mp hc
      rw [Option.bind_some, hc]
      by_cases hlt : expiration < clock (certFilename files.caseData d) + minimumCertLoadDuration
      · exact Or.inr ⟨cert, expiration, rfl, hexp,
          Int.lt_of_lt_of_le hlt (Int.add_le_add_right (hclock _) _)⟩
      · exact Or.inl (by simp [aboutToExpire, hexp, hlt])
  · intro time item _ hlasts
    rcases hlasts with hlt | ⟨hcert, _⟩
    · exact Or.inl (Int.lt_of_lt_of_le hlt (Int.add_le_add_right hnow _))
    · exact Or.inr ⟨hcert, fun i hi => by cases hi⟩

theorem updateCert_some {store : Store K} {disk disk' : Disk} {d : String} {cert : Certificate}
    {key : K} (hkey : lib.anySupportedType cert.privateKeyDer = some key)
    (hstore : storeCert files disk d cert = .ok disk') :
    updateCert lib files store disk d cert =
      some ({ store with
        certs := Function.update store.certs d (some ⟨cert.certificateDer, key⟩) }, disk') := by
  simp only [updateCert, Store.add, hkey, Option.map_some, hstore]

theorem granted_step {i : I} {cert : Certificate} (hlabels : IsLabels domain)
    (h : Invariant lib files domain calls s) (hi : s.renewal.task i = .requesting item)
    (hissued : Issued lib files validity s (.granted i cert)) :
    Advances lib files domain validity calls (calls ++ [(itemDomain domain item, cert)]) s
        (next lib files s (.granted i cert)) ∧
      Lasts lib domain (calls ++ [(itemDomain domain item, cert)])
        (next lib files s (.granted i cert)) (s.renewal.now + validity) item := by
  obtain ⟨hkey, hloadable, ⟨expiration, hexp, hlater⟩, hprinted⟩ := hissued
  obtain ⟨key, hloaded⟩ := Option.isSome_iff_exists.mp hloadable
  obtain ⟨dir, mirror, hdisk, hmirrors⟩ := h.mirrored
  have hdomain : item.domain s.renewal.store = itemDomain domain item := by
    rw [domain_eq, h.named]
  have hfiled : ∀ call ∈ calls ++ [(itemDomain domain item, cert)],
      Filed lib files domain call := by
    intro call hc
    rcases List.mem_append.mp hc with hc | hc
    · exact h.filed call hc
    · obtain rfl := List.mem_singleton.mp hc
      exact ⟨⟨item, rfl⟩, hkey, ⟨expiration, hexp⟩, hdomain ▸ hprinted item hi⟩
  have hregular := regular_of_filed hlabels hfiled
  have hmem : (itemDomain domain item, cert) ∈ calls ++ [(itemDomain domain item, cert)] := by simp
  obtain ⟨text, _, hwrite⟩ := hregular.storeCert hmem
  obtain ⟨dir', hdir', hmirrors'⟩ := hmirrors.updateCert hregular
    (updateCert_some hloaded (hwrite dir))
  have hdisk' : written lib files s i cert = some dir' := by
    rw [← hdir']
    simp only [written, hi, hdomain, hdisk, updateCert_some hloaded (hwrite dir)]
  have hcerts : (Renewal.next lib s.renewal
      (.granted i cert.privateKeyDer cert.certificateDer)).store.certs =
        Function.update s.renewal.store.certs (itemDomain domain item)
          (some ⟨cert.certificateDer, key⟩) := by
    rw [CertUpdater.next_granted_eq hi hloaded, TlsCoverage.store_advance, hdomain]
  have hnamed : (Renewal.next lib s.renewal
      (.granted i cert.privateKeyDer cert.certificateDer)).store.domain = domain := by
    rw [CertUpdater.next_granted_eq hi hloaded, TlsCoverage.store_advance]
    exact h.named
  have hnow : (Renewal.next lib s.renewal
      (.granted i cert.privateKeyDer cert.certificateDer)).now = s.renewal.now :=
    Challenges.now_kept lib (by simp)
  have hgranted {time : Time} (htime : time ≤ s.renewal.now + validity) :
      Lasts lib domain (calls ++ [(itemDomain domain item, cert)])
        (next lib files s (.granted i cert)) time item :=
    Or.inr ⟨⟨cert, expiration, by rw [last_concat, if_pos rfl], hexp, Int.le_trans htime hlater⟩,
      CertUpdater.not_requesting_granted h.held hi hloaded⟩
  refine ⟨⟨⟨h.held.next lib ⟨item, hi⟩, hnamed, hfiled, ⟨dir', _, hdisk', hmirrors'⟩, ?_⟩,
    Int.le_of_eq hnow.symm, ?_⟩, hgranted (Int.le_refl _)⟩
  · intro d
    simp only [next, hcerts, hnow, last_concat]
    by_cases hd : itemDomain domain item = d
    · subst d
      exact Or.inl (by simp [certified, hloaded])
    · rw [Function.update_of_ne (Ne.symm hd), if_neg hd]
      exact h.certs d
  · intro time other htime hlasts
    by_cases hother : other = item
    · exact hother ▸ hgranted htime
    · have hne : itemDomain domain item ≠ itemDomain domain other := by
        intro heq
        exact hother (itemDomain_lower_inj (congrArg toAsciiLowercase heq)).symm
      exact hlasts.next h (e := .granted i _ _) ⟨item, hi⟩ rfl (by rw [last_concat, if_neg hne])

theorem step_advances {e : Event I} (hlabels : IsLabels domain)
    (h : Invariant lib files domain calls s) (he : Enabled lib files s e)
    (hissued : Issued lib files validity s e) :
    ∃ calls', Advances lib files domain validity calls calls' s (next lib files s e) ∧
      ∀ item, grants item (s, e) →
        Lasts lib domain calls' (next lib files s e) (s.renewal.now + validity) item := by
  cases e with
  | renewal e => exact ⟨calls, renewal_step h he, fun item hg => by simp [grants] at hg⟩
  | restart => exact ⟨calls, restart_step hlabels h he, fun item hg => by simp [grants] at hg⟩
  | granted i cert =>
    obtain ⟨item, hi⟩ := he
    obtain ⟨hadvances, hlasts⟩ := granted_step hlabels h hi hissued
    refine ⟨_, hadvances, fun other hg => ?_⟩
    have hother : s.renewal.task i = .requesting other := by simpa [grants] using hg
    obtain rfl : item = other := by simpa [hi] using hother
    exact hlasts

theorem initial_invariant (now : Time) : Invariant lib files domain []
    (lives (I := I) lib files domain now).initial where
  held i hi := by cases hi
  named := rfl
  filed := by simp
  mirrored := ⟨noFiles, _, rfl, Restart.mirrors_nil domain⟩
  certs _ := Or.inl rfl

end Step

/-- However often the server is restarted, between any two steps: it always can be, since load
accepts the files; and certificates that are valid for so long when they are granted are granted
that much apart, less the 30 days. -/
theorem restarts_apart (lib : CertLib K) (files : FileLib) {domain : String}
    (hlabels : IsLabels domain) (now validity : Time) {tr : List (State I K × Event I)}
    {s : State I K} (h : Run (lives lib files domain now) tr s)
    (hissued : ∀ p ∈ tr, Issued lib files validity p.1 p.2) :
    (∃ dir, s.disk = some dir ∧ ∀ (clock : String → Time) (listing : List String),
      Lists listing dir → ∃ reloaded, load lib files clock s.disk listing (newStore domain) =
        some (reloaded, .ok ())) ∧
    ∀ item, Each (fun earlier p => ∀ q ∈ earlier, grants item q → grants item p →
      q.1.renewal.now + validity < p.1.renewal.now + minimumCertRenewDuration) tr := by
  suffices hall : ∃ calls, Invariant lib files domain calls s ∧
      ∀ item, (∀ q ∈ tr, grants item q → q.1.renewal.now ≤ s.renewal.now ∧
        Lasts lib domain calls s (q.1.renewal.now + validity) item) ∧
      Each (fun earlier p => ∀ q ∈ earlier, grants item q → grants item p →
        q.1.renewal.now + validity < p.1.renewal.now + minimumCertRenewDuration) tr by
    obtain ⟨calls, hinv, hitems⟩ := hall
    obtain ⟨dir, mirror, hdisk, hmirrors⟩ := hinv.mirrored
    refine ⟨⟨dir, hdisk, fun clock listing hlisting => ?_⟩, fun item => (hitems item).2⟩
    obtain ⟨reloaded, hload, _⟩ := load_mirrored hmirrors
      (regular_of_filed hlabels hinv.filed) domain clock hlisting
    exact ⟨reloaded, hdisk ▸ hload⟩
  induction h with
  | refl => exact ⟨[], initial_invariant now, fun item => ⟨by simp, each_nil⟩⟩
  | @tail tr u e _ he ih =>
    obtain ⟨calls, hinv, hitems⟩ := ih fun p hp => hissued p (List.mem_append_left _ hp)
    obtain ⟨calls', hadvances, hnew⟩ := step_advances hlabels hinv he (hissued (u, e) (by simp))
    refine ⟨calls', hadvances.invariant, fun item => ⟨?_, each_concat.mpr ⟨(hitems item).2, ?_⟩⟩⟩
    · intro q hq hg
      rcases List.mem_append.mp hq with hq | hq
      · obtain ⟨hle, hlasts⟩ := (hitems item).1 q hq hg
        exact ⟨Int.le_trans hle hadvances.now,
          hadvances.lasts _ item (Int.add_le_add_right hle _) hlasts⟩
      · obtain rfl : q = (u, e) := by simpa using hq
        exact ⟨hadvances.now, hnew item hg⟩
    · intro q hq hg hp
      cases e with
      | granted i cert =>
        have hi : u.renewal.task i = .requesting item := by simpa [grants] using hp
        rcases ((hitems item).1 q hq hg).2 with hlt | ⟨_, hnobody⟩
        · exact hlt
        · exact absurd hi (hnobody i)
      | _ => simp [grants] at hp

open Renewal (byteCerts)
open Restart (twoCerts rootText)

def oneRestart : List (Event Bool) :=
  [.renewal (.check false), .renewal (.lock false), .renewal (.recheck false),
    .granted false ⟨[1], [90]⟩, .restart (fun _ => 61 * day) ["nport.io"] (61 * day)]

def rootDir : Directory := Function.update noFiles "nport.io" (some (utf8 rootText))

def twoLives : Machine (State Bool Unit) (Event Bool) := lives byteCerts twoCerts "nport.io" 0

theorem disk_restart (lib : CertLib K) (files : FileLib) (s : State I K) (clock : String → Time)
    (listing : List String) {now : Time} :
    (next lib files s (.restart clock listing now)).disk = s.disk := by
  simp only [next]
  split <;> rfl

theorem rootDir_lists : Lists ["nport.io"] rootDir where
  nodup := by decide
  mem_iff name := by
    by_cases hroot : name = "nport.io"
    · simp [hroot, rootDir]
    · simp [hroot, rootDir, noFiles]

theorem rootDir_loads : ∃ reloaded : Store Unit, load byteCerts twoCerts (fun _ => 61 * day)
    (some rootDir) ["nport.io"] (newStore "nport.io") = some (reloaded, .ok ()) := by
  refine exists_loadFiles_iff.mpr fun name hname => ?_
  obtain rfl := List.mem_singleton.mp hname
  have hintact : Intact twoCerts (utf8 rootText) Restart.rootCert := ⟨rootText, rfl, rfl⟩
  rw [takenFrom_intact (by simp [rootDir]) hintact (by decide) (Renewal.certExpiration_byte 90)]
  split <;> rfl

theorem oneRestart_accepted : Accepts twoLives twoLives.initial oneRestart := by
  have step {e : Renewal.Event Bool} {P : Prop} (h : P)
      (he : ∀ i privateKeyDer certificateDer, e ≠ .granted i privateKeyDer certificateDer) :
      P ∧ ∀ i privateKeyDer certificateDer, e ≠ .granted i privateKeyDer certificateDer := ⟨h, he⟩
  have later : (0 : Time) ≤ 61 * day := by decide
  exact ⟨step ⟨.root, rfl⟩ (by simp), step ⟨rfl, rfl⟩ (by simp), step ⟨.root, rfl⟩ (by simp),
    ⟨.root, rfl⟩, ⟨later, fun _ => Int.le_refl _, ⟨rootDir, rfl, rootDir_lists⟩, rootDir_loads⟩,
    trivial⟩

theorem restarts_apart_once : ∃ reloaded : Store Unit, load byteCerts twoCerts
    (fun _ => 61 * day) (some rootDir) ["nport.io"] (newStore "nport.io") =
      some (reloaded, .ok ()) := by
  have hrun : Run twoLives _ _ := path_of_accepts oneRestart_accepted
  have hissued : ∀ p ∈ trace twoLives twoLives.initial oneRestart,
      Issued byteCerts twoCerts (90 * day) p.1 p.2 := by
    intro p hp
    simp only [oneRestart, trace, List.mem_cons, List.not_mem_nil, or_false] at hp
    rcases hp with rfl | rfl | rfl | rfl | rfl
    · trivial
    · trivial
    · trivial
    · refine ⟨by simp, rfl, ⟨90 * day, Renewal.certExpiration_byte 90, by decide⟩, ?_⟩
      intro item hitem
      cases hitem
      exact ⟨rootText, rfl⟩
    · trivial
  obtain ⟨⟨dir, hdir, hload⟩, _⟩ :=
    restarts_apart byteCerts twoCerts Restart.isLabels_nport 0 (90 * day) hrun hissued
  have hdisk : (replay twoLives twoLives.initial oneRestart).disk = some rootDir :=
    disk_restart _ _ _ _ _
  rw [hdisk] at hdir hload
  obtain rfl := Option.some.inj hdir
  exact hload _ _ rootDir_lists

end ServerRestarts
