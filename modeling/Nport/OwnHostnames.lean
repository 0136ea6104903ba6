import Nport.HostRouting

/-! The hostnames of the server itself. The registry does not know them: that they stay with the
website and the API rests on the names that http::open makes. -/
namespace OwnHostnames

open GuardedMachine
open Registry (Hostname)
open PortOpen (Hostnames)
open HttpOpen (CaseData hostnameToClaim withDomain configuredHostnames)
open HostRouting

/-- A name of names::Generator::with_naming(Numbered): two words and a number. -/
def NumberedName (name : String) : Prop := GeneratedName name ∧ '-' ∈ name.toList

def ByNumbered {C : Type*} (data : CaseData) (hostnames : Hostnames)
    (_ : Registry.State C) : Registry.Event C → Prop
  | .claimHttpHostname _ hostname => ∃ generated requested, NumberedName generated ∧
      hostnameToClaim data.toLowercase hostnames generated requested = .ok hostname
  | _ => True

theorem ByNumbered.byOpen {C : Type*} {data : CaseData} {hostnames : Hostnames}
    {s : Registry.State C} {e : Registry.Event C} (h : ByNumbered data hostnames s e) :
    ByOpen data hostnames s e := by
  cases e with
  | claimHttpHostname c hostname =>
    obtain ⟨generated, requested, hnumbered, hok⟩ := h
    exact ⟨generated, requested, hnumbered.1, hok⟩
  | _ => trivial

section Names

variable {data : CaseData} {domain : String} {api tcp : Option String} {blocklist : String}

theorem not_own {generated hostname : String} {requested : Option String}
    (hapi : '-' ∉ (configuredHostnames data domain api tcp blocklist).api.toList)
    (hgen : NumberedName generated)
    (hok : hostnameToClaim data.toLowercase (configuredHostnames data domain api tcp blocklist)
      generated requested = .ok hostname) :
    hostname ≠ (configuredHostnames data domain api tcp blocklist).domain ∧
      hostname ≠ (configuredHostnames data domain api tcp blocklist).apiHostname := by
  obtain ⟨subdomain, hsub, rfl⟩ := HttpOpen.hostnameToClaim_ok hok
  have apart {s : String} (hs : s ≠ "") (hdot : '.' ∉ s.toList)
      (hne : s ≠ (configuredHostnames data domain api tcp blocklist).api) :
      withDomain domain s ≠ domain ∧
        withDomain domain s ≠ Hostnames.newHostname domain (data.toLowercase (api.getD "")) :=
    ⟨@HttpOpen.withDomain_ne_newHostname domain s "" hs hdot hs,
      HttpOpen.withDomain_ne_newHostname hs hdot hne⟩
  by_cases hr : requested.getD "" = ""
  · obtain rfl : none = subdomain := by simpa [HttpOpen.subdomainForForwarding, hr] using hsub
    refine apart hgen.1.1 (hgen.1.notMem (by decide)) ?_
    rintro heq
    exact hapi (heq ▸ hgen.2)
  · cases requested with
    | none => exact absurd rfl hr
    | some requested =>
      obtain ⟨s, rfl, hlabel, hdot, hne, _⟩ := HttpOpen.subdomainForForwarding_ok data hr hsub
      refine apart ?_ hdot hne
      rintro rfl
      exact absurd hlabel.length.1 (by decide)

end Names

theorem stripPort_of_no_colon {raw : String} (h : ':' ∉ raw.toList) : stripPort raw = raw := by
  have hall : raw.toList.reverse.dropWhile (· ≠ ':') = [] := by
    rw [List.dropWhile_eq_nil_iff]
    intro c hc
    have hne : c ≠ ':' := by
      rintro rfl
      exact h (List.mem_reverse.mp hc)
    simpa using hne
  unfold stripPort
  rw [hall]

section Run

variable {C V : Type*} [DecidableEq C] {s : Registry.State C}
  {tr : List (Registry.State C × Registry.Event C)}

omit [DecidableEq C] in
theorem extract_of_forwardHostname {lib : HostLib V} {request : Request V} {h : Hostname}
    (hdirect : request.Direct) (hname : forwardHostname lib request = h) (hne : h ≠ "") :
    lib.extract request = some h := by
  rw [lib.direct request hdirect]
  unfold forwardHostname at hname
  cases hget : request.get "host" with
  | none =>
    rw [hget] at hname
    exact absurd hname.symm hne
  | some value =>
    rw [hget] at hname
    cases htext : lib.toStr value with
    | none => exact absurd (by simpa [htext] using hname.symm) hne
    | some text => simpa [htext] using hname

/-- In every run: a claimed name is neither the website's nor the API's, all requests for it go
to the forwarding router, and a request that a client is found for was on that way. -/
theorem own_hostnames_kept (lib : HostLib V) (data : CaseData) (domain : String)
    (api tcp : Option String) (blocklist : String) (hdomain : ':' ∉ domain.toList)
    (hapi : '-' ∉ (configuredHostnames data domain api tcp blocklist).api.toList)
    (hrun : Run Registry.registry tr s)
    (hopen : ∀ p ∈ tr, ByNumbered data (configuredHostnames data domain api tcp blocklist)
      p.1 p.2) :
    (∀ h ∈ s.claimedHttpHostnames,
      h ≠ (configuredHostnames data domain api tcp blocklist).domain ∧
      h ≠ (configuredHostnames data domain api tcp blocklist).apiHostname ∧
      ∀ request : Request V, (lib.extract request).map stripPort = some h →
        chooser lib (configuredHostnames data domain api tcp blocklist) request =
          some (.forwarding, h)) ∧
    ∀ (request : Request V) (c : C), request.Direct → ForwardedTo lib s request c →
      ∃ h ∈ s.hostnames c,
        chooser lib (configuredHostnames data domain api tcp blocklist) request =
          some (.forwarding, h) := by
  have hown : ∀ h ∈ s.claimedHttpHostnames,
      h ≠ (configuredHostnames data domain api tcp blocklist).domain ∧
        h ≠ (configuredHostnames data domain api tcp blocklist).apiHostname := by
    refine claimed_of_claims hrun fun p hp c h he => ?_
    have hby := hopen p hp
    rw [he] at hby
    obtain ⟨generated, requested, hgen, hok⟩ := hby
    exact not_own hapi hgen hok
  have hroute (h : Hostname) (hh : h ∈ s.claimedHttpHostnames) (request : Request V)
      (hhost : (lib.extract request).map stripPort = some h) :
      chooser lib (configuredHostnames data domain api tcp blocklist) request =
        some (.forwarding, h) := by
    obtain ⟨raw, hraw, rfl⟩ := Option.map_eq_some_iff.mp hhost
    obtain ⟨hneDomain, hneApi⟩ := hown _ hh
    simp [chooser, hraw, hneDomain, hneApi]
  refine ⟨fun h hh => ⟨(hown h hh).1, (hown h hh).2, hroute h hh⟩, ?_⟩
  intro request c hdirect hforwarded
  have hi := Registry.reachable_invariant ⟨tr, hrun⟩
  obtain ⟨hc, hmem⟩ := (forwardedTo_iff hi).mp hforwarded
  have hclaimed := hi.own_claimed hc hmem
  have hgrant := claimed_grantable hrun (fun p hp => (hopen p hp).byOpen) _ hclaimed
  have hextract := extract_of_forwardHostname hdirect rfl (grantable_ne_empty hgrant)
  obtain ⟨label, hname, _, _, hlabel⟩ := grantable_withDomain hgrant
  have hcolon : ':' ∉ (forwardHostname lib request).toList := by
    rw [hname, withDomain]
    split
    · exact hlabel
    · have hconfigured : (configuredHostnames data domain api tcp blocklist).domain = domain := rfl
      simp [hlabel, hconfigured, hdomain]
  refine ⟨_, hmem, hroute _ hclaimed request ?_⟩
  rw [hextract, Option.map_some, stripPort_of_no_colon hcolon]

end Run

theorem own_hostnames_kept_opened :
    chooser hostHeaderLib localHostnames (requestTo "something.localhost:8080") =
      some (.forwarding, "something.localhost") := by
  have accepted : Accepts Registry.registry (Registry.initial (C := Unit)) opened := by decide
  have hopen : ∀ p ∈ trace Registry.registry Registry.initial opened,
      ByNumbered HttpOpen.kelvinData localHostnames p.1 p.2 := by
    intro p hp
    simp only [opened, trace, List.mem_cons, List.not_mem_nil, or_false] at hp
    rcases hp with rfl | rfl | rfl
    · trivial
    · exact ⟨"misty-sea-0042", some "something", ⟨⟨by decide, by simp⟩, by decide⟩, by decide⟩
    · trivial
  exact ((own_hostnames_kept hostHeaderLib HttpOpen.kelvinData "localhost" (some "api")
    (some "tcp") "" (by decide) (by decide) (path_of_accepts accepted) hopen).1
      "something.localhost" (by decide)).2.2 _ (by decide)

end OwnHostnames
