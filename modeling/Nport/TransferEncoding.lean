import Nport.ForwardAnswer
import Nport.HttpOpen

/-! Which headers of a client's answer are in the response of forward. should_skip_header
compares the name as the client spells it, and the crate http puts it in lower case after
that. -/
namespace TransferEncoding

open Multimap
open Libnp (toAsciiLowercase)
open PortTask (Bytes)
open HttpForward
open ForwardAnswer

variable {N V M : Type*}

/-- What else is used of HeaderName: a name is read in any letter case and kept in lower case,
and transfer-encoding is one. -/
structure CanonicalNames (lib : HttpLib N V M) : Prop where
  anyCase : ∀ s, lib.nameFromStr s = lib.nameFromStr (toAsciiLowercase s)
  canonical : ∀ s n, lib.nameFromStr s = .ok n → lib.asStr n = toAsciiLowercase s
  known : ∃ n, lib.asStr n = "transfer-encoding"

def sent (data : HttpResponseData) : List (String × Bytes) :=
  data.headers.entries.map fun e => (e.1, e.2)

/-- The value of a header of which http accepts both the name and the value. -/
def accepted (lib : HttpLib N V M) (h : String × Bytes) : Option V :=
  match lib.nameFromStr h.1, lib.valueFromBytes h.2 with
  | .ok _, .ok value => some value
  | _, _ => none

def sentAs (lib : HttpLib N V M) (data : HttpResponseData) (name : String) : List V :=
  ((sent data).filter fun h => toAsciiLowercase h.1 = name).filterMap (accepted lib)

/-- The response has no transfer-encoding, and of every other name what the client sent, or what
the body brings with it where the client sent nothing that is accepted. -/
structure Filtered [DecidableEq N] (lib : HttpLib N V M) (bodyHeaders : Grouped N V)
    (data : HttpResponseData) (response : Response N V) : Prop where
  no_transfer_encoding : ∀ n, lib.asStr n = "transfer-encoding" → response.headers.getAll n = []
  others : ∀ n, lib.asStr n ≠ "transfer-encoding" → response.headers.getAll n =
    if sentAs lib data (lib.asStr n) = [] then bodyHeaders.getAll n
    else sentAs lib data (lib.asStr n)

section Names

variable {lib : HttpLib N V M}

theorem responseHeader_cases (names : CanonicalNames lib) (h : String × Bytes) :
    (responseHeader lib h = none ∧ (h.1 = "transfer-encoding" ∨ accepted lib h = none)) ∨
      ∃ n value, responseHeader lib h = some (n, value) ∧ h.1 ≠ "transfer-encoding" ∧
        lib.asStr n = toAsciiLowercase h.1 ∧ accepted lib h = some value := by
  by_cases hskip : h.1 = "transfer-encoding"
  · exact Or.inl ⟨by simp [responseHeader, shouldSkipHeader, hskip], Or.inl hskip⟩
  · cases hn : lib.nameFromStr h.1 with
    | error e => exact Or.inl ⟨by simp [responseHeader, hn], Or.inr (by simp [accepted, hn])⟩
    | ok n =>
      cases hv : lib.valueFromBytes h.2 with
      | error e =>
        exact Or.inl ⟨by simp [responseHeader, hn, hv], Or.inr (by simp [accepted, hn, hv])⟩
      | ok value =>
        refine Or.inr ⟨n, value, ?_, hskip, names.canonical _ _ hn, by simp [accepted, hn, hv]⟩
        simp [responseHeader, shouldSkipHeader, hskip, hn, hv]

variable [DecidableEq N]

theorem values_responseHeader (names : CanonicalNames lib) (l : List (String × Bytes)) (n : N) :
    values n (l.filterMap (responseHeader lib)) =
      (l.filter fun h => h.1 ≠ "transfer-encoding" ∧ toAsciiLowercase h.1 = lib.asStr n).filterMap
        (accepted lib) := by
  induction l with
  | nil => rfl
  | cons h l ih =>
    rcases responseHeader_cases names h with ⟨hnone, hskip⟩ | ⟨m, value, hsome, hne, hm, hacc⟩
    · rw [List.filterMap_cons_none hnone, ih, List.filter_cons]
      split
      · next hkept =>
        have hkept : h.1 ≠ "transfer-encoding" ∧ toAsciiLowercase h.1 = lib.asStr n := by
          simpa using hkept
        rw [List.filterMap_cons_none (hskip.resolve_left hkept.1)]
      · rfl
    · rw [List.filterMap_cons_some hsome, values_cons, ih, List.filter_cons]
      by_cases hn : m = n
      · have hlower : toAsciiLowercase h.1 = lib.asStr n := by rw [← hm, hn]
        simp [hne, hlower, hacc, hn]
      · have hlower : toAsciiLowercase h.1 ≠ lib.asStr n := by
          intro heq
          exact hn (HeaderSurvival.asStr_injective lib (hm.trans heq))
        simp [hlower, hn]

end Names

section Response

variable [DecidableEq N] {lib : HttpLib N V M}

theorem forward_getAll {limits : HeaderLimits N V}
    {bodyHeaders : Grouped N V} {render : String → List (String × String) → Option String}
    {hostname : String} {answer : HttpResponse} {data : HttpResponseData}
    {response : Response N V} (hdata : answer.payload = some (.data data))
    (hforward : forward lib limits bodyHeaders render hostname (some (.answer answer)) =
      some (.relayed response)) (n : N) :
    response.headers.getAll n =
      if values n (validHeaders lib data) = [] then bodyHeaders.getAll n
      else values n (validHeaders lib data) := by
  have hok : forwardRequest (some (.answer answer)) = .ok data := by
    simp [forwardRequest, hdata]
  simp only [forward, hok] at hforward
  split at hforward
  · rw [forwardData_eq] at hforward
    split at hforward
    · rw [Option.map_some, Option.some.injEq, Answer.relayed.injEq] at hforward
      rw [← hforward, Grouped.getAll_extend, headerMap, Grouped.getAll_foldl_append,
        Grouped.getAll_empty, List.nil_append]
    · cases hforward
  · cases hforward

/-- No transfer-encoding of a client reaches the response exactly when the client spells it
in lower case only, or with a value that http does not accept. -/
theorem transfer_encoding_filtered_iff (lib : HttpLib N V M) (names : CanonicalNames lib)
    (limits : HeaderLimits N V) (bodyHeaders : Grouped N V)
    (hbody : ∀ n, lib.asStr n = "transfer-encoding" → bodyHeaders.getAll n = [])
    (render : String → List (String × String) → Option String) (hostname : String)
    (answer : HttpResponse) (data : HttpResponseData) (response : Response N V)
    (hdata : answer.payload = some (.data data))
    (hforward : forward lib limits bodyHeaders render hostname (some (.answer answer)) =
      some (.relayed response)) :
    Filtered lib bodyHeaders data response ↔
      ∀ h ∈ sent data, toAsciiLowercase h.1 = "transfer-encoding" → h.1 ≠ "transfer-encoding" →
        ∀ value, lib.valueFromBytes h.2 ≠ .ok value := by
  have hgetAll := forward_getAll hdata hforward
  have hvalues := values_responseHeader names (sent data)
  constructor
  · intro hfiltered h hmem hlower hspelled value hvalue
    obtain ⟨n, hn⟩ := names.known
    have hname : lib.nameFromStr h.1 = .ok n := by
      rw [names.anyCase, hlower, ← hn, lib.nameFromStr_asStr]
    have hacc : accepted lib h = some value := by
      simp [accepted, hname, hvalue]
    have hleaks : value ∈ values n (validHeaders lib data) := by
      rw [validHeaders, ← sent, hvalues]
      apply List.mem_filterMap.mpr
      exact ⟨h, List.mem_filter.mpr ⟨hmem, by simp [hspelled, hlower, hn]⟩, hacc⟩
    have hnone := hfiltered.no_transfer_encoding n hn
    rw [hgetAll, if_neg (List.ne_nil_of_mem hleaks)] at hnone
    rw [hnone] at hleaks
    cases hleaks
  · intro hcond
    constructor
    · intro n hn
      have hnone : values n (validHeaders lib data) = [] := by
        rw [validHeaders, ← sent, hvalues, hn]
        apply List.filterMap_eq_nil_iff.mpr
        intro h hmem
        obtain ⟨hmem, hspelled, hlower⟩ : h ∈ sent data ∧ h.1 ≠ "transfer-encoding" ∧
            toAsciiLowercase h.1 = "transfer-encoding" := by simpa using hmem
        rw [Option.eq_none_iff_forall_ne_some]
        intro value hacc
        refine hcond h hmem hlower hspelled value ?_
        unfold accepted at hacc
        split at hacc
        · next hv => rw [hv, Option.some.inj hacc]
        · cases hacc
      rw [hgetAll, if_pos hnone, hbody n hn]
    · intro n hn
      have hall : values n (validHeaders lib data) = sentAs lib data (lib.asStr n) := by
        rw [validHeaders, ← sent, hvalues, sentAs]
        congr 1
        apply List.filter_congr
        intro h _
        have himp : toAsciiLowercase h.1 = lib.asStr n → h.1 ≠ "transfer-encoding" := by
          intro hlower heq
          apply hn
          rw [← hlower, heq]
          decide
        simpa using himp
      rw [hgetAll, hall]

end Response

section Concrete

theorem toAsciiLowercase_toAsciiLowercase (s : String) :
    toAsciiLowercase (toAsciiLowercase s) = toAsciiLowercase s := by
  simp only [toAsciiLowercase, String.toList_ofList, List.map_map]
  congr 2
  funext c
  exact HttpOpen.toLower_of_not_upper (HttpOpen.toLower_no_capital c)

theorem toAsciiLowercase_name (n : HeaderSurvival.Name) : toAsciiLowercase n.1 = n.1 := by
  have hlower (c) (hc : c ∈ n.1.toList) : c.toLower = id c := by
    have hname := List.all_eq_true.mp n.2.2 c hc
    apply HttpOpen.toLower_of_not_upper
    rw [← Bool.not_eq_true, HttpOpen.isUpper_iff]
    simp only [HeaderSurvival.nameChar, Bool.or_eq_true, decide_eq_true_eq, HttpOpen.isLower_iff,
      HttpOpen.isDigit_iff] at hname
    rcases hname with (hrange | hrange) | rfl
    · omega
    · omega
    · decide
  rw [toAsciiLowercase, List.map_congr_left hlower, List.map_id, String.ofList_toList]

def anyCaseHttp : HttpLib HeaderSurvival.Name HeaderSurvival.Value String :=
  { HeaderSurvival.plainHttp with
    nameFromStr := fun s => HeaderSurvival.plainHttp.nameFromStr (toAsciiLowercase s)
    nameFromStr_asStr := by
      intro n
      change HeaderSurvival.plainHttp.nameFromStr (toAsciiLowercase n.1) = _
      rw [toAsciiLowercase_name]
      exact HeaderSurvival.plainHttp.nameFromStr_asStr n }

def transferEncoding : HeaderSurvival.Name := ⟨"transfer-encoding", by decide, by decide⟩

theorem anyCaseHttp_nameFromStr (s : String) :
    anyCaseHttp.nameFromStr s = HeaderSurvival.plainHttp.nameFromStr (toAsciiLowercase s) := rfl

theorem anyCaseHttp_names : CanonicalNames anyCaseHttp where
  anyCase s := by
    rw [anyCaseHttp_nameFromStr, anyCaseHttp_nameFromStr, toAsciiLowercase_toAsciiLowercase]
  canonical s n h := by
    rw [anyCaseHttp_nameFromStr] at h
    simp only [HeaderSurvival.plainHttp] at h
    split at h
    · rw [← Except.ok.inj h]
      rfl
    · cases h
  known := ⟨transferEncoding, rfl⟩

def chunked : HeaderSurvival.Value :=
  ⟨"chunked".toList.map (UInt8.ofNat ·.toNat), by decide⟩

def withHeader (name : String) : HttpResponseData := ⟨collect [(name, chunked.1)], 200, []⟩

def forwarded (name : String) : Option (Answer HeaderSurvival.Name HeaderSurvival.Value) :=
  forward anyCaseHttp unlimited HeaderSurvival.octetStream (fun _ _ => some "")
    "something.localhost" (some (.answer ⟨"uuid", some (.data (withHeader name))⟩))

theorem forwarded_relays (name : String) :
    ∃ response, forwarded name = some (.relayed response) := by
  have hfits : Fits anyCaseHttp unlimited HeaderSurvival.octetStream (withHeader name) :=
    ⟨rfl, rfl⟩
  have hstatus : (withHeader name).statusCode.toNat = 200 := rfl
  simp [forwarded, forward, forwardRequest, hfits, forwardData_eq, hstatus]

theorem values_withHeader {name : String}
    (hname : toAsciiLowercase name = "transfer-encoding") (hne : name ≠ "transfer-encoding") :
    values transferEncoding (validHeaders anyCaseHttp (withHeader name)) = [chunked] := by
  have hvalid : anyCaseHttp.valueFromBytes chunked.1 = .ok chunked :=
    anyCaseHttp.valueFromBytes_asBytes chunked
  have hread : anyCaseHttp.nameFromStr name = .ok transferEncoding := by
    rw [anyCaseHttp_nameFromStr, hname]
    exact HeaderSurvival.plainHttp.nameFromStr_asStr transferEncoding
  have hacc : accepted anyCaseHttp (name, chunked.1) = some chunked := by
    simp [accepted, hread, hvalid]
  have hsent : sent (withHeader name) = [(name, chunked.1)] := rfl
  rw [validHeaders, ← sent, values_responseHeader anyCaseHttp_names, hsent]
  have hstr : anyCaseHttp.asStr transferEncoding = "transfer-encoding" := rfl
  simp [hne, hname, hstr, hacc]

/-- Transfer-Encoding with two capitals reaches the response. -/
theorem capital_leaks :
    ∃ response, forwarded "Transfer-Encoding" = some (.relayed response) ∧
      response.headers.getAll transferEncoding = [chunked] := by
  obtain ⟨response, hresponse⟩ := forwarded_relays "Transfer-Encoding"
  have hvalues : values transferEncoding (validHeaders anyCaseHttp
      (withHeader "Transfer-Encoding")) = [chunked] := values_withHeader (by decide) (by decide)
  refine ⟨response, hresponse, ?_⟩
  rw [forward_getAll rfl hresponse, hvalues]
  rfl

theorem octetStream_plain (n : HeaderSurvival.Name)
    (hn : anyCaseHttp.asStr n = "transfer-encoding") :
    HeaderSurvival.octetStream.getAll n = [] := by
  have hne : n ≠ HeaderSurvival.contentType := by
    rintro rfl
    exact absurd hn (by decide)
  rw [HeaderSurvival.octetStream, Grouped.getAll_insert, if_neg hne, Grouped.getAll_empty]

theorem lower_case_filtered :
    ∃ response, forwarded "transfer-encoding" = some (.relayed response) ∧
      Filtered anyCaseHttp HeaderSurvival.octetStream (withHeader "transfer-encoding")
        response := by
  obtain ⟨response, hresponse⟩ := forwarded_relays "transfer-encoding"
  refine ⟨response, hresponse, ?_⟩
  apply (transfer_encoding_filtered_iff anyCaseHttp anyCaseHttp_names unlimited
    HeaderSurvival.octetStream octetStream_plain (fun _ _ => some "") "something.localhost" _
    (withHeader "transfer-encoding") response rfl hresponse).mpr
  intro h hmem _ hspelled
  have heq : h = ("transfer-encoding", chunked.1) := by
    have hsent : sent (withHeader "transfer-encoding") = [("transfer-encoding", chunked.1)] := rfl
    rw [hsent, List.mem_singleton] at hmem
    exact hmem
  exact absurd (congrArg Prod.fst heq) hspelled

end Concrete

end TransferEncoding
