import Nport.HttpForward

/-! What is left of a header multimap after the tunnel. Both directions go through a map
with one value for a name, so a name keeps the last of its values. -/
namespace HeaderSurvival

open Multimap
open Libnp
open HttpForward
open PortTask (Bytes)

variable {N V M : Type*} [DecidableEq N]
variable (lib : HttpLib N V M)

omit [DecidableEq N] in
theorem resolveNames_groups {g : List (N × List V)} (hne : ∀ e ∈ g, e.2 ≠ [])
    (previousName : Option N) : resolveNames previousName (g.flatMap Grouped.headed) =
      some (g.flatMap fun e => e.2.map (e.1, ·)) := by
  have unnamed (n : N) (vs : List V) (rest : List (Option N × V)) :
      resolveNames (some n) (vs.map (none, ·) ++ rest) =
        (resolveNames (some n) rest).map fun l => vs.map (n, ·) ++ l := by
    induction vs with
    | nil => simp
    | cons v vs ih => simp [resolveNames, ih, Function.comp_def]
  induction g generalizing previousName with
  | nil => rfl
  | cons e g ih =>
    obtain ⟨v, vs, he⟩ := List.exists_cons_of_ne_nil (hne e List.mem_cons_self)
    have hrest := ih (fun d hd => hne d (List.mem_cons_of_mem _ hd)) (some e.1)
    rw [List.flatMap_cons, List.flatMap_cons]
    simp only [Grouped.headed, he, List.cons_append, resolveNames, unnamed, hrest]
    simp

omit [DecidableEq N] in
/-- The loop in enqueue_request never panics and names every value. -/
theorem resolveNames_intoIter (headers : Grouped N V) :
    resolveNames none headers.intoIter = some headers.iter :=
  resolveNames_groups headers.inhabited none

omit [DecidableEq N] in
theorem asStr_injective {n n' : N} (h : lib.asStr n = lib.asStr n') : n = n' := by
  have hn := lib.nameFromStr_asStr n
  rw [h, lib.nameFromStr_asStr n'] at hn
  exact (Except.ok.inj hn).symm

omit [DecidableEq N] in
theorem asBytes_injective {v v' : V} (h : lib.asBytes v = lib.asBytes v') : v = v' := by
  have hv := lib.valueFromBytes_asBytes v
  rw [h, lib.valueFromBytes_asBytes v'] at hv
  exact (Except.ok.inj hv).symm

theorem last_encode (l : List (N × V)) (n : N) :
    last (lib.asStr n) (l.map (encode lib)) = (last n l).map lib.asBytes := by
  have hvalues : values (lib.asStr n) (l.map (encode lib)) = (values n l).map lib.asBytes := by
    induction l with
    | nil => rfl
    | cons e l ih =>
      rw [List.map_cons, values_cons, values_cons, ih]
      by_cases he : e.1 = n
      · simp [encode, he]
      · have hne : lib.asStr e.1 ≠ lib.asStr n := fun h => he (asStr_injective lib h)
        simp [encode, he, hne]
  rw [last, hvalues, last, List.getLast?_map]

theorem exists_map_eq {α β : Type*} {f : α → β} {l : List β} (h : ∀ b ∈ l, ∃ a, f a = b) :
    ∃ l' : List α, l'.map f = l := by
  induction l with
  | nil => exact ⟨[], rfl⟩
  | cons b l ih =>
    obtain ⟨a, ha⟩ := h b List.mem_cons_self
    obtain ⟨l', hl⟩ := ih fun c hc => h c (List.mem_cons_of_mem _ hc)
    exact ⟨a :: l', by simp [ha, hl]⟩

/-- What comes out of the map of a message: for each name its last value, in any order. -/
theorem received_headers {l : List (N × V)} {received : Unique String Bytes}
    (h : received.entries.Perm (collect (l.map (encode lib))).entries) :
    ∃ l' : List (N × V), (received.entries.map fun e => (e.1, e.2)) = l'.map (encode lib) ∧
      (l'.map Prod.fst).Nodup ∧ ∀ n, last n l' = last n l := by
  have lookup (k : String) : received.lookup k = last k (l.map (encode lib)) := by
    rw [AList.perm_lookup h, lookup_collect]
  have mem (k : String) (b : Bytes) : (k, b) ∈ (received.entries.map fun e => (e.1, e.2)) ↔
      last k (l.map (encode lib)) = some b := by
    rw [← lookup, ← Option.mem_def, AList.mem_lookup_iff]
    constructor
    · intro hm
      obtain ⟨e, he, hk⟩ := List.mem_map.mp hm
      obtain ⟨rfl, rfl⟩ := Prod.mk.inj hk
      exact he
    · intro hm
      exact List.mem_map.mpr ⟨_, hm, rfl⟩
  obtain ⟨l', hl⟩ : ∃ l' : List (N × V), l'.map (encode lib) =
      received.entries.map fun e => (e.1, e.2) := by
    apply exists_map_eq
    rintro ⟨k, b⟩ hb
    have hlast := List.mem_of_getLast? ((mem k b).mp hb)
    obtain ⟨p, _, hp⟩ := List.mem_map.mp (mem_values.mp hlast)
    exact ⟨p, hp⟩
  have hnodup : (l'.map Prod.fst).Nodup := by
    have hkeys : (received.entries.map Sigma.fst).Nodup := received.nodupKeys
    have hmap : (l'.map Prod.fst).map lib.asStr = received.entries.map Sigma.fst := by
      have hfst := congrArg (List.map Prod.fst) hl
      simpa [encode, Function.comp_def] using hfst
    rw [← hmap] at hkeys
    exact hkeys.of_map
  refine ⟨l', hl.symm, hnodup, fun n => ?_⟩
  have hmem (v : V) : (n, v) ∈ l' ↔ last n l = some v := by
    rw [← Option.map_injective (fun _ _ => asBytes_injective lib) |>.eq_iff, ← last_encode,
      Option.map_some, ← mem, ← hl, List.mem_map]
    constructor
    · intro hm
      exact ⟨_, hm, rfl⟩
    · rintro ⟨⟨n', v'⟩, hm, he⟩
      obtain ⟨h1, h2⟩ := Prod.mk.inj he
      obtain rfl : n' = n := asStr_injective lib h1
      obtain rfl : v' = v := asBytes_injective lib h2
      exact hm
  cases hv : last n l with
  | none =>
    have hnone : values n l' = [] := by
      apply List.eq_nil_iff_forall_not_mem.mpr
      intro v hm
      rw [mem_values, hmem, hv] at hm
      cases hm
    simp [last, hnone]
  | some v => simp [last, values_of_nodup hnodup ((hmem v).mpr hv)]

theorem insertHeaders_encode (l : List (N × V)) (headers : Grouped N V) :
    insertHeaders lib (l.map (encode lib)) headers =
      .ok (l.foldl (fun m h => m.insert h.1 h.2) headers) := by
  induction l generalizing headers with
  | nil => rfl
  | cons e l ih =>
    simp only [List.map_cons, encode, insertHeaders, lib.nameFromStr_asStr,
      lib.valueFromBytes_asBytes, List.foldl_cons]
    exact ih _

omit [DecidableEq N] in
theorem responseHeader_encode (l : List (N × V)) :
    (l.map (encode lib)).filterMap (responseHeader lib) =
      l.filter fun h => !shouldSkipHeader (lib.asStr h.1) := by
  induction l with
  | nil => rfl
  | cons e l ih =>
    by_cases hs : shouldSkipHeader (lib.asStr e.1) = true
    · simp [responseHeader, encode, hs, ih]
    · simp [responseHeader, encode, hs, ih, lib.nameFromStr_asStr, lib.valueFromBytes_asBytes]

theorem getLast?_toList_eq_iff {α : Type*} (l : List α) :
    l.getLast?.toList = l ↔ l.length ≤ 1 := by
  match l with
  | [] => simp
  | [a] => simp
  | a :: b :: l =>
    constructor
    · intro h
      have hlen := congrArg List.length h
      cases ho : (a :: b :: l).getLast? <;> simp [ho] at hlen
    · intro h
      simp at h

theorem localRequest_headers {isLoopback : String → Bool} {viaTls : Bool}
    {uuid hostname uri : String} {addr : String × UInt16} {method : M}
    {headers : Grouped N V} {body : Bytes} {sent received : HttpRequest}
    {httpPort : String → Option Addr} {built : Request N V M}
    (hsent : enqueueRequest lib isLoopback viaTls uuid hostname addr method uri headers body =
      some sent)
    (hwire : received.headers.entries.Perm sent.headers.entries)
    (hbuilt : localRequest lib httpPort received = .ok built) (n : N) :
    built.headers.getAll n = (headers.getAll n).getLast?.toList := by
  have hs : sent.headers = collect (headers.iter.map (encode lib)) := by
    rw [enqueueRequest, resolveNames_intoIter, Option.map_some] at hsent
    rw [← Option.some.inj hsent]
  rw [hs] at hwire
  obtain ⟨l, hl, _, hlast⟩ := received_headers lib hwire
  have hb : built.headers = l.foldl (fun m h => m.insert h.1 h.2) .empty := by
    unfold localRequest at hbuilt
    rw [hl, insertHeaders_encode] at hbuilt
    split at hbuilt
    next => cases hbuilt
    next =>
      split at hbuilt
      next => cases hbuilt
      next =>
        dsimp only at hbuilt
        split at hbuilt
        next => cases hbuilt
        next => rw [← Except.ok.inj hbuilt]
  rw [hb, Grouped.getAll_foldl_insert, hlast, last, Grouped.values_iter]
  cases (headers.getAll n).getLast? <;> simp

theorem forwardData_headers {bodyHeaders : Grouped N V} {response : Response N V}
    {sent received : HttpResponseData} {forwarded : Response N V}
    (hsent : responseData lib response = .ok sent)
    (hwire : received.headers.entries.Perm sent.headers.entries)
    (hforward : forwardData lib bodyHeaders received = some forwarded) {n : N}
    (hn : shouldSkipHeader (lib.asStr n) = false) :
    forwarded.headers.getAll n = if response.headers.getAll n = [] then bodyHeaders.getAll n
      else (response.headers.getAll n).getLast?.toList := by
  have hs : sent.headers = collect (response.headers.iter.map (encode lib)) := by
    unfold responseData at hsent
    split at hsent
    next => cases hsent
    next => rw [← Except.ok.inj hsent]
  rw [hs] at hwire
  obtain ⟨l, hl, hnodup, hlast⟩ := received_headers lib hwire
  have hkept (m : Grouped N V) : ((l.filter fun h => !shouldSkipHeader (lib.asStr h.1)).foldl
      (fun m h => m.append h.1 h.2) m).getAll n =
        m.getAll n ++ (response.headers.getAll n).getLast?.toList := by
    rw [Grouped.getAll_foldl_append, values_filter (by simp [hn]), values_eq_last hnodup, hlast,
      last, Grouped.values_iter]
  have hf : forwarded.headers = bodyHeaders.extend none
      ((l.filter fun h => !shouldSkipHeader (lib.asStr h.1)).foldl
        (fun m h => m.append h.1 h.2) (Grouped.empty : Grouped N V)).intoIter := by
    unfold forwardData at hforward
    rw [hl, responseHeader_encode] at hforward
    dsimp only at hforward
    split at hforward
    next => rw [← Option.some.inj hforward]
    next => cases hforward
  rw [hf, Grouped.getAll_extend, hkept, Grouped.getAll_empty, List.nil_append]
  cases hh : response.headers.getAll n with
  | nil => simp
  | cons v vs => simp [List.getLast?_cons]

/-- Which headers survive. Of a request: all exactly when no name is repeated. Of a
response, apart from transfer-encoding: all exactly when no name is repeated and every name
the body would bring with it is there. -/
theorem headers_survive_iff :
    (∀ {isLoopback : String → Bool} {viaTls : Bool} {uuid hostname uri : String}
        {addr : String × UInt16} {method : M} {headers : Grouped N V} {body : Bytes}
        {sent received : HttpRequest} {httpPort : String → Option Addr}
        {built : Request N V M},
      enqueueRequest lib isLoopback viaTls uuid hostname addr method uri headers body =
        some sent →
      received.headers.entries.Perm sent.headers.entries →
      localRequest lib httpPort received = .ok built →
      ((∀ n, built.headers.getAll n = headers.getAll n) ↔
        ∀ n, (headers.getAll n).length ≤ 1)) ∧
    (∀ {bodyHeaders : Grouped N V} {response : Response N V}
        {sent received : HttpResponseData} {forwarded : Response N V},
      responseData lib response = .ok sent →
      received.headers.entries.Perm sent.headers.entries →
      forwardData lib bodyHeaders received = some forwarded →
      ((∀ n, shouldSkipHeader (lib.asStr n) = false →
          forwarded.headers.getAll n = response.headers.getAll n) ↔
        ∀ n, shouldSkipHeader (lib.asStr n) = false →
          (response.headers.getAll n).length ≤ 1 ∧
          (response.headers.getAll n = [] → bodyHeaders.getAll n = []))) := by
  constructor
  · intro _ _ _ _ _ _ _ headers _ sent received _ built hsent hwire hbuilt
    apply forall_congr'
    intro n
    rw [localRequest_headers lib hsent hwire hbuilt n]
    exact getLast?_toList_eq_iff _
  · intro bodyHeaders response sent received forwarded hsent hwire hforward
    apply forall_congr'
    intro n
    apply imp_congr_right
    intro hn
    rw [forwardData_headers lib hsent hwire hforward hn]
    by_cases hnone : response.headers.getAll n = []
    · simp [hnone]
    · rw [if_neg hnone, getLast?_toList_eq_iff]
      simp [hnone]

section Concrete

def nameChar (c : Char) : Bool := c.isLower || c.isDigit || c = '-'

abbrev Name := { s : String // s ≠ "" ∧ s.toList.all nameChar = true }

abbrev Value := { b : Bytes // b.all (fun c => (32 ≤ c && c != 127) || c == 9) = true }

def plainHttp : HttpLib Name Value String where
  asStr := Subtype.val
  nameFromStr s := if h : s ≠ "" ∧ s.toList.all nameChar = true then .ok ⟨s, h⟩
    else .error "invalid HTTP header name"
  asBytes := Subtype.val
  valueFromBytes b := if h : b.all (fun c => (32 ≤ c && c != 127) || c == 9) = true then
    .ok ⟨b, h⟩ else .error "failed to parse header value"
  methodFromBytes := .ok
  methodToString := id
  checkRequest _ := .ok ()
  fromUtf8Lossy _ := ""
  nameFromStr_asStr n := by simp [n.2]
  valueFromBytes_asBytes v := by simp [v.2]

def setCookie : Name := ⟨"set-cookie", by decide, by decide⟩

def contentType : Name := ⟨"content-type", by decide, by decide⟩

def twoCookies : Grouped Name Value :=
  (Grouped.empty.append setCookie ⟨[97], by decide⟩).append setCookie ⟨[98], by decide⟩

def oneCookie : Grouped Name Value := Grouped.empty.append setCookie ⟨[97], by decide⟩

/-- What axum gives a body of bytes: content-type application/octet-stream. -/
def octetStream : Grouped Name Value :=
  Grouped.empty.insert contentType
    ⟨"application/octet-stream".toList.map (UInt8.ofNat ·.toNat), by decide⟩

def enqueued (headers : Grouped Name Value) : Option HttpRequest :=
  enqueueRequest plainHttp (fun _ => false) true "uuid" "something.localhost"
    ("127.0.0.1", 50000) "GET" "/" headers []

/-- The repeated name loses a value in both directions, and a response without
content-type comes back with one. -/
theorem second_cookie_lost :
    (∃ sent built, enqueued twoCookies = some sent ∧
      localRequest plainHttp (fun _ => some ⟨none, 8080⟩) sent = .ok built ∧
      built.headers.getAll setCookie ≠ twoCookies.getAll setCookie) ∧
    (∃ sent forwarded, responseData plainHttp ⟨200, twoCookies, .ok []⟩ = .ok sent ∧
      forwardData plainHttp octetStream sent = some forwarded ∧
      forwarded.headers.getAll setCookie ≠ twoCookies.getAll setCookie ∧
      forwarded.headers.getAll contentType ≠ twoCookies.getAll contentType) :=
  ⟨⟨_, _, rfl, rfl, by decide⟩, ⟨_, _, rfl, rfl, by decide, by decide⟩⟩

theorem single_cookie_survives :
    ∃ sent built, enqueued oneCookie = some sent ∧
      localRequest plainHttp (fun _ => some ⟨none, 8080⟩) sent = .ok built ∧
      ∀ n, built.headers.getAll n = oneCookie.getAll n := by
  obtain ⟨sent, hs⟩ : ∃ sent, enqueued oneCookie = some sent := ⟨_, rfl⟩
  obtain ⟨built, hb⟩ : ∃ built,
      localRequest plainHttp (fun _ => some ⟨none, 8080⟩) sent = .ok built := by
    obtain rfl := Option.some.inj hs
    exact ⟨_, rfl⟩
  refine ⟨sent, built, hs, hb, ?_⟩
  apply ((headers_survive_iff plainHttp).1 hs (List.Perm.refl _) hb).mpr
  intro n
  rw [oneCookie, Grouped.getAll_append]
  split <;> simp

end Concrete

end HeaderSurvival
