import Nport.AddrText

/-! Parsers of addresses that do what the codecs rely on: an IPv6 address is printed with all
eight groups, as the standard library prints one without a run of zeros. -/
namespace PlainNet

open UriSyntax (isHexDigit isAddressChar)
open LocalUrl (parseU16)
open AddrText

/-! Numbers in hexadecimal. -/

def hexDigitValue (c : Char) : ℕ :=
  if c.isDigit then c.toNat - '0'.toNat else c.toNat - 'a'.toNat + 10

def hexValue (l : List Char) : ℕ := l.foldl (fun value c => 16 * value + hexDigitValue c) 0

theorem digitChar_hex {d : ℕ} (h : d < 16) :
    hexDigitValue d.digitChar = d ∧ isHexDigit d.digitChar = true := by
  have hall : ∀ d : Fin 16, hexDigitValue d.val.digitChar = d.val ∧
      isHexDigit d.val.digitChar = true := by decide
  exact hall ⟨d, h⟩

theorem hexValue_toDigits (n : ℕ) : hexValue (Nat.toDigits 16 n) = n := by
  induction n using Nat.strong_induction_on with
  | _ n ih =>
    by_cases hn : n < 16
    · rw [Nat.toDigits_of_lt_base hn]
      simp [hexValue, (digitChar_hex hn).1]
    · have hrest := ih (n / 16) (by omega)
      have hlast := (digitChar_hex (d := n % 16) (by omega)).1
      rw [Nat.toDigits_of_base_le (by omega) (by omega), hexValue, List.foldl_append]
      rw [hexValue] at hrest
      simp only [List.foldl_cons, List.foldl_nil, hrest, hlast]
      omega

theorem toDigits_hex {n : ℕ} {c : Char} (h : c ∈ Nat.toDigits 16 n) : isHexDigit c = true := by
  induction n using Nat.strong_induction_on with
  | _ n ih =>
    by_cases hn : n < 16
    · rw [Nat.toDigits_of_lt_base hn, List.mem_singleton] at h
      exact h ▸ (digitChar_hex hn).2
    · rw [Nat.toDigits_of_base_le (by omega) (by omega)] at h
      rcases List.mem_append.mp h with h | h
      · exact ih (n / 16) (by omega) h
      · rw [List.mem_singleton] at h
        exact h ▸ (digitChar_hex (by omega)).2

/-! Addresses. -/

def readBack {α : Type*} (print : α → String) (candidate : Option α) (s : String) : Option α :=
  candidate.filter fun a => print a == s

theorem readBack_eq_some_iff {α : Type*} {print : α → String} {candidate : Option α} {s : String}
    {a : α} : readBack print candidate s = some a ↔ candidate = some a ∧ print a = s := by
  simp [readBack, Option.filter_eq_some_iff]

def toVector {α : Type*} (n : ℕ) (l : List α) : Option (Vector α n) :=
  if h : l.length = n then some ⟨l.toArray, h⟩ else none

theorem toVector_toList {α : Type*} {n : ℕ} (v : Vector α n) : toVector n v.toList = some v := by
  rw [toVector, dif_pos (by simp)]
  exact congrArg some (Vector.toArray_inj.mp Array.toArray_toList)

def readIpv4 (s : String) : Option Ipv4Addr :=
  readBack Ipv4Addr.text ((toVector 4 ((s.toList.splitOn '.').map fun field =>
    (Nat.ofDigitChars 10 field 0).toUInt8)).map Ipv4Addr.mk) s

def groups (addr : Ipv6Addr) : List (List Char) :=
  addr.segments.toList.map fun n => Nat.toDigits 16 n.toNat

def ipv6Text (addr : Ipv6Addr) : String := String.ofList ([':'].intercalate (groups addr))

def readIpv6 (s : String) : Option Ipv6Addr :=
  readBack ipv6Text ((toVector 8 ((s.toList.splitOn ':').map fun group =>
    (hexValue group).toUInt16)).map Ipv6Addr.mk) s

theorem readIpv4_text (addr : Ipv4Addr) : readIpv4 addr.text = some addr := by
  rw [readIpv4, readBack_eq_some_iff, Ipv4Addr.splitOn_text]
  refine ⟨?_, rfl⟩
  have hoctets : (addr.fields.map fun field => (Nat.ofDigitChars 10 field 0).toUInt8) =
      addr.octets.toList := by
    rw [Ipv4Addr.fields, List.map_map]
    refine (List.map_congr_left fun n _ => ?_).trans (List.map_id _)
    simp [Nat.toList_repr]
  rw [hoctets, toVector_toList]
  rfl

theorem group_hex {addr : Ipv6Addr} {group : List Char} (h : group ∈ groups addr) :
    ∀ c ∈ group, isHexDigit c = true := by
  obtain ⟨n, _, rfl⟩ := List.mem_map.mp h
  exact fun c hc => toDigits_hex hc

theorem splitOn_ipv6Text (addr : Ipv6Addr) : (ipv6Text addr).toList.splitOn ':' = groups addr := by
  rw [ipv6Text, String.toList_ofList]
  refine List.splitOn_intercalate ':' (fun group hg hm => ?_) ?_
  · exact absurd (group_hex hg ':' hm) (by decide)
  · intro hnil
    have hlen := congrArg List.length hnil
    simp [groups] at hlen

theorem readIpv6_text (addr : Ipv6Addr) : readIpv6 (ipv6Text addr) = some addr := by
  rw [readIpv6, readBack_eq_some_iff, splitOn_ipv6Text]
  refine ⟨?_, rfl⟩
  have hsegments : ((groups addr).map fun group => (hexValue group).toUInt16) =
      addr.segments.toList := by
    rw [groups, List.map_map]
    refine (List.map_congr_left fun n _ => ?_).trans (List.map_id _)
    simp [hexValue_toDigits]
  rw [hsegments, toVector_toList]
  rfl

theorem ipv6Text_chars (addr : Ipv6Addr) :
    ∀ c ∈ (ipv6Text addr).toList, isAddressChar c = true := by
  have hcolon : isAddressChar ':' = true := by decide
  apply (Separated.forall_fields_iff (p := fun c => isAddressChar c = true) hcolon
    (ipv6Text addr).toList).mpr
  rw [splitOn_ipv6Text]
  intro group hg c hc
  exact UriSyntax.isAddressChar_of_isHexDigit (group_hex hg c hc)

theorem two_colons (addr : Ipv6Addr) : 2 ≤ (ipv6Text addr).toList.count ':' := by
  have hlen : (groups addr).length = 8 := by simp [groups]
  have hcount := Separated.length_le_count_intercalate ':' (groups addr)
  rw [ipv6Text, String.toList_ofList]
  omega

/-! IpAddr::from_str and SocketAddr::from_str. -/

def parseIp (s : String) : Option IpAddr :=
  ((readIpv4 s).map .v4).or ((readIpv6 s).map .v6)

theorem readIpv4_eq_some {s : String} {addr : Ipv4Addr} (h : readIpv4 s = some addr) :
    s = addr.text :=
  (readBack_eq_some_iff.mp h).2.symm

theorem readIpv6_eq_some {s : String} {addr : Ipv6Addr} (h : readIpv6 s = some addr) :
    s = ipv6Text addr :=
  (readBack_eq_some_iff.mp h).2.symm

theorem parseIp_v4 {s : String} {addr : Ipv4Addr} (h : parseIp s = some (.v4 addr)) :
    s = addr.text := by
  unfold parseIp at h
  cases h4 : readIpv4 s with
  | none => simp [h4] at h
  | some a =>
    obtain rfl : a = addr := by simpa [h4] using h
    exact readIpv4_eq_some h4

theorem parseIp_v6 {s : String} {addr : Ipv6Addr} (h : parseIp s = some (.v6 addr)) :
    s = ipv6Text addr := by
  unfold parseIp at h
  cases h4 : readIpv4 s with
  | some a => simp [h4] at h
  | none =>
    cases h6 : readIpv6 s with
    | none => simp [h4, h6] at h
    | some a =>
      obtain rfl : a = addr := by simpa [h4, h6] using h
      exact readIpv6_eq_some h6

theorem readIpv4_ipv6Text (addr : Ipv6Addr) : readIpv4 (ipv6Text addr) = none := by
  cases h : readIpv4 (ipv6Text addr) with
  | none => rfl
  | some ip =>
    have hcolon : ':' ∈ (ipv6Text addr).toList :=
      List.count_pos_iff.mp (by have htwo := two_colons addr; omega)
    rw [readIpv4_eq_some h] at hcolon
    exact absurd hcolon ip.colon_not_mem

theorem parseIp_text (ip : IpAddr) : parseIp (ipText ipv6Text ip) = some ip := by
  cases ip with
  | v4 addr => simp [parseIp, ipText, readIpv4_text]
  | v6 addr => simp [parseIp, ipText, readIpv4_ipv6Text, readIpv6_text]

def cutBrackets : List Char → Option (List Char × List Char)
  | '[' :: rest => some (rest.takeWhile (· ≠ ']'), (rest.dropWhile (· ≠ ']')).tail)
  | _ => none

def readPort (digits : List Char) : Option UInt16 :=
  if digits.head? = some '+' then none else parseU16 digits

def parseSocketAddr (s : String) : Option SocketAddr :=
  match cutBrackets s.toList with
  | some (literal, ':' :: digits) =>
    match readIpv6 (String.ofList literal), readPort digits with
    | some ip, some port => some ⟨.v6 ip, port⟩
    | _, _ => none
  | some _ => none
  | none =>
    match s.toList.splitOn ':' with
    | [host, digits] =>
      match readIpv4 (String.ofList host), readPort digits with
      | some ip, some port => some ⟨.v4 ip, port⟩
      | _, _ => none
    | _ => none

theorem readPort_repr (port : UInt16) : readPort port.toNat.repr.toList = some port := by
  rw [readPort, if_neg (LocalUrl.repr_head_ne _), LocalUrl.parseU16_repr]

theorem readPort_eq_some {digits : List Char} {port : UInt16} (h : readPort digits = some port) :
    parseU16 digits = some port := by
  unfold readPort at h
  split at h
  · cases h
  · exact h

theorem cutBrackets_name {l : List Char} (h : '[' ∉ l) : cutBrackets l = none := by
  cases l with
  | nil => rfl
  | cons c rest =>
    have hne : c ≠ '[' := by
      rintro rfl
      exact h List.mem_cons_self
    simp [cutBrackets, hne]

theorem cutBrackets_literal {literal after : List Char} (h : ']' ∉ literal) :
    cutBrackets ('[' :: (literal ++ ']' :: after)) = some (literal, after) := by
  have hall := UriSyntax.forall_ne_of_not_mem h
  rw [cutBrackets, List.takeWhile_append_of_pos hall, List.dropWhile_append_of_pos hall]
  simp

theorem cutBrackets_sublist {l literal after : List Char}
    (h : cutBrackets l = some (literal, after)) : literal.Sublist l := by
  cases l with
  | nil => cases h
  | cons c rest =>
    by_cases hc : c = '['
    · subst hc
      obtain ⟨rfl, _⟩ := Prod.mk.inj (Option.some.inj h)
      exact (List.takeWhile_sublist _).cons _
    · simp [cutBrackets, hc] at h

theorem parseSocketAddr_text (addr : SocketAddr) :
    parseSocketAddr (socketText ipv6Text addr) = some addr := by
  obtain ⟨ip, port⟩ := addr
  have hcolon : ':' ∉ port.toNat.repr.toList := LocalUrl.colon_not_mem_repr _
  cases ip with
  | v4 ip =>
    have htext : (ip.text ++ ":" ++ port.toNat.repr).toList =
        ip.text.toList ++ ':' :: port.toNat.repr.toList := by simp
    have hname : '[' ∉ (ip.text ++ ":" ++ port.toNat.repr).toList := by
      rw [htext]
      intro hm
      rcases List.mem_append.mp hm with hm | hm
      · exact absurd (Ipv4Addr.text_chars '[' hm) (by decide)
      · rcases List.mem_cons.mp hm with hm | hm
        · exact absurd hm (by decide)
        · exact absurd (LocalUrl.isDigit_of_mem_repr hm) (by decide)
    simp only [socketText, parseSocketAddr, cutBrackets_name hname]
    rw [htext, List.splitOn_append_cons_self_of_not_mem ip.colon_not_mem,
      List.splitOn_eq_singleton hcolon]
    simp only [String.ofList_toList, readIpv4_text, readPort_repr]
  | v6 ip =>
    have htext : ("[" ++ ipv6Text ip ++ "]" ++ ":" ++ port.toNat.repr).toList =
        '[' :: ((ipv6Text ip).toList ++ ']' :: (':' :: port.toNat.repr.toList)) := by simp
    have hbracket : ']' ∉ (ipv6Text ip).toList := fun hm =>
      absurd (ipv6Text_chars ip ']' hm) (by decide)
    simp only [socketText, parseSocketAddr]
    rw [htext, cutBrackets_literal hbracket]
    simp only [String.ofList_toList, readIpv6_text, readPort_repr]

theorem parseSocketAddr_v4 {s : String} {addr : Ipv4Addr} {port : UInt16}
    (h : parseSocketAddr s = some ⟨.v4 addr, port⟩) :
    ∃ digits, s = addr.text ++ ":" ++ digits ∧ parseU16 digits.toList = some port := by
  unfold parseSocketAddr at h
  split at h
  · split at h <;> cases h
  · cases h
  · split at h
    · next host digits hsplit =>
      split at h
      · next ip port' hip hport =>
        cases h
        refine ⟨String.ofList digits, ?_, ?_⟩
        · have hjoin : [':'].intercalate (s.toList.splitOn ':') = s.toList :=
            List.intercalate_splitOn ':'
          rw [hsplit] at hjoin
          rw [← readIpv4_eq_some hip, ← String.toList_inj, ← hjoin]
          simp
        · rw [String.toList_ofList]
          exact readPort_eq_some hport
      · cases h
    · cases h

theorem parseSocketAddr_v6 {s : String} {addr : Ipv6Addr} {port : UInt16}
    (h : parseSocketAddr s = some ⟨.v6 addr, port⟩) : 2 ≤ s.toList.count ':' := by
  unfold parseSocketAddr at h
  split at h
  · next literal digits hcut =>
    split at h
    · next ip port' hip hport =>
      have htwo := two_colons ip
      have hcount := (cutBrackets_sublist hcut).count_le ':'
      rw [← readIpv6_eq_some hip, String.toList_ofList] at htwo
      exact htwo.trans hcount
    · cases h
  · cases h
  · split at h
    · split at h <;> cases h
    · cases h

def plainNet : NetLib where
  ipv6Text := ipv6Text
  parseIp := parseIp
  parseSocketAddr := parseSocketAddr
  parseIp_text := parseIp_text
  parseIp_v4 _ _ := parseIp_v4
  parseIp_v6 s addr h := by
    rw [parseIp_v6 h]
    exact ⟨two_colons addr, ipv6Text_chars addr⟩
  parseSocketAddr_text := parseSocketAddr_text
  parseSocketAddr_v4 _ _ _ := parseSocketAddr_v4
  parseSocketAddr_v6 _ _ _ := parseSocketAddr_v6

end PlainNet
