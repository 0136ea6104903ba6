import Mathlib.Data.List.DropRight

/-! The generic syntax of a URI, from the authority on: where the authority ends, what of it
is the host and what the port, and which texts are an authority at all. -/
namespace UriSyntax

def isDelimiter (c : Char) : Bool := c = '/' || c = '?' || c = '#'

def authority (l : List Char) : List Char := l.takeWhile fun c => !isDelimiter c

def afterAuthority (l : List Char) : List Char := l.dropWhile fun c => !isDelimiter c

def path (l : List Char) : List Char :=
  (afterAuthority l).takeWhile fun c => !(c = '?' || c = '#')

def query (l : List Char) : Option (List Char) :=
  match (afterAuthority l).dropWhile fun c => !(c = '?' || c = '#') with
  | '?' :: rest => some (rest.takeWhile (· ≠ '#'))
  | _ => none

def afterUserinfo (a : List Char) : List Char := a.rtakeWhile (· ≠ '@')

def hostOf (a : List Char) : List Char :=
  if a.head? = some '[' then
    a.takeWhile (· ≠ ']') ++ (a.dropWhile (· ≠ ']')).take 1
  else a.takeWhile (· ≠ ':')

def portText (a : List Char) : Option (List Char) :=
  if ':' ∈ a then some (a.rtakeWhile (· ≠ ':')) else none

/-- A host that a colon can follow: it has none outside the brackets of an IP literal. -/
def PlainHost (host : List Char) : Prop :=
  (host.head? ≠ some '[' ∧ ':' ∉ host) ∨
    (host.head? = some '[' ∧ ∃ inner, host = inner ++ [']'] ∧ ']' ∉ inner)

theorem takeWhile_append_of_mem {α : Type*} {p : α → Bool} {a b : List α}
    (h : ∃ x ∈ a, p x = false) : (a ++ b).takeWhile p = a.takeWhile p := by
  induction a with
  | nil => simp at h
  | cons y a ih =>
    obtain ⟨x, hx, hp⟩ := h
    cases hy : p y with
    | false => simp [hy]
    | true =>
      have hx : x ∈ a := by
        rcases List.mem_cons.mp hx with rfl | hx
        · rw [hy] at hp
          cases hp
        · exact hx
      simp [hy, ih ⟨x, hx, hp⟩]

theorem rtakeWhile_append_of_mem {α : Type*} {p : α → Bool} {a b : List α}
    (h : ∃ x ∈ b, p x = false) : (a ++ b).rtakeWhile p = b.rtakeWhile p := by
  obtain ⟨x, hx, hp⟩ := h
  rw [List.rtakeWhile, List.reverse_append,
    takeWhile_append_of_mem ⟨x, List.mem_reverse.mpr hx, hp⟩, List.rtakeWhile]

theorem forall_ne_of_not_mem {l : List Char} {x : Char} (h : x ∉ l) :
    ∀ c ∈ l, decide (c ≠ x) = true := by
  intro c hc
  have hne : c ≠ x := by
    rintro rfl
    exact h hc
  simpa using hne

section Authority

variable {a b l host rest : List Char}

theorem not_delimiter_of_mem_authority {c : Char} (h : c ∈ authority l) :
    isDelimiter c = false := by
  simpa using List.mem_takeWhile_imp h

theorem authority_append (h : ∀ c ∈ a, isDelimiter c = false) :
    authority (a ++ b) = a ++ authority b :=
  List.takeWhile_append_of_pos (by simpa using h)

theorem authority_of_slash : authority ('/' :: l) = [] := rfl

theorem afterAuthority_append (h : ∀ c ∈ a, isDelimiter c = false) :
    afterAuthority (a ++ b) = afterAuthority b :=
  List.dropWhile_append_of_pos (by simpa using h)

theorem afterUserinfo_eq_self (h : '@' ∉ a) : afterUserinfo a = a :=
  List.rtakeWhile_eq_self_iff.mpr (forall_ne_of_not_mem h)

theorem afterUserinfo_append (h : '@' ∈ b) : afterUserinfo (a ++ b) = afterUserinfo b :=
  rtakeWhile_append_of_mem ⟨'@', h, by simp⟩

theorem not_mem_afterUserinfo : '@' ∉ afterUserinfo a := by
  intro h
  simpa using List.mem_rtakeWhile_imp h

theorem mem_of_mem_afterUserinfo {c : Char} (h : c ∈ afterUserinfo a) : c ∈ a :=
  (List.rtakeWhile_suffix _ _).subset h

theorem mem_of_mem_hostOf {c : Char} (h : c ∈ hostOf a) : c ∈ a := by
  unfold hostOf at h
  split at h
  · rcases List.mem_append.mp h with h | h
    · exact (List.takeWhile_prefix _).subset h
    · exact (List.dropWhile_suffix _).subset ((List.take_subset _ _) h)
  · exact (List.takeWhile_prefix _).subset h

theorem portText_append (h : ':' ∈ b) : portText (a ++ b) = portText b := by
  have hm : ':' ∈ a ++ b := List.mem_append_right _ h
  simp only [portText, hm, h, if_true]
  rw [rtakeWhile_append_of_mem ⟨':', h, by simp⟩]

theorem portText_colon (h : ':' ∉ a) : portText (':' :: a) = some a := by
  have hall : ∀ c ∈ a.reverse, decide (c ≠ ':') = true :=
    forall_ne_of_not_mem (mt List.mem_reverse.mp h)
  rw [portText, if_pos (List.mem_cons_self ..), List.rtakeWhile, List.reverse_cons,
    List.takeWhile_append_of_pos hall]
  simp

theorem hostOf_literal {inner : List Char} (hb : (inner ++ ']' :: rest).head? = some '[')
    (hn : ']' ∉ inner) : hostOf (inner ++ ']' :: rest) = inner ++ [']'] := by
  have hall := forall_ne_of_not_mem hn
  rw [hostOf, if_pos hb, List.takeWhile_append_of_pos hall, List.dropWhile_append_of_pos hall]
  simp

theorem hostOf_name (hb : a.head? ≠ some '[') : hostOf a = a.takeWhile (· ≠ ':') := by
  rw [hostOf, if_neg hb]

theorem hostOf_literal_colon (hb : (host ++ ':' :: rest).head? = some '[') :
    hostOf (host ++ ':' :: rest) = host ↔ ∃ inner, host = inner ++ [']'] ∧ ']' ∉ inner := by
  by_cases hc : ']' ∈ host
  · obtain ⟨inner, after, rfl, hn⟩ := List.eq_append_cons_of_mem hc
    rw [List.append_assoc, List.cons_append] at hb ⊢
    rw [hostOf_literal hb hn]
    constructor
    · intro h
      obtain rfl : after = [] := by simpa using h
      exact ⟨inner, rfl, hn⟩
    · rintro ⟨inner', heq, hn'⟩
      have hlast : after = [] := by
        rcases List.eq_nil_or_concat after with rfl | ⟨init, x, rfl⟩
        · rfl
        · have hin : ']' ∈ inner' := by
            rw [List.concat_eq_append, ← List.cons_append, ← List.append_assoc] at heq
            rw [← (List.append_inj' heq rfl).1]
            simp
          exact absurd hin hn'
      rw [hlast]
  · constructor
    · intro h
      rw [hostOf, if_pos hb, List.takeWhile_append_of_pos (forall_ne_of_not_mem hc)] at h
      simp at h
    · rintro ⟨inner, rfl, _⟩
      simp at hc

theorem hostOf_name_colon (hb : (host ++ ':' :: rest).head? ≠ some '[') :
    hostOf (host ++ ':' :: rest) = host ↔ ':' ∉ host := by
  rw [hostOf_name hb]
  constructor
  · intro h hc
    have hmem : ':' ∈ (host ++ ':' :: rest).takeWhile (· ≠ ':') := by rwa [h]
    simpa using List.mem_takeWhile_imp hmem
  · intro hc
    rw [List.takeWhile_append_of_pos (forall_ne_of_not_mem hc)]
    simp

theorem hostOf_append_colon : hostOf (host ++ ':' :: rest) = host ↔ PlainHost host := by
  have hhead : (host ++ ':' :: rest).head? = some '[' ↔ host.head? = some '[' := by
    cases host <;> simp
  by_cases hb : host.head? = some '['
  · rw [hostOf_literal_colon (hhead.mpr hb)]
    simp [PlainHost, hb]
  · rw [hostOf_name_colon (mt hhead.mp hb)]
    simp [PlainHost, hb]

end Authority

/-! The grammar of an authority, as far as its hosts go. -/

def isHexDigit (c : Char) : Bool :=
  c.isDigit || ('a' ≤ c && c ≤ 'f') || ('A' ≤ c && c ≤ 'F')

/-- Unreserved characters and sub-delimiters; 39 is the apostrophe. -/
def isNameChar (c : Char) : Bool :=
  c.isAlphanum || c ∈ ['-', '.', '_', '~', '!', '$', '&', '(', ')', '*', '+', ',', ';', '='] ||
    c.toNat = 39

inductive IsEncoded (allowed : Char → Bool) : List Char → Prop where
  | nil : IsEncoded allowed []
  | char {c l} : allowed c = true → IsEncoded allowed l → IsEncoded allowed (c :: l)
  | encoded {a b l} : isHexDigit a = true → isHexDigit b = true → IsEncoded allowed l →
      IsEncoded allowed ('%' :: a :: b :: l)

def IsOctet (l : List Char) : Prop :=
  l ≠ [] ∧ l.length ≤ 3 ∧ (∀ c ∈ l, c.isDigit = true) ∧ Nat.ofDigitChars 10 l 0 < 256

def IsIPv4 (l : List Char) : Prop :=
  ∃ a b c d, IsOctet a ∧ IsOctet b ∧ IsOctet c ∧ IsOctet d ∧
    l = a ++ '.' :: b ++ '.' :: c ++ '.' :: d

def IsGroup (l : List Char) : Prop :=
  l ≠ [] ∧ l.length ≤ 4 ∧ ∀ c ∈ l, isHexDigit c = true

/-- Groups with colons between them; the last two may be written as an IPv4 address. -/
inductive IsGroups (mixed : Bool) : ℕ → List Char → Prop where
  | one {g} : IsGroup g → IsGroups mixed 1 g
  | ipv4 {l} : mixed = true → IsIPv4 l → IsGroups mixed 2 l
  | cons {g n l} : IsGroup g → IsGroups mixed n l → IsGroups mixed (n + 1) (g ++ ':' :: l)

def IsSide (mixed : Bool) (n : ℕ) (l : List Char) : Prop :=
  (n = 0 ∧ l = []) ∨ IsGroups mixed n l

/-- All eight groups, or a double colon for one or more of them. -/
inductive IsIPv6 : List Char → Prop where
  | full {l} : IsGroups true 8 l → IsIPv6 l
  | short {m n a b} : IsSide false m a → IsSide true n b → m + n ≤ 7 →
      IsIPv6 (a ++ ':' :: ':' :: b)

inductive IsHost : List Char → Prop where
  | name {l} : IsEncoded isNameChar l → IsHost l
  | literal {l} : IsIPv6 l → IsHost ('[' :: l ++ [']'])

def IsAuthority (a : List Char) : Prop :=
  ∃ userinfo host port, IsHost host ∧
    (userinfo = [] ∨ ∃ user, userinfo = user ++ ['@'] ∧
      IsEncoded (fun c => isNameChar c || c = ':') user) ∧
    (port = [] ∨ ∃ digits, port = ':' :: digits ∧ ∀ c ∈ digits, c.isDigit = true) ∧
    a = userinfo ++ host ++ port

theorem isAuthority_of_host {host digits : List Char} (h : IsHost host)
    (hd : ∀ c ∈ digits, c.isDigit = true) : IsAuthority (host ++ ':' :: digits) :=
  ⟨[], host, ':' :: digits, h, Or.inl rfl, Or.inr ⟨digits, rfl, hd⟩, rfl⟩

theorem isEncoded_of_forall {allowed : Char → Bool} {l : List Char}
    (h : ∀ c ∈ l, allowed c = true) : IsEncoded allowed l := by
  induction l with
  | nil => exact .nil
  | cons c l ih => exact .char (h c (by simp)) (ih fun x hx => h x (by simp [hx]))

theorem isHexDigit_of_isDigit {c : Char} (h : c.isDigit = true) : isHexDigit c = true := by
  simp [isHexDigit, h]

def isAddressChar (c : Char) : Bool := isHexDigit c || c = ':' || c = '.'

theorem isAddressChar_of_isHexDigit {c : Char} (h : isHexDigit c = true) :
    isAddressChar c = true := by
  simp [isAddressChar, h]

theorem IsIPv4.chars {l : List Char} (h : IsIPv4 l) :
    ∀ c ∈ l, c.isDigit = true ∨ c = '.' := by
  obtain ⟨a, b, c, d, ⟨_, _, ha, _⟩, ⟨_, _, hb, _⟩, ⟨_, _, hc, _⟩, ⟨_, _, hd, _⟩, rfl⟩ := h
  intro x hx
  simp only [List.mem_append, List.mem_cons] at hx
  rcases hx with ((hx | hx | hx) | hx | hx) | hx | hx
  · exact Or.inl (ha x hx)
  · exact Or.inr hx
  · exact Or.inl (hb x hx)
  · exact Or.inr hx
  · exact Or.inl (hc x hx)
  · exact Or.inr hx
  · exact Or.inl (hd x hx)

theorem IsGroups.chars {mixed : Bool} {n : ℕ} {l : List Char} (h : IsGroups mixed n l) :
    ∀ c ∈ l, isAddressChar c = true := by
  induction h with
  | one hg =>
    intro c hc
    exact isAddressChar_of_isHexDigit (hg.2.2 c hc)
  | ipv4 _ hl =>
    intro c hc
    rcases hl.chars c hc with hd | rfl
    · exact isAddressChar_of_isHexDigit (isHexDigit_of_isDigit hd)
    · rfl
  | cons hg _ ih =>
    intro c hc
    rcases List.mem_append.mp hc with hc | hc
    · exact isAddressChar_of_isHexDigit (hg.2.2 c hc)
    · rcases List.mem_cons.mp hc with rfl | hc
      · rfl
      · exact ih c hc

theorem IsSide.chars {mixed : Bool} {n : ℕ} {l : List Char} (h : IsSide mixed n l) :
    ∀ c ∈ l, isAddressChar c = true := by
  rcases h with ⟨_, rfl⟩ | h
  · simp
  · exact h.chars

theorem IsIPv6.chars {l : List Char} (h : IsIPv6 l) : ∀ c ∈ l, isAddressChar c = true := by
  cases h with
  | full h => exact h.chars
  | short ha hb _ =>
    intro c hc
    simp only [List.mem_append, List.mem_cons] at hc
    rcases hc with hc | rfl | rfl | hc
    · exact ha.chars c hc
    · rfl
    · rfl
    · exact hb.chars c hc

theorem IsGroups.colons {mixed : Bool} {n : ℕ} {l : List Char} (h : IsGroups mixed n l) :
    n ≤ l.count ':' + 2 := by
  induction h with
  | one => omega
  | ipv4 => omega
  | cons _ _ ih =>
    rw [List.count_append, List.count_cons_self]
    omega

theorem IsIPv6.colons {l : List Char} (h : IsIPv6 l) : 2 ≤ l.count ':' := by
  cases h with
  | full h =>
    have hcount := h.colons
    omega
  | short =>
    rw [List.count_append, List.count_cons_self, List.count_cons_self]
    omega

theorem IsIPv6.colon {l : List Char} (h : IsIPv6 l) : ':' ∈ l := by
  have htwo := h.colons
  exact List.count_pos_iff.mp (by omega)

theorem not_delimiter_of {allowed : Char → Bool} {c : Char} (h : allowed c = true)
    (hs : allowed '/' = false ∧ allowed '?' = false ∧ allowed '#' = false) :
    isDelimiter c = false := by
  by_contra hd
  simp only [isDelimiter, Bool.or_eq_true, decide_eq_true_eq, Bool.not_eq_false] at hd
  rcases hd with (rfl | rfl) | rfl
  · simp [h] at hs
  · simp [h] at hs
  · simp [h] at hs

theorem IsEncoded.not_mem {allowed : Char → Bool} {l : List Char} (h : IsEncoded allowed l)
    {c : Char} (hc : allowed c = false) (hx : isHexDigit c = false) (hp : c ≠ '%') : c ∉ l := by
  induction h with
  | nil => simp
  | @char d _ ha _ ih =>
    have hne : c ≠ d := by
      rintro rfl
      simp [hc] at ha
    simp [hne, ih]
  | @encoded a b _ ha hb _ ih =>
    have hna : c ≠ a := by
      rintro rfl
      simp [hx] at ha
    have hnb : c ≠ b := by
      rintro rfl
      simp [hx] at hb
    simp [hp, hna, hnb, ih]

/-- An IPv6 address without its brackets cannot have a port. -/
theorem IsIPv6.not_authority {l digits : List Char} (h : IsIPv6 l)
    (hd : ∀ c ∈ digits, c.isDigit = true) : ¬ IsAuthority (l ++ ':' :: digits) := by
  have hchars : ∀ c ∈ l ++ ':' :: digits, isAddressChar c = true := by
    intro c hc
    rcases List.mem_append.mp hc with hc | hc
    · exact h.chars c hc
    · rcases List.mem_cons.mp hc with rfl | hc
      · rfl
      · exact isAddressChar_of_isHexDigit (isHexDigit_of_isDigit (hd c hc))
  have habsent (c : Char) (hc : isAddressChar c = false) : c ∉ l ++ ':' :: digits := by
    intro hm
    rw [hchars c hm] at hc
    cases hc
  rintro ⟨userinfo, host, port, hhost, huser, hport, heq⟩
  -- without an @ there is no userinfo
  obtain rfl : userinfo = [] := by
    rcases huser with rfl | ⟨user, rfl, _⟩
    · rfl
    · refine absurd ?_ (habsent '@' (by decide))
      simp [heq]
  cases hhost with
  | literal =>
    refine absurd ?_ (habsent '[' (by decide))
    simp [heq]
  | name hname =>
    -- one colon at most, in front of the port
    have hnone : host.count ':' = 0 :=
      List.count_eq_zero.mpr (hname.not_mem (by decide) (by decide) (by decide))
    have hone : port.count ':' ≤ 1 := by
      rcases hport with rfl | ⟨digits', rfl, hd'⟩
      · simp
      · have hzero : digits'.count ':' = 0 := by
          refine List.count_eq_zero.mpr fun hm => ?_
          have hcolon := hd' ':' hm
          revert hcolon
          decide
        rw [List.count_cons_self, hzero]
    have hcount := congrArg (List.count ':') heq
    have htwo := h.colons
    rw [List.nil_append, List.count_append, List.count_append, List.count_cons_self] at hcount
    omega

theorem not_delimiter_of_isAddressChar {c : Char} (h : isAddressChar c = true) :
    isDelimiter c = false :=
  not_delimiter_of h (by decide)

theorem not_delimiter_of_isNameChar {c : Char} (h : isNameChar c = true) :
    isDelimiter c = false :=
  not_delimiter_of h (by decide)

end UriSyntax
