import Nport.HttpOpen

/-! The grammar of hostnames: labels of letters, digits and hyphens with single dots between
them. hostname::is_valid rules strings out by four conditions on characters and pieces; what
it leaves is exactly the language of the grammar. -/
namespace HostnameGrammar

open HttpOpen (isInvalidLabel isValid isValidChar_ascii len len_of_ascii)
open Separated

def isLabelChar (c : Char) : Bool := c.isAlphanum || c == '-'

/-- 1 to 63 letters, digits and hyphens, no hyphen first or last. -/
structure IsLabel (l : List Char) : Prop where
  chars : ∀ c ∈ l, isLabelChar c = true
  length : 1 ≤ l.length ∧ l.length ≤ 63
  first : l.head? ≠ some '-'
  last : l.getLast? ≠ some '-'

/-- Labels with dots between them, in at most 253 bytes. -/
structure IsHostname (s : String) : Prop where
  labels : Joined '.' IsLabel s.toList
  bytes : s.utf8ByteSize ≤ 253

theorem IsLabel.no_dot {l : List Char} (h : IsLabel l) : '.' ∉ l := by
  intro hdot
  have hc := h.chars '.' hdot
  revert hc
  decide

theorem utf8ByteSize_ofList (l : List Char) : (String.ofList l).utf8ByteSize = len l := by
  induction l with
  | nil => rfl
  | cons c l ih =>
    have hsplit : String.ofList (c :: l) = String.singleton c ++ String.ofList l := by
      rw [String.singleton_eq_ofList, ← String.ofList_append]
      rfl
    rw [hsplit, String.utf8ByteSize_append, String.utf8ByteSize_singleton, ih]
    rfl

theorem isLabel_iff {l : List Char} (hdot : '.' ∉ l) :
    IsLabel l ↔ (∀ c ∈ l, HttpOpen.isValidChar c = true) ∧ isInvalidLabel l = false := by
  have hchars : (∀ c ∈ l, isLabelChar c = true) ↔ ∀ c ∈ l, HttpOpen.isValidChar c = true := by
    refine forall₂_congr fun c hc => ?_
    have hne : c ≠ '.' := fun he => hdot (he ▸ hc)
    simp [HttpOpen.isValidChar, isLabelChar, hne]
  have hinvalid (hvalid : ∀ c ∈ l, HttpOpen.isValidChar c = true) : isInvalidLabel l = false ↔
      (1 ≤ l.length ∧ l.length ≤ 63) ∧ l.head? ≠ some '-' ∧ l.getLast? ≠ some '-' := by
    rw [isInvalidLabel, len_of_ascii fun c hc => isValidChar_ascii (hvalid c hc)]
    simp only [Bool.or_eq_false_iff, List.isEmpty_eq_false_iff, decide_eq_false_iff_not,
      beq_eq_false_iff_ne, ← List.length_pos_iff]
    constructor
    · intro h
      obtain ⟨⟨⟨hpos, hle⟩, hfirst⟩, hlast⟩ := h
      exact ⟨⟨hpos, by omega⟩, hfirst, hlast⟩
    · intro h
      obtain ⟨⟨hpos, hle⟩, hfirst, hlast⟩ := h
      exact ⟨⟨⟨hpos, by omega⟩, hfirst⟩, hlast⟩
  constructor
  · intro h
    have hvalid := hchars.mp h.chars
    exact ⟨hvalid, (hinvalid hvalid).mpr ⟨h.length, h.first, h.last⟩⟩
  · intro h
    obtain ⟨hvalid, hlabel⟩ := h
    obtain ⟨hlength, hfirst, hlast⟩ := (hinvalid hvalid).mp hlabel
    exact ⟨hchars.mpr hvalid, hlength, hfirst, hlast⟩

/-- is_valid takes an empty string for one empty piece; the third condition adds nothing. -/
theorem isValid_eq_true_iff {s : String} : isValid s = true ↔
    (∀ c ∈ s.toList, HttpOpen.isValidChar c = true) ∧
      (∀ piece ∈ s.toList.splitOn '.', isInvalidLabel piece = false) ∧ s.utf8ByteSize ≤ 253 := by
  have hbytes : s.utf8ByteSize = len s.toList := by
    rw [← utf8ByteSize_ofList, String.ofList_toList]
  simp only [isValid, Bool.not_eq_true', Bool.or_eq_false_iff, List.any_eq_false,
    Bool.not_eq_true, Bool.not_eq_false, decide_eq_false_iff_not, not_lt, hbytes,
    List.isEmpty_eq_false_iff]
  constructor
  · intro h
    obtain ⟨⟨⟨hchars, hpieces⟩, _⟩, hlen⟩ := h
    exact ⟨hchars, hpieces, hlen⟩
  · intro h
    obtain ⟨hchars, hpieces, hlen⟩ := h
    refine ⟨⟨⟨hchars, hpieces⟩, ?_⟩, hlen⟩
    intro hnil
    have hempty := hpieces [] (by simp [hnil])
    cases hempty

/-- is_valid accepts exactly the hostnames of the grammar. -/
theorem isValid_iff (s : String) : isValid s = true ↔ IsHostname s := by
  have hpieces : (∀ c ∈ s.toList, HttpOpen.isValidChar c = true) ∧
      (∀ piece ∈ s.toList.splitOn '.', isInvalidLabel piece = false) ↔
        ∀ piece ∈ s.toList.splitOn '.', IsLabel piece := by
    have hdot : HttpOpen.isValidChar '.' = true := by decide
    have hsplit := forall_fields_iff (p := fun c => HttpOpen.isValidChar c = true) hdot s.toList
    rw [hsplit, ← forall₂_and]
    exact forall₂_congr fun piece hp => (isLabel_iff (not_mem_of_mem_splitOn hp)).symm
  rw [isValid_eq_true_iff, ← and_assoc, hpieces, ← joined_iff fun _ hl => hl.no_dot]
  exact ⟨fun ⟨hlabels, hbytes⟩ => ⟨hlabels, hbytes⟩, fun h => ⟨h.labels, h.bytes⟩⟩

end HostnameGrammar
