import Nport.Multimap
import Nport.Separated

/-! The variable OTEL_OTLP_HEADERS, key1=value1,key2=value2, as main reads it: it cuts the text
at each comma, and takes the first two pieces between equals signs for a key and its value. -/
namespace OtlpHeaders

open Multimap

/-- The field of Config; without the variable it has its default. -/
structure Config where
  otelOtlpHeaders : String := ""

def Config.initFromEnv (var : Option String) : Config :=
  match var with
  | some text => ⟨text⟩
  | none => {}

def split (sep : Char) (s : String) : List String := (s.toList.splitOn sep).map String.ofList

/-- One header; none is the panic of expect("invalid header format"). -/
def header (s : String) : Option (String × String) :=
  match split '=' s with
  | key :: value :: _ => some (key, value)
  | _ => none

/-- The map main hands to opentelemetry::new. -/
def opentelemetryHeaders (config : Config) : Option (Unique String String) :=
  ((split ',' config.otelOtlpHeaders).mapM header).map collect

/-- A finite map from keys to values that can be written in the variable, as its entries in
some order. -/
structure Headers where
  entries : List (String × String)
  distinct : (entries.map Prod.fst).Nodup
  keys : ∀ e ∈ entries, e.1 ≠ "" ∧ '=' ∉ e.1.toList ∧ ',' ∉ e.1.toList
  values : ∀ e ∈ entries, ',' ∉ e.2.toList

def written (e : String × String) : String := e.1 ++ "=" ++ e.2

def Headers.text (headers : Headers) : String := ",".intercalate (headers.entries.map written)

def ReadBack (headers : Headers) : Prop :=
  ∃ parsed, opentelemetryHeaders ⟨headers.text⟩ = some parsed ∧
    ∀ key value, parsed.lookup key = some value ↔ (key, value) ∈ headers.entries

def cutValue (value : String) : String := String.ofList ((value.toList.splitOn '=').headD [])

theorem cutValue_eq_self_iff {value : String} : cutValue value = value ↔ '=' ∉ value.toList := by
  rw [cutValue, ← String.toList_inj, String.toList_ofList]
  constructor
  · intro h
    obtain ⟨first, rest, hsplit⟩ := List.exists_cons_of_ne_nil
      (List.splitOn_ne_nil '=' value.toList)
    rw [hsplit, List.headD_cons] at h
    rw [← h]
    exact Separated.not_mem_of_mem_splitOn (hsplit ▸ List.mem_cons_self)
  · intro h
    rw [List.splitOn_eq_singleton h]
    rfl

theorem header_written {e : String × String} (hkey : '=' ∉ e.1.toList) :
    header (written e) = some (e.1, cutValue e.2) := by
  have hlist : (written e).toList = e.1.toList ++ '=' :: e.2.toList := by simp [written]
  obtain ⟨first, rest, hsplit⟩ := List.exists_cons_of_ne_nil
    (List.splitOn_ne_nil '=' e.2.toList)
  rw [header, split, hlist, List.splitOn_append_cons_self_of_not_mem hkey, cutValue, hsplit]
  simp

theorem split_text {headers : Headers} (hne : headers.entries ≠ []) :
    split ',' headers.text = headers.entries.map written := by
  have hcomma : ∀ l ∈ (headers.entries.map written).map String.toList, ',' ∉ l := by
    intro l hl
    simp only [List.mem_map, exists_exists_and_eq_and] at hl
    obtain ⟨e, he, rfl⟩ := hl
    simp [written, (headers.keys e he).2.2, headers.values e he]
  rw [split, Headers.text, String.toList_intercalate]
  rw [show ",".toList = [','] from rfl, List.splitOn_intercalate ',' hcomma (by simpa using hne)]
  simp [Function.comp_def]

theorem opentelemetryHeaders_text {headers : Headers} (hne : headers.entries ≠ []) :
    opentelemetryHeaders ⟨headers.text⟩ =
      some (collect (headers.entries.map fun e => (e.1, cutValue e.2))) := by
  have hall (l : List (String × String)) (hl : ∀ e ∈ l, '=' ∉ e.1.toList) :
      (l.map written).mapM header = some (l.map fun e => (e.1, cutValue e.2)) := by
    induction l with
    | nil => rfl
    | cons e l ih =>
      rw [List.map_cons, List.mapM_cons, header_written (hl e List.mem_cons_self),
        ih fun d hd => hl d (List.mem_cons_of_mem _ hd)]
      rfl
  rw [opentelemetryHeaders, split_text hne, hall _ fun e he => (headers.keys e he).2.1]
  rfl

/-- The empty map is the empty text, which has one piece and no equals sign in it. -/
theorem opentelemetryHeaders_empty {headers : Headers} (h : headers.entries = []) :
    opentelemetryHeaders ⟨headers.text⟩ = none := by
  have htext : headers.text = "" := by rw [Headers.text, h]; rfl
  rw [htext]
  rfl

/-- The headers are read back as they were written when there are any, and no value has an equals
sign in it. -/
theorem headers_read_back_iff (headers : Headers) : ReadBack headers ↔
    headers.entries ≠ [] ∧ ∀ e ∈ headers.entries, '=' ∉ e.2.toList := by
  by_cases hne : headers.entries = []
  · constructor
    · rintro ⟨parsed, hparsed, _⟩
      rw [opentelemetryHeaders_empty hne] at hparsed
      cases hparsed
    · intro h
      exact absurd hne h.1
  have hdistinct : ((headers.entries.map fun e => (e.1, cutValue e.2)).map Prod.fst).Nodup := by
    rw [List.map_map]
    exact headers.distinct
  have hread : ReadBack headers ↔ ∀ key value,
      (key, value) ∈ headers.entries.map (fun e => (e.1, cutValue e.2)) ↔
        (key, value) ∈ headers.entries := by
    simp [ReadBack, opentelemetryHeaders_text hne, lookup_collect_iff hdistinct]
  rw [hread]
  constructor
  · intro h
    refine ⟨hne, fun e he => cutValue_eq_self_iff.mp ?_⟩
    have hcut := (h e.1 (cutValue e.2)).mp (List.mem_map.mpr ⟨e, he, rfl⟩)
    have hone := values_of_nodup headers.distinct he
    rw [values_of_nodup headers.distinct hcut] at hone
    simpa using hone
  · intro h key value
    have hsame : headers.entries.map (fun e => (e.1, cutValue e.2)) = headers.entries := by
      refine (List.map_congr_left fun e he => ?_).trans (List.map_id _)
      rw [cutValue_eq_self_iff.mpr (h.2 e he)]
      rfl
    rw [hsame]

def noHeaders : Headers := ⟨[], List.nodup_nil, by simp, by simp⟩

/-- Without the variable main panics, and of a token in base64 the padding is lost. -/
theorem default_panics :
    noHeaders.text = (Config.initFromEnv none).otelOtlpHeaders ∧ ¬ ReadBack noHeaders ∧
      opentelemetryHeaders (.initFromEnv none) = none ∧
      (opentelemetryHeaders (.initFromEnv (some "authorization=dG9rZW4="))).map
        (·.lookup "authorization") = some (some "dG9rZW4") := by
  refine ⟨rfl, ?_, rfl, by decide⟩
  rintro ⟨parsed, hparsed, _⟩
  rw [opentelemetryHeaders_empty rfl] at hparsed
  cases hparsed

end OtlpHeaders
