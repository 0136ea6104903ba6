import Nport.RowTable

/-! The TXT records of a zone at Cloudflare, and the updater that writes a challenge into one of
them: it asks for the record, overwrites it when there is one, and creates one otherwise or when
that fails. An answer may get lost after the zone has changed. -/
namespace Cloudflare

open RowTable

abbrev RecordId := {id : String // id ≠ ""}

structure TxtRecord where
  name : String
  content : String
  deriving DecidableEq, Repr

abbrev Zone := Table RecordId TxtRecord

structure QueryResult where
  id : String
  name : String
  type : String
  deriving DecidableEq, Repr

structure QueryResponse where
  success : Bool
  result : List QueryResult
  deriving DecidableEq, Repr

structure CreateOrUpdateRequest where
  type : String
  name : String
  content : String
  ttl : UInt32

def getCreateRequest (record challenge : String) : CreateOrUpdateRequest :=
  ⟨"TXT", record, challenge, 60⟩

/-- get_record_id, on the answer to its GET. -/
def getRecordId (record : String) (reply : Except String QueryResponse) : Except String String :=
  match reply with
  | .error err => .error err
  | .ok body =>
    if body.success then
      match body.result.find? fun r => r.name = record && r.type = "TXT" && r.id ≠ "" with
      | some r => .ok r.id
      | none => .error "record not found"
    else .error "record not found"

/-- How a PUT or a POST ends: with success, with a refusal, or with an error after the API has
done what it was asked for. -/
inductive Outcome where
  | success
  | refused
  | lost
  deriving DecidableEq, Repr

/-- Where Updater::update stands: before the answer to its GET, its PUT or its POST. -/
inductive Update where
  | getting
  | putting (recordId : String)
  | posting
  deriving DecidableEq, Repr

def afterGet (record : String) (reply : Except String QueryResponse) : Update :=
  match getRecordId record reply with
  | .ok id => .putting id
  | .error _ => .posting

/-! What the API does. -/

/-- What the calls of the updater do to a zone, when the API carries them out. -/
structure Api where
  /-- the answer to the GET of get_record_id -/
  query : Zone → String → QueryResponse
  put : Zone → (id : String) → CreateOrUpdateRequest → Zone
  post : (zone : Zone) → (id : RecordId) → id ∉ zone.keys → CreateOrUpdateRequest → Zone
  query_success : ∀ zone record, (query zone record).success = true
  /-- A GET lists the records of the name. -/
  query_lists : ∀ zone record, (query zone record).result.Perm
    ((zone.rows.filter (·.2.name = record)).map fun row => ⟨row.1.val, row.2.name, "TXT"⟩)
  /-- A PUT overwrites the record with the id. -/
  put_writes : ∀ zone (id : RecordId) request,
    (put zone id.val request).rows.Perm (zone.set id ⟨request.name, request.content⟩).rows
  put_nothing : ∀ zone request, put zone "" request = zone
  /-- A POST adds a record. -/
  post_adds : ∀ zone id fresh request,
    (post zone id fresh request).rows.Perm (zone.add id ⟨request.name, request.content⟩ fresh).rows

def named (record : String) (txt : TxtRecord) : Bool := txt.name = record

def Shows (zone : Zone) (record token : String) : Prop :=
  ∃ row ∈ zone.rows, row.2 = ⟨record, token⟩

section Effects

variable (api : Api) {zone : Zone}

theorem shows_put {id record token : String} (h : ∃ row ∈ zone.rows, row.1.val = id) :
    Shows (api.put zone id (getCreateRequest record token)) record token := by
  obtain ⟨row, hrow, rfl⟩ := h
  have hset := Table.mem_set ⟨record, token⟩ (List.mem_map_of_mem (f := Prod.fst) hrow)
  exact ⟨_, (api.put_writes zone row.1 _).mem_iff.mpr hset, rfl⟩

theorem shows_post {id : RecordId} (fresh : id ∉ zone.keys) (record token : String) :
    Shows (api.post zone id fresh (getCreateRequest record token)) record token :=
  ⟨_, (api.post_adds zone id fresh _).mem_iff.mpr (Table.mem_add zone fresh), rfl⟩

variable {api}

theorem row_of_getRecordId {record id : String}
    (h : getRecordId record (.ok (api.query zone record)) = .ok id) :
    ∃ row ∈ zone.rows, row.1.val = id ∧ row.2.name = record := by
  simp only [getRecordId, api.query_success, if_true] at h
  split at h
  · next r hfind =>
    have hlisted := (api.query_lists zone record).mem_iff.mp (List.mem_of_find?_eq_some hfind)
    obtain ⟨row, hrow, rfl⟩ := List.mem_map.mp hlisted
    obtain ⟨hmem, hname⟩ := List.mem_filter.mp hrow
    exact ⟨row, hmem, Except.ok.inj h, by simpa using hname⟩
  · cases h

theorem count_of_not_found {record err : String}
    (h : getRecordId record (.ok (api.query zone record)) = .error err) :
    zone.count (named record) = 0 := by
  apply Table.count_eq_zero
  intro row hrow
  by_contra hname
  have hname : row.2.name = record := by simpa [named] using hname
  simp only [getRecordId, api.query_success, if_true] at h
  split at h
  · cases h
  · next hnone =>
    have hmem : row ∈ zone.rows.filter (·.2.name = record) :=
      List.mem_filter.mpr ⟨hrow, by simpa using hname⟩
    have hlisted := (api.query_lists zone record).mem_iff.mpr (List.mem_map_of_mem hmem)
    have hmiss := List.find?_eq_none.mp hnone _ hlisted
    simp [hname, row.1.property] at hmiss

variable (api)

theorem count_put_eq (zone : Zone) (id : String) (request : CreateOrUpdateRequest) (name : String) :
    (∃ h : id ≠ "", (api.put zone id request).count (named name) =
        (zone.set ⟨id, h⟩ ⟨request.name, request.content⟩).count (named name)) ∨
      (api.put zone id request).count (named name) = zone.count (named name) := by
  by_cases hid : id = ""
  · subst hid
    rw [api.put_nothing]
    exact Or.inr rfl
  · exact Or.inl ⟨hid, Table.count_perm (api.put_writes zone ⟨id, hid⟩ request) _⟩

theorem count_put_le (zone : Zone) (id : String) (request : CreateOrUpdateRequest)
    (name : String) :
    (api.put zone id request).count (named name) ≤ zone.count (named name) + 1 := by
  rcases count_put_eq api zone id request name with ⟨_, hput⟩ | hput
  · rw [hput]
    exact Table.count_set_le zone _ _ _
  · omega

theorem count_put_of_named {id : String} {request : CreateOrUpdateRequest} {name : String}
    (h : ∀ row ∈ zone.rows, row.1.val = id → row.2.name = name) :
    (api.put zone id request).count (named name) ≤ zone.count (named name) := by
  rcases count_put_eq api zone id request name with ⟨_, hput⟩ | hput
  · rw [hput]
    apply Table.count_set_of_row
    intro txt htxt
    simpa [named] using h _ htxt rfl
  · exact Nat.le_of_eq hput

theorem count_put_other {id : String} {request : CreateOrUpdateRequest} {name : String}
    (h : request.name ≠ name) :
    (api.put zone id request).count (named name) ≤ zone.count (named name) := by
  rcases count_put_eq api zone id request name with ⟨hid, hput⟩ | hput
  · rw [hput, Table.count, Table.count, Table.set, List.countP_map]
    apply List.countP_mono_left
    intro row _ hrow
    by_cases hk : row.1 = ⟨id, hid⟩
    · simp [setRow, hk, named, h] at hrow
    · simpa [setRow, hk] using hrow
  · exact Nat.le_of_eq hput

theorem count_post {id : RecordId} (fresh : id ∉ zone.keys) (request : CreateOrUpdateRequest)
    (name : String) :
    (api.post zone id fresh request).count (named name) =
      zone.count (named name) + (if request.name = name then 1 else 0) := by
  rw [Table.count_perm (api.post_adds zone id fresh request), Table.count_add]
  simp [named]

end Effects

def orderedApi : Api where
  query zone record :=
    ⟨true, (zone.rows.filter (·.2.name = record)).map fun row => ⟨row.1.val, row.2.name, "TXT"⟩⟩
  put zone id request :=
    if h : id ≠ "" then zone.set ⟨id, h⟩ ⟨request.name, request.content⟩ else zone
  post zone id fresh request := zone.add id ⟨request.name, request.content⟩ fresh
  query_success _ _ := rfl
  query_lists _ _ := .refl _
  put_writes zone id request := by
    rw [dif_pos id.property]
  put_nothing _ _ := rfl
  post_adds _ _ _ _ := .refl _

end Cloudflare
