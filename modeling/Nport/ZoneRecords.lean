import Nport.Challenges

/-! How many records the challenges leave in the zone. The updater overwrites the record it
finds, so that there is one for all requests as long as the API does its work; a record is added
for an answer that is wrong, or lost, or a refusal, at most. -/
namespace ZoneRecords

open GuardedMachine
open CertStore
open Cloudflare
open Challenges
open RowTable

def misanswered (api : Api) (record : String) (zone : Zone) : Signal → Bool
  | .got reply => reply ≠ .ok (api.query zone record)
  | .answered outcome _ => outcome ≠ .success
  | _ => false

variable {I K : Type*} [DecidableEq I]

omit [DecidableEq I] in
def Faulty (api : Api) (s : State I K) : Event I → Bool
  | .request i signal => (s.request i).any fun r => misanswered api r.record s.zone signal
  | _ => false

def faults (api : Api) (tr : List (State I K × Event I)) : ℕ :=
  tr.countP fun p => Faulty api p.1 p.2

def Slack (zone : Zone) (record : String) (bound : ℕ) : Phase → Prop
  | .updating _ (.putting id) => (∀ row ∈ zone.rows, row.1.val = id → row.2.name = record) ∨
      zone.count (named record) + 1 ≤ bound
  | .updating _ .posting => zone.count (named record) + 1 ≤ bound
  | _ => True

section Update

variable {api : Api} {record token : String} {zone : Zone} {bound : String → ℕ}

theorem count_put {recordId : String} (hcount : ∀ name, zone.count (named name) ≤ bound name)
    (hslack : Slack zone record (bound record) (.updating token (.putting recordId)))
    (name : String) :
    (api.put zone recordId (getCreateRequest record token)).count (named name) ≤ bound name := by
  by_cases hname : record = name
  · subst name
    rcases hslack with hnamed | hroom
    · exact (count_put_of_named api hnamed).trans (hcount record)
    · exact (count_put_le api zone recordId _ record).trans hroom
  · exact (count_put_other api hname).trans (hcount name)

theorem count_created {id : RecordId} (fresh : id ∉ zone.keys)
    (hcount : ∀ name, zone.count (named name) ≤ bound name)
    (hslack : Slack zone record (bound record) (.updating token .posting)) (name : String) :
    (api.post zone id fresh (getCreateRequest record token)).count (named name) ≤ bound name := by
  rw [count_post]
  by_cases hname : record = name
  · subst name
    have hroom : zone.count (named record) + 1 ≤ bound record := hslack
    simpa [getCreateRequest] using hroom
  · simpa [getCreateRequest, hname] using hcount name

theorem slack_afterGet (hone : 1 ≤ bound record) :
    Slack zone record (bound record)
      (.updating token (afterGet record (.ok (api.query zone record)))) := by
  unfold afterGet
  split
  · next id hid =>
    obtain ⟨row, hrow, rfl, hname⟩ := row_of_getRecordId hid
    refine Or.inl fun other ho heq => ?_
    have hkey : other.1 = row.1 := Subtype.ext heq
    have hmem : (row.1, other.2) ∈ zone.rows := hkey ▸ ho
    rw [zone.value_unique hmem hrow, hname]
  · next err herr =>
    change zone.count (named record) + 1 ≤ bound record
    rw [count_of_not_found herr]
    exact hone

end Update

theorem step_bounded {api : Api} {record : String} {now : Time} {zone : Zone} {phase : Phase}
    {signal : Signal} {p : Progress} {bound : String → ℕ}
    (h : Step api record now zone phase signal p) (hone : ∀ name, 1 ≤ bound name)
    (hcount : ∀ name, zone.count (named name) ≤ bound name)
    (hslack : Slack zone record (bound record) phase) :
    match p with
    | .failed zone' => ∀ name, zone'.count (named name) ≤ bound name
    | .going phase' zone' => (∀ name, zone'.count (named name) ≤ bound name) ∧
        Slack zone' record (bound record + (misanswered api record zone signal).toNat) phase' := by
  cases h with
  | got token reply =>
    refine ⟨hcount, ?_⟩
    by_cases hreply : reply = .ok (api.query zone record)
    · subst hreply
      simpa [misanswered] using slack_afterGet (hone record)
    · have hroom := Nat.succ_le_succ (hcount record)
      have hfault : misanswered api record zone (.got reply) = true := by
        simpa [misanswered] using hreply
      rw [hfault]
      unfold afterGet
      split
      · exact Or.inr hroom
      · exact hroom
  | overwritten token recordId id hrow => exact ⟨count_put hcount hslack, trivial⟩
  | putRefused token recordId id => exact ⟨hcount, Nat.succ_le_succ (hcount record)⟩
  | putLost token recordId id =>
    have hput (name : String) :
        (api.put zone recordId (getCreateRequest record token)).count (named name) ≤ bound name :=
      count_put hcount hslack name
    exact ⟨hput, Nat.succ_le_succ (hput record)⟩
  | created token id fresh => exact ⟨count_created fresh hcount hslack, trivial⟩
  | postLost token id fresh => exact count_created fresh hcount hslack
  | failed => exact hcount
  | _ => exact ⟨hcount, trivial⟩

/-- Every record of a name is covered by the bound of the name. -/
structure Bounded (s : State I K) (bound : String → ℕ) : Prop where
  count : ∀ name, s.zone.count (named name) ≤ bound name
  slack : ∀ i r, s.request i = some r → Slack s.zone r.record (bound r.record) r.phase

theorem Slack.mono {zone : Zone} {record : String} {bound more : ℕ} {phase : Phase}
    (h : Slack zone record bound phase) (hle : bound ≤ more) : Slack zone record more phase := by
  cases phase with
  | updating token update =>
    cases update with
    | getting => trivial
    | putting id => exact h.imp_right fun hroom => hroom.trans hle
    | posting => exact Nat.le_trans h hle
  | _ => trivial

section Run

variable {api : Api} {lib : CertLib K} {s : State I K} {bound more : String → ℕ}

omit [DecidableEq I]

theorem Bounded.mono (h : Bounded s bound) (hle : ∀ name, bound name ≤ more name) :
    Bounded s more :=
  ⟨fun name => (h.count name).trans (hle name), fun i r hi => (h.slack i r hi).mono (hle _)⟩

theorem Bounded.of_zone {u : State I K} (h : Bounded s bound) (hzone : u.zone = s.zone)
    (hrequest : ∀ i r, u.request i = some r → s.request i = some r ∨ r.phase = .ordering) :
    Bounded u bound := by
  refine ⟨fun name => hzone ▸ h.count name, fun i r hi => ?_⟩
  rcases hrequest i r hi with hold | hordering
  · exact hzone ▸ h.slack i r hold
  · rw [hordering]
    trivial

theorem started_ordering {u : Renewal.State I K} {i : I} {r : Request}
    (h : started u i = some r) : r.phase = .ordering := by
  unfold started at h
  split at h
  · exact congrArg Request.phase (Option.some.inj h).symm
  · cases h

variable [DecidableEq I]

theorem next_bounded {e : Event I} (hinv : Invariant s) (he : Enabled api s e)
    (hone : ∀ name, 1 ≤ bound name) (h : Bounded s bound) :
    Bounded (next api lib s e) fun name => bound name + (Faulty api s e).toNat := by
  cases e with
  | renewal e =>
    refine Bounded.mono (h.of_zone ?_ fun i r hi => ?_) fun name => Nat.le_add_right _ _
    · cases e <;> rfl
    · cases e with
      | recheck j =>
        by_cases hij : i = j
        · subst i
          exact Or.inr (started_ordering (by simpa [next] using hi))
        · exact Or.inl (by simpa [next, hij] using hi)
      | _ => exact Or.inl hi
  | request i signal =>
    obtain ⟨r, p, hr, hp⟩ := he
    have hfault : Faulty api s (.request i signal) = misanswered api r.record s.zone signal := by
      simp [Faulty, hr]
    have hstep := step_bounded (step_cases hp) hone h.count (h.slack i r hr)
    rw [hfault]
    cases p with
    | going phase zone =>
      simp only [next, hr, hp]
      refine ⟨fun name => (hstep.1 name).trans (Nat.le_add_right _ _), fun j q hj => ?_⟩
      by_cases hji : j = i
      · subst j
        obtain rfl : { r with phase := phase } = q := by simpa using hj
        exact hstep.2
      · exact absurd (hinv.alone hr (by simpa [hji] using hj)) hji
    | failed zone =>
      simp only [next, hr, hp]
      refine ⟨fun name => (hstep name).trans (Nat.le_add_right _ _), fun j q hj => ?_⟩
      by_cases hji : j = i
      · subst j
        simp at hj
      · exact absurd (hinv.alone hr (by simpa [hji] using hj)) hji
  | issued i privateKeyDer certificateDer =>
    refine Bounded.mono (h.of_zone rfl fun j r hj => Or.inl ?_) fun name => Nat.le_add_right _ _
    by_cases hji : j = i
    · subst j
      simp [next] at hj
    · simpa [next, hji] using hj

variable {store : Store K} {now : Time} {zone : Zone}

theorem path_bounded {tr : List (State I K × Event I)}
    (h : Run (generator api lib store now zone) tr s) :
    Bounded s fun name => max 1 (zone.count (named name)) + faults api tr := by
  induction h with
  | refl => exact ⟨fun name => Nat.le_max_right _ _, fun i r hi => by cases hi⟩
  | @tail tr u e hpath he ih =>
    have keep (t : State I K) (e : Event I) (ht : Invariant t)
        (he : (generator api lib store now zone).Enabled t e) :
        Invariant ((generator api lib store now zone).next t e) := step_invariant ht he
    have hinv := hpath.invariant keep (initial_invariant api store now zone)
    have hnext : Bounded (next api lib u e) fun name =>
        max 1 (zone.count (named name)) + faults api tr + (Faulty api u e).toNat :=
      next_bounded hinv he (fun name => by omega) ih
    refine hnext.mono fun name => ?_
    have hmore : faults api (tr ++ [(u, e)]) = faults api tr + (Faulty api u e).toNat := by
      cases hf : Faulty api u e <;> simp [faults, hf]
    rw [hmore, Nat.add_assoc]

/-- In every run: a name has one record, or as many as it had, and one more for each fault of
the API at most. Without a fault, where there was one at most, the record of a challenge that is
presented holds nothing but its token. -/
theorem records_bounded (api : Api) (lib : CertLib K) (store : Store K) (now : Time)
    (zone : Zone) {tr : List (State I K × Event I)}
    (h : Run (generator api lib store now zone) tr s) :
    (∀ name, s.zone.count (named name) ≤ max 1 (zone.count (named name)) + faults api tr) ∧
    ∀ i r token, s.request i = some r → r.phase.presents = some token → faults api tr = 0 →
      zone.count (named r.record) ≤ 1 →
      ∀ row ∈ s.zone.rows, row.2.name = r.record → row.2.content = token := by
  have hcount := (path_bounded h).count
  refine ⟨hcount, ?_⟩
  intro i r token hi hp hfaults hzone row hrow hname
  have keep (t : State I K) (e : Event I) (ht : Invariant t)
      (he : (generator api lib store now zone).Enabled t e) :
      Invariant ((generator api lib store now zone).next t e) := step_invariant ht he
  have hinv := Path.invariant keep h (initial_invariant api store now zone)
  obtain ⟨shown, hshown, hcontent⟩ := (hinv.active i r hi).shown token hp
  have hone : s.zone.count (named r.record) ≤ 1 := by
    have hle := hcount r.record
    omega
  have hsame := Table.eq_of_count_le_one hone hrow hshown (by simpa [named] using hname)
    (by simp [named, hcontent])
  rw [hsame, hcontent]

end Run

theorem records_bounded_root :
    (replay rootGenerator rootGenerator.initial rootChallenge).zone.count
        (named "_acme-challenge.nport.io") ≤ 1 ∧
      ∀ row ∈ (replay rootGenerator rootGenerator.initial rootChallenge).zone.rows,
        row.2.name = "_acme-challenge.nport.io" → row.2.content = "gfj9Xq" := by
  have hrun : Run rootGenerator _ _ := path_of_accepts rootChallenge_accepted
  have hvalidating : (replay rootGenerator rootGenerator.initial rootChallenge).request false =
      some ⟨"_acme-challenge.nport.io", .validating "gfj9Xq"⟩ := rfl
  have hfaults :
      faults orderedApi (trace rootGenerator rootGenerator.initial rootChallenge) = 0 := by
    decide
  have hempty (name : String) : emptyZone.count (named name) = 0 := rfl
  obtain ⟨hcount, hcontent⟩ :=
    records_bounded orderedApi Renewal.byteCerts Renewal.emptyStore 0 emptyZone hrun
  refine ⟨?_, hcontent false _ "gfj9Xq" hvalidating rfl hfaults ((hempty _).trans_le (by simp))⟩
  have hle := hcount "_acme-challenge.nport.io"
  rwa [hfaults, hempty] at hle

end ZoneRecords
