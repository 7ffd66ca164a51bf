import SchemaBrain.Base.Listings
import SchemaBrain.Core.SemanticWrites

/-!
# The lists of the semantic layer

`list_entities`, `list_canonical_joins` and `list_metrics` of one source, and what they return on
a store that a run has written.
-/

namespace SchemaBrain.Core

open Base

variable {P : MeasureExpressions}

namespace SemanticStore

variable (s : SemanticStore)

/-- `list_entities` of one source. -/
def listEntities (sid : String) : Except PyError (List EntityRecord) :=
  listing (·.sourceConnectionId) (·.name) rowToEntity s.entities sid

/-- `list_canonical_joins` of one source. -/
def listCanonicalJoins (sid : String) : Except RowError (List JoinRecord) :=
  listing (·.sourceConnectionId) (·.name) rowToCanonicalJoin s.canonicalJoins sid

/-- `list_metrics` of one source. -/
def listMetrics (P : MeasureExpressions) (sid : String) :
    Except RowError (List (MetricRecord P)) :=
  listing (·.sourceConnectionId) (·.name) (rowToMetric P) s.metrics sid

variable {s} {sid : String} {existing : List EntityRecord}

private theorem make_name {name description text identity origin inferenceMethod validationState
    group rationale : String} {bindConfidence : Option String} {e : EntityRecord}
    (h : EntityRecord.make name description text identity origin inferenceMethod validationState
      group bindConfidence rationale = .ok e) : e.name = name := by
  unfold EntityRecord.make at h
  split at h
  · cases h
  · obtain ⟨checked, hchecked, h⟩ := bind_eq_ok h
    obtain ⟨_, _, h⟩ := bind_eq_ok h
    obtain ⟨_, _, h⟩ := bind_eq_ok h
    obtain ⟨_, _, h⟩ := bind_eq_ok h
    obtain ⟨_, _, h⟩ := bind_eq_ok h
    obtain ⟨_, _, h⟩ := bind_eq_ok h
    obtain ⟨_, _, h⟩ := bind_eq_ok h
    rw [← Except.ok.inj h]
    unfold requireIdent at hchecked
    split at hchecked
    · rw [← Except.ok.inj hchecked]
    · cases hchecked

/-- The listed entity of a name is the stored one. -/
theorem getEntity_of_listed (h : s.listEntities sid = .ok existing) (name : String) :
    s.getEntity sid name = .ok (existing.find? (·.name = name)) := by
  have hnames : ∀ row ∈ s.entities, row.sourceConnectionId = sid →
      ∀ e, rowToEntity row = .ok e → e.name = row.name := fun _ _ _ _ => make_name
  obtain ⟨hnone, hsome⟩ := find?_listing hnames s.entities_key h name
  unfold getEntity
  cases hrow : rowOf EntityRow.key s.entities (sid, name) with
  | none => rw [hnone hrow]
  | some row =>
    obtain ⟨e, he, hfind⟩ := hsome row hrow
    rw [hfind]
    dsimp only
    rw [he]
    rfl

/-- The listed entities have different names. -/
theorem nodup_listed (h : s.listEntities sid = .ok existing) : (existing.map (·.name)).Nodup :=
  nodup_listing (fun _ _ _ _ => make_name) s.entities_key h

/-! ## After a run -/

variable {done : List (SemanticCall P)}

/-- After a run the entities of a source are the last ones written. -/
theorem Represents.listEntities (h : Represents P s done) (sid : String) :
    ∃ items, s.listEntities sid = .ok items ∧ (items.map (·.name)).Nodup ∧
      ∀ name, items.find? (·.name = name) = (entityWrites sid name done).getLast? :=
  listing_of_rows s.entities_key (h.entities sid) (rowToEntity_row sid) fun _ => rfl

/-- After a run the joins of a source are the last ones written. -/
theorem Represents.listCanonicalJoins (h : Represents P s done) (sid : String) :
    ∃ items, s.listCanonicalJoins sid = .ok items ∧ (items.map (·.name)).Nodup ∧
      ∀ name, items.find? (·.name = name) = (joinWrites sid name done).getLast? :=
  listing_of_rows s.joins_key (h.joins sid) (rowToCanonicalJoin_row sid) fun _ => rfl

/-- After a run the metrics of a source are the last ones written, each on its first anchor. -/
theorem Represents.listMetrics (h : Represents P s done) (sid : String) :
    ∃ items, s.listMetrics P sid = .ok items ∧ (items.map (·.name)).Nodup ∧
      ∀ name, items.find? (·.name = name) = lastMetric (metricWrites sid name done) :=
  listing_of_rows s.metrics_key (h.metrics sid) (rowToMetric_row sid) fun _ => rfl

end SemanticStore

end SchemaBrain.Core
