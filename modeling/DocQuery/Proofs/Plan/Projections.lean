import DocQuery.Proofs.Plan.Stages

/-!
# The fields that a plan asks for

A fetch of documents asks for the selected columns and the explicit projections by an option, an
aggregation by a stage. A fetch writes the explicit projections over the columns
(`get?_projection_of_findOptions`), a page writes its columns over the explicit projections
(`mem_project_iff_of_pipeline`). `explicit_projections` says what this makes of an explicit
projection.
-/

namespace DocQuery

open Entries

/-- The plan asks for these fields, each with its value. -/
def Plan.Projects : Plan → Entries → Prop
  | .find _ options, es => get? options (.text "projection") = some (.map es)
  | .distinct .., _ => False
  | .aggregate stages _, es => .project es ∈ stages

/-- The fields of a fetch of documents. -/
def Shape.fetchFields (s : Shape) (given : Entries) : Entries :=
  (ofKeys s.selectedColumns (.bool true)).update given

/-- The fields of an aggregation. -/
def Shape.pipelineFields (s : Shape) (given : Entries) : Entries :=
  given.update (s.pageColumns.map (·, .int 1))

variable {s : Shape} {filter k v : Value} {p : Plan} {stages : List Stage}
  {given own options projected es : Entries}

theorem pageColumns_of_not_needsAggregation (h : s.needsAggregation = false) :
    s.pageColumns = [] := by
  have hpage : s.paginating.truthy = false := by
    unfold Shape.needsAggregation at h
    simp only [Bool.or_eq_false_iff] at h
    exact h.2
  simp [Shape.pageColumns, hpage]

theorem eq_of_pageProjection (h : pageProjection s given = .ok projected) :
    projected = s.pipelineFields given := by
  unfold pageProjection at h
  unfold Shape.pipelineFields Shape.pageColumns
  split at h
  · next hpage =>
    obtain ⟨-, -, h⟩ := bind_eq_ok_iff.mp h
    rw [if_pos hpage, pure_eq_ok_iff.mp h]
  · next hpage =>
    rw [if_neg hpage, ← pure_eq_ok_iff.mp h]
    rfl

theorem mem_project_iff_of_pipeline (h : pipeline s filter = .ok stages)
    (hgiven : s.projections.toEntries = .ok given) (es : Entries) :
    .project es ∈ stages ↔ s.pipelineFields given ≠ [] ∧ es = s.pipelineFields given := by
  obtain ⟨g, given', projected, sorting, -, hgiven', hprojected, -, rfl⟩ :=
    exists_parts_of_pipeline h
  obtain rfl := Except.ok.inj (hgiven.symm.trans hgiven')
  obtain rfl := eq_of_pageProjection hprojected
  exact mem_stagesOf_iff

theorem get?_pipelineFields (s : Shape) (hk : get? given k = some v) :
    get? (s.pipelineFields given) k =
      some (if s.pageColumns.any (·.sameKey k) then .int 1 else v) := by
  rw [Shape.pipelineFields, get?_update_const, hk]
  split <;> rfl

theorem exists_entries_of_findOptions (h : findOptions s = .ok options) :
    ∃ given own, s.projections.toEntries = .ok given ∧ s.options.toEntries = .ok own := by
  obtain ⟨given, _, own, hgiven, -, hown, -⟩ := exists_parts_of_findOptions h
  exact ⟨given, own, hgiven, hown⟩

/-- The caller's own option wins over the planned one. -/
theorem get?_projection_of_findOptions (h : findOptions s = .ok options)
    (hgiven : s.projections.toEntries = .ok given) (hown : s.options.toEntries = .ok own) :
    get? options (.text "projection") = (get? own (.text "projection")).or
      (if s.fetchFields given = [] then none else some (.map (s.fetchFields given))) := by
  obtain ⟨given', pairs, own', hgiven', -, hown', rfl⟩ := exists_parts_of_findOptions h
  obtain rfl := Except.ok.inj (hgiven.symm.trans hgiven')
  obtain rfl := Except.ok.inj (hown.symm.trans hown')
  have hplanned : get? (plannedOptions s.timeout (.list pairs) s.offset s.limit
      (.map (s.fetchFields given))) (.text "projection") =
        if s.fetchFields given = [] then none else some (.map (s.fetchFields given)) := by
    simp only [plannedOptions, get?_append, get?_optionWhenSet]
    by_cases hnil : s.fetchFields given = [] <;> simp [hnil, Value.truthy]
  rw [get?_update _ (Value.distinct_of_toEntries hown), ← hplanned]
  rfl

theorem get?_fetchFields (s : Shape) (hd : given.Distinct) (hk : get? given k = some v) :
    get? (s.fetchFields given) k = some v := by
  rw [Shape.fetchFields, get?_update _ hd, hk]
  rfl

theorem sameKey_self_of_get? (h : get? es k = some v) : k.sameKey k = true := by
  obtain ⟨e, he, -⟩ := Option.map_eq_some_iff.mp h
  have hkey := List.find?_some he
  rwa [← Value.sameKey_congr hkey]

/-- A plan asks for at most one mapping of fields: the one that its kind makes of the columns and
the explicit projections. -/
theorem exists_fields_of_plan (hoptions : s.options = .map [])
    (hgiven : s.projections.toEntries = .ok given) (h : plan s filter = .ok p)
    (hkind : p.strategy ≠ "distinct") :
    ∃ fields, (∀ es, p.Projects es ↔ fields ≠ [] ∧ es = fields) ∧ (given ≠ [] → fields ≠ []) ∧
      ∀ k v, get? given k = some v →
        get? fields k = some (if s.pageColumns.any (·.sameKey k) then .int 1 else v) := by
  rcases plan_cases h with ⟨stages, options, -, hstages, -, rfl⟩ | ⟨-, -, rfl⟩ |
    ⟨options, hneeds, -, hfind, rfl⟩
  · refine ⟨_, mem_project_iff_of_pipeline hstages hgiven, fun hne hnil => ?_,
      fun k v => get?_pipelineFields s⟩
    exact hne (update_eq_nil_iff.mp hnil).1
  · exact absurd rfl hkind
  · have hown : s.options.toEntries = .ok [] := by rw [hoptions]; rfl
    have hget := get?_projection_of_findOptions hfind hgiven hown
    refine ⟨s.fetchFields given, fun es => ?_, fun hne hnil => ?_, fun k v hk => ?_⟩
    · show get? options (.text "projection") = some (.map es) ↔ _
      rw [hget]
      by_cases hnil : s.fetchFields given = [] <;> simp [hnil, get?, eq_comm]
    · exact hne (update_eq_nil_iff.mp hnil).2
    · rw [get?_fetchFields s (Value.distinct_of_toEntries hgiven) hk,
        pageColumns_of_not_needsAggregation hneeds]
      rfl

/-- Every explicit projection is asked for as it was given, but where a page has a column of its
name: then the field is kept whole, and so as it was asked for only where it was to be kept. -/
theorem explicit_projections (hoptions : s.options = .map [])
    (hgiven : s.projections.toEntries = .ok given) (h : plan s filter = .ok p) :
    (p.strategy ≠ "distinct" → given ≠ [] → ∃ es, p.Projects es) ∧ ∀ es, p.Projects es →
      (∀ k v, get? given k = some v →
        get? es k = some (if s.pageColumns.any (·.sameKey k) then .int 1 else v)) ∧
      ((∀ k v, get? given k = some v → (get? es k).map Value.key = some v.key) ↔
        ∀ c ∈ s.pageColumns, ∀ v, get? given c = some v → v.key = .int 1) := by
  by_cases hkind : p.strategy = "distinct"
  · refine ⟨absurd hkind, fun es hes => ?_⟩
    cases p with
    | distinct => exact hes.elim
    | find | aggregate => simp [Plan.strategy] at hkind
  obtain ⟨fields, hprojects, hne, hget⟩ := exists_fields_of_plan hoptions hgiven h hkind
  refine ⟨fun _ hgiven => ⟨fields, (hprojects fields).mpr ⟨hne hgiven, rfl⟩⟩, fun es hes => ?_⟩
  obtain ⟨-, rfl⟩ := (hprojects es).mp hes
  refine ⟨hget, fun hall c hc v hv => ?_, fun hall k v hk => ?_⟩
  · have hany : s.pageColumns.any (·.sameKey c) = true :=
      List.any_eq_true.mpr ⟨c, hc, sameKey_self_of_get? hv⟩
    have hsame := hall c v hv
    rw [hget c v hv, if_pos hany] at hsame
    exact (Option.some.inj hsame).symm
  · rw [hget k v hk]
    split
    · next hany =>
      obtain ⟨c, hc, hck⟩ := List.any_eq_true.mp hany
      rw [← get?_congr hck] at hk
      simp [hall c hc v hk, Value.key]
    · rfl

/-- A page whose columns are not projected explicitly, or are and are kept. -/
theorem explicit_projections_kept :
    let s : Shape := {
      columns := [.text "name", .text "city"]
      groups := [.text "city"]
      projections := .map [(.text "name", .bool true), (.text "_id", .int 0)]
      paginating := .bool true }
    let given : Entries := [(.text "name", .bool true), (.text "_id", .int 0)]
    s.options = .map [] ∧ s.projections.toEntries = .ok given ∧ ∃ p es, plan s (.map []) = .ok p ∧
      p.Projects es ∧ ∀ k v, get? given k = some v → (get? es k).map Value.key = some v.key := by
  intro s given
  have hplan : plan s (.map []) = .ok _ := rfl
  have hgiven : s.projections.toEntries = .ok given := rfl
  have hproject := explicit_projections rfl hgiven hplan
  obtain ⟨es, hes⟩ := hproject.1 (by decide) (List.cons_ne_nil _ _)
  refine ⟨rfl, hgiven, _, es, hplan, hes, (hproject.2 es hes).2.mpr ?_⟩
  decide

/-- A page brings back a field that an explicit projection leaves out. -/
theorem exists_overridden_projection :
    let s : Shape := {
      columns := [.text "name"]
      projections := .map [(.text "name", .int 0)]
      paginating := .bool true }
    ∃ p es, plan s (.map []) = .ok p ∧ p.Projects es ∧ get? es (.text "name") = some (.int 1) := by
  intro s
  exact ⟨.aggregate [.project [(.text "name", .int 1)]] [], _, rfl, List.mem_singleton_self _, rfl⟩

end DocQuery
