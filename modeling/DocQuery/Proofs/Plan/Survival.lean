import DocQuery.Proofs.Path
import DocQuery.Proofs.Plan.Stages

/-!
# Columns after a grouping

A grouping keeps the last value of a selected column under the column's output field, where nothing
that is written later has the same name (`get?_groupFields_flatten_iff`). A page projects the column
and a row is read by it, each under the column's own name; `column_survives_iff` says for which
columns this comes to the same field.
-/

namespace DocQuery

open Entries
open Grouping (lastOf referenceTo accumulator groupFields columnFields columnOf?)

/-- No other column that is selected later has the output field of the column. -/
def LastOfItsField (columns : List Text) (c : Text) : Prop :=
  ∃ before after, columns = before ++ c :: after ∧ ∀ d ∈ after, Path.flatten d ≠ Path.flatten c

/-- Nothing that a grouping writes after a selected column takes the place of its last value. -/
def KeepsLast (s : Shape) (c : Text) : Prop :=
  LastOfItsField (texts s.selectedColumns) c ∧
    ∀ a, s.aggregate = some a → c = "aggregate" → accumulator a = lastOf (referenceTo c)

/-- A row has the fields of a grouping and no other. -/
structure RowOf (fields row : Entries) : Prop where
  distinct : row.Distinct
  hasKey_eq : ∀ k, row.hasKey k = fields.hasKey k

/-- What is read of a row by the column is the value of a field that holds the column's last
value. -/
def ReadsField (fields : Entries) (c : Text) : Prop :=
  ∃ k, get? fields k = some (lastOf (referenceTo c)) ∧ ∀ row, RowOf fields row →
    Path.read (.map row) (.text c) = .ok ((get? row k).getD .null)

/-- A page projects the field that holds the last value of a selected column, and rows are read by
it. -/
structure Survives (s : Shape) (stages : List Stage) (fields : Entries) (c : Text) : Prop where
  page : s.paginating.truthy = true → ∃ projected, .project projected ∈ stages ∧
    get? projected (.text c) = some (.int 1) ∧ get? fields (.text c) = some (lastOf (referenceTo c))
  read : ReadsField fields c

variable {s : Shape} {filter : Value} {stages : List Stage} {fields row : Entries} {c : Text}
  {columns : List Text}

theorem columnOf?_flatten_iff :
    columnOf? columns (Path.flatten c) = some c ↔ LastOfItsField columns c := by
  rw [Grouping.columnOf?_eq_some_iff]
  exact and_iff_right rfl

theorem exists_columnOf?_flatten (h : c ∈ columns) :
    ∃ d, columnOf? columns (Path.flatten c) = some d ∧ Path.flatten d = Path.flatten c := by
  cases hd : columnOf? columns (Path.flatten c) with
  | none => exact absurd rfl (Grouping.columnOf?_eq_none_iff.mp hd c h)
  | some d => exact ⟨d, rfl, (Grouping.columnOf?_eq_some_iff.mp hd).1⟩

theorem eq_aggregate_of_flatten (h : Path.flatten c = "aggregate") : c = "aggregate" := by
  by_cases hdot : CodePoint.char '.' ∈ c
  · -- a dot leaves an underscore, and there is none in the name
    have hmem := Path.underscore_mem_flatten hdot
    rw [h] at hmem
    exact absurd hmem (by decide)
  · rw [← h, Path.flatten_of_not_mem hdot]

theorem lastOfItsField_aggregate (h : ("aggregate" : Text) ∈ columns) :
    LastOfItsField columns "aggregate" := by
  obtain ⟨d, hd, hflat⟩ := exists_columnOf?_flatten h
  obtain rfl := eq_aggregate_of_flatten (hflat.trans (by decide))
  exact columnOf?_flatten_iff.mp hd

theorem get?_columnFields_flatten_iff (hgroups : s.groups ≠ [])
    (hc : c ∈ texts s.selectedColumns) :
    get? (columnFields s) (.text (Path.flatten c)) = some (lastOf (referenceTo c)) ↔
      LastOfItsField (texts s.selectedColumns) c := by
  obtain ⟨d, hd, -⟩ := exists_columnOf?_flatten hc
  rw [← columnOf?_flatten_iff, columnFields, if_neg hgroups, Grouping.get?_update_outputs, hd]
  simp [Grouping.lastOf_inj]

theorem get?_groupFields_flatten_iff (hs : s.TextColumns) (hgroups : s.groups ≠ [])
    (hc : c ∈ texts s.selectedColumns) :
    get? (groupFields s) (.text (Path.flatten c)) = some (lastOf (referenceTo c)) ↔
      KeepsLast s c := by
  have hcolumn := get?_columnFields_flatten_iff hgroups hc
  by_cases hagg : c = "aggregate"
  · subst hagg
    have hlast := lastOfItsField_aggregate hc
    rw [Grouping.groupFields_eq hs hgroups]
    cases ha : s.aggregate with
    | none => simp [KeepsLast, hcolumn, hlast, ha]
    | some a =>
      have hsame : Grouping.aggregateKey.sameKey (.text (Path.flatten "aggregate")) = true := by
        decide
      simp [KeepsLast, hlast, ha, get?_insert, hsame]
  · have hne : Path.flatten c ≠ "aggregate" := mt eq_aggregate_of_flatten hagg
    rw [Grouping.get?_groupFields hs hgroups hne, hcolumn]
    simp [KeepsLast, hagg]

/-- A path with a dot is the name of a field only where it is a group column too. -/
theorem get?_groupFields_of_dot (hs : s.TextColumns) (hgroups : s.groups ≠ [])
    (hdot : CodePoint.char '.' ∈ c) :
    get? (groupFields s) (.text c) = some (lastOf (referenceTo c)) ↔ .text c ∈ s.groups := by
  have hagg : c ≠ "aggregate" := fun h => absurd (h ▸ hdot) (by decide)
  have hid : c ≠ "_id" := fun h => absurd (h ▸ hdot) (by decide)
  have hcolumn : columnOf? (texts s.selectedColumns) c = none :=
    Grouping.columnOf?_eq_none_iff.mpr fun d _ h => Path.dot_not_mem_flatten d (h ▸ hdot)
  rw [Grouping.get?_groupFields hs hgroups hagg, columnFields, if_neg hgroups,
    Grouping.get?_update_outputs, hcolumn, Grouping.get?_foldl_withGroupColumn hid,
    ← mem_texts_iff hs.groups]
  by_cases hmem : c ∈ texts s.groups <;> simp [hmem, get?]

theorem rowOf_self (h : fields.Distinct) : RowOf fields fields :=
  ⟨h, fun _ => rfl⟩

theorem rowOf_map_const (h : fields.Distinct) (v : Value) :
    RowOf fields (fields.map fun e => (e.1, v)) := by
  have hkeys : keys (fields.map fun e => (e.1, v)) = keys fields := by
    simp [keys, Function.comp_def]
  constructor
  case distinct =>
    unfold Entries.Distinct
    rwa [hkeys]
  case hasKey_eq =>
    intro k
    rw [hasKey_eq_any_keys, hasKey_eq_any_keys, hkeys]

theorem read_map_const_of_mem (hdot : CodePoint.char '.' ∈ c) {v : Value} (hv : ∀ es, v ≠ .map es)
    (fields : Entries) :
    Path.read (.map (fields.map fun e => (e.1, v))) (.text c) = .ok .null := by
  refine Path.read_text_of_mem hdot fun e he es => ?_
  obtain ⟨_, -, rfl⟩ := List.mem_map.mp he
  exact hv es

/-- Rows are read by a column where a field of the column's own name holds its last value. -/
theorem readsField_iff (hd : fields.Distinct) :
    ReadsField fields c ↔
      CodePoint.char '.' ∉ c ∧ get? fields (.text c) = some (lastOf (referenceTo c)) := by
  constructor
  · rintro ⟨k, hk, hread⟩
    have hdot : CodePoint.char '.' ∉ c := fun hdot => by
      -- no path leads into a row of numbers
      have hones := hread _ (rowOf_map_const hd (.int 1))
      rw [read_map_const_of_mem hdot (by simp), get?_map_const, hk] at hones
      simp at hones
    have hself := hread _ (rowOf_self hd)
    rw [Path.read_text_of_not_mem hdot, hk] at hself
    refine ⟨hdot, ?_⟩
    cases hget : get? fields (.text c) with
    | none => simp [hget, lastOf] at hself
    | some v => simpa [hget] using hself
  · rintro ⟨hdot, hget⟩
    exact ⟨_, hget, fun row _ => Path.read_text_of_not_mem hdot row⟩

theorem exists_project_of_pipeline (hs : s.TextColumns) (h : pipeline s filter = .ok stages)
    (hpage : s.paginating.truthy = true) (hc : .text c ∈ s.selectedColumns) :
    ∃ projected, .project projected ∈ stages ∧ get? projected (.text c) = some (.int 1) := by
  obtain ⟨g, given, projected, sorting, -, -, hprojected, -, rfl⟩ := exists_parts_of_pipeline h
  have hcolumns := Grouping.allText_selectedColumns hs.columns
  rw [pageProjection_eq (hashable_of_allText hcolumns)] at hprojected
  obtain rfl := Except.ok.inj hprojected
  have hget : get? (given.update (s.pageColumns.map (·, .int 1))) (.text c) = some (.int 1) := by
    rw [get?_update_const, if_pos]
    rw [Shape.pageColumns, if_pos hpage, any_sameKey_text_iff hcolumns]
    exact hc
  refine ⟨_, mem_stagesOf_iff.mpr ⟨fun hnil => ?_, rfl⟩, hget⟩
  rw [hnil] at hget
  exact nomatch hget

/-- A selected column keeps its last value under a name of its own, its path without the dots. Pages
and readers use the column's name, which comes to the same where it has no dot. -/
theorem column_survives_iff (hs : s.TextColumns) (hgroups : s.groups ≠ [])
    (h : pipeline s filter = .ok stages) (hc : .text c ∈ s.selectedColumns) :
    ∃ fields, (∀ es, .group es ∈ stages ↔ es = fields) ∧
      (get? fields (.text (Path.flatten c)) = some (lastOf (referenceTo c)) ↔ KeepsLast s c) ∧
      (get? fields (.text c) = some (lastOf (referenceTo c)) ↔
        if CodePoint.char '.' ∈ c then .text c ∈ s.groups else KeepsLast s c) ∧
      (Survives s stages fields c ↔ CodePoint.char '.' ∉ c ∧ KeepsLast s c) := by
  have hmem := (mem_texts_iff (Grouping.allText_selectedColumns hs.columns)).mpr hc
  have hkeeps := get?_groupFields_flatten_iff hs hgroups hmem
  have hreads := @readsField_iff _ c (Grouping.distinct_groupFields s)
  refine ⟨groupFields s, mem_group_iff_of_pipeline hs hgroups h, hkeeps, ?_, ?_, ?_⟩
  · split
    · next hdot => exact get?_groupFields_of_dot hs hgroups hdot
    · next hdot => rwa [Path.flatten_of_not_mem hdot] at hkeeps
  · intro hsurvives
    obtain ⟨hdot, hget⟩ := hreads.mp hsurvives.read
    rw [← hkeeps, Path.flatten_of_not_mem hdot]
    exact ⟨hdot, hget⟩
  · rintro ⟨hdot, hlast⟩
    have hget := hkeeps.mpr hlast
    rw [Path.flatten_of_not_mem hdot] at hget
    constructor
    case page =>
      intro hpage
      obtain ⟨projected, hstage, hone⟩ := exists_project_of_pipeline hs h hpage hc
      exact ⟨projected, hstage, hone, hget⟩
    case read => exact hreads.mpr ⟨hdot, hget⟩

/-- A column that is selected after one whose output field has its name. -/
theorem column_survives_iff_later :
    let s : Shape := {
      columns := [.text "home.city", .text "home_city", .text "name"]
      groups := [.text "category", .text "home.city"]
      paginating := .bool true }
    s.TextColumns ∧ s.groups ≠ [] ∧ .text "home_city" ∈ s.selectedColumns ∧
      ∃ stages fields, pipeline s (.map []) = .ok stages ∧
        (∀ es, .group es ∈ stages ↔ es = fields) ∧
        Survives s stages fields "home_city" := by
  intro s
  have hs : s.TextColumns := {
    columns := allText_map ["home.city", "home_city", "name"]
    groups := allText_map ["category", "home.city"]
    aggregate := by simp [s] }
  have hgroups : s.groups ≠ [] := List.cons_ne_nil _ _
  have hc : Value.text "home_city" ∈ s.selectedColumns :=
    List.mem_cons_of_mem _ List.mem_cons_self
  have hpipeline : pipeline s (.map []) = .ok _ := rfl
  obtain ⟨fields, hgroup, -, -, hiff⟩ := column_survives_iff hs hgroups hpipeline hc
  have hlast : KeepsLast s "home_city" :=
    ⟨⟨["home.city"], ["name"], rfl, by decide⟩, by simp [s]⟩
  exact ⟨hs, hgroups, hc, _, fields, hpipeline, hgroup, hiff.mpr ⟨by decide, hlast⟩⟩

/-- A page projects a path that its groups have no field for, and rows are read as null by it. -/
theorem exists_lost_column :
    let s : Shape := {
      columns := [.text "address.city"], groups := [.text "category"], paginating := .bool true }
    s.TextColumns ∧ s.groups ≠ [] ∧ .text "address.city" ∈ s.selectedColumns ∧
      ∃ fields row, pipeline s (.map []) =
          .ok [.group fields, .project [(.text "address.city", .int 1)]] ∧
        hasKey fields (.text "address.city") = false ∧
        get? fields (.text "address_city") = some (lastOf (referenceTo "address.city")) ∧
        RowOf fields row ∧ get? row (.text "address_city") = some (.text "Oslo") ∧
        Path.read (.map row) (.text "address.city") = .ok .null := by
  intro s
  have hs : s.TextColumns := {
    columns := allText_map ["address.city"]
    groups := allText_map ["category"]
    aggregate := by simp [s] }
  have hpipeline : pipeline s (.map []) =
      .ok [.group (groupFields s), .project [(.text "address.city", .int 1)]] := rfl
  have hread := read_map_const_of_mem (by decide : CodePoint.char '.' ∈ ("address.city" : Text))
    (by simp : ∀ es, Value.text "Oslo" ≠ .map es) (groupFields s)
  exact ⟨hs, List.cons_ne_nil _ _, List.mem_cons_self, groupFields s, _, hpipeline, by decide, rfl,
    rowOf_map_const (Grouping.distinct_groupFields s) (.text "Oslo"), rfl, hread⟩

end DocQuery
