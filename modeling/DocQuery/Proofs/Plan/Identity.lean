import DocQuery.Proofs.Plan.Stages

/-!
# The identity of a group

Group columns write the identity of a group next to the fields of the columns, so that a column of
its name is written over it. `foldl_addToIdentity` says what it is where no group column has that
name, `group_identity` when it is that in a pipeline.
-/

namespace DocQuery

open Entries

namespace Grouping

def references (names : List Text) : Entries :=
  names.map fun g => (.text g, referenceTo g)

/-- A reference to each group column, in order of first appearance. -/
def identityOf (names : List Text) : Entries :=
  references names.eraseDups

variable {names : List Text} {es : Entries} {c g : Text}

theorem references_cons (g : Text) (names : List Text) :
    references (g :: names) = (.text g, referenceTo g) :: references names := rfl

theorem insert_references (names : List Text) (g : Text) :
    (references names).insert (.text g) (referenceTo g) =
      references (if g ∈ names then names else names ++ [g]) := by
  induction names with
  | nil => rfl
  | cons n names ih =>
    rw [references_cons, Entries.insert, Value.sameKey_text]
    by_cases hn : n = g
    · simp [hn, references_cons]
    · have hmem : g ∈ n :: names ↔ g ∈ names := by simp [Ne.symm hn]
      rw [if_neg (by simpa using hn), ih, ← references_cons]
      by_cases hg : g ∈ names <;> simp [hmem, hg]

theorem foldl_addToIdentity (h : ("_id" : Text) ∉ names) :
    names.foldl addToIdentity [] = identityOf names := by
  induction names using List.reverseRecOn with
  | nil => rfl
  | append_singleton names g ih =>
    simp only [List.mem_append, List.mem_singleton, not_or] at h
    obtain ⟨hnames, hg⟩ := h
    rw [List.foldl_append, ih hnames, List.foldl_cons, List.foldl_nil, addToIdentity,
      if_neg (Ne.symm hg)]
    unfold identityOf
    -- a column that was there before is written over itself
    rw [insert_references, List.eraseDups_append]
    by_cases hmem : g ∈ names <;> simp [List.removeAll, hmem, List.eraseDups_cons]

theorem forall_ne_foldl_addToIdentity (h : ∀ e ∈ es, e.1 ≠ .text "_id") (names : List Text) :
    ∀ e ∈ names.foldl addToIdentity es, e.1 ≠ .text "_id" := by
  induction names generalizing es with
  | nil => exact h
  | cons g names ih =>
    refine ih ?_
    unfold addToIdentity
    split
    · simp [Entries.single]
    · next hg =>
      have hnew : ∀ e ∈ [(Value.text g, referenceTo g)], e.1 ≠ .text "_id" := by
        simpa using hg
      exact @forall_key_update _ _ (· ≠ .text "_id") h hnew

theorem foldl_addToIdentity_eq_iff :
    names.foldl addToIdentity [] = identityOf names ↔ ("_id" : Text) ∉ names := by
  constructor
  · intro h hmem
    have hno := @forall_ne_foldl_addToIdentity [] (by simp) names
    rw [h] at hno
    have hentry : (Value.text "_id", referenceTo "_id") ∈ identityOf names :=
      List.mem_map_of_mem (List.mem_eraseDups.mpr hmem)
    exact hno _ hentry rfl
  · exact foldl_addToIdentity

/-- A selected column that is written over the identity leaves none of group columns. -/
theorem lastOf_ne_identityOf (h : Path.flatten c = "_id") :
    lastOf (referenceTo c) ≠ .map (identityOf names) := by
  intro heq
  have hes : Entries.single "$last" (referenceTo c) = identityOf names := by
    simpa [lastOf] using heq
  -- then the one group column has the name of the accumulator, and so has the selected column
  have hentry : (Value.text "$last", referenceTo c) ∈ identityOf names := by
    rw [← hes]
    exact List.mem_singleton_self _
  obtain ⟨g, -, hg⟩ := List.mem_map.mp hentry
  obtain ⟨rfl, rfl⟩ : g = "$last" ∧ g = c := by simpa using hg
  exact absurd h (by decide)

theorem exists_identity {s : Shape} (hs : s.TextColumns) (hgroups : s.groups ≠ []) :
    ∃ identity, get? (groupFields s) idKey = some (.map identity) ∧
      (identity = identityOf (texts s.groups) ↔
        .text "_id" ∉ s.groups ∧ ∀ c, .text c ∈ s.selectedColumns → Path.flatten c ≠ "_id") := by
  obtain ⟨identity, -, hid, heq⟩ := get?_columnFields_id hs hgroups
  refine ⟨identity, ?_, ?_⟩
  · rw [← hid]
    exact get?_groupFields hs hgroups (by decide)
  rw [← mem_texts_iff hs.groups]
  simp only [← mem_texts_iff (allText_selectedColumns hs.columns)]
  cases hc : columnOf? (texts s.selectedColumns) "_id" with
  | some c =>
    obtain ⟨hflat, before, after, hsplit, -⟩ := columnOf?_eq_some_iff.mp hc
    rw [hc] at heq
    have hne : identity ≠ identityOf (texts s.groups) := fun h =>
      lastOf_ne_identityOf hflat (h ▸ heq.symm)
    have hmem : c ∈ texts s.selectedColumns := by simp [hsplit]
    exact ⟨fun h => absurd h hne, fun h => absurd hflat (h.2 c hmem)⟩
  | none =>
    rw [hc] at heq
    obtain rfl : identity = (texts s.groups).foldl addToIdentity [] := by simpa using heq
    rw [foldl_addToIdentity_eq_iff]
    exact (and_iff_left (columnOf?_eq_none_iff.mp hc)).symm

end Grouping

open Grouping (idKey identityOf)

variable {s : Shape} {filter : Value} {stages : List Stage}

/-- Groups are told apart by their group columns, unless a group column or the output field of a
selected column has the name of the identity. -/
theorem group_identity (hs : s.TextColumns) (hgroups : s.groups ≠ [])
    (h : pipeline s filter = .ok stages) :
    ∃ fields identity, (∀ es, .group es ∈ stages ↔ es = fields) ∧
      get? fields idKey = some (.map identity) ∧
      (identity = identityOf (texts s.groups) ↔
        .text "_id" ∉ s.groups ∧ ∀ c, .text c ∈ s.selectedColumns → Path.flatten c ≠ "_id") := by
  obtain ⟨identity, hid, hiff⟩ := Grouping.exists_identity hs hgroups
  exact ⟨_, identity, mem_group_iff_of_pipeline hs hgroups h, hid, hiff⟩

/-- Columns that come twice, have a path, or have the name of the aggregate. -/
theorem group_identity_repeated_column :
    let s : Shape := {
      columns := [.text "aggregate", .text "address._id", .text "city"]
      groups := [.text "city", .text "address.city", .text "city"]
      aggregate := some { function := .text "count" } }
    s.TextColumns ∧ s.groups ≠ [] ∧ ∃ stages fields identity, pipeline s (.map []) = .ok stages ∧
      (∀ es, .group es ∈ stages ↔ es = fields) ∧ get? fields idKey = some (.map identity) ∧
      identity =
        [(.text "city", .text "$city"), (.text "address.city", .text "$address.city")] := by
  intro s
  have hs : s.TextColumns := {
    columns := allText_map ["aggregate", "address._id", "city"]
    groups := allText_map ["city", "address.city", "city"]
    aggregate := by
      intro a ha
      obtain rfl := Option.some.inj ha
      exact allText_map [] }
  have hgroups : s.groups ≠ [] := List.cons_ne_nil _ _
  have hpipeline : pipeline s (.map []) = .ok _ := rfl
  obtain ⟨fields, identity, hmem, hid, hiff⟩ := group_identity hs hgroups hpipeline
  have hcolumns : ∀ c ∈ (["aggregate", "address._id", "city"] : List Text),
      Path.flatten c ≠ "_id" := by decide
  refine ⟨hs, hgroups, _, fields, identity, hpipeline, hmem, hid, hiff.mpr ⟨by simp [s], ?_⟩⟩
  exact fun c hc => hcolumns c
    ((mem_texts_iff (allText_map ["aggregate", "address._id", "city"])).mpr hc)

/-- Groups whose identity is asked for are told apart by something else. -/
theorem exists_lost_identity :
    let s : Shape := { columns := [.text "name", .text "_id"], groups := [.text "city"] }
    s.TextColumns ∧ s.groups ≠ [] ∧ ∃ fields identity,
      pipeline s (.map []) = .ok [.group fields] ∧ get? fields idKey = some (.map identity) ∧
      identity ≠ identityOf (texts s.groups) := by
  intro s
  have hs : s.TextColumns := {
    columns := allText_map ["name", "_id"]
    groups := allText_map ["city"]
    aggregate := by simp [s] }
  refine ⟨hs, List.cons_ne_nil _ _, _, [(.text "$last", .text "$_id")], rfl, rfl, ?_⟩
  have hidentity : identityOf (texts s.groups) = [(.text "city", .text "$city")] := rfl
  simp [hidentity]

end DocQuery
