import DocQuery.Proofs.Plan.Survival

/-!
# The accumulators of a grouping

Every group column, every selected column and the aggregate has an accumulator
(`Grouping.accumulators`). Under the name of one is what was written last under it, so that all of
them are kept where no two that differ have the same name: `accumulators_kept_iff`.
-/

namespace DocQuery

open Entries

namespace Grouping

/-- An accumulator for each group column, under the name of the column. -/
def groupOutputs (names : List Text) : Entries :=
  names.map fun g => (.text g, lastOf (referenceTo g))

def aggregateOutput (s : Shape) : Entries :=
  match s.aggregate with
  | none => []
  | some a => [(aggregateKey, accumulator a)]

/-- The accumulators under their names, in the order in which they are written. -/
def accumulators (s : Shape) : Entries :=
  groupOutputs (texts s.groups) ++ (outputs (texts s.selectedColumns) ++ aggregateOutput s)

/-- Accumulators that have the same name are the same. -/
structure NamesApart (s : Shape) : Prop where
  columns : ∀ c ∈ texts s.selectedColumns, ∀ d ∈ texts s.selectedColumns,
    Path.flatten c = Path.flatten d → c = d
  groups : ∀ g ∈ texts s.groups, ∀ c ∈ texts s.selectedColumns, Path.flatten c = g → c = g
  aggregate : ∀ a, s.aggregate = some a → ∀ c ∈ texts s.groups ++ texts s.selectedColumns,
    c = "aggregate" → accumulator a = lastOf (referenceTo c)

variable {s : Shape} {e f : Value × Value}

theorem mem_accumulators_iff :
    e ∈ accumulators s ↔ (∃ g ∈ texts s.groups, (.text g, lastOf (referenceTo g)) = e) ∨
      (∃ c ∈ texts s.selectedColumns, (.text (Path.flatten c), lastOf (referenceTo c)) = e) ∨
      ∃ a, s.aggregate = some a ∧ (aggregateKey, accumulator a) = e := by
  have haggregate : e ∈ aggregateOutput s ↔
      ∃ a, s.aggregate = some a ∧ (aggregateKey, accumulator a) = e := by
    unfold aggregateOutput
    cases s.aggregate <;> simp [eq_comm]
  rw [accumulators, List.mem_append, List.mem_append, groupOutputs, List.mem_map, outputs,
    List.mem_map, haggregate]

theorem exists_name (h : e ∈ accumulators s) : ∃ k : Text, e.1 = .text k := by
  rcases mem_accumulators_iff.mp h with ⟨g, -, rfl⟩ | ⟨c, -, rfl⟩ | ⟨a, -, rfl⟩
  · exact ⟨g, rfl⟩
  · exact ⟨Path.flatten c, rfl⟩
  · exact ⟨"aggregate", rfl⟩

theorem sameKey_self_of_mem (h : e ∈ accumulators s) : e.1.sameKey e.1 = true := by
  obtain ⟨k, hk⟩ := exists_name h
  rw [hk, Value.sameKey_text, beq_self_eq_true]

theorem NamesApart.agree (hn : NamesApart s) (he : e ∈ accumulators s) (hf : f ∈ accumulators s)
    (hkey : e.1.sameKey f.1 = true) : e.2 = f.2 := by
  have hgroup : ∀ a, s.aggregate = some a → ∀ g ∈ texts s.groups, g = "aggregate" →
      accumulator a = lastOf (referenceTo g) := fun a ha g hg h =>
    hn.aggregate a ha g (List.mem_append_left _ hg) h
  have hselected : ∀ a, s.aggregate = some a → ∀ c ∈ texts s.selectedColumns,
      Path.flatten c = "aggregate" → accumulator a = lastOf (referenceTo c) := fun a ha c hc h =>
    hn.aggregate a ha c (List.mem_append_right _ hc) (eq_aggregate_of_flatten h)
  -- both entries are of a group column, of a selected column or of the aggregate
  rcases mem_accumulators_iff.mp he with ⟨g, hg, rfl⟩ | ⟨c, hc, rfl⟩ | ⟨a, ha, rfl⟩ <;>
    rcases mem_accumulators_iff.mp hf with ⟨g', hg', rfl⟩ | ⟨d, hd, rfl⟩ | ⟨b, hb, rfl⟩
  · have h : g = g' := by simpa using hkey
    rw [h]
  · have h : g = Path.flatten d := by simpa using hkey
    rw [hn.groups g hg d hd h.symm]
  · have h : g = "aggregate" := by simpa [aggregateKey] using hkey
    exact (hgroup b hb g hg h).symm
  · have h : Path.flatten c = g' := by simpa using hkey
    rw [hn.groups g' hg' c hc h]
  · have h : Path.flatten c = Path.flatten d := by simpa using hkey
    rw [hn.columns c hc d hd h]
  · have h : Path.flatten c = "aggregate" := by simpa [aggregateKey] using hkey
    exact (hselected b hb c hc h).symm
  · have h : "aggregate" = g' := by simpa [aggregateKey] using hkey
    exact hgroup a ha g' hg' h.symm
  · have h : "aggregate" = Path.flatten d := by simpa [aggregateKey] using hkey
    exact hselected a ha d hd h.symm
  · rw [Option.some.inj (ha.symm.trans hb)]

/-- Whether the names are apart is seen on the accumulators. -/
theorem namesApart_iff :
    NamesApart s ↔
      ∀ e ∈ accumulators s, ∀ f ∈ accumulators s, e.1.sameKey f.1 = true → e.2 = f.2 := by
  constructor
  · exact fun hn e he f hf => hn.agree he hf
  · intro h
    have hgroup : ∀ g ∈ texts s.groups, (.text g, lastOf (referenceTo g)) ∈ accumulators s :=
      fun g hg => mem_accumulators_iff.mpr (.inl ⟨g, hg, rfl⟩)
    have hselected : ∀ c ∈ texts s.selectedColumns,
        (.text (Path.flatten c), lastOf (referenceTo c)) ∈ accumulators s :=
      fun c hc => mem_accumulators_iff.mpr (.inr (.inl ⟨c, hc, rfl⟩))
    constructor
    case columns =>
      intro c hc d hd hname
      exact lastOf_inj.mp (h _ (hselected c hc) _ (hselected d hd) (by simpa using hname))
    case groups =>
      intro g hg c hc hname
      exact lastOf_inj.mp (h _ (hselected c hc) _ (hgroup g hg) (by simpa using hname))
    case aggregate =>
      rintro a ha c hc rfl
      have haggregate := mem_accumulators_iff.mpr (.inr (.inr ⟨a, ha, rfl⟩))
      rcases List.mem_append.mp hc with hc | hc
      · exact h _ haggregate _ (hgroup _ hc) rfl
      · exact h _ haggregate _ (hselected _ hc) rfl

theorem last?_groupOutputs (names : List Text) (k : Text) :
    last? (groupOutputs names) (.text k) =
      if k ∈ names then some (lastOf (referenceTo k)) else none := by
  induction names with
  | nil => rfl
  | cons g names ih =>
    have hcons : groupOutputs (g :: names) =
        (.text g, lastOf (referenceTo g)) :: groupOutputs names := rfl
    rw [hcons, last?_cons, ih, Value.sameKey_text]
    by_cases hg : g = k
    · subst hg
      by_cases hmem : g ∈ names <;> simp [hmem]
    · simp [hg, Ne.symm hg]

theorem groupFields_eq_update (hs : s.TextColumns) (hgroups : s.groups ≠ []) :
    groupFields s = ((texts s.groups).foldl withGroupColumn []).update
      (outputs (texts s.selectedColumns) ++ aggregateOutput s) := by
  rw [groupFields_eq hs hgroups, columnFields, if_neg hgroups, aggregateOutput]
  cases s.aggregate with
  | none => simp
  | some a => simp [update, List.foldl_append]

/-- Under the name of an accumulator is the one that was written last under it. -/
theorem get?_groupFields_of_mem (hs : s.TextColumns) (hgroups : s.groups ≠ [])
    (hid : .text "_id" ∉ s.groups) (he : e ∈ accumulators s) :
    get? (groupFields s) e.1 = last? (accumulators s) e.1 := by
  rw [groupFields_eq_update hs hgroups, get?_update_eq_last?, accumulators,
    last?_append (groupOutputs _)]
  rcases List.mem_append.mp he with hg | hrest
  · obtain ⟨g, hmem, rfl⟩ := List.mem_map.mp hg
    have hne : g ≠ "_id" := fun h => hid ((mem_texts_iff hs.groups).mp (h ▸ hmem))
    rw [get?_foldl_withGroupColumn hne, last?_groupOutputs, if_pos hmem, if_pos hmem]
  · obtain ⟨v, hv⟩ := Option.ne_none_iff_exists'.mp (last?_ne_none hrest (sameKey_self_of_mem he))
    rw [hv, Option.some_or, Option.some_or]

end Grouping

open Grouping (lastOf referenceTo accumulators groupFields NamesApart)

variable {s : Shape} {filter : Value} {stages : List Stage}

/-- Under the name of an accumulator a grouping has the one that was written last under it. All of
them are there where no two that differ have the same name. -/
theorem accumulators_kept_iff (hs : s.TextColumns) (hgroups : s.groups ≠ [])
    (hid : .text "_id" ∉ s.groups) (h : pipeline s filter = .ok stages) :
    ∃ fields, (∀ es, .group es ∈ stages ↔ es = fields) ∧
      (∀ e ∈ accumulators s, get? fields e.1 = last? (accumulators s) e.1) ∧
      ((∀ e ∈ accumulators s, get? fields e.1 = some e.2) ↔ NamesApart s) := by
  have hlast : ∀ e ∈ accumulators s, get? (groupFields s) e.1 = last? (accumulators s) e.1 :=
    fun e he => Grouping.get?_groupFields_of_mem hs hgroups hid he
  refine ⟨groupFields s, mem_group_iff_of_pipeline hs hgroups h, hlast, ?_⟩
  rw [Grouping.namesApart_iff, ← forall_last?_eq_iff fun e he => Grouping.sameKey_self_of_mem he]
  exact forall₂_congr fun e he => by rw [hlast e he]

/-- A path that is grouped by and selected, next to an aggregate. -/
theorem accumulators_kept_iff_path :
    let s : Shape := {
      columns := [.text "home.city", .text "name"]
      groups := [.text "category", .text "home.city"]
      aggregate := some { function := .text "sum", columns := [.text "items.*.price"] } }
    s.TextColumns ∧ s.groups ≠ [] ∧ .text "_id" ∉ s.groups ∧
      ∃ stages fields, pipeline s (.map []) = .ok stages ∧
        (∀ es, .group es ∈ stages ↔ es = fields) ∧
        get? fields (.text "category") = some (lastOf (referenceTo "category")) ∧
        get? fields (.text "home.city") = some (lastOf (referenceTo "home.city")) ∧
        get? fields (.text "home_city") = some (lastOf (referenceTo "home.city")) ∧
        get? fields (.text "name") = some (lastOf (referenceTo "name")) ∧
        get? fields (.text "aggregate") =
          some (.map [(.text "$sum", .text "$items.price")]) := by
  intro s
  have hs : s.TextColumns := {
    columns := allText_map ["home.city", "name"]
    groups := allText_map ["category", "home.city"]
    aggregate := by
      rintro a ⟨⟩
      exact allText_map ["items.*.price"] }
  have hgroups : s.groups ≠ [] := List.cons_ne_nil _ _
  have hid : Value.text "_id" ∉ s.groups := by simp [s]
  have hpipeline : pipeline s (.map []) = .ok _ := rfl
  have hapart : NamesApart s := {
    columns := by decide
    groups := by decide
    aggregate := fun a _ c hc h => absurd (h ▸ hc) (by decide) }
  obtain ⟨fields, hgroup, -, hiff⟩ := accumulators_kept_iff hs hgroups hid hpipeline
  have hkept := hiff.mpr hapart
  have hgrouped : ∀ g ∈ texts s.groups, get? fields (.text g) = some (lastOf (referenceTo g)) :=
    fun g hg => hkept _ (Grouping.mem_accumulators_iff.mpr (.inl ⟨g, hg, rfl⟩))
  have hselected : ∀ c ∈ texts s.selectedColumns,
      get? fields (.text (Path.flatten c)) = some (lastOf (referenceTo c)) :=
    fun c hc => hkept _ (Grouping.mem_accumulators_iff.mpr (.inr (.inl ⟨c, hc, rfl⟩)))
  have haggregate := hkept _ (Grouping.mem_accumulators_iff.mpr (.inr (.inr ⟨_, rfl, rfl⟩)))
  exact ⟨hs, hgroups, hid, _, fields, hpipeline, hgroup, hgrouped "category" (by decide),
    hgrouped "home.city" (by decide), hselected "home.city" (by decide),
    hselected "name" (by decide), haggregate⟩

/-- A column of another one's output field, a selected column of a group column's name, and a group
column of the aggregate's name: each time an accumulator is nowhere. -/
theorem exists_lost_accumulator :
    let columns : Shape := {
      columns := [.text "home.city", .text "home_city"], groups := [.text "category"] }
    let group : Shape := {
      columns := [.text "home.city"], groups := [.text "home_city"] }
    let aggregate : Shape := {
      groups := [.text "aggregate"]
      aggregate := some { function := .text "sum", columns := [.text "price"] } }
    ∀ lost ∈ [(columns, "home.city"), (group, "home_city"), (aggregate, "aggregate")],
      ∃ fields, pipeline lost.1 (.map []) = .ok [.group fields] ∧
        ∀ e ∈ fields, e.2 ≠ lastOf (referenceTo lost.2) := by
  intro columns group aggregate
  have hcolumns : pipeline columns (.map []) = .ok [.group [
      (.text "_id", .map [(.text "category", .text "$category")]),
      (.text "category", lastOf (referenceTo "category")),
      (.text "home_city", lastOf (referenceTo "home_city"))]] := rfl
  have hgroup : pipeline group (.map []) = .ok [.group [
      (.text "_id", .map [(.text "home_city", .text "$home_city")]),
      (.text "home_city", lastOf (referenceTo "home.city"))]] := rfl
  have haggregate : pipeline aggregate (.map []) = .ok [.group [
      (.text "_id", .map [(.text "aggregate", .text "$aggregate")]),
      (.text "aggregate", .map [(.text "$sum", .text "$price")])]] := rfl
  simp only [List.forall_mem_cons]
  refine ⟨⟨_, hcolumns, ?_⟩, ⟨_, hgroup, ?_⟩, ⟨_, haggregate, ?_⟩, by simp⟩ <;>
    simp [lastOf, Entries.single]

end DocQuery
