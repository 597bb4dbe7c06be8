import DocQuery.Proofs.CacheKey.Identity
import DocQuery.Proofs.Query.Source

/-!
# Which queries share a cache key

The key text of a query says neither whether distinct values are wanted nor whether a page is, so
queries with one key text need not read the same (`exists_keyText_collision`). By
`same_source_iff` they do exactly when they are alike in these two (`Query.ReadsLike`), or when the
page and the fetch differ in nothing else.
-/

namespace DocQuery

open Entries RowSource Value

namespace Query

/-- The text that the cache key is the digest of. -/
def keyText (q : Query) : Except Fault (List Char) := do
  let s ← q.shape
  let f ← q.filter
  DocQuery.keyText s (.map f) (← q.databaseName) (← nameText q.collection.name)

/-- What the cache key of the query with this filter is made from. -/
def keyValue (q : Query) (f : Entries) : Except Fault Value := do
  keyParts q.ownShape (.map f) (← q.databaseName) (← nameText q.collection.name)

/-- What a query is made of by callers that keep to the types: columns that are text, and operands
that the key text can tell apart, so none with a surrogate. -/
structure Typed (q : Query) : Prop where
  columns : AllText (q.columns.getD [])
  groups : AllText q.groups
  identifiable : ∀ f v, q.filter = .ok f → q.keyValue f = .ok v → v.isIdentifiable = true
  wellFormed : ∀ f v, q.filter = .ok f → q.keyValue f = .ok v → v.isWellFormed = true

/-- An option that the caller has set says what the query says itself. -/
def OptionAgrees (q : Query) (name : Text) (v : Value) : Prop :=
  ∀ w, get? (ofList q.options) (.text name) = some w → w.orNull.asLists = v.orNull.asLists

/-- A fetch of documents reads what a page would: no option overrides the query, and no explicit
projection overrides a selected column. -/
structure FetchedLikePage (q : Query) : Prop where
  sort : q.OptionAgrees "sort" q.sortPairs
  skip : q.OptionAgrees "skip" q.offset
  limit : q.OptionAgrees "limit" q.limit
  fields : match get? (ofList q.options) (.text "projection") with
    | some w => SameFields w.orNull (map q.pageFields).orNull
    | none => ∀ c ∈ q.selected, ∀ v, get? q.explicitFields c = some v → v.key = .int 1

/-- The explicit projections keep every selected column. -/
def ProjectsSelected (q : Query) : Prop :=
  ∀ c ∈ q.selected, (get? q.explicitFields c).map Value.key = some (.int 1)

/-- Whether two queries with one key text, with the same projections and options, read the same. -/
def ReadsLike (q q' : Query) : Prop :=
  if q.groups = [] then
    match q.paginating, q'.paginating with
    | true, true => True
    | false, false => q.distinct = q'.distinct
    | true, false => q'.distinct = false ∧ q'.FetchedLikePage
    | false, true => q.distinct = false ∧ q.FetchedLikePage
  else q.paginating = q'.paginating ∨ q.ProjectsSelected

variable {q q' : Query} {f f' : Entries} {t : List Char}

theorem keyText_eq (q : Query) :
    q.keyText = q.filter >>= fun f => q.keyValue f >>= identifyingText := by
  unfold keyText keyValue
  rw [q.shape_eq]
  simp only [bind_assoc]
  rfl

theorem keyText_eq_ok_iff : q.keyText = .ok t ↔
    ∃ f v, q.filter = .ok f ∧ q.keyValue f = .ok v ∧ v.identifyingText = .ok t := by
  rw [keyText_eq]
  simp only [bind_eq_ok_iff, exists_and_left]

theorem exists_keyParts_of_keyValue {v : Value} (h : q.keyValue f = .ok v) :
    ∃ database collection, q.databaseName = .ok database ∧
      nameText q.collection.name = .ok collection ∧
        keyParts q.ownShape (.map f) database collection = .ok v := by
  obtain ⟨database, hdatabase, h⟩ := bind_eq_ok_iff.mp h
  obtain ⟨collection, hcollection, hparts⟩ := bind_eq_ok_iff.mp h
  exact ⟨database, collection, hdatabase, hcollection, hparts⟩

theorem cacheKey_eq (q : Query) : q.cacheKey = q.keyText.map digestText := by
  unfold cacheKey keyText DocQuery.cacheKey
  simp only [map_bind_eq]
  rfl

/-- What queries have in common that have one key text, and the same projections and options. -/
structure Alike (q q' : Query) (f f' : Entries) : Prop where
  filter_eq : (map f).asLists = (map f').asLists
  columns_eq : q.columns.getD [] = q'.columns.getD []
  groups_eq : q.groups = q'.groups
  sortPairs_eq : q.sortPairs.asLists = q'.sortPairs.asLists
  offset_eq : q.offset.asLists = q'.offset.asLists
  limit_eq : q.limit.asLists = q'.limit.asLists
  projections_eq : q.projections = q'.projections
  options_eq : q.options = q'.options

theorem map_asLists_of_allText {vs : List Value} (h : AllText vs) : vs.map asLists = vs := by
  refine (List.map_congr_left fun v hv => ?_).trans (List.map_id vs)
  obtain ⟨s, rfl⟩ := h v hv
  rfl

theorem eq_of_map_asLists_eq {vs ws : List Value} (hv : AllText vs) (hw : AllText ws)
    (h : vs.map asLists = ws.map asLists) : vs = ws := by
  rwa [map_asLists_of_allText hv, map_asLists_of_allText hw] at h

theorem allAsLists_pairs_eq {es fs : Entries} (h : entriesAsLists es = entriesAsLists fs) :
    allAsLists (es.map fun e => .tuple [e.1, e.2]) =
      allAsLists (fs.map fun e => .tuple [e.1, e.2]) := by
  induction es generalizing fs with
  | nil =>
    cases fs with
    | nil => rfl
    | cons e fs => cases h
  | cons e es ih =>
    cases fs with
    | nil => cases h
    | cons e' fs =>
      simp only [entriesAsLists, List.cons.injEq, Prod.mk.injEq] at h
      obtain ⟨⟨hk, hv⟩, htail⟩ := h
      simp only [List.map_cons, allAsLists, asLists, hk, hv, ih htail]

theorem alike_of_keyText (hq : q.Typed) (hq' : q'.Typed) (hp : q.projections = q'.projections)
    (ho : q.options = q'.options) (ht : q.keyText = .ok t) (ht' : q'.keyText = .ok t) :
    ∃ f f', q.filter = .ok f ∧ q'.filter = .ok f' ∧ Alike q q' f f' := by
  obtain ⟨f, v, hf, hv, htext⟩ := keyText_eq_ok_iff.mp ht
  obtain ⟨f', v', hf', hv', htext'⟩ := keyText_eq_ok_iff.mp ht'
  have hidentity := (identifyingTexts_eq_iff (hq.identifiable f v hf hv)
    (hq'.identifiable f' v' hf' hv') htext htext').mp rfl
  have hlists := (identity_eq_iff (hq.wellFormed f v hf hv) (hq'.wellFormed f' v' hf' hv')).mp
    hidentity
  obtain ⟨_, _, -, -, hkey⟩ := exists_keyParts_of_keyValue hv
  obtain ⟨_, _, -, -, hkey'⟩ := exists_keyParts_of_keyValue hv'
  have hparts := (asLists_keyParts_eq_iff hkey hkey').mp hlists
  refine ⟨f, f', hf, hf', ?_⟩
  have horders : entriesAsLists q.orders = entriesAsLists q'.orders :=
    Value.map.inj hparts.orders_eq
  exact
    { filter_eq := hparts.filter_eq
      columns_eq := eq_of_map_asLists_eq hq.columns hq'.columns hparts.columns_eq
      groups_eq := eq_of_map_asLists_eq hq.groups hq'.groups hparts.groups_eq
      sortPairs_eq := congrArg Value.list (allAsLists_pairs_eq horders)
      offset_eq := hparts.offset_eq
      limit_eq := hparts.limit_eq
      projections_eq := hp
      options_eq := ho }

namespace Alike

theorem symm (h : Alike q q' f f') : Alike q' q f' f :=
  ⟨h.filter_eq.symm, h.columns_eq.symm, h.groups_eq.symm, h.sortPairs_eq.symm, h.offset_eq.symm,
    h.limit_eq.symm, h.projections_eq.symm, h.options_eq.symm⟩

theorem selected_eq (h : Alike q q' f f') : q.selected = q'.selected := by
  unfold selected Shape.selectedColumns
  rw [show q.ownShape.columns = q'.ownShape.columns from h.columns_eq]

theorem explicitFields_eq (h : Alike q q' f f') : q.explicitFields = q'.explicitFields :=
  congrArg ofList h.projections_eq

theorem pageFields_eq (h : Alike q q' f f') : q.pageFields = q'.pageFields := by
  unfold pageFields
  rw [h.explicitFields_eq, h.selected_eq]

theorem findFields_eq (h : Alike q q' f f') : q.findFields = q'.findFields := by
  unfold findFields
  rw [h.explicitFields_eq, h.selected_eq]

theorem asLists_fetchSetting (h : Alike q q' f f') (name : Text) {v w : Value}
    (hvw : v.asLists = w.asLists) :
    (q.fetchSetting name v.orNull).asLists = (q'.fetchSetting name w.orNull).asLists := by
  unfold fetchSetting
  rw [h.options_eq]
  cases get? (ofList q'.options) (.text name) with
  | none => exact asLists_orNull_congr (asLists_orNull_congr hvw)
  | some _ => rfl

theorem same_distinct (h : Alike q q' f f') : (q.distinctSource f).Same (q'.distinctSource f') := by
  refine ⟨?_, h.filter_eq, rfl, rfl, rfl, rfl, rfl, rfl⟩
  show some (q.selected.headD Grouping.idKey).asLists = some (q'.selected.headD _).asLists
  rw [h.selected_eq]

theorem same_find (h : Alike q q' f f') : (q.findSource f).Same (q'.findSource f') := by
  refine ⟨rfl, h.filter_eq, rfl, rfl, h.asLists_fetchSetting _ h.sortPairs_eq,
    h.asLists_fetchSetting _ h.offset_eq, h.asLists_fetchSetting _ h.limit_eq, ?_⟩
  show SameFields (q.fetchSetting _ (map q.findFields).orNull) (q'.fetchSetting _ _)
  unfold fetchSetting
  rw [h.options_eq, h.findFields_eq]
  exact .refl _

theorem same_pipeline_iff (h : Alike q q' f f') (g : Grouping) (es es' : Entries) :
    (q.pipelineSource f g es).Same (q'.pipelineSource f' g es') ↔
      SameFields (map es).orNull (map es').orNull :=
  ⟨fun hs => hs.sameFields, fun hs =>
    ⟨rfl, h.filter_eq, rfl, rfl, asLists_orNull_congr h.sortPairs_eq,
      asLists_orNull_congr h.offset_eq, asLists_orNull_congr h.limit_eq, hs⟩⟩

end Alike

/-! ### Pages and fetches -/

theorem get?_pageFields (q : Query) (k : Value) :
    get? q.pageFields k =
      if q.selected.any (·.sameKey k) then some (.int 1) else get? q.explicitFields k :=
  get?_update_const _ _ _ _

theorem get?_findFields (q : Query) (k : Value) :
    get? q.findFields k = (get? q.explicitFields k).or
      (if q.selected.any (·.sameKey k) then some (.bool true) else none) := by
  have hexplicit : Distinct q.explicitFields := distinct_ofList _
  unfold findFields ofKeys
  rw [get?_update _ hexplicit, ofList, get?_update_const]
  rfl

theorem pageFields_eq_nil_iff (q : Query) :
    q.pageFields = [] ↔ q.explicitFields = [] ∧ q.selected = [] := by
  unfold pageFields
  rw [update_eq_nil_iff, List.map_eq_nil_iff]

theorem findFields_eq_nil_iff (q : Query) :
    q.findFields = [] ↔ q.selected = [] ∧ q.explicitFields = [] := by
  have hofList : ∀ es, ofList es = [] ↔ es = [] := fun es => by
    unfold ofList
    rw [update_eq_nil_iff]
    simp
  unfold findFields ofKeys
  rw [update_eq_nil_iff, hofList, List.map_eq_nil_iff]

theorem any_sameKey_of_mem {vs : List Value} (h : AllText vs) {c : Value} (hc : c ∈ vs) :
    vs.any (·.sameKey c) = true := by
  obtain ⟨t, rfl⟩ := h c hc
  exact List.any_eq_true.mpr ⟨_, hc, (sameKey_self _).trans rfl⟩

theorem sameFields_page_explicit_iff (ht : AllText q.selected) :
    SameFields (map q.pageFields).orNull (map q.explicitFields).orNull ↔ q.ProjectsSelected := by
  rw [sameFields_orNull_iff]
  constructor
  · rintro ⟨-, h⟩ c hc
    have hkey := h c
    rw [get?_pageFields, if_pos (any_sameKey_of_mem ht hc)] at hkey
    exact hkey.symm
  · intro h
    refine ⟨?_, fun k => ?_⟩
    · rw [pageFields_eq_nil_iff]
      refine ⟨fun hnil => hnil.1, fun hnil => ⟨hnil, ?_⟩⟩
      refine List.eq_nil_iff_forall_not_mem.mpr fun c hc => ?_
      have hkey := h c hc
      rw [hnil] at hkey
      cases hkey
    · rw [get?_pageFields]
      split
      · next hany =>
        obtain ⟨c, hc, hck⟩ := List.any_eq_true.mp hany
        rw [← get?_congr hck, h c hc]
        rfl
      · rfl

theorem sameFields_find_page_iff (ht : AllText q.selected) :
    SameFields (map q.findFields).orNull (map q.pageFields).orNull ↔
      ∀ c ∈ q.selected, ∀ v, get? q.explicitFields c = some v → v.key = .int 1 := by
  rw [sameFields_orNull_iff]
  constructor
  · rintro ⟨-, h⟩ c hc v hv
    have hany := any_sameKey_of_mem ht hc
    have hkey := h c
    rw [get?_findFields, get?_pageFields, hv, if_pos hany, if_pos hany] at hkey
    exact Option.some.inj hkey
  · intro h
    refine ⟨?_, fun k => ?_⟩
    · rw [pageFields_eq_nil_iff, findFields_eq_nil_iff, and_comm]
    · rw [get?_findFields, get?_pageFields]
      split
      · next hany =>
        obtain ⟨c, hc, hck⟩ := List.any_eq_true.mp hany
        rw [← get?_congr hck]
        cases hv : get? q.explicitFields c with
        | none => rfl
        | some v => exact congrArg some (h c hc v hv)
      · rw [Option.or_none]

theorem asLists_fetchSetting_iff {name : Text} {v : Value} :
    (q.fetchSetting name v.orNull).asLists = v.orNull.asLists ↔ q.OptionAgrees name v := by
  unfold fetchSetting OptionAgrees
  cases get? (ofList q.options) (.text name) with
  | none => simp [orNull_orNull]
  | some w => simp

theorem sameFields_fetchSetting_iff (ht : AllText q.selected) :
    SameFields (q.fetchSetting "projection" (map q.findFields).orNull) (map q.pageFields).orNull ↔
      match get? (ofList q.options) (.text "projection") with
      | some w => SameFields w.orNull (map q.pageFields).orNull
      | none => ∀ c ∈ q.selected, ∀ v, get? q.explicitFields c = some v → v.key = .int 1 := by
  unfold fetchSetting
  cases get? (ofList q.options) (.text "projection") with
  | none =>
    rw [Option.getD_none, orNull_orNull]
    exact sameFields_find_page_iff ht
  | some w => exact Iff.rfl

theorem Alike.same_find_page_iff (h : Alike q q' f f') (ht : AllText q.selected) :
    (q.findSource f).Same (q'.pipelineSource f' {} q'.pageFields) ↔ q.FetchedLikePage := by
  have hsort : q'.sortPairs.orNull.asLists = q.sortPairs.orNull.asLists :=
    asLists_orNull_congr h.sortPairs_eq.symm
  have hskip : q'.offset.orNull.asLists = q.offset.orNull.asLists :=
    asLists_orNull_congr h.offset_eq.symm
  have hlimit : q'.limit.orNull.asLists = q.limit.orNull.asLists :=
    asLists_orNull_congr h.limit_eq.symm
  have hfields := sameFields_fetchSetting_iff ht
  rw [h.pageFields_eq] at hfields
  constructor
  · intro hs
    have hpage : SameFields (q.fetchSetting "projection" (map q.findFields).orNull)
        (map q'.pageFields).orNull := hs.sameFields
    refine ⟨asLists_fetchSetting_iff.mp (hs.sort_eq.trans hsort),
      asLists_fetchSetting_iff.mp (hs.skip_eq.trans hskip),
      asLists_fetchSetting_iff.mp (hs.limit_eq.trans hlimit), ?_⟩
    rw [h.pageFields_eq]
    exact hfields.mp hpage
  · intro hq
    have hpage := hq.fields
    rw [h.pageFields_eq] at hpage
    exact ⟨rfl, h.filter_eq, rfl, rfl, (asLists_fetchSetting_iff.mpr hq.sort).trans hsort.symm,
      (asLists_fetchSetting_iff.mpr hq.skip).trans hskip.symm,
      (asLists_fetchSetting_iff.mpr hq.limit).trans hlimit.symm, hfields.mpr hpage⟩

theorem Alike.grouping_eq (h : Alike q q' f f') (hs : q.Settled) (hs' : q'.Settled) :
    Grouping.ofShape q.ownShape = Grouping.ofShape q'.ownShape := by
  have haggregate : q.ownShape.aggregate = q'.ownShape.aggregate :=
    hs.aggregate_eq.trans hs'.aggregate_eq.symm
  have hgroups : q.ownShape.groups = q'.ownShape.groups := h.groups_eq
  have hselected : q.ownShape.selectedColumns = q'.ownShape.selectedColumns := h.selected_eq
  unfold Grouping.ofShape
  rw [haggregate, hgroups, hselected]

theorem not_same_distinct {a : RowSource} (ha : a.values = none) (q : Query) (f : Entries) :
    ¬ (q.distinctSource f).Same a := by
  intro hs
  have hvalues := hs.values_eq
  rw [ha] at hvalues
  cases hvalues

theorem Alike.same_fetch_iff (h : Alike q q' f f') :
    (if q.distinct then q.distinctSource f else q.findSource f).Same
        (if q'.distinct then q'.distinctSource f' else q'.findSource f') ↔
      q.distinct = q'.distinct := by
  cases q.distinct <;> cases q'.distinct
  · exact iff_of_true h.same_find rfl
  · exact iff_of_false (fun hs => not_same_distinct rfl q' f' hs.symm) Bool.false_ne_true
  · exact iff_of_false (not_same_distinct rfl q f) Bool.false_ne_true.symm
  · exact iff_of_true h.same_distinct rfl

theorem Alike.same_fetch_page_iff (h : Alike q q' f f') (ht : AllText q.selected) :
    (if q.distinct then q.distinctSource f else q.findSource f).Same
        (q'.pipelineSource f' {} q'.pageFields) ↔
      q.distinct = false ∧ q.FetchedLikePage := by
  cases q.distinct with
  | false => exact (h.same_find_page_iff ht).trans (and_iff_right rfl).symm
  | true =>
    exact iff_of_false (not_same_distinct rfl q f) fun hd => Bool.false_ne_true hd.1.symm

theorem Alike.same_grouped_iff (h : Alike q q' f f') (ht : AllText q.selected) (g : Grouping) :
    (q.pipelineSource f g (if q.paginating then q.pageFields else q.explicitFields)).Same
        (q'.pipelineSource f' g (if q'.paginating then q'.pageFields else q'.explicitFields)) ↔
      q.paginating = q'.paginating ∨ q.ProjectsSelected := by
  rw [h.same_pipeline_iff, ← h.pageFields_eq, ← h.explicitFields_eq]
  cases q.paginating <;> cases q'.paginating
  · exact iff_of_true (.refl _) (.inl rfl)
  · exact ⟨fun hs => .inr ((sameFields_page_explicit_iff ht).mp hs.symm), fun hq =>
      ((sameFields_page_explicit_iff ht).mpr (hq.resolve_left Bool.false_ne_true)).symm⟩
  · exact ⟨fun hs => .inr ((sameFields_page_explicit_iff ht).mp hs), fun hq =>
      (sameFields_page_explicit_iff ht).mpr (hq.resolve_left Bool.false_ne_true.symm)⟩
  · exact iff_of_true (.refl _) (.inl rfl)

theorem source_of_no_groups (hg : q.groups = []) (hp : q.paginating = false) (f : Entries)
    (g : Grouping) :
    q.source f g = if q.distinct then q.distinctSource f else q.findSource f :=
  if_pos ⟨hg, hp⟩

theorem source_of_page (hp : q.paginating = true) (f : Entries) (g : Grouping) :
    q.source f g = q.pipelineSource f g q.pageFields := by
  unfold source
  rw [if_neg (by simp [hp]), if_pos hp]

theorem source_of_groups (hg : q.groups ≠ []) (f : Entries) (g : Grouping) :
    q.source f g =
      q.pipelineSource f g (if q.paginating then q.pageFields else q.explicitFields) :=
  if_neg fun h => hg h.1

theorem Alike.same_source_iff_readsLike {g : Grouping} (h : Alike q q' f f')
    (ht : AllText q.selected) (hg : q.groups = [] → g = {}) :
    (q.source f g).Same (q'.source f' g) ↔ q.ReadsLike q' := by
  have ht' : AllText q'.selected := h.selected_eq ▸ ht
  unfold ReadsLike
  by_cases hnone : q.groups = []
  · obtain rfl := hg hnone
    have hnone' : q'.groups = [] := h.groups_eq ▸ hnone
    -- without groups a page is a pipeline and all else a fetch, so each pairing has its own lemma
    rw [if_pos hnone]
    cases hp : q.paginating <;> cases hp' : q'.paginating
    · rw [source_of_no_groups hnone hp, source_of_no_groups hnone' hp']
      exact h.same_fetch_iff
    · rw [source_of_no_groups hnone hp, source_of_page hp']
      exact h.same_fetch_page_iff ht
    · rw [source_of_page hp, source_of_no_groups hnone' hp']
      exact ⟨fun hs => (h.symm.same_fetch_page_iff ht').mp hs.symm, fun hq =>
        ((h.symm.same_fetch_page_iff ht').mpr hq).symm⟩
    · rw [source_of_page hp, source_of_page hp', ← h.pageFields_eq, h.same_pipeline_iff]
      exact iff_of_true (.refl _) trivial
  · have hsome : q'.groups ≠ [] := h.groups_eq ▸ hnone
    rw [if_neg hnone, source_of_groups hnone, source_of_groups hsome]
    exact h.same_grouped_iff ht g

/-- Queries with one key text, and the same projections and options, can be planned. What decides
whether they then read the same is what the key text leaves out: without groups they must agree in
`paginating` and, where neither is a page, in `distinct`, unless the one that is no page fetches
documents like the page; with groups they must agree in `paginating`, unless the explicit
projections keep every selected column. -/
theorem same_source_iff (hr : q.Reachable) (hr' : q'.Reachable) (hq : q.Typed) (hq' : q'.Typed)
    (hp : q.projections = q'.projections) (ho : q.options = q'.options)
    (ht : q.keyText = .ok t) (ht' : q'.keyText = .ok t) :
    ∃ p p', q.plan = .ok p ∧ q'.plan = .ok p' ∧
      (p.source.Same p'.source ↔ q.ReadsLike q') := by
  obtain ⟨f, f', hf, hf', h⟩ := alike_of_keyText hq hq' hp ho ht ht'
  obtain ⟨g, p, hg, hplan, hsource⟩ := exists_plan_source hr.settled hq.groups hq.columns hf
  obtain ⟨g', p', hg', hplan', hsource'⟩ :=
    exists_plan_source hr'.settled hq'.groups hq'.columns hf'
  rw [← h.grouping_eq hr.settled hr'.settled, hg] at hg'
  obtain rfl := Except.ok.inj hg'
  refine ⟨p, p', hplan, hplan', ?_⟩
  rw [hsource, hsource']
  refine h.same_source_iff_readsLike (allText_selected hq.columns) fun hnone => ?_
  exact Except.ok.inj (hg.symm.trans (grouping_of_no_groups hr.settled.aggregate_eq hnone))

/-- A page and a fetch of the same rows. -/
theorem same_source_iff_page :
    let start : Query := { collection := { name := some (.text "people") } }
    let named := ((Refinement.select [.text "name"]).apply start).query
    let q := ((Refinement.page (.int 2) (.int 10)).apply named).query
    let skipped := ((Refinement.skip (.int 10)).apply named).query
    let q' := ((Refinement.take (.int 10)).apply skipped).query
    ∃ t p p', q.Reachable ∧ q'.Reachable ∧ q.Typed ∧ q'.Typed ∧ q.keyText = .ok t ∧
      q'.keyText = .ok t ∧ q.plan = .ok p ∧ q'.plan = .ok p' ∧
        (p.source.Same p'.source ↔ q.ReadsLike q') ∧ q.ReadsLike q' := by
  intro start named q skipped q'
  have hr : named.Reachable := Reachable.apply (.start _ _) _
  have htext : AllText [.text "name"] := fun v hv => ⟨_, List.mem_singleton.mp hv⟩
  have hnone : AllText [] := fun v hv => nomatch hv
  have hq : q.Typed := ⟨htext, hnone, fun f v hf hv => by cases hf; cases hv; rfl,
    fun f v hf hv => by cases hf; cases hv; rfl⟩
  have hq' : q'.Typed := ⟨htext, hnone, fun f v hf hv => by cases hf; cases hv; rfl,
    fun f v hf hv => by cases hf; cases hv; rfl⟩
  obtain ⟨p, p', hp, hp', hsame⟩ :=
    same_source_iff (hr.apply _) ((hr.apply _).apply _) hq hq' rfl rfl rfl rfl
  have hfetched : q'.FetchedLikePage :=
    ⟨nofun, nofun, nofun, fun c _ v hv => nomatch hv⟩
  exact ⟨_, p, p', hr.apply _, (hr.apply _).apply _, hq, hq', rfl, rfl, hp, hp', hsame, rfl,
    hfetched⟩

/-- The distinct values of a column and that column of every document have one key text. -/
theorem exists_keyText_collision :
    ∃ (q q' : Query) (t : List Char) (p p' : Plan), q.Reachable ∧ q'.Reachable ∧
      q.collection = q'.collection ∧ q.database = q'.database ∧ q.projections = q'.projections ∧
        q.options = q'.options ∧ q.timeout = q'.timeout ∧ q.keyText = .ok t ∧ q'.keyText = .ok t ∧
          q.plan = .ok p ∧ q'.plan = .ok p' ∧ ¬ p.source.Same p'.source := by
  let start : Query := { collection := { name := some (.text "people") } }
  let q := ((Refinement.distinct (.text "city")).apply start).query
  let q' := ((Refinement.select [.text "city"]).apply start).query
  have hstart : start.Reachable := .start _ _
  exact ⟨q, q', _, _, _, hstart.apply _, hstart.apply _, rfl, rfl, rfl, rfl, rfl, rfl, rfl, rfl,
    rfl, not_same_distinct rfl q []⟩

end Query

end DocQuery
