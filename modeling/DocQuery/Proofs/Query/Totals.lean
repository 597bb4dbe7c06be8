import DocQuery.Proofs.Plan.Rows
import DocQuery.Proofs.Query.Source
import DocQuery.Proofs.Value.Whole

/-!
# Totals

A read that accumulates columns without groups sends a pipeline in which one row holds the total
after the grouping (`totalRow`). What the later stages leave of that row decides what the caller is
given: `total_reaches_caller`. A query that passes over rows passes over this one, and projections
that do not name the total drop it.
-/

namespace DocQuery

open Grouping (aggregateKey idKey countName)

/-- The only row of a grouping without group columns. -/
def totalRow (total : Value) : Entries :=
  [(aggregateKey, total), (idKey, .null)]

/-- The fields of a grouping without group columns. -/
def totalFields (accumulator : Value) : Entries :=
  [(aggregateKey, accumulator), (idKey, .null)]

/-- What a read accumulates, a function and its columns; these may come in a list or in anything
that has items. -/
def Read.request? : Read → Option Aggregate
  | .aggregate function columns => columns.items.toOption.map fun columns => { function, columns }
  | .count column => some { function := .text "count", columns := [column] }
  | _ => none

/-- What the caller is given for a total. To count nothing is to count zero. -/
def Read.answerFor (what : Read) (total : Value) : Value :=
  match what, total with
  | .count _, .null => .int 0
  | _, _ => total

/-- The columns are text and the function has a name; only a count goes without columns. -/
structure Aggregate.Valid (a : Aggregate) : Prop where
  columns : AllText a.columns
  accumulates : Grouping.Accumulates a

/-- No number of rows, or a whole one. -/
def IsCount (v : Value) : Prop :=
  v = .null ∨ ∃ n, v = .int n

namespace Query

/-- The columns that a page of the query adds to its projection. -/
def pageColumns (q : Query) (columns : List Value) : List Value :=
  Shape.pageColumns { columns := q.columns.getD columns, paginating := .bool q.paginating }

/-- The fields that a pipeline is cut down to; all of them if there are none. -/
def projectedFields (q : Query) (columns : List Value) : Entries :=
  q.explicitFields.update ((q.pageColumns columns).map (·, .int 1))

/-- What is projected, explicitly or for a page, does not drop the total. -/
def KeepsTotal (q : Query) (columns : List Value) : Prop :=
  q.projectedFields columns = [] ∨
    Entries.hasKey (q.projectedFields columns) aggregateKey = true

instance (q : Query) (columns : List Value) : Decidable (q.KeepsTotal columns) :=
  inferInstanceAs (Decidable (_ ∨ _))

def SkipsNone (q : Query) : Prop :=
  q.offset = .null ∨ q.offset = .int 0

instance (q : Query) : Decidable q.SkipsNone :=
  inferInstanceAs (Decidable (_ ∨ _))

end Query

variable {columns : List Value} {function : Text} {s : Shape} {a : Aggregate}

/-- Without group columns there is one group, of all rows. -/
theorem exists_grouping_total (hgroups : s.groups = []) (hs : s.aggregate = some a)
    (ha : a.Valid) : ∃ g acc, Grouping.ofShape s = .ok g ∧ g.fields = totalFields acc := by
  have hadd := Grouping.addAggregate_eq ha.columns ha.accumulates {}
  have hshape : Grouping.ofShape s = .ok
      { fields := totalFields (Grouping.accumulator a)
        unwinds := (texts a.columns).flatMap Grouping.arraysOf } := by
    unfold Grouping.ofShape
    rw [hgroups, hs]
    exact bind_eq_ok_iff.mpr ⟨[], rfl, bind_eq_ok_iff.mpr ⟨_, hadd, rfl⟩⟩
  exact ⟨_, Grouping.accumulator a, hshape, rfl⟩

namespace Query
variable {q : Query} {f : Entries}

def accumulating (q : Query) (a : Aggregate) : Query :=
  { q with aggregate := some a }

theorem shape_accumulating (q : Query) (a : Aggregate) :
    (q.accumulating a).shape (.list a.columns) =
      .ok { (q.accumulating a).ownShape with columns := q.columns.getD a.columns } := by
  unfold shape accumulating
  cases q.columns <;> rfl

/-- The stages after the grouping of a total. -/
def laterStages (q : Query) (columns : List Value) : List Stage :=
  (Stage.unlessEmpty q.orders fun es => .sort (Entries.ofList es)) ++
    Stage.whenSet q.offset .skip ++ Stage.whenSet q.limit .limit ++
    Stage.unlessEmpty (q.projectedFields columns) .project

theorem exists_plan_total (hgroups : q.groups = []) (hf : q.filter = .ok f)
    (htext : AllText (q.columns.getD a.columns)) (ha : a.Valid) :
    ∃ before accumulator, (q.accumulating a).plan (.list a.columns) = .ok (.aggregate
      (before ++ .group (totalFields accumulator) :: q.laterStages a.columns)
      (Entries.ofList q.options)) := by
  let s : Shape := { (q.accumulating a).ownShape with columns := q.columns.getD a.columns }
  obtain ⟨g, acc, hg, hfields⟩ := @exists_grouping_total s a hgroups rfl ha
  have hcolumns : ∀ c ∈ s.selectedColumns, c.isHashable = true := fun c hc =>
    hashable_of_allText htext c (mem_columns_of_mem_selectedColumns hc)
  have hpipeline := pipeline_eq hg rfl hcolumns rfl f
  have hneeds : s.needsAggregation = true := by
    show (!q.groups.isEmpty || true || q.paginating) = true
    simp
  have hplan : DocQuery.plan s (.map f) = .ok (.aggregate
      (Stage.whenSet (.map f) .keep ++ g.unwinds.map .unwind ++
        .group (totalFields acc) :: q.laterStages a.columns) (Entries.ofList q.options)) := by
    refine (plan_aggregate_iff hneeds).mpr ⟨_, _, hpipeline, rfl, ?_⟩
    rw [hfields]
    simp only [laterStages, List.append_assoc]
    rfl
  exact ⟨_, acc, bind_eq_ok_iff.mpr ⟨s, shape_accumulating q a, bind_eq_ok_iff.mpr
    ⟨f, hf, hplan⟩⟩⟩

/-! ### The row of the total -/

theorem nonneg_of_isNonNegative {n : Int} (h : (Value.int n).isNonNegative = .ok true) : 0 ≤ n := by
  rw [Value.isNonNegative_of_whole (Value.whole?_int n)] at h
  simpa using h

/-- A number of rows that is not below zero, where none is as good as zero. -/
theorem exists_count {v : Value} (hv : IsCount v) (hb : v = .null ∨ v.isNonNegative = .ok true) :
    ∃ n : Nat, (∀ make, Stage.whenSet v make = Stage.whenSet (.int n) make) ∧
      (n = 0 ↔ v = .null ∨ v = .int 0) := by
  rcases hv with rfl | ⟨n, rfl⟩
  · exact ⟨0, fun _ => rfl, by simp⟩
  · have hn : 0 ≤ n := nonneg_of_isNonNegative (hb.resolve_left (by simp))
    obtain ⟨k, rfl⟩ := Int.eq_ofNat_of_zero_le hn
    exact ⟨k, fun _ => rfl, by simp⟩

theorem isInclusion_projectedFields (h : ∀ e ∈ q.projections, e.2.isInclusion = true)
    (columns : List Value) : ∀ e ∈ q.projectedFields columns, e.2.isInclusion = true := by
  have hexplicit : ∀ e ∈ q.explicitFields, e.2.isInclusion = true :=
    Entries.forall_value_update (P := fun v => v.isInclusion = true) (by simp) h
  refine Entries.forall_value_update (P := fun v => v.isInclusion = true) hexplicit ?_
  intro e he
  obtain ⟨c, -, rfl⟩ := List.mem_map.mp he
  rfl

theorem get?_keepFields_totalRow (fields : Entries) (x : Value) :
    Entries.get? (keepFields fields (totalRow x)) aggregateKey =
      if Entries.hasKey fields aggregateKey then some x else none := by
  have hself : aggregateKey.sameKey aggregateKey = true := by decide
  have hid : aggregateKey.sameKey idKey = false := by decide
  have hrest : ∀ es : Entries, es ⊆ [(idKey, .null)] → Entries.get? es aggregateKey = none := by
    intro es hes
    refine Entries.get?_eq_none_of_forall fun e he => ?_
    rw [List.mem_singleton.mp (hes he), Value.sameKey_comm, hid]
  unfold keepFields totalRow
  cases h : Entries.hasKey fields aggregateKey with
  | true =>
    rw [List.filter_cons_of_pos (by simp [h]), Entries.get?_cons, if_pos hself]
    rfl
  | false =>
    rw [List.filter_cons_of_neg (by simp [h, hid])]
    exact hrest _ List.filter_sublist.subset

/-- The row of the total is passed over, or comes out with or without the total. -/
theorem exists_rowsAfter? (hb : q.Bounded) (hoffset : IsCount q.offset) (hlimit : IsCount q.limit)
    (hprojections : ∀ e ∈ q.projections, e.2.isInclusion = true) (columns : List Value)
    (o : RowOrder) (x : Value) :
    ∃ row, rowsAfter? o (q.laterStages columns) [totalRow x] =
        some (if q.SkipsNone then [row] else []) ∧
      Entries.get? row aggregateKey = if q.KeepsTotal columns then some x else none := by
  obtain ⟨skip, hskip, hzero⟩ := exists_count hoffset hb.offset
  obtain ⟨limit, hlim, -⟩ := exists_count hlimit hb.limit
  have hrows := rowsAfter?_single q.orders skip limit
    (isInclusion_projectedFields hprojections columns) o (totalRow x)
  rw [← hskip, ← hlim] at hrows
  refine ⟨if q.projectedFields columns = [] then totalRow x
    else keepFields (q.projectedFields columns) (totalRow x), ?_, ?_⟩
  · rw [laterStages, hrows]
    by_cases hs : q.SkipsNone
    · rw [if_pos hs, if_pos (hzero.mpr hs)]
    · rw [if_neg hs, if_neg fun hz => hs (hzero.mp hz)]
  · by_cases hnone : q.projectedFields columns = []
    · have hkeeps : q.KeepsTotal columns := .inl hnone
      rw [if_pos hnone, if_pos hkeeps]
      rfl
    · rw [if_neg hnone, get?_keepFields_totalRow]
      by_cases hnamed : Entries.hasKey (q.projectedFields columns) aggregateKey = true
      · have hkeeps : q.KeepsTotal columns := .inr hnamed
        rw [if_pos hnamed, if_pos hkeeps]
      · have hdrops : ¬ q.KeepsTotal columns := fun h => h.elim hnone hnamed
        rw [if_neg hnamed, if_neg hdrops]

end Query

open Run

variable {q : Query} {r : Replies} {what : Read} {stages : List Stage} {options : Entries}

/-- The total in the first of some rows. -/
def totalOf : List Entries → Value
  | [] => .null
  | row :: _ => (Entries.get? row aggregateKey).getD .null

theorem accumulated_map (rows : List Entries) :
    Read.accumulated (rows.map .map) = .ok (totalOf rows) := by
  cases rows <;> rfl

/-- A count is a whole number, and zero where there is no total. -/
theorem run_count {column : Value} {x : Except Fault Value} {s : Session Query}
    (h : (Read.accumulate r (.text "count") (.list [column])).run { subject := q } = (x, s)) :
    ((Read.count column).run r).run { subject := q } =
      (x >>= fun total => (if total.truthy then total else .int 0).toInteger.map .int, s) := by
  show (Read.accumulate r (.text "count") (.list [column]) >>= fun total =>
    orFail (if total.truthy then total else .int 0).toInteger >>= fun n =>
      pure (Value.int n)).run { subject := q } = _
  rw [run_bind, h]
  cases x with
  | error fault => rfl
  | ok total =>
    show (orFail (if total.truthy then total else .int 0).toInteger >>= fun n =>
      pure (Value.int n)).run s = _
    rw [run_bind, run_orFail]
    cases hn : (if total.truthy then total else .int 0).toInteger with
    | error fault => simp only [bind, Except.bind, hn, Except.map]
    | ok n =>
      simp only [bind, Except.bind, hn, Except.map]
      rfl

theorem toInteger_total {total : Value} (h : total = .null ∨ ∃ n, total = .int n) (column : Value) :
    (if total.truthy then total else .int 0).toInteger.map .int =
      .ok ((Read.count column).answerFor total) := by
  rcases h with rfl | ⟨n, rfl⟩
  · rfl
  · by_cases hn : n = 0
    · subst hn
      rfl
    · have htruthy : (Value.int n).truthy = true := by simpa [Value.truthy] using hn
      rw [if_pos htruthy]
      rfl

/-- What is accumulated is a function of some columns, or the rows are counted. -/
theorem request?_eq_some_iff : what.request? = some a ↔
    (∃ columns, what = .aggregate a.function columns ∧ columns.items = .ok a.columns) ∨
      ∃ column, what = .count column ∧ a = { function := .text "count", columns := [column] } := by
  cases what with
  | aggregate function columns =>
    unfold Read.request?
    cases hvs : columns.items with
    | error fault => simp [Except.toOption, hvs]
    | ok vs =>
      cases a
      simp [Except.toOption, hvs]
  | count column => simp [Read.request?, eq_comm]
  | _ => simp [Read.request?]

/-- The columns count by their items. -/
theorem accumulate_of_items {columns : Value} {vs : List Value} (h : columns.items = .ok vs)
    (function : Value) :
    Read.accumulate r function columns = Read.accumulate r function (.list vs) := by
  unfold Read.accumulate
  rw [h]
  rfl

/-- A request for a total sends its pipeline, and answers with the total of the rows. -/
theorem run_request (hwhat : what.request? = some a) (hr : r.failure = none)
    (hp : (q.accumulating a).plan (.list a.columns) = .ok (.aggregate stages options))
    (ho : ∀ e ∈ options, e.1.isText = true) :
    ((Step.read what).run r q).session.calls =
        [(Plan.aggregate stages options).call, fetchCall] ∧
      ∀ rows, r.rows = .list (rows.map .map) →
        ((∃ column, what = .count column) → totalOf rows = .null ∨ ∃ n, totalOf rows = .int n) →
          ((Step.read what).run r q).answer = .ok (.value (what.answerFor (totalOf rows))) := by
  have htotal : ∀ rows : List Entries, r.rows = .list (rows.map .map) →
      (r.rows.items >>= Read.accumulated) = .ok (totalOf rows) := by
    intro rows hrows
    rw [hrows]
    exact accumulated_map rows
  obtain ⟨logs, hacc⟩ := @Read.run_accumulate r (.aggregate stages options) q a.function a.columns
    hp ho
  rw [hr, delivered_unfailing] at hacc
  dsimp only [unlessRefused] at hacc
  rcases request?_eq_some_iff.mp hwhat with ⟨columns, rfl, hcolumns⟩ | ⟨column, rfl, rfl⟩
  · rw [← accumulate_of_items hcolumns] at hacc
    have hrun : ((Read.aggregate a.function columns).run r).run { subject := q } = _ := hacc
    rw [Step.run_read, hrun]
    refine ⟨rfl, fun rows hrows _ => ?_⟩
    rw [htotal rows hrows]
    rfl
  · rw [Step.run_read, run_count hacc]
    refine ⟨rfl, fun rows hrows hint => ?_⟩
    rw [htotal rows hrows]
    show ((if (totalOf rows).truthy then totalOf rows else .int 0).toInteger.map .int).map
      Answer.value = _
    rw [toInteger_total (hint ⟨column, rfl⟩) column]
    rfl

theorem answerFor_total {x : Value} (hx : (∃ column, what = .count column) → ∃ n, x = .int n) :
    what.answerFor x = x := by
  cases what with
  | count column =>
    obtain ⟨n, rfl⟩ := hx ⟨column, rfl⟩
    rfl
  | _ => rfl

/-- The total reaches the caller where the query passes over no row and projects the total or
nothing; limits and orders never lose it. Where a row is passed over there is no total, and explicit
projections that do not name it drop it. -/
theorem total_reaches_caller {f : Entries} (hq : q.Reachable) (hgroups : q.groups = [])
    (hoffset : IsCount q.offset) (hlimit : IsCount q.limit)
    (hprojections : ∀ e ∈ q.projections, e.2.isInclusion = true)
    (hoptions : ∀ e ∈ q.options, e.1.isText = true) (hf : q.filter = .ok f)
    (hwhat : what.request? = some a) (ha : a.Valid)
    (hcolumns : AllText (q.columns.getD a.columns)) :
    ∃ before accumulator after,
      (∀ r : Replies, r.failure = none → ((Step.read what).run r q).session.calls.head? =
        some (Plan.aggregate (before ++ .group (totalFields accumulator) :: after)
          (Entries.ofList q.options)).call) ∧
      ∀ (o : RowOrder) (x : Value), ((∃ column, what = .count column) → ∃ n, x = .int n) →
        ∃ rows, rowsAfter? o after [totalRow x] = some rows ∧
          let answer := ((Step.read what).run { rows := .list (rows.map .map) } q).answer
          (q.SkipsNone → q.KeepsTotal a.columns → answer = .ok (.value x) ∧
            ∃ row, rows = [row] ∧ Entries.get? row aggregateKey = some x) ∧
          (¬ q.SkipsNone → answer = .ok (.value (what.answerFor .null)) ∧ rows = []) ∧
          (q.pageColumns a.columns = [] → ¬ q.KeepsTotal a.columns →
            answer = .ok (.value (what.answerFor .null)) ∧
              ∀ row ∈ rows, Entries.get? row aggregateKey = none) := by
  obtain ⟨before, accumulator, hplan⟩ := Query.exists_plan_total hgroups hf hcolumns ha
  have hnames : ∀ e ∈ Entries.ofList q.options, e.1.isText = true :=
    Entries.forall_key_update (P := fun v => v.isText = true) (by simp) hoptions
  refine ⟨before, accumulator, q.laterStages a.columns, fun r hr => ?_, fun o x hx => ?_⟩
  · rw [(run_request hwhat hr hplan hnames).1]
    rfl
  obtain ⟨row, hrows, hrow⟩ :=
    Query.exists_rowsAfter? hq.bounded hoffset hlimit hprojections a.columns o x
  refine ⟨_, hrows, ?_⟩
  have hanswer := fun rows => (@run_request a q { rows := .list (rows.map .map) } what _ _ hwhat
    rfl hplan hnames).2 rows rfl
  -- the row is there unless it is passed over, and then has the total unless that is dropped
  by_cases hs : q.SkipsNone
  · rw [if_pos hs]
    by_cases hk : q.KeepsTotal a.columns
    · rw [if_pos hk] at hrow
      have htotal : totalOf [row] = x := by rw [totalOf, hrow]; rfl
      have hx' := hanswer [row] (by rw [htotal]; exact fun hcount => .inr (hx hcount))
      rw [htotal, answerFor_total hx] at hx'
      exact ⟨fun _ _ => ⟨hx', row, rfl, hrow⟩, fun h => absurd hs h, fun _ h => absurd hk h⟩
    · rw [if_neg hk] at hrow
      have htotal : totalOf [row] = .null := by rw [totalOf, hrow]; rfl
      have hnull := hanswer [row] fun _ => .inl htotal
      rw [htotal] at hnull
      exact ⟨fun _ h => absurd h hk, fun h => absurd hs h, fun _ _ => ⟨hnull, by simpa using hrow⟩⟩
  · rw [if_neg hs]
    have hnull := hanswer [] fun _ => .inl rfl
    exact ⟨fun h => absurd h hs, fun _ => ⟨hnull, rfl⟩, fun _ _ => ⟨hnull, by simp⟩⟩

/-- A sum over an array, of a query with an order, a limit, a selected column and a projection that
names the total. -/
theorem total_reaches_caller_sum :
    let named : Query := { collection := { name := some (.text "orders") } }
    let q : Query := { named with
      columns := some [.text "name"]
      orders := [(aggregateKey, .int (-1))]
      limit := .int 5
      projections := [(aggregateKey, .int 1)] }
    let what : Read := .total "sum" (.text "items.*.price")
    let a : Aggregate := { function := .text "sum", columns := [.text "items.*.price"] }
    q.Reachable ∧ IsCount q.offset ∧ IsCount q.limit ∧ what.request? = some a ∧ a.Valid ∧
      ∀ (o : RowOrder) (x : Value), ∃ before accumulator after rows,
        ((Step.read what).run {} q).session.calls.head? =
          some (Plan.aggregate (before ++ .group (totalFields accumulator) :: after) []).call ∧
        rowsAfter? o after [totalRow x] = some rows ∧
        ((Step.read what).run { rows := .list (rows.map .map) } q).answer = .ok (.value x) := by
  intro named q what a
  have hstart : named.Reachable := .start _ _
  have hq : q.Reachable :=
    (((hstart.apply (.select [.text "name"])).apply (.orderBy aggregateKey (.text "desc"))).apply
      (.take (.int 5))).apply (.project (.map [(aggregateKey, .int 1)]))
  have hlimit : IsCount q.limit := .inr ⟨5, rfl⟩
  have hprojections : ∀ e ∈ q.projections, e.2.isInclusion = true := by simp [q, Value.isInclusion]
  have hname : AllText [Value.text "name"] := fun v hv => ⟨"name", List.mem_singleton.mp hv⟩
  have ha : a.Valid := ⟨fun v hv => ⟨_, List.mem_singleton.mp hv⟩, "sum", rfl, by simp [a]⟩
  refine ⟨hq, .inl rfl, hlimit, rfl, ha, fun o x => ?_⟩
  obtain ⟨before, accumulator, after, hsent, hread⟩ := @total_reaches_caller a q what []
    hq rfl (.inl rfl) hlimit hprojections (by simp [q, named]) rfl rfl ha hname
  obtain ⟨rows, hrows, hdelivered, -, -⟩ := hread o x (by rintro ⟨column, h⟩; exact nomatch h)
  exact ⟨before, accumulator, after, rows, hsent {} rfl, hrows,
    (hdelivered (.inl rfl) (.inr rfl)).1⟩

/-- A count of a query that passes over one row, and a sum of a query that projects a name. -/
theorem exists_lost_totals :
    (∃ (q : Query) (accumulator : Value) (after : List Stage), q.Reachable ∧ q.groups = [] ∧
      q.offset = .int 1 ∧ q.limit = .null ∧ q.projections = [] ∧
      ((Step.read (.count (.text "*"))).run {} q).session.calls.head? =
        some (Plan.aggregate (.group (totalFields accumulator) :: after) []).call ∧
      ∀ o, rowsAfter? o after [totalRow (.int 3)] = some [] ∧
        ((Step.read (.count (.text "*"))).run {} q).answer = .ok (.value (.int 0))) ∧
    ∃ (q : Query) (accumulator : Value) (after : List Stage), q.Reachable ∧ q.groups = [] ∧
      q.offset = .null ∧ q.limit = .null ∧ q.projections = [(.text "name", .int 1)] ∧
      ((Step.read (.total "sum" (.text "price"))).run {} q).session.calls.head? =
        some (Plan.aggregate (.group (totalFields accumulator) :: after) []).call ∧
      ∀ o, rowsAfter? o after [totalRow (.int 7)] = some [[(idKey, .null)]] ∧
        ((Step.read (.total "sum" (.text "price"))).run
          { rows := .list [.map [(idKey, .null)]] } q).answer = .ok (.value .null) := by
  have hstart : Query.Reachable { collection := {} } := .start _ _
  constructor
  · refine ⟨_, .map [(.text "$sum", .int 1)], [.skip (.int 1)],
      hstart.apply (.skip (.int 1)), rfl, rfl, rfl, rfl, rfl, fun o => ⟨rfl, rfl⟩⟩
  · refine ⟨_, .map [(.text "$sum", .text "$price")], [.project [(.text "name", .int 1)]],
      hstart.apply (.project (.map [(.text "name", .int 1)])), rfl, rfl, rfl, rfl, rfl,
      fun o => ⟨rfl, rfl⟩⟩

end DocQuery
