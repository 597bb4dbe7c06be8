import DocQuery.Proofs.Plan.Stages
import DocQuery.Proofs.Query.Frame

/-!
# Turning the pages

The plans of the pages of a query are alike but for the stages that count rows
(`plan_of_paginating`). With so many rows to a page, these stages cut a window out of the rows
(`countedRows?_countingStages`), and the windows of the first pages, put together, are the first
rows: `pages_partition`.
-/

namespace DocQuery

/-- The stage selects rows by nothing but their number. -/
def Stage.isCounting : Stage → Bool
  | skip _ | limit _ => true
  | _ => false

/-- The rows that a counting stage selects. -/
def Stage.countedRows? {α : Type} (rows : List α) : Stage → Option (List α)
  | skip count => do
    let n ← count.whole?
    if 0 ≤ n then some (rows.drop n.toNat) else none
  | limit count => do
    let n ← count.whole?
    if 0 < n then some (rows.take n.toNat) else none
  | _ => none

/-- The rows that some counting stages select, one after the other. -/
def countedRows? {α : Type} (stages : List Stage) (rows : List α) : Option (List α) :=
  stages.foldlM Stage.countedRows? rows

variable {α : Type} {s : Shape} {q : Query} {filter columns offset limit perPage : Value}
  {stage : Stage} {n k : Nat}

def countingStages (offset limit : Value) : List Stage :=
  Stage.whenSet offset .skip ++ Stage.whenSet limit .limit

theorem isCounting_of_mem_countingStages (h : stage ∈ countingStages offset limit) :
    stage.isCounting = true := by
  rcases List.mem_append.mp h with h | h <;> rw [(mem_whenSet_iff.mp h).2] <;> rfl

/-- No rows are passed over by a stage, and none by the lack of one. -/
theorem countedRows?_skip (n : Nat) (rows : List α) :
    countedRows? (Stage.whenSet (.int n) .skip) rows = some (rows.drop n) := by
  cases n with
  | zero => rfl
  | succ n =>
    rw [Stage.whenSet_succ]
    show (if (0 : Int) ≤ (n + 1 : Nat) then some (rows.drop (n + 1)) else none) >>= pure = _
    rw [if_pos (by omega)]
    rfl

theorem countedRows?_limit (hlimit : limit.whole? = some (k : Int)) (hpos : 0 < k)
    (rows : List α) : countedRows? (Stage.whenSet limit .limit) rows = some (rows.take k) := by
  have hset : Stage.whenSet limit .limit = [.limit limit] :=
    if_pos ((Value.truthy_iff_of_whole hlimit).mpr (by omega))
  rw [hset]
  show (limit.whole? >>= fun n => if 0 < n then some (rows.take n.toNat) else none) >>= pure = _
  rw [hlimit]
  show (if (0 : Int) < k then some (rows.take k) else none) >>= pure = _
  rw [if_pos (by omega)]
  rfl

theorem countedRows?_countingStages (hlimit : limit.whole? = some (k : Int)) (hpos : 0 < k)
    (n : Nat) (rows : List α) :
    countedRows? (countingStages (.int n) limit) rows = some ((rows.drop n).take k) := by
  unfold countedRows? countingStages
  rw [List.foldlM_append]
  show (countedRows? (Stage.whenSet (.int n) .skip) rows >>= countedRows? _) = _
  rw [countedRows?_skip]
  exact countedRows?_limit hlimit hpos _

/-- Windows side by side, each as wide as the others. -/
theorem flatten_windows (rows : List α) (k m : Nat) :
    ((List.range m).map fun i => (rows.drop (i * k)).take k).flatten = rows.take (m * k) := by
  induction m with
  | zero => simp
  | succ m ih => simp [List.range_succ, ih, Nat.succ_mul, List.take_add]

/-- What an aggregation is planned as, without the stages that count rows. -/
structure PlanParts where
  before : List Stage
  after : List Stage
  options : Entries

/-- The plan with these stages in between. -/
def PlanParts.planned (parts : PlanParts) (counting : List Stage) : Plan :=
  .aggregate (parts.before ++ counting ++ parts.after) parts.options

namespace Shape

def planParts (s : Shape) (filter : Value) : Except Fault PlanParts := do
  let grouping ← Grouping.ofShape s
  let projections ← pageProjection s (← s.projections.toEntries)
  let sorting ← sortStages s.orders
  let options ← s.options.toEntries
  pure
    { before := Stage.whenSet filter .keep ++ grouping.unwinds.map .unwind ++
        Stage.unlessEmpty grouping.fields .group ++ sorting
      after := Stage.unlessEmpty projections .project
      options }

theorem plan_of_needsAggregation (h : s.needsAggregation = true) (filter : Value) :
    plan s filter = (s.planParts filter).map (·.planned (countingStages s.offset s.limit)) := by
  unfold plan pipeline planParts
  rw [if_pos h]
  simp only [map_bind_eq, map_pure_eq, bind_assoc, pure_bind, PlanParts.planned, countingStages,
    List.append_assoc]

theorem isCounting_of_planParts {parts : PlanParts} (h : s.planParts filter = .ok parts)
    (hstage : stage ∈ parts.before ++ parts.after) : stage.isCounting = false := by
  obtain ⟨g, -, h⟩ := bind_eq_ok_iff.mp h
  obtain ⟨given, -, h⟩ := bind_eq_ok_iff.mp h
  obtain ⟨projected, -, h⟩ := bind_eq_ok_iff.mp h
  obtain ⟨sorted, hsorted, h⟩ := bind_eq_ok_iff.mp h
  obtain ⟨options, -, h⟩ := bind_eq_ok_iff.mp h
  obtain ⟨sorting, rfl, -⟩ := exists_sorting_of_sortStages hsorted
  obtain rfl := pure_eq_ok_iff.mp h
  simp only [List.mem_append, List.mem_map, mem_whenSet_iff, mem_unlessEmpty_iff] at hstage
  rcases hstage with (((⟨-, rfl⟩ | ⟨_, -, rfl⟩) | ⟨-, rfl⟩) | ⟨_, -, rfl⟩) | ⟨-, rfl⟩ <;> rfl

end Shape

namespace Query

def planParts (q : Query) (columns : Value) : Except Fault PlanParts := do
  let s ← q.shape columns
  let f ← q.filter
  s.planParts (.map f)

/-- A page is planned with its own count between parts that do not depend on it. -/
theorem plan_of_paginating (h : q.paginating = true) (columns : Value) :
    q.plan columns =
      (q.planParts columns).map (·.planned (countingStages q.offset q.limit)) := by
  unfold plan planParts
  cases hs : q.shape columns with
  | error => rfl
  | ok s =>
    obtain ⟨vs, rfl⟩ := exists_ownShape_of_shape hs
    have hneeds : Shape.needsAggregation { q.ownShape with columns := vs } = true := by
      simp [Shape.needsAggregation, ownShape, Value.truthy, h]
    cases q.filter with
    | error => rfl
    | ok f => exact Shape.plan_of_needsAggregation hneeds (.map f)

theorem planParts_counting (q : Query) (offset limit columns : Value) :
    planParts { q with offset, limit } columns = q.planParts columns := by
  unfold planParts shape
  cases q.columns with
  | some => rfl
  | none => cases columns.toColumns <;> rfl

theorem isCounting_of_planParts {parts : PlanParts} (h : q.planParts columns = .ok parts)
    (hstage : stage ∈ parts.before ++ parts.after) : stage.isCounting = false := by
  obtain ⟨s, -, h⟩ := bind_eq_ok_iff.mp h
  obtain ⟨f, -, h⟩ := bind_eq_ok_iff.mp h
  exact Shape.isCounting_of_planParts h hstage

/-! ### Pages -/

/-- The query on a page with so many rows to a page. -/
def onPage (q : Query) (number : Int) (k : Nat) (perPage : Value) : Query :=
  { q with paginating := true, offset := .int (max 0 ((number - 1) * k)), limit := perPage }

/-- A page, wherever the query was turned to before. -/
theorem page_of_whole {number : Int} (hlimit : perPage.whole? = some (k : Int)) (q : Query) :
    q.page (.int number) perPage = { query := q.onPage number k perPage } := by
  have hoffset := Value.pageOffset_of_whole (Value.whole?_int number) hlimit
  have hskip : Query.skip { q with paginating := true } (.int ((number - 1) * k)) =
      .ok { q with paginating := true, offset := .int (max 0 ((number - 1) * k)) } :=
    bind_eq_ok_iff.mpr ⟨_, Value.atLeastZero_int _, rfl⟩
  refine page_eq hoffset hskip ?_
  refine bind_eq_ok_iff.mpr ⟨true, ?_, rfl⟩
  rw [Value.isNonNegative_of_whole hlimit]
  simp

/-- A page before the first is the first one. -/
theorem onPage_of_nonpos {number : Int} (h : number ≤ 0) (q : Query) :
    q.onPage number k perPage = q.onPage 1 k perPage := by
  have hbefore : (number - 1) * (k : Int) ≤ 0 :=
    Int.mul_nonpos_of_nonpos_of_nonneg (by omega) (by omega)
  rw [onPage, onPage, Int.max_eq_left hbefore, Int.sub_self, Int.zero_mul, Int.max_self]

theorem offset_onPage_succ (q : Query) (i : Nat) :
    (q.onPage (i + 1) k perPage).offset = .int (i * k : Nat) := by
  show Value.int (max 0 _) = _
  rw [Int.add_sub_cancel, ← Int.natCast_mul, Int.max_eq_right (Int.natCast_nonneg _)]

/-- The stages that count the rows of a page. -/
def pageStages (q : Query) (number : Int) (k : Nat) (perPage : Value) : List Stage :=
  countingStages (q.onPage number k perPage).offset perPage

theorem plan_onPage (q : Query) (number : Int) (columns : Value) :
    (q.onPage number k perPage).plan columns =
      (planParts { q with paginating := true, offset := .null, limit := .null } columns).map
        (·.planned (q.pageStages number k perPage)) := by
  have hparts := planParts_counting { q with paginating := true, offset := .null, limit := .null }
    (q.onPage number k perPage).offset perPage columns
  rw [plan_of_paginating rfl, ← hparts]
  rfl

/-- So many pages join to as many times the rows of one. -/
theorem exists_pages (hlimit : perPage.whole? = some (k : Int)) (hpos : 0 < k) (q : Query)
    (rows : List α) (m : Nat) :
    ∃ pages, (List.range m).mapM
        (fun i : Nat => countedRows? (q.pageStages (i + 1) k perPage) rows) = some pages ∧
      pages.flatten = rows.take (m * k) := by
  have hwindow : ∀ i : Nat, countedRows? (q.pageStages (i + 1) k perPage) rows =
      some ((rows.drop (i * k)).take k) := by
    intro i
    rw [pageStages, offset_onPage_succ, countedRows?_countingStages hlimit hpos]
  refine ⟨_, ?_, flatten_windows rows k m⟩
  simp only [hwindow]
  exact List.mapM_pure

end Query

/-- The plans of the pages of a query, with so many rows to a page, are alike but for the stages
that count rows. The rows that these select for the first pages, put together, are the first of
them, in their order and without repetition; a page before the first is the first one. -/
theorem pages_partition (hlimit : perPage.whole? = some (k : Int)) (hpos : 0 < k) (q : Query)
    (columns : Value) :
    let turned (number : Int) := (Refinement.page (.int number) perPage).apply q
    let whole : Query := { q with paginating := true, offset := .null, limit := .null }
    (∀ number, (turned number).fault = none) ∧
      (∀ number ≤ 0, turned number = turned 1) ∧
      (∀ number next, (Refinement.page (.int next) perPage).apply (turned number).query =
        turned next) ∧
      (∀ fault, whole.plan columns = .error fault →
        ∀ number, (turned number).query.plan columns = .error fault) ∧
      ∀ p, whole.plan columns = .ok p → ∃ before after options, ∃ counting : Int → List Stage,
        p = .aggregate (before ++ after) options ∧
        (∀ number, (turned number).query.plan columns =
          .ok (.aggregate (before ++ counting number ++ after) options)) ∧
        (∀ stage ∈ before ++ after, stage.isCounting = false) ∧
        (∀ number, ∀ stage ∈ counting number, stage.isCounting = true) ∧
        ∀ (α : Type) (rows : List α) (m : Nat), ∃ pages : List (List α),
          (List.range m).mapM (fun i : Nat => countedRows? (counting (i + 1)) rows) = some pages ∧
          pages.flatten = rows.take (m * k) ∧ (rows.length ≤ m * k → pages.flatten = rows) := by
  intro turned whole
  have hturned : ∀ number, turned number = { query := q.onPage number k perPage } :=
    fun number => q.page_of_whole hlimit
  have hplan : ∀ number, (turned number).query.plan columns =
      (whole.planParts columns).map (·.planned (q.pageStages number k perPage)) := by
    intro number
    rw [hturned]
    exact q.plan_onPage number columns
  refine ⟨fun number => by rw [hturned], fun number hnumber => ?_, fun number next => ?_,
    fun fault hfault number => ?_, fun p hp => ?_⟩
  · rw [hturned, hturned, q.onPage_of_nonpos hnumber]
  · rw [hturned number, hturned next]
    exact Query.page_of_whole hlimit _
  · rw [Query.plan_of_paginating rfl, map_eq_error_iff] at hfault
    rw [hplan, hfault]
    rfl
  · rw [Query.plan_of_paginating rfl, map_eq_ok_iff] at hp
    obtain ⟨parts, hparts, rfl⟩ := hp
    refine ⟨parts.before, parts.after, parts.options, fun number => q.pageStages number k perPage,
      ?_, fun number => ?_, fun stage => Query.isCounting_of_planParts hparts,
      fun number stage => isCounting_of_mem_countingStages, fun α rows m => ?_⟩
    · show Plan.aggregate (parts.before ++ [] ++ parts.after) parts.options = _
      rw [List.append_nil]
    · rw [hplan, hparts]
      rfl
    · obtain ⟨pages, hpages, hjoined⟩ := q.exists_pages hlimit hpos rows m
      exact ⟨pages, hpages, hjoined, fun hlen => hjoined.trans (List.take_of_length_le hlen)⟩

/-- Three pages of an ordered query that was to pass over some rows, and a page before the first. -/
theorem pages_partition_three :
    let q : Query := {
      collection := {}
      columns := some [.text "name"]
      orders := [(.text "age", .int 1)]
      offset := .int 7 }
    let turned (number : Int) := (Refinement.page (.int number) (.int 2)).apply q
    let whole : Query := { q with paginating := true, offset := .null, limit := .null }
    (Value.int 2).whole? = some ((2 : Nat) : Int) ∧ turned (-4) = turned 1 ∧
      ∃ before after options, ∃ counting : Int → List Stage,
        whole.plan = .ok (.aggregate (before ++ after) options) ∧
        (turned 3).query.plan = .ok (.aggregate (before ++ counting 3 ++ after) options) ∧
        ∃ pages : List (List String),
          (List.range 3).mapM (fun i : Nat =>
            countedRows? (counting (i + 1)) ["a", "b", "c", "d", "e"]) = some pages ∧
          pages.flatten = ["a", "b", "c", "d", "e"] := by
  intro q turned whole
  have hlimit : (Value.int 2).whole? = some ((2 : Nat) : Int) := rfl
  obtain ⟨-, hbefore, -, -, hplans⟩ := pages_partition hlimit (by decide) q .null
  obtain ⟨before, after, options, counting, hwhole, hturned, -, -, hrows⟩ := hplans _ rfl
  obtain ⟨pages, hpages, -, hall⟩ := hrows String ["a", "b", "c", "d", "e"] 3
  exact ⟨hlimit, hbefore (-4) (by decide), before, after, options, counting,
    congrArg Except.ok hwhole, hturned 3, pages, hpages, hall (by decide)⟩

end DocQuery
