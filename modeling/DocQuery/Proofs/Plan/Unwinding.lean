import Mathlib.Data.List.Basic
import DocQuery.Proofs.Plan.Stages

/-!
# The arrays that a pipeline unwinds

A column marks an array by `.*.` after the array's path, and it may mark several arrays, one within
the other (`Path.markedArrays`). A pipeline unwinds an array for each column that marks it and no
other, in the order of the columns, and the path that it accumulates is free of marks where the last
column has at most one: `unwound_arrays`.
-/

namespace DocQuery

namespace Path

variable {cs p q : Text} {parts ps : List Text} {c : CodePoint}

/-- The mark of an array within a path. -/
def mark : Text :=
  [.char '.', .char '*', .char '.']

/-- How many marks a path has. Two of them may share a dot. -/
def markCount : Text → Nat
  | [] => 0
  | c :: cs => markCount cs + if mark <+: c :: cs then 1 else 0

/-- Each part but the last one ends at an array, whose path goes through all the parts before. -/
def arraysWithin : List Text → List Text
  | part :: next :: parts => part :: (arraysWithin (next :: parts)).map (part ++ "." ++ ·)
  | _ => []

/-- The paths of the arrays that a column marks, each one without the marks before it. -/
def markedArrays (column : Text) : List Text :=
  arraysWithin (markedParts column)

example : markedArrays "orders.*.items.*.price" = ["orders", "orders.items"] := by decide

theorem markCount_of_not_mark (h : ¬ mark <+: c :: cs) : markCount (c :: cs) = markCount cs := by
  rw [markCount, if_neg h, Nat.add_zero]

theorem markCount_mark (cs : Text) :
    markCount (.char '.' :: .char '*' :: .char '.' :: cs) = markCount (.char '.' :: cs) + 1 := by
  have hmark : mark <+: .char '.' :: .char '*' :: .char '.' :: cs := ⟨cs, rfl⟩
  have hstar : ¬ mark <+: .char '*' :: .char '.' :: cs := by simp [mark]
  rw [markCount, if_pos hmark, markCount_of_not_mark hstar]

theorem markCount_pos_iff : 0 < markCount cs ↔ mark <:+: cs := by
  induction cs with
  | nil => simp [markCount, mark]
  | cons c cs ih =>
    rw [markCount, List.infix_cons_iff, ← ih]
    split <;> simp_all

theorem not_mark_of_not_cut
    (h : ∀ rest, c = .char '.' → cs = .char '*' :: .char '.' :: rest → False) :
    ¬ mark <+: c :: cs := by
  rintro ⟨rest, hrest⟩
  obtain ⟨rfl, rfl⟩ := List.cons.inj hrest
  exact h rest rfl rfl

theorem markedParts_ne_nil (cs : Text) : markedParts cs ≠ [] := by
  fun_cases markedParts cs with
  | case1 | case2 => exact List.cons_ne_nil _ _
  | case3 c rest => cases markedParts rest <;> exact List.cons_ne_nil _ _

theorem exists_of_consFirst (hne : parts ≠ []) (h : consFirst c parts = p :: ps) :
    ∃ tail, parts = tail :: ps ∧ p = c :: tail := by
  cases parts with
  | nil => exact absurd rfl hne
  | cons tail parts =>
    obtain ⟨rfl, rfl⟩ := List.cons.inj h
    exact ⟨tail, rfl, rfl⟩

/-- A path that is not cut has no marks. -/
theorem of_markedParts_eq_singleton (h : markedParts cs = [p]) : cs = p ∧ markCount cs = 0 := by
  fun_induction markedParts cs generalizing p with
  | case1 =>
    obtain rfl := List.singleton_inj.mp h
    exact ⟨rfl, rfl⟩
  | case2 rest ih => exact absurd (List.cons.inj h).2 (markedParts_ne_nil rest)
  | case3 c rest hcut ih =>
    obtain ⟨tail, htail, rfl⟩ := exists_of_consFirst (markedParts_ne_nil rest) h
    obtain ⟨rfl, hcount⟩ := ih htail
    exact ⟨rfl, (markCount_of_not_mark (not_mark_of_not_cut hcut)).trans hcount⟩

/-- A path that is cut once loses one mark where its parts are joined by a dot. Others can be left:
after the cut, or around the dot. -/
theorem of_markedParts_eq_pair (h : markedParts cs = [p, q]) :
    cs = p ++ (mark ++ q) ∧ markCount cs = markCount (p ++ CodePoint.char '.' :: q) + 1 := by
  fun_induction markedParts cs generalizing p with
  | case1 => exact nomatch h
  | case2 rest ih =>
    obtain ⟨rfl, hrest⟩ := List.cons.inj h
    obtain ⟨rfl, -⟩ := of_markedParts_eq_singleton hrest
    exact ⟨rfl, markCount_mark rest⟩
  | case3 c rest hcut ih =>
    obtain ⟨tail, htail, rfl⟩ := exists_of_consFirst (markedParts_ne_nil rest) h
    obtain ⟨rfl, hcount⟩ := ih htail
    have hnot := not_mark_of_not_cut hcut
    -- a mark over the joint would begin before the cut, and the cut would have been there
    have hjoined : ¬ mark <+: c :: (tail ++ CodePoint.char '.' :: q) := fun hmark => hnot <| by
      rcases tail with _ | ⟨d, _ | ⟨e, tail⟩⟩
      · simp [mark] at hmark
      all_goals simpa [mark] using hmark
    refine ⟨rfl, ?_⟩
    rw [markCount_of_not_mark hnot, hcount, List.cons_append, markCount_of_not_mark hjoined]

theorem length_markedParts_le (cs : Text) :
    (markedParts cs).length ≤ markCount cs + 1 := by
  fun_induction markedParts cs with
  | case1 => exact Nat.le_refl 1
  | case2 rest ih =>
    rw [markCount_mark, List.length_cons]
    have hrest : markCount rest ≤ markCount (.char '.' :: rest) := by
      rw [markCount]
      exact Nat.le_add_right _ _
    omega
  | case3 c rest hcut ih =>
    rw [markCount_of_not_mark (not_mark_of_not_cut hcut)]
    obtain ⟨part, parts, hparts⟩ := List.exists_cons_of_ne_nil (markedParts_ne_nil rest)
    rw [hparts] at ih ⊢
    exact ih

end Path

namespace Grouping

variable {s : Shape} {a : Aggregate} {c array : Text}

theorem arraysOf_eq_singleton_iff : arraysOf c = [array] ↔ Path.markedArrays c = [array] := by
  unfold arraysOf Path.markedArrays
  match Path.markedParts c with
  | [] | [_] | [_, _] | _ :: _ :: _ :: _ => simp [Path.arraysWithin]

theorem mark_infix_sourceOf_iff :
    Path.mark <:+: sourceOf c ↔ 2 ≤ Path.markCount c := by
  have hlength := Path.length_markedParts_le c
  rw [← Path.markCount_pos_iff, sourceOf]
  match hparts : Path.markedParts c with
  | [] => exact absurd hparts (Path.markedParts_ne_nil _)
  | [p] =>
    obtain ⟨-, hcount⟩ := Path.of_markedParts_eq_singleton hparts
    simp [hcount]
  | [p, q] =>
    obtain ⟨-, hcount⟩ := Path.of_markedParts_eq_pair hparts
    have hjoined : p ++ "." ++ q = p ++ CodePoint.char '.' :: q := List.append_assoc _ _ _
    show 0 < Path.markCount (p ++ "." ++ q) ↔ _
    rw [hjoined, hcount]
    omega
  | _ :: _ :: _ :: parts =>
    rw [hparts] at hlength
    simp only [List.length_cons] at hlength ⊢
    omega

/-- The array that a column marks alone. -/
def soleArray? (column : Text) : Option Text :=
  (arraysOf column).head?

theorem soleArray?_eq_some_iff : soleArray? c = some array ↔ Path.markedArrays c = [array] := by
  rw [← arraysOf_eq_singleton_iff]
  unfold soleArray? arraysOf
  split <;> simp

theorem soleArray?_beq (array : Text) :
    (soleArray? · == some array) = fun c => decide (Path.markedArrays c = [array]) := by
  funext c
  rw [Bool.eq_iff_iff, beq_iff_eq, decide_eq_true_iff, soleArray?_eq_some_iff]

theorem arrays_eq_filterMap (hagg : s.aggregate = some a) :
    arrays s = (texts a.columns).filterMap soleArray? := by
  have htoList : arraysOf = fun c => (soleArray? c).toList := by
    funext c
    unfold soleArray? arraysOf
    split <;> rfl
  unfold arrays
  rw [hagg, List.filterMap_eq_flatMap_toList, ← htoList]

end Grouping

/-- What is found first in a list is found first among the finds. -/
theorem idxOf_filterMap_lt_iff {α : Type} (f : α → Option Text) (l : List α) (a b : Text) :
    (l.filterMap f).idxOf a < (l.filterMap f).idxOf b ↔
      l.findIdx (f · == some a) < l.findIdx (f · == some b) := by
  induction l with
  | nil => rfl
  | cons x l ih =>
    rw [List.findIdx_cons, List.findIdx_cons]
    cases hx : f x with
    | none =>
      rw [List.filterMap_cons_none hx, ih]
      simp
    | some y =>
      rw [List.filterMap_cons_some hx, List.idxOf_cons, List.idxOf_cons, Option.some_beq_some,
        Option.some_beq_some]
      cases y == a <;> cases y == b <;> simp [ih]

/-! ### Unwinding -/

open Entries
open Grouping (sourceOf countName aggregateKey)

/-- The arrays that the stages unwind, one after the other. -/
def unwound (stages : List Stage) : List Text :=
  stages.filterMap fun
    | .unwind path => some path
    | _ => none

variable {s : Shape} {a : Aggregate} {filter v offset limit : Value} {stages : List Stage}
  {es grouped projected : Entries} {sorting : List Entries} {unwinds : List Text} {path name : Text}

theorem mem_unwound_iff : path ∈ unwound stages ↔ .unwind path ∈ stages := by
  unfold unwound
  rw [List.mem_filterMap]
  constructor
  · rintro ⟨stage, hstage, hpath⟩
    split at hpath
    · exact Option.some.inj hpath ▸ hstage
    · exact nomatch hpath
  · exact fun h => ⟨_, h, rfl⟩

theorem unwound_eq_nil (h : ∀ path, .unwind path ∉ stages) : unwound stages = [] :=
  List.eq_nil_iff_forall_not_mem.mpr fun path hpath => h path (mem_unwound_iff.mp hpath)

theorem unwound_stagesOf :
    unwound (stagesOf filter unwinds grouped sorting offset limit projected) = unwinds := by
  have hunwinds : unwound (unwinds.map .unwind) = unwinds := by
    simp [unwound, List.filterMap_map]
  have happend : ∀ l₁ l₂, unwound (l₁ ++ l₂) = unwound l₁ ++ unwound l₂ := fun _ _ =>
    List.filterMap_append
  simp only [stagesOf, happend, hunwinds]
  simp [unwound_eq_nil, mem_whenSet_iff, mem_unlessEmpty_iff]

theorem unwound_eq_of_pipeline (hs : s.TextColumns) (h : pipeline s filter = .ok stages) :
    unwound stages = Grouping.arrays s := by
  obtain ⟨g, given, projected, sorting, hg, -, -, -, rfl⟩ := exists_parts_of_pipeline h
  obtain ⟨-, rfl⟩ := (Grouping.ofShape_eq_ok_iff hs).mp hg
  exact unwound_stagesOf

theorem mem_group_iff_of_aggregate (hs : s.TextColumns) (hagg : s.aggregate = some a)
    (h : pipeline s filter = .ok stages) (es : Entries) :
    .group es ∈ stages ↔ es = Grouping.groupFields s := by
  have hne : Grouping.groupFields s ≠ [] := fun hnil => by
    obtain ⟨-, hnone⟩ := (Grouping.groupFields_eq_nil_iff hs.groups).mp hnil
    exact nomatch hagg.symm.trans hnone
  rw [mem_group_iff_groupFields hs h]
  exact and_iff_right hne

theorem accumulator_of_count (hcount : a.functionName = .ok countName) :
    Grouping.accumulator a = Grouping.countOf := by
  unfold Grouping.accumulator Grouping.accumulatorOf
  rw [Grouping.nameOf_eq hcount]
  split
  · exact if_pos rfl
  · rfl

theorem accumulates_of_pipeline (hs : s.TextColumns) (hagg : s.aggregate = some a)
    (h : pipeline s filter = .ok stages) : Grouping.Accumulates a := by
  obtain ⟨_, _, _, _, hg, -, -, -, -⟩ := exists_parts_of_pipeline h
  exact ((Grouping.ofShape_eq_ok_iff hs).mp hg).1 a hagg

theorem exists_accumulator_of_not_count (ha : AllText a.columns) (hname : a.functionName = .ok name)
    (hcolumns : a.columns ≠ []) (hcount : name ≠ countName) :
    ∃ column, (texts a.columns).getLast? = some column ∧ Grouping.accumulator a =
      .map (single ("$" ++ name) (.text ("$" ++ sourceOf column))) := by
  have htexts : texts a.columns ≠ [] := mt (texts_eq_nil_iff ha).mp hcolumns
  refine ⟨_, List.getLast?_eq_some_getLast htexts, ?_⟩
  rw [Grouping.accumulator, List.getLast?_eq_some_getLast htexts, Grouping.nameOf_eq hname]
  exact if_neg hcount

/-- For each column that marks an array and no other, a pipeline unwinds that array. It unwinds in
the order of the columns, so that an array is unwound before those within it where its column comes
before theirs. The path that is accumulated still has a mark where the last column has several. -/
theorem unwound_arrays (hs : s.TextColumns) (hagg : s.aggregate = some a)
    (h : pipeline s filter = .ok stages) :
    (∀ path, .unwind path ∈ stages ↔ ∃ c ∈ texts a.columns, Path.markedArrays c = [path]) ∧
    (∀ path, (texts a.columns).countP (Path.markedArrays · = [path]) = 1 →
      (unwound stages).count path = 1) ∧
    (∀ outer inner, (unwound stages).idxOf outer < (unwound stages).idxOf inner ↔
      (texts a.columns).findIdx (Path.markedArrays · = [outer]) <
        (texts a.columns).findIdx (Path.markedArrays · = [inner])) ∧
    ∃ fields name, (∀ es, .group es ∈ stages ↔ es = fields) ∧ a.functionName = .ok name ∧
      (name = countName → get? fields aggregateKey = some Grouping.countOf) ∧
      (name ≠ countName → ∃ column source, (texts a.columns).getLast? = some column ∧
        get? fields aggregateKey = some (.map (single ("$" ++ name) (.text ("$" ++ source)))) ∧
        (Path.mark <:+: source ↔ 2 ≤ Path.markCount column)) := by
  have hunwound := (unwound_eq_of_pipeline hs h).trans (Grouping.arrays_eq_filterMap hagg)
  refine ⟨fun path => ?_, fun path hcount => ?_, fun outer inner => ?_, ?_⟩
  · rw [← mem_unwound_iff, hunwound, List.mem_filterMap]
    simp only [Grouping.soleArray?_eq_some_iff]
  · rw [hunwound, List.count_filterMap, Grouping.soleArray?_beq, hcount]
  · rw [hunwound, idxOf_filterMap_lt_iff, Grouping.soleArray?_beq, Grouping.soleArray?_beq]
  · obtain ⟨name, hname, hcolumns⟩ := accumulates_of_pipeline hs hagg h
    refine ⟨_, name, mem_group_iff_of_aggregate hs hagg h, hname, fun hcount => ?_,
      fun hcount => ?_⟩
    · rw [Grouping.get?_groupFields_aggregate hagg, accumulator_of_count (hcount ▸ hname)]
    · obtain ⟨column, hcolumn, haccumulator⟩ := exists_accumulator_of_not_count
        (hs.aggregate a hagg) hname (mt hcolumns hcount) hcount
      exact ⟨column, _, hcolumn, (Grouping.get?_groupFields_aggregate hagg).trans
        (congrArg some haccumulator), Grouping.mark_infix_sourceOf_iff⟩

/-- The orders are unwound once, and before the items within them. -/
theorem unwound_arrays_nested :
    let a : Aggregate := {
      function := .text "sum"
      columns := [.text "orders.*.total", .text "orders.items.*.price"] }
    let s : Shape := { aggregate := some a }
    s.TextColumns ∧ s.aggregate = some a ∧ ∃ stages, pipeline s (.map []) = .ok stages ∧
      (unwound stages).count ("orders" : Text) = 1 ∧
      (unwound stages).idxOf ("orders" : Text) < (unwound stages).idxOf ("orders.items" : Text) ∧
      ∃ fields source, .group fields ∈ stages ∧
        get? fields aggregateKey = some (.map (single "$sum" (.text ("$" ++ source)))) ∧
        ¬ Path.mark <:+: source := by
  intro a s
  have hs : s.TextColumns := ⟨allText_map [], allText_map [], fun _ h =>
    Option.some.inj h ▸ allText_map ["orders.*.total", "orders.items.*.price"]⟩
  have hpipeline : pipeline s (.map []) = .ok _ := rfl
  obtain ⟨-, honce, horder, fields, name, hgroup, hname, -, haccumulated⟩ :=
    unwound_arrays hs rfl hpipeline
  obtain rfl : ("sum" : Text) = name := Except.ok.inj hname
  obtain ⟨column, source, hlast, hget, hmark⟩ := haccumulated (by decide)
  obtain rfl : ("orders.items.*.price" : Text) = column := Option.some.inj hlast
  exact ⟨hs, rfl, _, hpipeline, honce _ (by decide), (horder _ _).mpr (by decide), fields, source,
    (hgroup fields).mpr rfl, hget, fun h => absurd (hmark.mp h) (by decide)⟩

/-- A column that marks two arrays unwinds neither and is accumulated with its marks. An array whose
column comes later is unwound later, even if the one before is within it. -/
theorem exists_array_not_unwound :
    let sum (columns : List Value) : Shape :=
      { aggregate := some { function := .text "sum", columns } }
    (∃ stages fields, Path.markedArrays "orders.*.items.*.price" = ["orders", "orders.items"] ∧
      pipeline (sum [.text "orders.*.items.*.price"]) (.map []) = .ok stages ∧
      unwound stages = [] ∧ .group fields ∈ stages ∧
      get? fields aggregateKey =
        some (.map (single "$sum" (.text "$orders.*.items.*.price")))) ∧
    ∃ stages, pipeline (sum [.text "orders.items.*.price", .text "orders.*.total"]) (.map []) =
      .ok stages ∧ unwound stages = ["orders.items", "orders"] := by
  intro sum
  have hs : (sum [.text "orders.items.*.price", .text "orders.*.total"]).TextColumns :=
    ⟨allText_map [], allText_map [], fun _ h =>
      Option.some.inj h ▸ allText_map ["orders.items.*.price", "orders.*.total"]⟩
  have hpipeline : pipeline (sum [.text "orders.items.*.price", .text "orders.*.total"]) (.map []) =
    .ok _ := rfl
  exact ⟨⟨_, _, by decide, rfl, rfl, List.mem_singleton_self _, rfl⟩,
    _, hpipeline, (unwound_eq_of_pipeline hs hpipeline).trans (by decide)⟩

end DocQuery
