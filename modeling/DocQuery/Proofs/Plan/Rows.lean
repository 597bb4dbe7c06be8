import DocQuery.Plan.Pipeline
import DocQuery.Proofs.Value.DistinctKeys

/-!
# Rows after a grouping

What the stages that can follow a grouping do with its rows: order them, pass over some, take some,
and keep some of their fields. They are read only where a store cannot but do so: for whole numbers
of rows, and for projections that name the fields to keep (`Stage.rowsAfter?`). `rowsAfter?_single`
says what becomes of the only row of a grouping.
-/

namespace DocQuery

/-- How a store orders rows. None is lost and none is new. -/
structure RowOrder where
  sort : Entries → List Entries → List Entries
  perm : ∀ orders rows, (sort orders rows).Perm rows

/-- In a projection, the value keeps the field that it is under. -/
def Value.isInclusion : Value → Bool
  | bool b => b
  | int n => n != 0
  | _ => false

/-- The named fields of a row, and its identity. -/
def keepFields (fields row : Entries) : Entries :=
  row.filter fun e => Entries.hasKey fields e.1 || e.1.sameKey Grouping.idKey

/-- The rows after a stage. -/
def Stage.rowsAfter? (o : RowOrder) (rows : List Entries) : Stage → Option (List Entries)
  | .sort orders => some (o.sort orders rows)
  | .skip (.int n) => if 0 ≤ n then some (rows.drop n.toNat) else none
  | .limit (.int n) => if 0 < n then some (rows.take n.toNat) else none
  | .project fields =>
    if fields.all fun e => e.2.isInclusion then some (rows.map (keepFields fields)) else none
  | _ => none

/-- The rows after some stages, one after the other. -/
def rowsAfter? (o : RowOrder) (stages : List Stage) (rows : List Entries) :
    Option (List Entries) :=
  stages.foldlM (Stage.rowsAfter? o) rows

variable {o : RowOrder} {rows rows' : List Entries} {row orders fields : Entries}
  {as bs : List Stage}

theorem rowsAfter?_append (h : rowsAfter? o as rows = some rows') (bs : List Stage) :
    rowsAfter? o (as ++ bs) rows = rowsAfter? o bs rows' := by
  unfold rowsAfter? at h ⊢
  rw [List.foldlM_append, h]
  rfl

/-- A row alone is in order. -/
theorem rowsAfter?_sort (orders row : Entries) :
    rowsAfter? o (Stage.unlessEmpty orders fun es => .sort (Entries.ofList es)) [row] =
      some [row] := by
  cases orders with
  | nil => rfl
  | cons e orders =>
    show some (o.sort (Entries.ofList (e :: orders)) [row]) = _
    rw [List.perm_singleton.mp (o.perm _ [row])]

theorem rowsAfter?_skip (n : Nat) (row : Entries) :
    rowsAfter? o (Stage.whenSet (.int n) .skip) [row] = some (if n = 0 then [row] else []) := by
  cases n with
  | zero => rfl
  | succ n =>
    rw [Stage.whenSet_succ]
    show (if (0 : Int) ≤ (n + 1 : Nat) then some ([row].drop (n + 1)) else none) >>= pure = _
    rw [if_pos (by omega), if_neg (by omega), List.drop_of_length_le (by simp)]
    rfl

theorem rowsAfter?_limit (n : Nat) (hrows : rows.length ≤ 1) :
    rowsAfter? o (Stage.whenSet (.int n) .limit) rows = some rows := by
  cases n with
  | zero => rfl
  | succ n =>
    rw [Stage.whenSet_succ]
    show (if (0 : Int) < (n + 1 : Nat) then some (rows.take (n + 1)) else none) >>= pure = _
    rw [if_pos (by omega), List.take_of_length_le (by omega)]
    rfl

theorem rowsAfter?_project (h : ∀ e ∈ fields, e.2.isInclusion = true) (rows : List Entries) :
    rowsAfter? o (Stage.unlessEmpty fields .project) rows =
      some (if fields = [] then rows else rows.map (keepFields fields)) := by
  cases fields with
  | nil => rfl
  | cons e fields =>
    show (if _ then some (rows.map _) else none) >>= pure = _
    rw [if_pos (List.all_eq_true.mpr h), if_neg (List.cons_ne_nil e fields)]
    rfl

/-- Of the only row of a grouping, nothing is left where some rows are passed over. -/
theorem rowsAfter?_single (orders : Entries) (skip limit : Nat)
    (hfields : ∀ e ∈ fields, e.2.isInclusion = true) (o : RowOrder) (row : Entries) :
    rowsAfter? o ((Stage.unlessEmpty orders fun es => .sort (Entries.ofList es)) ++
        Stage.whenSet (.int skip) .skip ++ Stage.whenSet (.int limit) .limit ++
        Stage.unlessEmpty fields .project) [row] =
      some (if skip = 0 then [if fields = [] then row else keepFields fields row] else []) := by
  rw [List.append_assoc, List.append_assoc, rowsAfter?_append (rowsAfter?_sort orders row),
    rowsAfter?_append (rowsAfter?_skip skip row)]
  by_cases hskip : skip = 0
  · rw [if_pos hskip, if_pos hskip, rowsAfter?_append (rowsAfter?_limit limit (by simp)),
      rowsAfter?_project hfields]
    split <;> rfl
  · rw [if_neg hskip, if_neg hskip, rowsAfter?_append (rowsAfter?_limit limit (by simp)),
      rowsAfter?_project hfields]
    split <;> rfl

end DocQuery
