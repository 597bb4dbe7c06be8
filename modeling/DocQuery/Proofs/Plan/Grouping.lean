import Mathlib.Data.List.Induction
import DocQuery.Plan.Pipeline
import DocQuery.Proofs.Fallible
import DocQuery.Proofs.Value.DistinctKeys
import DocQuery.Proofs.Value.Texts

/-!
# What a grouping holds

Where columns are text, a grouping fails only for an accumulator that was given no column
(`Grouping.ofShape_eq`). Group columns, selected columns and the aggregate write into one mapping,
one after the other, so that what is under a name is what was written last: `get?_groupFields`.
-/

namespace DocQuery

open Entries

/-- The columns, the group columns and the columns of the aggregate are text. -/
structure Shape.TextColumns (s : Shape) : Prop where
  columns : AllText s.columns
  groups : AllText s.groups
  aggregate : ∀ a, s.aggregate = some a → AllText a.columns

namespace Grouping

variable {s : Shape} {a : Aggregate} {names columns : List Text} {fields es : Entries}
  {c g k : Text}

/-- How a stage refers to a column that is text. -/
def referenceTo (c : Text) : Value :=
  .text ("$" ++ c)

def withGroupColumn (fields : Entries) (g : Text) : Entries :=
  (insertIntoId fields (.text g) (referenceTo g)).insert (.text g) (lastOf (referenceTo g))

def outputs (columns : List Text) : Entries :=
  columns.map fun c => (.text (Path.flatten c), lastOf (referenceTo c))

/-- The array that a column goes through, if it marks one only. -/
def arraysOf (column : Text) : List Text :=
  match Path.markedParts column with
  | [array, _] => [array]
  | _ => []

/-- The path that is accumulated for a column. -/
def sourceOf (column : Text) : Text :=
  match Path.markedParts column with
  | [array, rest] => array ++ "." ++ rest
  | _ => column

def accumulatorOf (function column : Text) : Value :=
  if function = countName then countOf
  else .map (Entries.single ("$" ++ function) (referenceTo (sourceOf column)))

/-- The name of the function, where it has one. -/
def nameOf (a : Aggregate) : Text :=
  a.functionName.toOption.getD []

/-- What an aggregate accumulates; its last column wins. -/
def accumulator (a : Aggregate) : Value :=
  match (texts a.columns).getLast? with
  | some column => accumulatorOf (nameOf a) column
  | none => countOf

/-- The fields before the aggregate. -/
def columnFields (s : Shape) : Entries :=
  if s.groups = [] then []
  else ((texts s.groups).foldl withGroupColumn []).update (outputs (texts s.selectedColumns))

def groupFields (s : Shape) : Entries :=
  closeId <| match s.aggregate with
    | none => columnFields s
    | some a => (columnFields s).insert aggregateKey (accumulator a)

def arrays (s : Shape) : List Text :=
  match s.aggregate with
  | none => []
  | some a => (texts a.columns).flatMap arraysOf

/-- The grouping of some fields and of the aggregate. -/
def withAggregate (s : Shape) (fields : Entries) : Except Fault Grouping :=
  match s.aggregate with
  | none => pure { fields }
  | some a => addAggregate { fields } a

/-- The function has a name, and a column unless it counts. -/
def Accumulates (a : Aggregate) : Prop :=
  ∃ name, a.functionName = .ok name ∧ (a.columns = [] → name = countName)

/-- The fault of an aggregate: that of its function, or that of a missing column. -/
def Refused (a : Aggregate) (fault : Fault) : Prop :=
  a.functionName = .error fault ∨ ∃ name, a.functionName = .ok name ∧ a.columns = [] ∧
    name ≠ countName ∧ fault = .columnRequired name

theorem nameOf_eq {name : Text} (h : a.functionName = .ok name) : nameOf a = name := by
  rw [nameOf, h]
  rfl

theorem accumulates_or_exists_refused (a : Aggregate) :
    Accumulates a ∨ ∃ fault, Refused a fault := by
  cases hname : a.functionName with
  | error fault => exact .inr ⟨fault, .inl hname⟩
  | ok name =>
    by_cases h : a.columns = [] ∧ name ≠ countName
    · exact .inr ⟨_, .inr ⟨name, hname, h.1, h.2, rfl⟩⟩
    · exact .inl ⟨name, hname, fun hnil => by_contra fun hne => h ⟨hnil, hne⟩⟩

theorem reference_text (c : Text) : reference (.text c) = .ok (referenceTo c) := rfl

@[simp]
theorem referenceTo_inj {c d : Text} : referenceTo c = referenceTo d ↔ c = d := by
  simp [referenceTo]

theorem lastOf_inj {c d : Text} : lastOf (referenceTo c) = lastOf (referenceTo d) ↔ c = d := by
  simp [lastOf, Entries.single]

theorem foldlM_addGroupColumn (names : List Text) (fields : Entries) :
    (names.map .text).foldlM addGroupColumn fields = .ok (names.foldl withGroupColumn fields) := by
  induction names generalizing fields with
  | nil => rfl
  | cons g names ih => exact ih _

theorem foldlM_addSelectedColumn (columns : List Text) (fields : Entries) :
    (columns.map .text).foldlM addSelectedColumn fields =
      .ok (fields.update (outputs columns)) := by
  induction columns generalizing fields with
  | nil => rfl
  | cons c columns ih => exact ih _

theorem addAggregateColumn_text (function : Text) (g : Grouping) (c : Text) :
    addAggregateColumn function g (.text c) =
      .ok { fields := g.fields.insert aggregateKey (accumulatorOf function c)
            unwinds := g.unwinds ++ arraysOf c } := by
  have hparts : aggregateParts (.text c) = .ok ((Path.markedParts c).map .text) := rfl
  unfold addAggregateColumn accumulatorOf sourceOf arraysOf
  rw [hparts]
  match Path.markedParts c with
  | [] | [_] | [array, rest] | _ :: _ :: _ :: _ =>
    by_cases hcount : function = countName <;>
      simp [hcount, reference_text, bind, Except.bind, pure, Except.pure]

theorem foldlM_addAggregateColumn (function : Text) (g : Grouping) (c : Text)
    (columns : List Text) :
    ((c :: columns).map .text).foldlM (addAggregateColumn function) g =
      .ok { fields := g.fields.insert aggregateKey
              (accumulatorOf function ((c :: columns).getLast (List.cons_ne_nil c columns)))
            unwinds := g.unwinds ++ (c :: columns).flatMap arraysOf } := by
  induction columns generalizing c g with
  | nil =>
    rw [List.map_singleton, foldlM_cons_of_ok (addAggregateColumn_text function g c)]
    simp [pure, Except.pure]
  | cons d columns ih =>
    rw [List.map_cons, foldlM_cons_of_ok (addAggregateColumn_text function g c), ih,
      -- the further columns write their accumulator over that of the first
      insert_insert (by decide), List.getLast_cons (List.cons_ne_nil d columns)]
    simp

theorem addAggregate_eq (ha : AllText a.columns) (h : Accumulates a) (g : Grouping) :
    addAggregate g a = .ok { fields := g.fields.insert aggregateKey (accumulator a)
                             unwinds := g.unwinds ++ (texts a.columns).flatMap arraysOf } := by
  obtain ⟨name, hname, hcount⟩ := h
  have hcolumns := map_texts ha
  unfold addAggregate accumulator
  rw [hname, nameOf_eq hname]
  show (if a.columns.isEmpty then _ else _) = _
  cases hc : texts a.columns with
  | nil =>
    rw [hc] at hcolumns
    have hnil : a.columns = [] := hcolumns.symm
    simp [hnil, hcount hnil, pure, Except.pure]
  | cons c columns =>
    rw [hc] at hcolumns
    have hne : a.columns.isEmpty = false := by simp [← hcolumns]
    simp only [hne, Bool.false_eq_true, if_false]
    rw [← hcolumns, foldlM_addAggregateColumn, List.getLast?_eq_some_getLast]

theorem addAggregate_of_refused {fault : Fault} (h : Refused a fault) (g : Grouping) :
    addAggregate g a = .error fault := by
  unfold addAggregate
  rcases h with h | ⟨name, hname, hnil, hne, rfl⟩
  · rw [h]
    rfl
  · rw [hname]
    show (if a.columns.isEmpty then _ else _) = _
    simp only [hnil, List.isEmpty_nil, if_true, if_neg hne]
    rfl

theorem allText_selectedColumns (h : AllText s.columns) : AllText s.selectedColumns := by
  intro v hv
  unfold Shape.selectedColumns at hv
  split at hv
  · simp at hv
  · exact h v hv

/-- Columns that are text are written without a fault, so that only the aggregate may fail. -/
theorem ofShape_eq (hs : s.TextColumns) :
    ofShape s = (withAggregate s (columnFields s)).map
      fun g : Grouping => { g with fields := closeId g.fields } := by
  have hclosed : ∀ x : Except Fault Grouping,
      (x >>= fun g => pure { g with fields := closeId g.fields }) =
        x.map fun g : Grouping => { g with fields := closeId g.fields } := fun x => by
    cases x <;> rfl
  unfold ofShape columnFields withAggregate
  by_cases hg : s.groups = []
  · simp only [hg, List.isEmpty_nil, if_true]
    cases s.aggregate with
    | none => rfl
    | some a => exact hclosed _
  · have hgroups := foldlM_addGroupColumn (texts s.groups) []
    have hselected := foldlM_addSelectedColumn (texts s.selectedColumns)
      ((texts s.groups).foldl withGroupColumn [])
    rw [map_texts hs.groups] at hgroups
    rw [map_texts (allText_selectedColumns hs.columns)] at hselected
    have hempty : ¬ s.groups.isEmpty = true := by simpa using hg
    simp only [if_neg hempty, if_neg hg]
    rw [hgroups]
    show (s.selectedColumns.foldlM addSelectedColumn _ >>= _) = _
    rw [hselected]
    cases s.aggregate with
    | none => rfl
    | some a => exact hclosed _

theorem ofShape_eq_ok (hs : s.TextColumns) (ha : ∀ a, s.aggregate = some a → Accumulates a) :
    ofShape s = .ok { fields := groupFields s, unwinds := arrays s } := by
  rw [ofShape_eq hs]
  unfold groupFields arrays withAggregate
  cases hagg : s.aggregate with
  | none => rfl
  | some a =>
    dsimp only
    rw [addAggregate_eq (hs.aggregate a hagg) (ha a hagg)]
    simp [Except.map]

theorem ofShape_eq_error {fault : Fault} (hs : s.TextColumns) (hagg : s.aggregate = some a)
    (h : Refused a fault) : ofShape s = .error fault := by
  rw [ofShape_eq hs]
  unfold withAggregate
  rw [hagg]
  dsimp only
  rw [addAggregate_of_refused h]
  rfl

theorem ofShape_eq_ok_iff (hs : s.TextColumns) {g : Grouping} :
    ofShape s = .ok g ↔ (∀ a, s.aggregate = some a → Accumulates a) ∧
      g = { fields := groupFields s, unwinds := arrays s } := by
  constructor
  · intro h
    have ha : ∀ a, s.aggregate = some a → Accumulates a := fun a hagg => by
      refine (accumulates_or_exists_refused a).resolve_right fun ⟨fault, hrefused⟩ => ?_
      rw [ofShape_eq_error hs hagg hrefused] at h
      exact nomatch h
    rw [ofShape_eq_ok hs ha] at h
    exact ⟨ha, (Except.ok.inj h).symm⟩
  · rintro ⟨ha, rfl⟩
    exact ofShape_eq_ok hs ha

/-- The identity that the fields hold. -/
def identityIn (fields : Entries) : Entries :=
  match get? fields idKey with
  | some (.map es) => es
  | _ => []

/-- The identity after a further group column. A column of its own name is written over it. -/
def addToIdentity (identity : Entries) (g : Text) : Entries :=
  if g = "_id" then Entries.single "$last" (referenceTo "_id")
  else identity.insert (.text g) (referenceTo g)

theorem get?_withGroupColumn_id (fields : Entries) (g : Text) :
    get? (withGroupColumn fields g) idKey = some (.map (addToIdentity (identityIn fields) g)) := by
  have hid : (Value.text g).sameKey idKey = (g == "_id") := Value.sameKey_text
  have hself : idKey.sameKey idKey = true := by decide
  have hinsert : insertIntoId fields (.text g) (referenceTo g) = fields.insert idKey
      (.map ((identityIn fields).insert (.text g) (referenceTo g))) := rfl
  unfold withGroupColumn addToIdentity
  rw [get?_insert, hid, hinsert, get?_insert, if_pos hself]
  by_cases hg : g = "_id" <;> simp [hg, lastOf]

theorem get?_foldl_withGroupColumn_id (hne : names ≠ []) (fields : Entries) :
    get? (names.foldl withGroupColumn fields) idKey =
      some (.map (names.foldl addToIdentity (identityIn fields))) := by
  induction names generalizing fields with
  | nil => exact absurd rfl hne
  | cons g names ih =>
    have hid : identityIn (withGroupColumn fields g) = addToIdentity (identityIn fields) g := by
      unfold identityIn
      rw [get?_withGroupColumn_id]
      rfl
    rw [List.foldl_cons, List.foldl_cons, ← hid]
    by_cases hnames : names = []
    · rw [hnames, List.foldl_nil, List.foldl_nil, get?_withGroupColumn_id, hid]
    · exact ih hnames _

theorem get?_foldl_withGroupColumn (hk : k ≠ "_id") (names : List Text) (fields : Entries) :
    get? (names.foldl withGroupColumn fields) (.text k) =
      if k ∈ names then some (lastOf (referenceTo k)) else get? fields (.text k) := by
  have hid : idKey.sameKey (.text k) = false := by
    show (Value.text "_id").sameKey (.text k) = false
    simpa using Ne.symm hk
  induction names generalizing fields with
  | nil => rfl
  | cons g names ih =>
    have hstep : get? (withGroupColumn fields g) (.text k) =
        if g = k then some (lastOf (referenceTo k)) else get? fields (.text k) := by
      unfold withGroupColumn insertIntoId
      rw [get?_insert, get?_insert, hid, Value.sameKey_text]
      by_cases hg : g = k <;> simp [hg]
    rw [List.foldl_cons, ih, hstep]
    by_cases hmem : k ∈ names
    · simp [hmem]
    · by_cases hg : g = k
      · simp [hg]
      · simp [hmem, hg, Ne.symm hg]

/-- The column that an output field is of: of those with its name, the last one. -/
def columnOf? (columns : List Text) (field : Text) : Option Text :=
  columns.reverse.find? fun c => Path.flatten c == field

theorem columnOf?_eq_some_iff {field : Text} :
    columnOf? columns field = some c ↔ Path.flatten c = field ∧ ∃ before after,
      columns = before ++ c :: after ∧ ∀ d ∈ after, Path.flatten d ≠ field := by
  unfold columnOf?
  rw [List.find?_eq_some_iff_append]
  refine and_congr (by simp) ?_
  constructor
  · rintro ⟨after, before, h, hafter⟩
    refine ⟨before.reverse, after.reverse, ?_, fun d hd => ?_⟩
    · rw [← List.reverse_reverse columns, h]
      simp
    · simpa using hafter d (List.mem_reverse.mp hd)
  · rintro ⟨before, after, rfl, hafter⟩
    refine ⟨after.reverse, before.reverse, by simp, fun d hd => ?_⟩
    simpa using hafter d (List.mem_reverse.mp hd)

theorem columnOf?_eq_none_iff {field : Text} :
    columnOf? columns field = none ↔ ∀ c ∈ columns, Path.flatten c ≠ field := by
  simp [columnOf?]

theorem get?_update_outputs (fields : Entries) (columns : List Text) (k : Text) :
    get? (fields.update (outputs columns)) (.text k) =
      ((columnOf? columns k).map fun c => lastOf (referenceTo c)).or (get? fields (.text k)) := by
  have hfind : last? (outputs columns) (.text k) =
      (columnOf? columns k).map fun c => lastOf (referenceTo c) := by
    unfold last? get? outputs columnOf?
    rw [← List.map_reverse, List.find?_map, Option.map_map]
    simp [Function.comp_def]
  rw [get?_update_eq_last?, hfind]

/-! ### What is under a name -/

theorem closeId_of_identity (h : get? fields idKey = some (.map es)) (hne : es ≠ []) :
    closeId fields = fields := by
  have htruthy : ((get? fields idKey).getD .null).truthy = true := by
    rw [h]
    simpa [Value.truthy] using hne
  unfold closeId
  rw [htruthy]
  simp

theorem addToIdentity_ne_nil (es : Entries) (g : Text) : addToIdentity es g ≠ [] := by
  unfold addToIdentity
  split
  · simp [Entries.single]
  · exact insert_ne_nil _ _ _

theorem foldl_addToIdentity_ne_nil (hne : names ≠ []) (es : Entries) :
    names.foldl addToIdentity es ≠ [] := by
  induction names using List.reverseRecOn with
  | nil => exact absurd rfl hne
  | append_singleton names g _ =>
    rw [List.foldl_append]
    exact addToIdentity_ne_nil _ _

/-- The identity is what the group columns make of it, unless a selected column is written over
it. -/
theorem get?_columnFields_id (hs : s.TextColumns) (hgroups : s.groups ≠ []) :
    ∃ es, es ≠ [] ∧ get? (columnFields s) idKey = some (.map es) ∧
      .map es = match columnOf? (texts s.selectedColumns) "_id" with
        | some c => lastOf (referenceTo c)
        | none => .map ((texts s.groups).foldl addToIdentity []) := by
  have hne : texts s.groups ≠ [] := fun h => hgroups ((texts_eq_nil_iff hs.groups).mp h)
  have hid := get?_foldl_withGroupColumn_id hne []
  have hfields := get?_update_outputs ((texts s.groups).foldl withGroupColumn [])
    (texts s.selectedColumns) "_id"
  have hkey : Value.text "_id" = idKey := rfl
  unfold columnFields
  rw [if_neg hgroups, ← hkey, hfields]
  cases columnOf? (texts s.selectedColumns) "_id" with
  | some c => exact ⟨_, by simp [Entries.single], rfl, rfl⟩
  | none => exact ⟨_, foldl_addToIdentity_ne_nil hne _, hid, rfl⟩

theorem groupFields_eq (hs : s.TextColumns) (hgroups : s.groups ≠ []) :
    groupFields s = match s.aggregate with
      | none => columnFields s
      | some a => (columnFields s).insert aggregateKey (accumulator a) := by
  -- with group columns the identity is not empty, so that it needs no closing
  obtain ⟨es, hne, hid, -⟩ := get?_columnFields_id hs hgroups
  unfold groupFields
  cases s.aggregate with
  | none => exact closeId_of_identity hid hne
  | some a =>
    have hinsert : get? ((columnFields s).insert aggregateKey (accumulator a)) idKey =
        some (.map es) := by
      rw [get?_insert, if_neg (by decide), hid]
    exact closeId_of_identity hinsert hne

theorem closeId_eq_nil_iff : closeId fields = [] ↔ fields = [] := by
  unfold closeId
  split
  · rfl
  · next h =>
    have hne : fields ≠ [] := fun hnil => h (by simp [hnil])
    simp [insert_ne_nil, hne]

theorem columnFields_eq_nil_iff (h : AllText s.groups) : columnFields s = [] ↔ s.groups = [] := by
  unfold columnFields
  split
  · next hgroups => simp [hgroups]
  · next hgroups =>
    have hne : texts s.groups ≠ [] := fun hnil => hgroups ((texts_eq_nil_iff h).mp hnil)
    have hid := get?_foldl_withGroupColumn_id hne []
    simp only [update_eq_nil_iff, hgroups, iff_false]
    rintro ⟨hnil, -⟩
    rw [hnil] at hid
    exact nomatch hid

theorem groupFields_eq_nil_iff (h : AllText s.groups) :
    groupFields s = [] ↔ s.groups = [] ∧ s.aggregate = none := by
  unfold groupFields
  rw [closeId_eq_nil_iff]
  cases s.aggregate with
  | none => simp [columnFields_eq_nil_iff h]
  | some a => simp [insert_ne_nil]

theorem get?_groupFields (hs : s.TextColumns) (hgroups : s.groups ≠ []) (hk : k ≠ "aggregate") :
    get? (groupFields s) (.text k) = get? (columnFields s) (.text k) := by
  have hkey : aggregateKey.sameKey (.text k) = false := by
    show (Value.text "aggregate").sameKey (.text k) = false
    simpa using Ne.symm hk
  rw [groupFields_eq hs hgroups]
  cases s.aggregate with
  | none => rfl
  | some a =>
    dsimp only
    rw [get?_insert, if_neg (by simp [hkey])]

theorem get?_groupFields_aggregate (hagg : s.aggregate = some a) :
    get? (groupFields s) aggregateKey = some (accumulator a) := by
  have hinsert : get? ((columnFields s).insert aggregateKey (accumulator a)) aggregateKey =
      some (accumulator a) := by
    rw [get?_insert, if_pos (by decide)]
  unfold groupFields closeId
  rw [hagg]
  dsimp only
  split
  · exact hinsert
  · rw [get?_insert, if_neg (by decide), hinsert]

theorem distinct_foldl_withGroupColumn (h : fields.Distinct) (names : List Text) :
    (names.foldl withGroupColumn fields).Distinct := by
  induction names generalizing fields with
  | nil => exact h
  | cons g names ih => exact ih (distinct_insert (distinct_insert h _ _) _ _)

theorem distinct_columnFields (s : Shape) : (columnFields s).Distinct := by
  unfold columnFields
  split
  · exact distinct_nil
  · exact distinct_update (distinct_foldl_withGroupColumn distinct_nil _) _

theorem distinct_closeId (h : fields.Distinct) : (closeId fields).Distinct := by
  unfold closeId
  split
  · exact h
  · exact distinct_insert h _ _

theorem distinct_groupFields (s : Shape) : (groupFields s).Distinct := by
  unfold groupFields
  refine distinct_closeId ?_
  cases s.aggregate with
  | none => exact distinct_columnFields s
  | some a => exact distinct_insert (distinct_columnFields s) _ _

end Grouping

end DocQuery
