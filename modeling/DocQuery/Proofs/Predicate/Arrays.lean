import DocQuery.Proofs.Predicate.Meaning
import DocQuery.Proofs.Predicate.Preorder

/-!
# The arrays of a filter document

The filter document of two or more predicates has one array for each connective, and in it the
documents that the predicates of this connective have alone, in order; no array is empty at any
depth (`compileFilter_eq_arrays`). `render_assemble_cases` says what the document of a list of
clauses can be, and `NoEmptyArray` is about what is built from arrays and from documents of single
predicates.
-/

namespace DocQuery

open Clause (RenderAs connectiveKey)

/-- A document of arrays under connectives, none of them empty, in which each document is of this
kind again or one of the `Own` documents. -/
inductive NoEmptyArray (Own : Entries → Prop) : Entries → Prop
  | own {d : Entries} (h : Own d) : NoEmptyArray Own d
  | arrays (as : List (Bool × List Entries)) (hne : ∀ a ∈ as, a.2 ≠ [])
      (h : ∀ a ∈ as, ∀ d ∈ a.2, NoEmptyArray Own d) :
      NoEmptyArray Own (as.map fun a => (connectiveKey a.1, .list (a.2.map .map)))

namespace Predicate
variable {p q : Predicate} {ps : List Predicate} {c : Clause} {cs : List Clause}
  {own docs : List Entries} {d es : Entries} {b : Bool} {js : List Bool}

/-- Which predicates of a list are joined by a disjunction, in order. -/
def joining (ps : List Predicate) : List Bool :=
  (List.range ps.length).map fun i => decide (JoinedByOr (ps.map isOr) i)

/-- The predicate with a conjunctive connective. -/
def conjunctive (p : Predicate) : Predicate :=
  { p with connective := .text "and" }

/-- The documents that are joined by the given connective, in order. -/
def arrayOf (isOr : Bool) (joining : List Bool) (docs : List Entries) : List Entries :=
  ((joining.zip docs).filter (·.1 == isOr)).map (·.2)

/-- The document of a raw predicate, or the entry of a predicate's column. -/
def OwnDocument (p : Predicate) (d : Entries) : Prop :=
  (p.kind? = .ok .raw ∧ p.document.toEntries = .ok d) ∨
    ∃ kind, p.kind? = .ok kind ∧ kind.hasColumn = true ∧ ∃ operand, d = [(p.column, operand)]

/-- How a predicate is joined and the group it has by itself are not read. -/
theorem clauseOfKind_joined {kind : Kind} {group : Except Fault Clause} {connective : Value}
    {ps : List Predicate} :
    clauseOfKind { q with connective, group := ps } group kind = .ok c ↔
      clauseOfKind q group kind = .ok c := by
  have hvalues : ∀ f : Value → Except Fault Clause,
      (requiredValues { q with connective, group := ps } >>= f) = .ok c ↔
        (q.requiredValues >>= f) = .ok c := by
    intro f
    unfold requiredValues
    cases q.values.isNull with
    | true => exact iff_of_false (by rintro ⟨⟩) (by rintro ⟨⟩)
    | false => exact Iff.rfl
  cases kind with
  | basic | null | notNull | between | nested => exact Iff.rfl
  | among | notAmong => exact hvalues _
  | raw =>
    unfold clauseOfKind
    cases q.document.isNull with
    | true => exact iff_of_false (by rintro ⟨⟩) (by rintro ⟨⟩)
    | false => exact Iff.rfl

theorem clause_connective (connective : Value) (h : p.clause = .ok c) :
    clause { p with connective } = .ok c := by
  obtain ⟨kind, q, hk, hq, hc⟩ := clause_eq_ok_iff.mp h
  obtain ⟨hcol, o, i, ids, v, vs, ho, hi, hids, hv, hvs, rfl⟩ := canonical_eq_ok_iff.mp hq
  have hq' : canonical { p with connective } kind =
      .ok { p with connective, operator := o, value := v, values := vs } :=
    canonical_eq_ok_iff.mpr ⟨hcol, o, i, ids, v, vs, ho, hi, hids, hv, hvs, rfl⟩
  exact clause_eq_ok_iff.mpr ⟨kind, _, hk, hq', clauseOfKind_joined.mpr hc⟩

theorem compileFilter_conjunctive (hc : p.clause = .ok c) (hd : c.render = .ok d) :
    compileFilter [p.conjunctive] = .ok d := by
  have hor : p.conjunctive.isOr = false := rfl
  exact (compileFilter_single_eq_ok_iff hor).mpr ⟨c, clause_connective _ hc, hd⟩

theorem compileFilter_conjunctive_of_clauses (hcs : clauses ps = .ok cs) (h : RenderAs cs own) :
    List.Forall₂ (fun p d => compileFilter [p.conjunctive] = .ok d) ps own := by
  induction ps generalizing cs own with
  | nil =>
    obtain rfl := clauses_nil_eq_ok_iff.mp hcs
    cases h
    exact .nil
  | cons p ps ih =>
    obtain ⟨c, ds, hc, hds, rfl⟩ := clauses_cons_eq_ok_iff.mp hcs
    cases h with
    | cons hd hdocs => exact .cons (compileFilter_conjunctive hc hd) (ih hds hdocs)

theorem disjunctive_eq_joining (ps : List Predicate) : disjunctive ps = joining ps := by
  apply List.ext_getElem?
  intro i
  by_cases hi : i < ps.length
  · rw [getElem?_disjunctive hi]
    simp [joining, hi]
  · have hlen := length_disjunctive ps
    rw [List.getElem?_eq_none (by omega), List.getElem?_eq_none (by simp [joining]; omega)]

theorem length_joining (ps : List Predicate) : (joining ps).length = ps.length := by
  simp [joining]

theorem renderAs_arrayOf (h : RenderAs cs own) (b : Bool) (js : List Bool) :
    RenderAs (joinedBy b (js.zip cs)) (arrayOf b js own) := by
  induction h generalizing js with
  | nil =>
    rw [List.zip_nil_right, arrayOf, List.zip_nil_right]
    exact .nil
  | @cons c d cs own hd _ ih =>
    cases js with
    | nil => exact .nil
    | cons j js =>
      have htail := ih js
      rcases eq_or_ne j b with rfl | hj
      · rw [List.zip_cons_cons, joinedBy_cons_self]
        have harray : arrayOf j (j :: js) (d :: own) = d :: arrayOf j js own := by simp [arrayOf]
        rw [harray]
        exact .cons hd htail
      · rw [List.zip_cons_cons, joinedBy_cons_of_ne hj]
        have harray : arrayOf b (j :: js) (d :: own) = arrayOf b js own := by simp [arrayOf, hj]
        rw [harray]
        exact htail

theorem eq_of_renderAs (h : RenderAs cs own) (h' : RenderAs cs docs) : own = docs := by
  induction h generalizing docs with
  | nil => cases h'; rfl
  | cons hd _ ih =>
    cases h' with
    | cons hd' hdocs =>
      rw [ih hdocs, Except.ok.inj (hd.symm.trans hd')]

theorem arrayOf_eq_nil_iff (hlen : js.length = own.length) : arrayOf b js own = [] ↔ b ∉ js := by
  induction js generalizing own with
  | nil => simp [arrayOf]
  | cons j js ih =>
    cases own with
    | nil => simp at hlen
    | cons d own =>
      have htail := ih (by simpa using hlen)
      rcases eq_or_ne j b with rfl | hj
      · simp [arrayOf]
      · have harray : arrayOf b (j :: js) (d :: own) = arrayOf b js own := by simp [arrayOf, hj]
        rw [harray, htail]
        simp [Ne.symm hj]

theorem connectedEntries_of_ne_nil (h : docs ≠ []) :
    connectedEntries b docs = [(connectiveKey b, .list (docs.map .map))] := by
  cases docs with
  | nil => exact absurd rfl h
  | cons d docs => rfl

/-- Of two connectives, the other one comes second or not at all. -/
theorem eraseDups_cons (b : Bool) (js : List Bool) :
    (b :: js).eraseDups = if (!b) ∈ js then [b, !b] else [b] := by
  rw [List.eraseDups_cons]
  induction js with
  | nil => simp
  | cons j js ih =>
    rcases eq_or_ne j b with rfl | hj
    · simpa using ih
    -- after both connectives have occurred nothing is left
    · obtain rfl : j = !b := by cases b <;> cases j <;> simp_all
      have hrest : ((js.filter fun x => !x == b).filter fun x => !x == !b) = [] := by
        rw [List.filter_filter, List.filter_eq_nil_iff]
        intro x _
        cases b <;> cases x <;> simp
      rw [List.filter_cons_of_pos (by simp), List.eraseDups_cons, hrest]
      simp

/-- An entry for each connective that occurs, in the order in which they do. -/
theorem connectedEntries_append (hlen : (b :: js).length = own.length) :
    connectedEntries b (arrayOf b (b :: js) own) ++
        connectedEntries (!b) (arrayOf (!b) (b :: js) own) =
      (b :: js).eraseDups.map fun b' =>
        (connectiveKey b', .list ((arrayOf b' (b :: js) own).map .map)) := by
  have hfirst : arrayOf b (b :: js) own ≠ [] := by
    rw [Ne, arrayOf_eq_nil_iff hlen]
    simp
  rw [connectedEntries_of_ne_nil hfirst, eraseDups_cons]
  by_cases hb : (!b) ∈ js
  · have hother : arrayOf (!b) (b :: js) own ≠ [] := by
      rw [Ne, arrayOf_eq_nil_iff hlen]
      simp [hb]
    rw [connectedEntries_of_ne_nil hother, if_pos hb]
    rfl
  · have hother : arrayOf (!b) (b :: js) own = [] := by
      rw [arrayOf_eq_nil_iff hlen]
      simp [hb]
    rw [hother, if_neg hb]
    rfl

/-- A list has the document of its one clause, or arrays for its connectives. -/
theorem render_assemble_cases (hlen : cs.length = ps.length)
    (hn : ∀ c ∈ cs, Clause.Normal c.clauses)
    (h : (assemble (disjunctive ps) cs).render = .ok es) :
    (∃ c, cs = [c] ∧ c.render = .ok es) ∨ ∃ own, RenderAs cs own ∧
      es = (joining ps).eraseDups.map fun b =>
        (connectiveKey b, .list ((arrayOf b (joining ps) own).map .map)) := by
  have hr := (exists_render_assemble_iff hlen hn).mp ⟨es, h⟩
  obtain ⟨own, hown⟩ := exists_forall₂ hr
  match ps, cs with
  | [], [] =>
    obtain rfl : [] = es := by
      simpa [assemble, Clause.render_document, Clause.renderOnto] using h
    exact .inr ⟨[], .nil, rfl⟩
  | [p], [c] =>
    -- a disjunctive predicate stays in an array even where it is alone
    have hd : disjunctive [p] = [p.isOr] := rfl
    rw [hd] at h
    cases hor : p.isOr with
    | false =>
      rw [hor, assemble_single_and (hn c (by simp)), Clause.render_document_clauses] at h
      exact .inl ⟨c, rfl, h⟩
    | true =>
      rw [hor, assemble_single_or, Clause.render_document_single] at h
      obtain ⟨docs, hdocs, rfl⟩ := Clause.render_under_eq_ok_iff.mp h
      obtain rfl := eq_of_renderAs hown hdocs
      have hj : joining [p] = [true] := by rw [← disjunctive_eq_joining, hd, hor]
      refine .inr ⟨own, hown, ?_⟩
      obtain ⟨d, _, -, hnil, rfl⟩ := List.forall₂_cons_left_iff.mp hown
      obtain rfl := List.forall₂_nil_left_iff.mp hnil
      rw [hj]
      rfl
  | p :: q :: ps, c :: c' :: cs =>
    rw [assemble_eq_gathered (by simp), disjunctive_eq_joining] at h
    generalize hj : joining (p :: q :: ps) = js at h ⊢
    have hjs : js.length = own.length := by
      rw [← hj, length_joining, ← hlen, hown.length_eq]
    cases js with
    | nil => simp [← hown.length_eq] at hjs
    | cons b js =>
      have hfirst : (((b :: js).zip (c :: c' :: cs)).head?.map (·.1)).getD false = b := rfl
      obtain ⟨docs, docs', hdocs, hdocs', rfl⟩ := (render_gathered_eq_ok_iff hfirst).mp h
      obtain rfl := eq_of_renderAs (renderAs_arrayOf hown b _) hdocs
      obtain rfl := eq_of_renderAs (renderAs_arrayOf hown (!b) _) hdocs'
      exact .inr ⟨own, hown, connectedEntries_append hjs⟩

/-! ### No empty array -/

variable {Own : Entries → Prop}

theorem mem_of_mem_arrayOf (h : d ∈ arrayOf b js own) : d ∈ own := by
  simp only [arrayOf, List.mem_map, List.mem_filter] at h
  obtain ⟨⟨j, d'⟩, ⟨hmem, -⟩, rfl⟩ := h
  exact (List.of_mem_zip hmem).2

theorem exists_clause_of_renderAs (h : RenderAs cs own) (hd : d ∈ own) :
    ∃ c ∈ cs, c.render = .ok d := by
  induction h with
  | nil => simp at hd
  | @cons c d' cs own hcd _ ih =>
    rcases List.mem_cons.mp hd with rfl | hd
    · exact ⟨c, by simp, hcd⟩
    · obtain ⟨c', hc', hr⟩ := ih hd
      exact ⟨c', by simp [hc'], hr⟩

theorem noEmptyArray_assemble (hlen : cs.length = ps.length)
    (hn : ∀ c ∈ cs, Clause.Normal c.clauses)
    (hcs : ∀ c ∈ cs, ∀ d, c.render = .ok d → NoEmptyArray Own d)
    (h : (assemble (disjunctive ps) cs).render = .ok es) : NoEmptyArray Own es := by
  rcases render_assemble_cases hlen hn h with ⟨c, rfl, hc⟩ | ⟨own, hown, rfl⟩
  · exact hcs c (by simp) es hc
  · have hjs : (joining ps).length = own.length := by
      rw [length_joining, ← hlen, hown.length_eq]
    let arrays := (joining ps).eraseDups.map fun b => (b, arrayOf b (joining ps) own)
    suffices NoEmptyArray Own
        (arrays.map fun a => (connectiveKey a.1, .list (a.2.map .map))) by
      simpa [arrays, List.map_map, Function.comp_def] using this
    refine .arrays arrays ?_ ?_
    · intro a ha hnil
      obtain ⟨b, hb, rfl⟩ := List.mem_map.mp ha
      exact (arrayOf_eq_nil_iff hjs).mp hnil (List.mem_eraseDups.mp hb)
    · intro a ha d hd
      obtain ⟨b, -, rfl⟩ := List.mem_map.mp ha
      obtain ⟨c, hc, hr⟩ := exists_clause_of_renderAs hown (mem_of_mem_arrayOf hd)
      exact hcs c hc d hr

theorem noEmptyArray_testsColumn {column : Value} (hc : TestsColumn column c)
    (h : c.render = .ok es) (hown : ∀ operand, Own [(column, operand)]) : NoEmptyArray Own es := by
  have htests : ∀ {operators d}, (Clause.tests column operators).render = .ok d → Own d := by
    intro operators d hd
    obtain ⟨-, rfl⟩ := Clause.render_tests_eq_ok_iff.mp hd
    exact hown _
  cases hc with
  | equals v =>
    obtain ⟨-, rfl⟩ := Clause.render_equals_eq_ok_iff.mp h
    exact .own (hown v)
  | tests operators => exact .own (htests h)
  | outside low high =>
    have h : (Clause.under true _).render = .ok es := h
    obtain ⟨_, _ | ⟨hlow, _ | ⟨hhigh, ⟨⟩⟩⟩, rfl⟩ := Clause.render_under_eq_ok_iff.mp h
    refine .arrays [(true, [_, _])] (by simp) ?_
    intro a ha d hd
    obtain rfl := List.mem_singleton.mp ha
    rcases List.mem_cons.mp hd with rfl | hd
    · exact .own (htests hlow)
    · exact .own (List.mem_singleton.mp hd ▸ htests hhigh)

/-- By induction on the tree: a group passes on what its predicates have. -/
theorem noEmptyArray_of_clause : ∀ p : Predicate, (∀ q ∈ p.preorder, ∀ d, q.OwnDocument d → Own d) →
    ∀ c d, p.clause = .ok c → c.render = .ok d → NoEmptyArray Own d := by
  refine of_groups fun p ih hown c d hc hd => ?_
  obtain ⟨kind, q, hk, hq, hqc⟩ := clause_eq_ok_iff.mp hc
  by_cases hkind : kind = .nested
  · subst hkind
    obtain ⟨cs, hcs, rfl⟩ := map_eq_ok_iff.mp hqc
    refine noEmptyArray_assemble (length_of_clauses hcs) (normal_of_clauses hcs) ?_ hd
    intro c hc d hd
    obtain ⟨g, hg, hgc⟩ := exists_clause_of_mem hcs hc
    refine ih g hg (fun q hq => hown q ?_) c d hgc hd
    exact mem_preorder_of_group hk (mem_preorderAll_iff.mpr ⟨g, hg, hq⟩)
  · have hself := hown p (self_mem_preorder p)
    rcases clauseOfKind_cases hkind hqc with ⟨hcol, ht⟩ | ⟨rfl, rfl⟩
    · rw [column_of_canonical hq] at ht
      exact noEmptyArray_testsColumn ht hd fun operand =>
        hself _ (.inr ⟨kind, hk, hcol, operand, rfl⟩)
    · refine .own (hself d (.inl ⟨hk, ?_⟩))
      obtain ⟨-, _, _, _, _, _, -, -, -, -, -, rfl⟩ := canonical_eq_ok_iff.mp hq
      rw [Clause.render] at hd
      exact hd

end Predicate

open Predicate

/-- In the filter document of two or more predicates each connective has the array of the documents
that its predicates have alone; nowhere but in operands and raw documents is there an empty one. -/
theorem compileFilter_eq_arrays {ps : List Predicate} {doc : Entries}
    (h : compileFilter ps = .ok doc) :
    (2 ≤ ps.length → ∃ own,
      List.Forall₂ (fun p d => compileFilter [p.conjunctive] = .ok d) ps own ∧
        doc = (joining ps).eraseDups.map fun b =>
          (connectiveKey b, .list ((arrayOf b (joining ps) own).map .map))) ∧
      NoEmptyArray (fun d => ∃ p ∈ preorderAll ps, p.OwnDocument d) doc := by
  obtain ⟨cs, hcs, hd⟩ := compileFilter_eq_ok_iff.mp h
  have hlen := length_of_clauses hcs
  have hn := normal_of_clauses hcs
  constructor
  · intro htwo
    rcases render_assemble_cases hlen hn hd with ⟨c, rfl, -⟩ | ⟨own, hown, hdoc⟩
    · simp at hlen; omega
    · exact ⟨own, compileFilter_conjunctive_of_clauses hcs hown, hdoc⟩
  · refine noEmptyArray_assemble hlen hn ?_ hd
    intro c hc d hd
    obtain ⟨p, hp, hpc⟩ := exists_clause_of_mem hcs hc
    refine noEmptyArray_of_clause p ?_ c d hpc hd
    exact fun q hq d hd => ⟨q, mem_preorderAll_iff.mpr ⟨p, hp, hq⟩, hd⟩

/-- Three tests of one column, and a group between them. -/
theorem compileFilter_eq_arrays_same_column :
    let a := Value.text "a"
    let b := Value.text "b"
    let ps := [.basic a (.text ">") (.int 1), .basic a (.text "<") (.int 9),
      .nested [.basic b (.text "=") (.int 1), .isNull b byOr], .basic a (.text "!=") (.int 5) byOr]
    let doc : Entries := [(.text "$and", .list [.map [(a, .map [(.text "$gt", .int 1)])],
        .map [(a, .map [(.text "$lt", .int 9)])],
        .map [(.text "$or", .list [.map [(b, .int 1)], .map [(b, .null)]])]]),
      (.text "$or", .list [.map [(a, .map [(.text "$ne", .int 5)])]])]
    compileFilter ps = .ok doc ∧ 2 ≤ ps.length ∧
      (∃ own, List.Forall₂ (fun p d => compileFilter [p.conjunctive] = .ok d) ps own ∧
        doc = (joining ps).eraseDups.map fun b =>
          (connectiveKey b, .list ((arrayOf b (joining ps) own).map .map))) ∧
      NoEmptyArray (fun d => ∃ p ∈ preorderAll ps, p.OwnDocument d) doc := by
  intro a b ps doc
  have h : compileFilter ps = .ok doc := rfl
  obtain ⟨harrays, hfilled⟩ := compileFilter_eq_arrays h
  exact ⟨h, by decide, harrays (by decide), hfilled⟩

end DocQuery
