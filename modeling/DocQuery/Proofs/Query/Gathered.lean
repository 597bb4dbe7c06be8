import DocQuery.Proofs.Predicate.Checks
import DocQuery.Proofs.Predicate.Malformed
import DocQuery.Proofs.Query.Frame

/-!
# The predicates that a query gathers

Every predicate of a query that steps lead to was made by one of the steps' own constructors
(`Predicate.Made`, `Query.Reachable.gathered`). Such predicates have a filter document wherever they
have clauses, so that the filter cannot be had only where a predicate of the tree does not pass its
check, and no predicate that is added later brings it back (`Query.Gathered.filter_of_error`).
-/

namespace DocQuery

namespace Predicate

/-- The predicate is as steps make it: where its kind needs no column it has none, and a raw
document is a mapping. -/
structure Made (p : Predicate) : Prop where
  column : (∃ k, p.HasKind k ∧ k.hasColumn = true) ∨ p.column = .null
  document : p.HasKind .raw → ∃ es, p.document = .map es

variable {p : Predicate} {ps qs : List Predicate} {column : Value} {e : Fault}

theorem isText_of_isIdColumn {isId : Bool} (h : isIdColumn column = .ok isId)
    (hc : column.truthy = true) : column.isText = true := by
  unfold isIdColumn at h
  rw [hc] at h
  cases column with
  | text | member => rfl
  | _ => exact nomatch h

/-- The check of a predicate looks at its column. -/
theorem Made.renders_of_check (hp : p.Made) (hc : p.check = .ok ()) : p.Renders := by
  refine ⟨?_, fun hraw => .inr (hp.document hraw)⟩
  rcases hp.column with ⟨k, hk, hcol⟩ | hnull
  · obtain ⟨k', hk', hc⟩ := bind_eq_ok_iff.mp hc
    obtain rfl := hk.unique (kind?_eq_ok_iff.mp hk')
    obtain ⟨q, hq, -⟩ := bind_eq_ok_iff.mp hc
    obtain ⟨hthere, _, isId, _, _, _, -, hid, -⟩ := canonical_eq_ok_iff.mp hq
    refine .inr (isText_of_isIdColumn hid ?_)
    simpa [hcol] using hthere
  · exact .inl hnull

theorem preorderAll_append (ps qs : List Predicate) :
    preorderAll (ps ++ qs) = preorderAll ps ++ preorderAll qs := by
  induction ps with
  | nil => rfl
  | cons p ps ih => rw [List.cons_append, preorderAll, ih, preorderAll, List.append_assoc]

theorem clauses_append_of_error (h : clauses ps = .error e) (qs : List Predicate) :
    clauses (ps ++ qs) = .error e := by
  obtain ⟨before, p, after, htree, hbefore, hp⟩ := clauses_eq_error_iff.mp h
  refine clauses_eq_error_iff.mpr ⟨before, p, after ++ preorderAll qs, ?_, hbefore, hp⟩
  rw [preorderAll_append, htree, List.append_assoc, List.cons_append]

theorem compileFilter_eq_error_iff_clauses (h : ∀ p ∈ preorderAll ps, p.Made) :
    compileFilter ps = .error e ↔ clauses ps = .error e := by
  refine ⟨fun he => ?_, compileFilter_of_clauses⟩
  cases hcs : clauses ps with
  | error e' =>
    exact congrArg Except.error (Except.error.inj ((compileFilter_of_clauses hcs).symm.trans he))
  | ok cs =>
    have hchecks := exists_clauses_iff.mp ⟨cs, hcs⟩
    obtain ⟨es, hes⟩ := exists_compileFilter
      (fun p hp => (h p hp).renders_of_check (hchecks p hp)) hcs
    exact nomatch hes.symm.trans he

/-- All that a predicate leads to is made as steps make it. -/
def TreeMade (p : Predicate) : Prop :=
  ∀ g ∈ p.preorder, g.Made

theorem Made.treeMade (hp : p.Made) (hne : p.kind? ≠ .ok .nested) : p.TreeMade := by
  rw [TreeMade, preorder_of_ne_nested hne]
  intro g hg
  exact List.mem_singleton.mp hg ▸ hp

theorem treeMade_of_column {k : Kind} (hk : p.HasKind k) (hcol : k.hasColumn = true) :
    p.TreeMade := by
  have hother : ∀ l, l.hasColumn = false → ¬ p.HasKind l := by
    rintro l hl h
    rw [h.unique hk, hcol] at hl
    exact nomatch hl
  exact Made.treeMade ⟨.inl ⟨k, hk, hcol⟩, fun hraw => absurd hraw (hother .raw rfl)⟩
    (mt kind?_eq_ok_iff.mp (hother .nested rfl))

theorem treeMade_raw (es : Entries) (connective : Value) :
    (raw (.map es) connective).TreeMade := by
  have hraw : (raw (.map es) connective).HasKind .raw := rfl
  refine Made.treeMade ⟨.inr rfl, fun _ => ⟨es, rfl⟩⟩ fun hnested => ?_
  exact nomatch hraw.unique (kind?_eq_ok_iff.mp hnested)

theorem treeMade_nested (h : ∀ p ∈ preorderAll ps, p.Made) (connective : Value) :
    (nested ps connective).TreeMade := by
  have hnested : (nested ps connective).kind? = .ok .nested := rfl
  rw [TreeMade, preorder_of_nested hnested, List.forall_mem_cons]
  exact ⟨⟨.inr rfl, fun hraw => nomatch hraw.unique (kind?_eq_ok_iff.mp hnested)⟩, h⟩

theorem forall_made_iff : (∀ p ∈ preorderAll ps, p.Made) ↔ ∀ p ∈ ps, p.TreeMade := by
  simp only [mem_preorderAll_iff, TreeMade]
  exact ⟨fun h p hp g hg => h g ⟨p, hp, hg⟩, fun h g ⟨p, hp, hg⟩ => h p hp g hg⟩

theorem treeMade_testPredicate (column operator value connective : Value) :
    (Query.testPredicate column operator value connective).TreeMade := by
  unfold Query.testPredicate
  split <;> exact treeMade_of_column (k := .basic) rfl rfl

theorem forall_made_entryTests (es : Entries) :
    ∀ p ∈ preorderAll (Query.entryTests es), p.Made := by
  refine forall_made_iff.mpr fun p hp => ?_
  obtain ⟨e, -, rfl⟩ := List.mem_map.mp hp
  exact treeMade_testPredicate _ _ _ _

theorem treeMade_isNull (column connective : Value) (negated : Bool) :
    (isNull column connective negated).TreeMade := by
  cases negated
  · exact treeMade_of_column (k := .null) rfl rfl
  · exact treeMade_of_column (k := .notNull) rfl rfl

theorem treeMade_among {values connective : Value} {negated : Bool}
    (h : among column values connective negated = .ok p) : p.TreeMade := by
  obtain ⟨vs, -, h⟩ := bind_eq_ok_iff.mp h
  obtain rfl := pure_eq_ok_iff.mp h
  cases negated
  · exact treeMade_of_column (k := .among) rfl rfl
  · exact treeMade_of_column (k := .notAmong) rfl rfl

theorem treeMade_between {values connective negated : Value}
    (h : between column values connective negated = .ok p) : p.TreeMade := by
  obtain ⟨vs, -, h⟩ := bind_eq_ok_iff.mp h
  obtain rfl := pure_eq_ok_iff.mp h
  exact treeMade_of_column (k := .between) rfl rfl

theorem treeMade_guardOf (column : Value) : (Increment.guardOf column).TreeMade := by
  refine treeMade_nested (forall_made_iff.mpr ?_) _
  rw [List.forall_mem_cons, List.forall_mem_singleton]
  exact ⟨treeMade_of_column (k := .basic) rfl rfl, treeMade_isNull column byOr true⟩

end Predicate

namespace Query

open Predicate

variable {q : Query} {p : Predicate} {ps : List Predicate} {e : Fault}

/-- Every predicate of the query was made by a step. -/
def Gathered (q : Query) : Prop :=
  ∀ p ∈ preorderAll q.predicates, p.Made

namespace Gathered

theorem fresh (q : Query) : q.fresh.Gathered := by
  simp [Gathered, Query.fresh, preorderAll]

theorem addPredicate (h : q.Gathered) (hp : p.TreeMade) : (q.addPredicate p).Gathered := by
  have hq := forall_made_iff.mp h
  refine forall_made_iff.mpr fun g hg => ?_
  rcases List.mem_append.mp hg with hg | hg
  · exact hq g hg
  · exact List.mem_singleton.mp hg ▸ hp

theorem addGroup (h : q.Gathered) (hps : ∀ p ∈ preorderAll ps, p.Made) (connective : Value) :
    (q.addGroup ps connective).Gathered := by
  unfold Query.addGroup
  split
  · exact h
  · exact h.addPredicate (treeMade_nested hps connective)

/-- A predicate that may not come about is added only where it does. -/
theorem addIfMade {x : Except Fault Predicate} (h : q.Gathered)
    (hx : ∀ p, x = .ok p → p.TreeMade) :
    (Refined.ofExcept q (do pure (q.addPredicate (← x)))).query.Gathered := by
  refine Refined.query_ofExcept h fun q' hq' => ?_
  obtain ⟨p, hp, hq'⟩ := bind_eq_ok_iff.mp hq'
  obtain rfl := pure_eq_ok_iff.mp hq'
  exact h.addPredicate (hx p hp)

theorem skip {count : Value} {q' : Query} (h : q.Gathered) (hs : q.skip count = .ok q') :
    q'.Gathered := by
  obtain ⟨v, -, hs⟩ := bind_eq_ok_iff.mp hs
  exact pure_eq_ok_iff.mp hs ▸ h

theorem take {count : Value} {q' : Query} (h : q.Gathered) (ht : q.take count = .ok q') :
    q'.Gathered := by
  unfold Gathered
  rw [predicates_of_take ht]
  exact h

theorem page (h : q.Gathered) (number perPage : Value) :
    (q.page number perPage).query.Gathered := by
  have hpaged : Gathered { q with paginating := true } := h
  refine Refined.query_ofExcept hpaged fun q' hq' => ?_
  obtain ⟨offset, -, hq'⟩ := bind_eq_ok_iff.mp hq'
  obtain ⟨skipped, hskip, htake⟩ := bind_eq_ok_iff.mp hq'
  exact (hpaged.skip hskip).take htake

mutual

/-- By recursion on the refinement: a group gathers on a fresh query. -/
theorem apply : ∀ (change : Refinement) {q : Query}, q.Gathered → (change.apply q).query.Gathered
  | .group steps connective, q, h => by
    have hinner := applyAll steps (fresh q)
    rw [Refinement.apply]
    split
    · exact h
    · exact h.addGroup hinner connective
  | .test column operator value connective, q, h => by
    cases column with
    | map es => exact h.addGroup (forall_made_entryTests es) connective
    | _ => exact h.addPredicate (treeMade_testPredicate _ _ _ _)
  | .among .., q, h => h.addIfMade fun _ => treeMade_among
  | .between .., q, h => h.addIfMade fun _ => treeMade_between
  | .null .., q, h => h.addPredicate (treeMade_isNull _ _ _)
  | .raw .., q, h => Refined.query_ofExcept_bind h fun es => h.addPredicate (treeMade_raw es _)
  | .select .., q, h | .options .., q, h => Refined.query_ofExcept_bind h fun _ => h
  | .project .., q, h => by
    refine Refined.query_ofExcept h fun q' hq' => ?_
    obtain ⟨es, rfl⟩ := exists_of_project hq'
    exact h
  | .orderBy .., q, h => by
    refine Refined.query_ofExcept h fun q' hq' => ?_
    obtain ⟨-, -, hq'⟩ := bind_eq_ok_iff.mp hq'
    exact pure_eq_ok_iff.mp hq' ▸ h
  | .skip count, q, h => Refined.query_ofExcept h fun _ hq' => h.skip hq'
  | .take count, q, h => Refined.query_ofExcept h fun _ hq' => h.take hq'
  | .page number perPage, q, h => h.page number perPage
  | .timeout _, q, h | .distinct _, q, h | .groupBy _, q, h | .groupFrom _, q, h | .ask _, q, h => h
termination_by structural change => change

theorem applyAll : ∀ (changes : List Refinement) {q : Query}, q.Gathered →
    (Refinement.applyAll changes q).query.Gathered
  | [], q, h => h
  | change :: changes, q, h => by
    have hfirst := apply change h
    rw [Refinement.applyAll]
    split
    · exact hfirst
    · exact applyAll changes hfirst
termination_by structural changes => changes

end

/-! ### Sessions -/

theorem leaves (h : q.Gathered) (what : Read) : (what.leaves q).Gathered := by
  cases what with
  | first | value | any => exact h
  | find id columns => exact h.addPredicate (treeMade_testPredicate _ _ _ _)
  | get | pluck | aggregate | count => exact h

end Gathered

/-- What a write adds is the guard of a column or the predicate of an identifier. -/
theorem added_cases {w : Write} (h : w.added? = some p) :
    (∃ column, p = Increment.guardOf column) ∨ ∃ id, p = idPredicate id := by
  cases w with
  | increment column amount extra options =>
    obtain ⟨i, hi, rfl⟩ := Write.exists_of_guard h
    exact .inl ⟨column, guard_of_add hi⟩
  | decrement column amount extra options =>
    obtain ⟨i, hi, rfl⟩ := Write.exists_of_guard h
    exact .inl ⟨column, guard_of_subtract hi⟩
  | delete id =>
    rw [Write.added?] at h
    split at h
    · simp at h
    · exact .inr ⟨id, (Option.some.inj h).symm⟩
  | _ => simp [Write.added?] at h

theorem Gathered.after (h : q.Gathered) (w : Write) : (w.after q).Gathered := by
  cases hp : w.added? with
  | none => exact Write.after_of_none hp ▸ h
  | some p =>
    rw [Write.after_of_some hp]
    rcases added_cases hp with ⟨column, rfl⟩ | ⟨id, rfl⟩
    · exact h.addPredicate (treeMade_guardOf column)
    · exact h.addPredicate (treeMade_testPredicate _ _ _ _)

theorem Reachable.gathered (h : q.Reachable) : q.Gathered := by
  induction h with
  | start collection database => exact Gathered.fresh { collection, database }
  | @step q hq step r ih =>
    cases step with
    | refine change =>
      rw [Step.run_refine]
      exact ih.apply change
    | inspect question =>
      have hkeeps : Run.Keeps (Run.Upholds Gathered fun _ => True)
          ((Step.inspect question).action r) :=
        keeps_inspect (fun q _ => Gathered.fresh q) question
      exact (Step.session_of_triple hkeeps (Run.upholds_start ih)).1
    | read what =>
      rw [Read.subject_run hq.settled.aggregate_eq]
      exact ih.leaves what
    | write what =>
      rw [Step.subject_write]
      exact ih.after what

/-- A query without a filter has none after a further predicate, and for the same fault. -/
theorem Gathered.filter_of_error (h : q.Gathered) (he : q.filter = .error e) (p : Predicate) :
    (q.addPredicate p).filter = .error e :=
  compileFilter_of_clauses (clauses_append_of_error
    ((compileFilter_eq_error_iff_clauses h).mp he) [p])

end Query

end DocQuery
