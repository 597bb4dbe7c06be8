import DocQuery.Predicate.Compile
import DocQuery.Proofs.Fallible

/-!
# Single predicates

What a predicate that can be compiled has gone through: `canonical_eq_ok_iff` takes its canonical
form apart, and `clauseOfKind_cases` says that a predicate which is no group tests its one column or
is raw. A list of predicates has the clauses of its parts (`clauses_append_eq_ok_iff`).
-/

namespace DocQuery

namespace Predicate
variable {p q : Predicate} {c : Clause} {variant : Kind}

/-- A predicate has a canonical form when its column is there and each of its operands has one. -/
theorem canonical_eq_ok_iff :
    p.canonical variant = .ok q ↔
      (variant.hasColumn && !p.column.truthy) = false ∧
        ∃ operator isId identified value values,
          canonicalOperator p.operator = .ok operator ∧ isIdColumn p.column = .ok isId ∧
          p.identifiedValues isId = .ok identified ∧ p.canonicalValue isId = .ok value ∧
          instantValues identified = .ok values ∧ q = { p with operator, value, values } := by
  rw [canonical]
  cases hcol : variant.hasColumn && !p.column.truthy with
  | true =>
    simp only [if_true, bind_eq_ok_iff, throw_ne_ok, false_and, exists_false, Bool.true_eq_false]
  | false =>
    simp only [Bool.false_eq_true, if_false, bind_eq_ok_iff, pure_eq_ok_iff, true_and]
    constructor
    · rintro ⟨o, ho, i, hi, ids, hids, v, hv, vs, hvs, rfl⟩
      exact ⟨o, i, ids, v, vs, ho, hi, hids, hv, hvs, rfl⟩
    · rintro ⟨o, i, ids, v, vs, ho, hi, hids, hv, hvs, rfl⟩
      exact ⟨o, ho, i, hi, ids, hids, v, hv, vs, hvs, rfl⟩

theorem column_of_canonical (h : p.canonical variant = .ok q) : q.column = p.column := by
  obtain ⟨-, _, _, _, _, _, -, -, -, -, -, rfl⟩ := canonical_eq_ok_iff.mp h
  rfl

theorem negated_of_canonical (h : p.canonical variant = .ok q) : q.negated = p.negated := by
  obtain ⟨-, _, _, _, _, _, -, -, -, -, -, rfl⟩ := canonical_eq_ok_iff.mp h
  rfl

theorem clause_eq_ok_iff :
    p.clause = .ok c ↔ ∃ variant q, p.kind? = .ok variant ∧ p.canonical variant = .ok q ∧
      q.clauseOfKind (compile p.group) variant = .ok c := by
  rw [clause_eq]
  show (p.kind? >>= fun variant => p.canonical variant >>= fun q => _) = _ ↔ _
  simp only [bind_eq_ok_iff]
  constructor
  · rintro ⟨variant, hk, q, hq, hc⟩; exact ⟨variant, q, hk, hq, hc⟩
  · rintro ⟨variant, q, hk, hq, hc⟩; exact ⟨variant, hk, q, hq, hc⟩

/-- The clause tests one column. Only what lies outside of a range takes a disjunction. -/
inductive TestsColumn (column : Value) : Clause → Prop
  | equals (v : Value) : TestsColumn column (.equals column v)
  | tests (operators : Entries) : TestsColumn column (.tests column operators)
  | outside (low high : Value) : TestsColumn column
      (.any [testClause column "$lte" low, testClause column "$gte" high])

theorem testsColumn_comparisonClause {column operator value : Value}
    (h : comparisonClause column operator value = .ok c) : TestsColumn column c := by
  rw [comparisonClause] at h
  split at h
  · rw [pure_eq_ok_iff] at h
    exact h ▸ .equals value
  · obtain ⟨-, -, h⟩ := bind_eq_ok_iff.mp h
    split at h
    · rw [pure_eq_ok_iff] at h
      exact h ▸ .tests _
    · obtain ⟨name, -, h⟩ := bind_eq_ok_iff.mp h
      rw [pure_eq_ok_iff] at h
      exact h ▸ .tests _

theorem testsColumn_patternClause {column value : Value} {test : PatternTest}
    (h : patternClause column value test = .ok c) : TestsColumn column c := by
  cases test with
  | like =>
    obtain ⟨pattern, -, h⟩ := bind_eq_ok_iff.mp h
    rw [pure_eq_ok_iff] at h
    exact h ▸ .equals _
  | notLike =>
    obtain ⟨pattern, -, h⟩ := bind_eq_ok_iff.mp h
    rw [pure_eq_ok_iff] at h
    exact h ▸ .tests _
  | regex | notRegex => exact pure_eq_ok_iff.mp h ▸ .tests _

theorem testsColumn_basicClause {column operator value : Value}
    (h : basicClause column operator value = .ok c) : TestsColumn column c := by
  rw [basicClause] at h
  obtain ⟨pattern, hp, h⟩ := bind_eq_ok_iff.mp h
  cases pattern with
  | some d =>
    obtain rfl : d = c := pure_eq_ok_iff.mp h
    rw [patternClause?] at hp
    obtain ⟨-, -, hp⟩ := bind_eq_ok_iff.mp hp
    split at hp
    · obtain ⟨c, hc, hp⟩ := bind_eq_ok_iff.mp hp
      obtain rfl : c = d := Option.some.inj (pure_eq_ok_iff.mp hp)
      exact testsColumn_patternClause hc
    · exact nomatch hp
  | none => exact testsColumn_comparisonClause h

theorem testsColumn_membershipClause {column values : Value} {negated : Bool}
    (h : membershipClause column values negated = .ok c) : TestsColumn column c := by
  rw [membershipClause] at h
  obtain ⟨vs, -, h⟩ := bind_eq_ok_iff.mp h
  rw [pure_eq_ok_iff] at h
  exact h ▸ .tests _

theorem testsColumn_rangeClause {column values : Value} {negated : Bool}
    (h : rangeClause column values negated = .ok c) : TestsColumn column c := by
  rw [rangeClause] at h
  split at h
  · exact absurd h throw_ne_ok
  · split at h <;> rw [pure_eq_ok_iff] at h
    · exact h ▸ .outside _ _
    · exact h ▸ .tests _

/-- A predicate that is no group tests its column or is raw. -/
theorem clauseOfKind_cases {group : Except Fault Clause} (hv : variant ≠ .nested)
    (h : p.clauseOfKind group variant = .ok c) :
    (variant.hasColumn = true ∧ TestsColumn p.column c) ∨
      (variant = .raw ∧ c = .raw p.document) := by
  cases variant with
  | basic | null | notNull => exact .inl ⟨rfl, testsColumn_basicClause h⟩
  | among | notAmong =>
    rw [clauseOfKind] at h
    obtain ⟨vs, -, h⟩ := bind_eq_ok_iff.mp h
    exact .inl ⟨rfl, testsColumn_membershipClause h⟩
  | between => exact .inl ⟨rfl, testsColumn_rangeClause h⟩
  | nested => exact absurd rfl hv
  | raw =>
    rw [clauseOfKind] at h
    split at h
    · exact absurd h throw_ne_ok
    · rw [pure_eq_ok_iff] at h
      exact .inr ⟨rfl, h.symm⟩

theorem clauses_of_clauseOfKind {group : Except Fault Clause} (hv : variant ≠ .nested)
    (h : p.clauseOfKind group variant = .ok c) : c.clauses = [c] := by
  rcases clauseOfKind_cases hv h with ⟨-, ht⟩ | ⟨-, rfl⟩
  · cases ht <;> rfl
  · rfl

/-! ### Lists of predicates -/

variable {ps qs : List Predicate} {cs : List Clause}

theorem clauses_nil_eq_ok_iff : clauses [] = .ok cs ↔ cs = [] := by
  rw [clauses, pure_eq_ok_iff, eq_comm]

theorem clauses_cons_eq_ok_iff :
    clauses (p :: ps) = .ok cs ↔ ∃ c ds, p.clause = .ok c ∧ clauses ps = .ok ds ∧ cs = c :: ds := by
  rw [clauses]
  simp only [bind_eq_ok_iff, pure_eq_ok_iff]
  constructor
  · rintro ⟨c, hc, ds, hds, rfl⟩; exact ⟨c, ds, hc, hds, rfl⟩
  · rintro ⟨c, ds, hc, hds, rfl⟩; exact ⟨c, hc, ds, hds, rfl⟩

theorem clauses_append_eq_ok_iff :
    clauses (ps ++ qs) = .ok cs ↔
      ∃ as bs, clauses ps = .ok as ∧ clauses qs = .ok bs ∧ cs = as ++ bs := by
  induction ps generalizing cs with
  | nil =>
    constructor
    · intro h; exact ⟨[], cs, rfl, h, rfl⟩
    · rintro ⟨as, bs, has, hbs, rfl⟩
      obtain rfl := clauses_nil_eq_ok_iff.mp has
      exact hbs
  | cons p ps ih =>
    rw [List.cons_append, clauses_cons_eq_ok_iff]
    constructor
    · rintro ⟨c, ds, hc, hds, rfl⟩
      obtain ⟨as, bs, has, hbs, rfl⟩ := ih.mp hds
      exact ⟨c :: as, bs, clauses_cons_eq_ok_iff.mpr ⟨c, as, hc, has, rfl⟩, hbs, rfl⟩
    · rintro ⟨_, bs, has, hbs, rfl⟩
      obtain ⟨c, as, hc, htail, rfl⟩ := clauses_cons_eq_ok_iff.mp has
      exact ⟨c, as ++ bs, hc, ih.mpr ⟨as, bs, htail, hbs, rfl⟩, rfl⟩

theorem length_of_clauses (h : clauses ps = .ok cs) : cs.length = ps.length := by
  induction ps generalizing cs with
  | nil =>
    obtain rfl := clauses_nil_eq_ok_iff.mp h
    rfl
  | cons p ps ih =>
    obtain ⟨c, ds, -, hds, rfl⟩ := clauses_cons_eq_ok_iff.mp h
    rw [List.length_cons, ih hds, List.length_cons]

theorem exists_clause_of_mem (h : clauses ps = .ok cs) (hc : c ∈ cs) :
    ∃ p ∈ ps, p.clause = .ok c := by
  induction ps generalizing cs with
  | nil =>
    obtain rfl := clauses_nil_eq_ok_iff.mp h
    simp at hc
  | cons p ps ih =>
    obtain ⟨c', ds, hc', hds, rfl⟩ := clauses_cons_eq_ok_iff.mp h
    rcases List.mem_cons.mp hc with rfl | hc
    · exact ⟨p, by simp, hc'⟩
    · obtain ⟨q, hq, hqc⟩ := ih hds hc
      exact ⟨q, by simp [hq], hqc⟩

end Predicate

end DocQuery
