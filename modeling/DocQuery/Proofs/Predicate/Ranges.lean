import DocQuery.Proofs.Predicate.Checks
import DocQuery.Proofs.Predicate.Operands

/-!
# Range tests of other operands

That the operand of a range is a list of two values is checked after the operand has been listed.
`rejected_range` says what becomes of an operand that the check refuses as it is: one that lists two
values, such as a text of two characters or a mapping of two entries, is compiled as the range of
these, and every other one has one of the faults of `Predicate.RangeFault`.
-/

namespace DocQuery

namespace Predicate

/-- A range test with a column, in which nothing but the listed operands can be refused. -/
structure IsRange (p : Predicate) : Prop where
  kind : p.HasKind .between
  column : p.column.isText = true
  column_truthy : p.column.truthy = true
  operator : p.operator = .null ∨ p.operator.isText = true
  value : p.value.HasInstant

/-- The operand lists two values, in whatever kind of collection. -/
def ListsTwo (p : Predicate) (low high : Value) : Prop :=
  p.values.items = .ok [low, high] ∧ low.HasInstant ∧ high.HasInstant

/-- What a range test is refused for: its operand as it is, one that cannot be listed, one that
lists a time without an instant, or a list that is not of two values. -/
inductive RangeFault (p : Predicate) : Fault → Prop
  | unlisted (h : ¬ p.IsListed) :
      RangeFault p (Malformed.badBounds p.negated.truthy p.values).fault
  | notIterable (h : p.IsListed) (hitems : ∀ vs, p.values.items ≠ .ok vs) : RangeFault p .wrongType
  | noInstant (h : p.IsListed) (vs : List Value) (hitems : p.values.items = .ok vs)
      (hvs : ¬ ∀ v ∈ vs, v.HasInstant) : RangeFault p .outOfRange
  | length (h : p.IsListed) (vs ws : List Value) (hitems : p.values.items = .ok vs)
      (hvs : ∀ v ∈ vs, v.HasInstant) (hws : ws.length = vs.length) (hlen : vs.length ≠ 2) :
      RangeFault p (Malformed.badBounds p.negated.truthy (.list ws)).fault

variable {p q : Predicate} {ps before after : List Predicate} {isId : Bool} {vs : List Value}
  {v low high : Value} {fault : Fault}

theorem IsRange.clause_eq (hp : p.IsRange) (hid : isIdColumn p.column = .ok isId) :
    p.clause = p.canonicalValues isId >>= fun v => rangeClause p.column v p.negated.truthy := by
  have hcol : (Kind.between.hasColumn && !p.column.truthy) = false := by
    rw [hp.column_truthy]
    rfl
  obtain ⟨o, ho, -⟩ := exists_canonicalOperator hp.operator
  obtain ⟨w, hw⟩ := exists_operandForm hp.value (isId && p.values.isNull)
  rw [Predicate.clause_eq, kind?_eq_ok_iff.mpr hp.kind]
  show (p.canonical .between >>= fun q => q.clauseOfKind _ .between) = _
  rw [canonical_of_value hcol ho hid hw]
  cases p.canonicalValues isId <;> rfl

theorem IsRange.check_eq (hp : p.IsRange) (hid : isIdColumn p.column = .ok isId) :
    p.check =
      discard (p.canonicalValues isId >>= fun v => rangeClause p.column v p.negated.truthy) := by
  have hne : p.kind? ≠ .ok .nested := fun hk =>
    nomatch hp.kind.unique (kind?_eq_ok_iff.mp hk)
  rw [check_of_ne_nested hne, hp.clause_eq hid]

theorem bounds?_of_rejected {column : Value} {negated : Bool}
    (h : rangeClause column v negated = .error fault) :
    bounds? v = none ∧ fault = (Malformed.badBounds negated v).fault := by
  rw [rangeClause] at h
  split at h
  · next hb => exact ⟨hb, (Except.error.inj h).symm⟩
  · split at h <;> cases h

theorem ListsTwo.isListed (h : p.ListsTwo low high) : p.IsListed :=
  .inl (Value.truthy_of_items h.1 (by simp))

/-- The predicate with another operand. -/
def withValues (p : Predicate) (values : Value) : Predicate :=
  { p with values }

theorem IsRange.withValues (hp : p.IsRange) (values : Value) : (p.withValues values).IsRange :=
  ⟨hp.kind, hp.column, hp.column_truthy, hp.operator, hp.value⟩

/-- Two listed values are the ends of the range, whatever collection lists them. -/
theorem IsRange.clause_withValues (hp : p.IsRange) (h : p.ListsTwo low high) :
    p.clause = (p.withValues (.list [low, high])).clause := by
  obtain ⟨isId, hid⟩ := exists_isIdColumn (.inr hp.column)
  have hlist : (p.withValues (.list [low, high])).values.items = .ok [low, high] := rfl
  rw [hp.clause_eq hid, (hp.withValues _).clause_eq hid,
    canonicalValues_of_items hid h.isListed h.1,
    canonicalValues_of_items (p := p.withValues _) hid (.inl rfl) hlist]
  rfl

theorem IsRange.check_of_listsTwo (hp : p.IsRange) (h : p.ListsTwo low high) :
    p.check = .ok () := by
  obtain ⟨isId, hid⟩ := exists_isIdColumn (.inr hp.column)
  have hlisted := h.isListed
  obtain ⟨hitems, hlow, hhigh⟩ := h
  obtain ⟨low', hlow'⟩ := exists_operandForm hlow isId
  obtain ⟨high', hhigh'⟩ := exists_operandForm hhigh isId
  have hends : [low, high].mapM (operandForm isId) = .ok [low', high'] :=
    mapM_cons_eq_ok_iff.mpr ⟨low', [high'], hlow', mapM_cons_eq_ok_iff.mpr
      ⟨high', [], hhigh', rfl, rfl⟩, rfl⟩
  rw [hp.check_eq hid, discard_eq_ok_iff, canonicalValues_of_items hid hlisted hitems, hends]
  show ∃ c, rangeClause p.column (.list [low', high']) p.negated.truthy = .ok c
  cases hn : p.negated.truthy <;> exact ⟨_, rfl⟩

/-- By whether the operand is listed, whether it can be, and what it lists. -/
theorem IsRange.exists_rangeFault (hp : p.IsRange) (hb : bounds? p.values = none)
    (h : ¬ ∃ low high, p.ListsTwo low high) :
    ∃ fault, p.RangeFault fault ∧ p.check = .error fault := by
  obtain ⟨isId, hid⟩ := exists_isIdColumn (.inr hp.column)
  simp only [hp.check_eq hid, discard_eq_error_iff]
  by_cases hlisted : p.IsListed
  · cases hitems : p.values.items with
    | error fault =>
      obtain rfl := Value.items_eq_error hitems
      refine ⟨_, .notIterable hlisted (by simp [hitems]), ?_⟩
      rw [canonicalValues_of_isListed hid hlisted, hitems]
      rfl
    | ok vs =>
      rw [canonicalValues_of_items hid hlisted hitems]
      by_cases hvs : ∀ v ∈ vs, v.HasInstant
      · obtain ⟨ws, hws, hlen⟩ := exists_mapM fun v hv => exists_operandForm (hvs v hv) isId
        have htwo : vs.length ≠ 2 := by
          intro htwo
          obtain ⟨low, high, rfl⟩ := List.length_eq_two.mp htwo
          exact h ⟨low, high, hitems, hvs low (by simp), hvs high (by simp)⟩
        refine ⟨_, .length hlisted vs ws hitems hvs hlen htwo, ?_⟩
        rw [hws]
        show rangeClause p.column (.list ws) p.negated.truthy = _
        rw [rangeClause, bounds?_of_length_ne (hlen ▸ htwo)]
        rfl
      · refine ⟨_, .noInstant hlisted vs hitems hvs, ?_⟩
        rw [mapM_operandForm_eq_error_iff.mpr ⟨hvs, rfl⟩]
        rfl
  · refine ⟨_, .unlisted hlisted, ?_⟩
    rw [canonicalValues_of_not_isListed hid hlisted]
    show rangeClause p.column p.values p.negated.truthy = _
    rw [rangeClause, hb]
    rfl

end Predicate

open Predicate

/-- What becomes of a range test anywhere in a tree whose operand the check refuses as it is. If the
operand lists two values, the test is that of their range, and the list is compiled if its other
predicates can be; if it does not, the list is refused, unless it is for a predicate before. What is
malformed is refused as such, as long as the text of this error can be written. -/
theorem rejected_range {ps before after : List Predicate} {p : Predicate} {fault : Fault}
    (htree : preorderAll ps = before ++ p :: after) (hp : p.IsRange)
    (hrejected : rangeClause p.column p.values p.negated.truthy = .error fault) :
    fault = (Malformed.badBounds p.negated.truthy p.values).fault ∧
      (∀ m : Malformed, m.fault = if m.isWritable then .malformed m else .badValue) ∧
      (∀ low high, p.ListsTwo low high →
        p.clause = (p.withValues (.list [low, high])).clause ∧
          ((∀ q ∈ before ++ after, q.check = .ok () ∧ q.Renders) →
            ∃ doc, compileFilter ps = .ok doc)) ∧
      ((¬ ∃ low high, p.ListsTwo low high) →
        (∀ doc, compileFilter ps ≠ .ok doc) ∧
          ∃ found, p.RangeFault found ∧
            ((∀ q ∈ before, q.check = .ok ()) → compileFilter ps = .error found)) := by
  obtain ⟨hb, rfl⟩ := bounds?_of_rejected hrejected
  refine ⟨rfl, Malformed.fault_eq,
    fun low high h => ⟨hp.clause_withValues h, fun hrest => ?_⟩, fun h => ?_⟩
  · have hself : p.check = .ok () ∧ p.Renders :=
      ⟨hp.check_of_listsTwo h, .inr hp.column, fun hraw => nomatch hp.kind.unique hraw⟩
    have hall : ∀ q ∈ preorderAll ps, q.check = .ok () ∧ q.Renders := by
      intro q hq
      rw [htree, List.mem_append, List.mem_cons] at hq
      rcases hq with hq | rfl | hq
      · exact hrest q (List.mem_append_left _ hq)
      · exact hself
      · exact hrest q (List.mem_append_right _ hq)
    obtain ⟨cs, hcs⟩ := exists_clauses_iff.mpr fun q hq => (hall q hq).1
    exact exists_compileFilter (fun q hq => (hall q hq).2) hcs
  · obtain ⟨found, hfound, hcheck⟩ := hp.exists_rangeFault hb h
    refine ⟨fun doc hdoc => ?_, found, hfound, fun hbefore =>
      compileFilter_of_first htree hbefore hcheck⟩
    obtain ⟨cs, hcs, -⟩ := compileFilter_eq_ok_iff.mp hdoc
    have hok := exists_clauses_iff.mp ⟨cs, hcs⟩ p (by simp [htree])
    exact nomatch hok.symm.trans hcheck

/-- A mapping of two entries in a group is the range of its keys, and a number in its place is not
even refused as malformed. -/
theorem rejected_range_mapping :
    let range (values : Value) : Predicate := { ofKind .between byOr with
      column := .text "age", values, negated := .bool true }
    let mapping := Value.map [(.int 18, .null), (.int 65, .null)]
    let list (values : Value) := [basic (.text "a") (.text ">") (.int 1), nested [range values]]
    (range mapping).IsRange ∧ (range (.int 5)).IsRange ∧
      rangeClause (.text "age") mapping true = .error (.malformed (.badBounds true mapping)) ∧
      rangeClause (.text "age") (.int 5) true = .error (.malformed (.badBounds true (.int 5))) ∧
      (range mapping).clause = (range (.list [.int 18, .int 65])).clause ∧
      (∃ doc, compileFilter (list mapping) = .ok doc) ∧
      ∃ fault, (range (.int 5)).RangeFault fault ∧
        compileFilter (list (.int 5)) = .error fault := by
  intro range mapping list
  have hrange : ∀ values, (range values).IsRange := fun _ =>
    ⟨rfl, rfl, rfl, .inl rfl, nofun⟩
  have htree : ∀ values, preorderAll (list values) =
      [basic (.text "a") (.text ">") (.int 1), nested [range values]] ++ [range values] :=
    fun _ => rfl
  have hbefore : ∀ values,
      ∀ q ∈ [basic (.text "a") (.text ">") (.int 1), nested [range values]], q.check = .ok () := by
    intro values
    simp only [List.forall_mem_cons]
    exact ⟨rfl, rfl, by simp⟩
  have hrenders : ∀ q ∈ [basic (.text "a") (.text ">") (.int 1), nested [range mapping]] ++ [],
      q.check = .ok () ∧ q.Renders := by
    simp only [List.append_nil, List.forall_mem_cons]
    exact ⟨⟨rfl, .inr rfl, fun _ => .inl rfl⟩, ⟨rfl, .inl rfl, fun _ => .inl rfl⟩, by simp⟩
  have htwo : (range mapping).ListsTwo (.int 18) (.int 65) := ⟨rfl, nofun, nofun⟩
  obtain ⟨-, -, hpair, -⟩ := rejected_range (htree mapping) (hrange mapping) rfl
  obtain ⟨-, -, -, hother⟩ := rejected_range (htree (.int 5)) (hrange (.int 5)) rfl
  obtain ⟨-, found, hfound, herror⟩ := hother (by rintro ⟨low, high, h, -⟩; exact nomatch h)
  exact ⟨hrange _, hrange _, rfl, rfl, (hpair _ _ htwo).1, (hpair _ _ htwo).2 hrenders,
    found, hfound, herror (hbefore _)⟩

/-- The check refuses a text of two characters, but the test of it is compiled. -/
theorem exists_unchecked_range :
    let range : Predicate := { ofKind .between byAnd with
      column := .text "age", values := .text "ab" }
    rangeClause range.column range.values false =
        .error (.malformed (.badBounds false (.text "ab"))) ∧
      compileFilter [range] =
        .ok [(.text "age", .map [(.text "$gte", .text "a"), (.text "$lte", .text "b")])] :=
  ⟨rfl, rfl⟩

end DocQuery
