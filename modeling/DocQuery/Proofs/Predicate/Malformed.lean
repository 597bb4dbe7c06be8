import DocQuery.Proofs.Predicate.Defects
import DocQuery.Proofs.Predicate.Preorder
import DocQuery.Proofs.Text.Numerals

/-!
# Malformed predicates

A list of predicates is compiled exactly when no predicate of its tree is malformed or has a pattern
that cannot be written, and is otherwise refused for the first one that is, in the order in which
`Predicate.preorderAll` lists them (`compileFilter_eq_error_iff`). The proof follows the tree: what
compiles a predicate stands for the predicates of its own tree (`outcome_clause_preorder`).
-/

namespace DocQuery

namespace Predicate

variable {p q : Predicate} {ps : List Predicate} {k : Kind}

/-- Both operands are missing, or both are lists of one length. -/
def SameLength (v w : Value) : Prop :=
  v = .null ∧ w = .null ∨ ∃ vs ws, v = .list vs ∧ w = .list ws ∧ ws.length = vs.length

theorem exists_canonicalOperator {operator : Value}
    (h : operator = .null ∨ operator.isText = true) :
    ∃ o, canonicalOperator operator = .ok o ∧ (o = .null ∨ o.isText = true) := by
  rcases h with rfl | h
  · exact ⟨.null, rfl, .inl rfl⟩
  · cases operator with
    | text s => exact ⟨.text (operatorSpelling s), rfl, .inr rfl⟩
    | member c => exact ⟨.text (operatorSpelling c.text), rfl, .inr rfl⟩
    | _ => simp [Value.isText, Value.text?] at h

theorem exists_isIdColumn {column : Value} (h : column = .null ∨ column.isText = true) :
    ∃ isId, isIdColumn column = .ok isId := by
  rcases h with rfl | h
  · exact ⟨false, rfl⟩
  · cases column with
    | text s =>
      unfold isIdColumn
      split <;> exact ⟨_, rfl⟩
    | member c => exact ⟨_, rfl⟩
    | _ => simp [Value.isText, Value.text?] at h

theorem hasInstant_withIdentifiers {v : Value} (h : v.HasInstant) :
    v.withIdentifiers.HasInstant := by
  cases v with
  | text s =>
    intro t ht
    rw [Value.withIdentifiers] at ht
    split at ht <;> exact nomatch ht
  | list vs | tuple vs =>
    intro t ht
    rw [Value.withIdentifiers] at ht
    exact nomatch ht
  | _ => exact h

theorem exists_asInstant {v : Value} (h : v.HasInstant) : ∃ w, v.asInstant = .ok w := by
  cases v with
  | dateTime t =>
    obtain ⟨hlow, hhigh⟩ := h t rfl
    unfold Value.asInstant
    simp only [DateTime.millis?, hlow, hhigh, and_self, if_true]
    exact ⟨_, rfl⟩
  | _ => exact ⟨_, rfl⟩

theorem exists_canonicalValue (h : p.value.HasInstant) (isId : Bool) :
    ∃ v, p.canonicalValue isId = .ok v := by
  rw [canonicalValue]
  split
  · exact exists_asInstant (hasInstant_withIdentifiers h)
  · exact exists_asInstant h

theorem exists_instantValues {vs : List Value} (h : ∀ v ∈ vs, v.HasInstant) :
    ∃ ws, instantValues (.list vs) = .ok (.list ws) ∧ ws.length = vs.length := by
  rw [instantValues]
  split
  · obtain ⟨ws, hws, hlen⟩ := exists_mapM fun v hv => exists_asInstant (h v hv)
    refine ⟨ws, ?_, hlen⟩
    show (vs.mapM Value.asInstant >>= fun ws => pure (Value.list ws)) = _
    rw [hws]
    rfl
  · exact ⟨vs, rfl, rfl⟩

theorem WellTyped.exists_values (hp : p.WellTyped) (isId : Bool) :
    ∃ ids vs, p.identifiedValues isId = .ok ids ∧ instantValues ids = .ok vs ∧
      SameLength p.values vs := by
  rw [identifiedValues]
  rcases hp.values with hv | ⟨vs, hv, hvs⟩
  · refine ⟨.null, .null, ?_, rfl, .inl ⟨hv, rfl⟩⟩
    simp [hv, Value.isNull]
  · cases isId with
    | false =>
      obtain ⟨ws, hws, hlen⟩ := exists_instantValues hvs
      exact ⟨.list vs, .list ws, by simp [hv], hws, .inr ⟨vs, ws, hv, rfl, hlen⟩⟩
    | true =>
      have hids : ∀ v ∈ vs.map Value.withIdentifiers, v.HasInstant := by
        intro v hv
        obtain ⟨w, hw, rfl⟩ := List.mem_map.mp hv
        exact hasInstant_withIdentifiers (hvs w hw)
      obtain ⟨ws, hws, hlen⟩ := exists_instantValues hids
      refine ⟨_, .list ws, ?_, hws, .inr ⟨vs, ws, hv, rfl, by simpa using hlen⟩⟩
      rw [hv]
      rfl

theorem lacksColumn_iff (hcol : p.column = .null ∨ p.column.isText = true) :
    p.LacksColumn ↔ p.column.truthy = false := by
  rw [LacksColumn]
  rcases hcol with h | h
  · simp [h, Value.truthy]
  · cases hc : p.column with
    | text s =>
      have hempty : (("" : String) : Text) = [] := rfl
      simp [Value.truthy, hempty]
    | member c => simp [Value.truthy]
    | _ => simp [hc, Value.isText, Value.text?] at h

/-- What a canonical form has of the operands of its predicate. -/
structure Keeps (p q : Predicate) : Prop where
  operator : q.operator = .null ∨ q.operator.isText = true
  values : SameLength p.values q.values
  document : q.document = p.document

theorem WellTyped.exists_canonical (hp : p.WellTyped)
    (hcol : k.hasColumn = true → ¬ p.LacksColumn) : ∃ q, p.canonical k = .ok q ∧ Keeps p q := by
  obtain ⟨o, ho, htext⟩ := exists_canonicalOperator hp.operator
  obtain ⟨isId, hisId⟩ := exists_isIdColumn hp.column
  obtain ⟨ids, vs, hids, hvs, hlen⟩ := hp.exists_values isId
  obtain ⟨v, hv⟩ := exists_canonicalValue hp.value isId
  have hc : (k.hasColumn && !p.column.truthy) = false := by
    rw [lacksColumn_iff hp.column] at hcol
    cases h : k.hasColumn <;> simp_all
  refine ⟨_, canonical_eq_ok_iff.mpr ⟨hc, o, isId, ids, v, vs, ho, hisId, hids, hv, hvs, rfl⟩, ?_⟩
  exact ⟨htext, hlen, rfl⟩

theorem canonical_of_lacksColumn (hp : p.WellTyped) (hk : k.hasColumn = true)
    (h : p.LacksColumn) : p.canonical k = .error (Malformed.missingColumn p).fault := by
  have hc : (k.hasColumn && !p.column.truthy) = true := by
    simp [hk, (lacksColumn_iff hp.column).mp h]
  rw [canonical, hc]
  rfl

theorem isHashable_of_isText {v : Value} (h : v = .null ∨ v.isText = true) :
    v.isHashable = true := by
  rcases h with rfl | h
  · rfl
  · cases v with
    | text | member => rfl
    | _ => simp [Value.isText, Value.text?] at h

theorem checkHashable_of_isText {v : Value} (h : v = .null ∨ v.isText = true) :
    v.checkHashable = .ok () :=
  Value.checkHashable_of_isHashable (isHashable_of_isText h)

theorem discard_patternText (v : Value) :
    discard (patternText v) = failUnless v.isWritable .badValue := by
  unfold patternText
  cases v with
  | text | member => rfl
  | _ => exact Value.discard_plain _

theorem discard_patternClause (column value : Value) (test : PatternTest) :
    discard (patternClause column value test) =
      failUnless (!(takesText test && !value.isWritable)) .badValue := by
  cases test with
  | like | notLike =>
    rw [patternClause, discard_bind_pure, discard_patternText, takesText, Bool.true_and,
      Bool.not_not]
  | regex | notRegex => rfl

theorem exists_comparisonClause {operator : Value} (h : operator = .null ∨ operator.isText = true)
    (column value : Value) : ∃ c, comparisonClause column operator value = .ok c := by
  have hplain : ∃ name, operator.plain = .ok name := by
    rcases h with rfl | h
    · exact ⟨_, rfl⟩
    · cases operator with
      | text | member => exact ⟨_, rfl⟩
      | _ => exact nomatch h
  obtain ⟨name, hname⟩ := hplain
  rw [comparisonClause]
  split
  · exact ⟨_, rfl⟩
  · rw [checkHashable_of_isText h]
    cases operator.text?.bind (comparisonSigns.lookup ·) with
    | some name => exact ⟨_, rfl⟩
    | none => exact ⟨_, by rw [hname]; rfl⟩

theorem discard_basicClause (h : q.operator = .null ∨ q.operator.isText = true) (column : Value) :
    discard (basicClause column q.operator q.value) = failUnless (!q.lacksText) .badValue := by
  rw [basicClause, patternClause?, checkHashable_of_isText h, lacksText]
  cases patternTest? q.operator with
  | some test =>
    show discard ((patternClause column q.value test >>= fun c => pure (some c)) >>= _) = _
    rw [Option.any_some, ← discard_patternClause column]
    cases patternClause column q.value test <;> rfl
  | none =>
    obtain ⟨c, hc⟩ := exists_comparisonClause h column q.value
    show discard (comparisonClause column q.operator q.value) = _
    rw [hc]
    rfl

theorem bounds?_of_length_ne {ws : List Value} (h : ws.length ≠ 2) :
    bounds? (.list ws) = none := by
  rcases ws with - | ⟨low, - | ⟨high, - | ⟨w, ws⟩⟩⟩
  · rfl
  · rfl
  · exact absurd rfl h
  · rfl

/-- How a predicate in canonical form ends that is no group: its operand is missing, its pattern has
no text, or it has a clause. -/
inductive Compiles (p q : Predicate) (k : Kind) : Except Fault Clause → Prop
  | lacksOperand (h : p.LacksOperand k) : Compiles p q k (.error (q.operandError k).fault)
  | lacksText (hk : k = .basic) (h : q.lacksText = true) : Compiles p q k (.error .badValue)
  | clause (c : Clause) (h : ¬ p.LacksOperand k) (htext : k = .basic → q.lacksText = false) :
      Compiles p q k (.ok c)

theorem compiles_membershipClause (hq : Keeps p q) (hk : k = .among ∨ k = .notAmong)
    (negated : Bool) :
    Compiles p q k (q.requiredValues >>= fun vs => membershipClause q.column vs negated) := by
  have hlacks : p.LacksOperand k ↔ p.values = .null := by rcases hk with rfl | rfl <;> rfl
  have herror : q.operandError k = .missingValues q := by rcases hk with rfl | rfl <;> rfl
  have hbasic : k ≠ .basic := by rcases hk with rfl | rfl <;> decide
  unfold requiredValues
  rcases hq.values with ⟨hpv, hqv⟩ | ⟨vs, ws, hpv, hqv, -⟩
  · rw [hqv]
    exact herror ▸ .lacksOperand (hlacks.mpr hpv)
  · rw [hqv]
    exact .clause _ (by simp [hlacks, hpv]) fun h => absurd h hbasic

theorem compiles_rangeClause (hq : Keeps p q) :
    Compiles p q .between (rangeClause q.column q.values q.negated.truthy) := by
  rcases hq.values with ⟨hpv, hqv⟩ | ⟨vs, ws, hpv, hqv, hlen⟩
  · have herror : rangeClause q.column q.values q.negated.truthy =
        .error (q.operandError .between).fault := by
      rw [operandError, hqv]
      rfl
    exact herror ▸ .lacksOperand (.inl hpv)
  · by_cases htwo : vs.length = 2
    · obtain ⟨low, high, rfl⟩ := List.length_eq_two.mp (hlen.trans htwo)
      have hlacks : ¬ p.LacksOperand .between := by simp [LacksOperand, hpv, htwo]
      rw [hqv]
      cases hn : q.negated.truthy <;> exact .clause _ hlacks fun h => nomatch h
    · have herror : rangeClause q.column q.values q.negated.truthy =
          .error (q.operandError .between).fault := by
        rw [operandError, hqv, rangeClause,
          bounds?_of_length_ne fun hws => htwo (hlen.symm.trans hws)]
        rfl
      exact herror ▸ .lacksOperand (.inr ⟨vs, hpv, htwo⟩)

theorem clauseOfKind_of_keeps {group : Except Fault Clause} (hp : p.WellTyped) (hq : Keeps p q)
    (hk : k ≠ .nested) : Compiles p q k (q.clauseOfKind group k) := by
  cases k with
  | basic =>
    have hdiscard := discard_basicClause hq.operator q.column
    rw [clauseOfKind]
    cases hc : basicClause q.column q.operator q.value with
    | ok c =>
      have htext := (exists_ok_iff_of_discard hdiscard).mp ⟨c, hc⟩
      exact .clause c id fun _ => by simpa using htext
    | error fault =>
      obtain ⟨htext, rfl⟩ := (eq_error_iff_of_discard hdiscard).mp hc
      exact .lacksText rfl (by simpa using htext)
  | null =>
    obtain ⟨c, hc⟩ : ∃ c, basicClause q.column (.text "=") .null = .ok c := ⟨_, rfl⟩
    rw [clauseOfKind, hc]
    exact .clause c id fun h => absurd h (by decide)
  | notNull =>
    obtain ⟨c, hc⟩ : ∃ c, basicClause q.column (.text "!=") .null = .ok c := ⟨_, rfl⟩
    rw [clauseOfKind, hc]
    exact .clause c id fun h => absurd h (by decide)
  | among => exact compiles_membershipClause hq (.inl rfl) false
  | notAmong => exact compiles_membershipClause hq (.inr rfl) true
  | nested => exact absurd rfl hk
  | between => exact compiles_rangeClause hq
  | raw =>
    rw [clauseOfKind, hq.document]
    rcases hp.document with hd | ⟨es, hd⟩
    · rw [hd]
      exact .lacksOperand hd
    · rw [hd]
      exact .clause _ (by simp [LacksOperand, hd]) fun h => absurd h (by decide)

theorem clause_of_canonical (hk : p.HasKind k) (hq : p.canonical k = .ok q) :
    p.clause = q.clauseOfKind (compile p.group) k := by
  rw [clause_eq, kind?_eq_ok_iff.mpr hk]
  show (p.canonical k).bind _ = _
  rw [hq]
  rfl

theorem outcome_clause (hp : p.WellTyped) (hn : ¬ p.HasKind .nested) : Outcome [p] p.clause := by
  by_cases hkind : ∃ k, p.HasKind k
  · obtain ⟨k, hk⟩ := hkind
    -- the column is checked before the canonical form is made, the operands after
    by_cases hcol : k.hasColumn = true ∧ p.LacksColumn
    · have hc : p.clause = .error (Malformed.missingColumn p).fault := by
        rw [clause_eq, kind?_eq_ok_iff.mpr hk]
        show (p.canonical k).bind _ = _
        rw [canonical_of_lacksColumn hp hcol.1 hcol.2]
        rfl
      exact hc ▸ .error _ (.here (.column k hk hcol.1 hcol.2))
    · have hcol : k.hasColumn = true → ¬ p.LacksColumn := fun h h' => hcol ⟨h, h'⟩
      obtain ⟨q, hq, hkeeps⟩ := hp.exists_canonical hcol
      have hne : k ≠ .nested := by
        rintro rfl
        exact hn hk
      have hcompiles : Compiles p q k (q.clauseOfKind (compile p.group) k) :=
        clauseOfKind_of_keeps hp hkeeps hne
      rw [clause_of_canonical hk hq]
      generalize q.clauseOfKind (compile p.group) k = x at hcompiles ⊢
      cases hcompiles with
      | lacksOperand hlacks => exact .error _ (.here (.operand k q hk hcol hq hlacks))
      | lacksText hbasic hlacks =>
        subst hbasic
        exact .error _ (.here (.pattern ⟨hk, q, hq, hlacks⟩))
      | clause c hthere htext =>
        refine .ok c fun r hr => ?_
        obtain rfl := List.mem_singleton.mp hr
        rintro ((h | ⟨l, hl, hlcol, h⟩ | ⟨l, hl, h⟩) | ⟨hbasic, q', hq', hlacks⟩)
        · exact h k hk
        · exact hcol (hk.unique hl ▸ hlcol) h
        · exact hthere (hk.unique hl ▸ h)
        · obtain rfl := hk.unique hbasic
          obtain rfl := Except.ok.inj (hq.symm.trans hq')
          exact Bool.false_ne_true ((htext rfl).symm.trans hlacks)
  · have hnone : ∀ k, ¬ p.HasKind k := fun k hk => hkind ⟨k, hk⟩
    have hc : p.clause = .error (Malformed.unknownKind p.kind).fault := by
      rw [clause_eq, kind?_of_forall_not hnone]
      rfl
    exact hc ▸ .error _ (.here (.kind hnone))

/-! ### Trees of predicates -/

theorem not_isRefused_of_nested (h : p.HasKind .nested) : ¬ p.IsRefused := by
  rintro ((hn | ⟨k, hk, hcol, -⟩ | ⟨k, hk, hl⟩) | ⟨hbasic, -⟩)
  · exact hn _ h
  · obtain rfl := h.unique hk
    exact nomatch hcol
  · obtain rfl := h.unique hk
    exact hl
  · exact nomatch h.unique hbasic

theorem outcome_clauses (h : ∀ p ∈ ps, Outcome p.preorder p.clause) :
    Outcome (preorderAll ps) (clauses ps) := by
  induction ps with
  | nil => exact .ok [] (by simp [preorderAll])
  | cons p ps ih =>
    rw [preorderAll, clauses]
    refine (h p (by simp)).bind fun c _ => ?_
    exact (ih fun p hp => h p (by simp [hp])).and_then fun cs _ => ⟨_, rfl⟩

theorem outcome_compile (h : Outcome (preorderAll ps) (clauses ps)) :
    Outcome (preorderAll ps) (compile ps) := by
  rw [compile]
  cases hcs : clauses ps with
  | ok cs =>
    cases hcs ▸ h with
    | ok _ h => exact .ok _ h
  | error fault =>
    cases hcs ▸ h with
    | error _ h => exact .error fault h

/-- By induction on the tree: a group is compiled after the checks of the predicate that has it. -/
theorem outcome_clause_preorder : ∀ p : Predicate, (∀ q ∈ p.preorder, q.WellTyped) →
    Outcome p.preorder p.clause := by
  refine of_groups fun p ih hp => ?_
  have hself := hp p (self_mem_preorder p)
  by_cases hk : p.HasKind .nested
  · have hnested : p.kind? = .ok .nested := kind?_eq_ok_iff.mpr hk
    obtain ⟨q, hq, -⟩ := @hself.exists_canonical p .nested (fun h => nomatch h)
    rw [preorder_of_nested hnested, clause_of_canonical hk hq]
    refine .cons_of_not (not_isRefused_of_nested hk) (outcome_compile (outcome_clauses ?_))
    intro g hg
    refine ih g hg fun q hq => hp q ?_
    exact mem_preorder_of_group hnested (mem_preorderAll_iff.mpr ⟨g, hg, hq⟩)
  · rw [preorder_of_ne_nested (mt kind?_eq_ok_iff.mp hk)]
    exact outcome_clause hself hk

/-! ### Rendering -/

variable {c : Clause} {cs : List Clause}

theorem exists_render_testsColumn {column : Value} (hcol : column.checkHashable = .ok ())
    (h : TestsColumn column c) : ∃ d, c.render = .ok d := by
  have htests : ∀ operators, (Clause.tests column operators).render =
      .ok [(column, .map operators)] :=
    fun _ => Clause.render_tests_eq_ok_iff.mpr ⟨hcol, rfl⟩
  cases h with
  | equals v => exact ⟨_, Clause.render_equals_eq_ok_iff.mpr ⟨hcol, rfl⟩⟩
  | tests operators => exact ⟨_, htests operators⟩
  | outside low high =>
    have hdocs : Clause.RenderAs [testClause column "$lte" low, testClause column "$gte" high]
        [[(column, .map (Entries.single "$lte" low))],
          [(column, .map (Entries.single "$gte" high))]] :=
      .cons (htests _) (.cons (htests _) .nil)
    exact ⟨_, (@Clause.render_under_eq_ok_iff _ _ true).mpr ⟨_, hdocs, rfl⟩⟩

theorem exists_render_assemble (hcs : clauses ps = .ok cs)
    (h : ∀ p ∈ ps, ∀ c, p.clause = .ok c → ∃ d, c.render = .ok d) :
    ∃ es, (assemble (disjunctive ps) cs).render = .ok es := by
  refine (exists_render_assemble_iff (length_of_clauses hcs) (normal_of_clauses hcs)).mpr ?_
  intro c hc
  obtain ⟨p, hp, hpc⟩ := exists_clause_of_mem hcs hc
  exact h p hp c hpc

/-- The column and a raw document have their declared types. -/
structure Renders (p : Predicate) : Prop where
  column : p.column = .null ∨ p.column.isText = true
  document : p.HasKind .raw → p.document = .null ∨ ∃ es, p.document = .map es

theorem WellTyped.renders (hp : p.WellTyped) : p.Renders :=
  ⟨hp.column, fun _ => hp.document⟩

theorem exists_render_clause : ∀ p : Predicate, (∀ q ∈ p.preorder, q.Renders) →
    ∀ c, p.clause = .ok c → ∃ d, c.render = .ok d := by
  refine of_groups fun p ih hp c hc => ?_
  have hself := hp p (self_mem_preorder p)
  obtain ⟨k, q, hk, hq, hqc⟩ := clause_eq_ok_iff.mp hc
  by_cases hnested : k = .nested
  · subst hnested
    obtain ⟨cs, hcs, rfl⟩ := map_eq_ok_iff.mp hqc
    refine exists_render_assemble hcs fun g hg => ih g hg fun q hq => hp q ?_
    exact mem_preorder_of_group hk (mem_preorderAll_iff.mpr ⟨g, hg, hq⟩)
  · rcases clauseOfKind_cases hnested hqc with ⟨-, ht⟩ | ⟨rfl, rfl⟩
    · rw [column_of_canonical hq] at ht
      exact exists_render_testsColumn (checkHashable_of_isText hself.column) ht
    · obtain ⟨-, _, _, _, _, _, -, -, -, -, -, rfl⟩ := canonical_eq_ok_iff.mp hq
      rcases hself.document (kind?_eq_ok_iff.mp hk) with hd | ⟨es, hd⟩
      · rw [clauseOfKind, hd] at hqc
        exact absurd hqc throw_ne_ok
      · refine ⟨Entries.ofList es, ?_⟩
        show (Clause.raw p.document).render = _
        rw [hd, Clause.render]
        rfl

/-- A list that has clauses has a filter document. -/
theorem exists_compileFilter (h : ∀ p ∈ preorderAll ps, p.Renders) (hcs : clauses ps = .ok cs) :
    ∃ es, compileFilter ps = .ok es := by
  obtain ⟨es, hes⟩ := exists_render_assemble hcs fun p hp =>
    exists_render_clause p fun q hq => h q (mem_preorderAll_iff.mpr ⟨p, hp, hq⟩)
  exact ⟨es, compileFilter_eq_ok_iff.mpr ⟨cs, hcs, hes⟩⟩

theorem outcome_compileFilter (h : ∀ p ∈ preorderAll ps, p.WellTyped) :
    Outcome (preorderAll ps) (compileFilter ps) := by
  have hmem : ∀ p ∈ ps, ∀ q ∈ p.preorder, q.WellTyped := fun p hp q hq =>
    h q (mem_preorderAll_iff.mpr ⟨p, hp, hq⟩)
  have hcs := outcome_clauses fun p hp => outcome_clause_preorder p (hmem p hp)
  rw [compileFilter]
  refine (outcome_compile hcs).and_then fun c hc => ?_
  obtain ⟨cs, hcs, rfl⟩ := map_eq_ok_iff.mp hc
  exact exists_render_assemble hcs fun p hp =>
    exists_render_clause p fun q hq => (hmem p hp q hq).renders

end Predicate

open Predicate

/-- A list of predicates of the declared types is refused exactly when its tree has a malformed one,
or one whose pattern has no text, and with the error for the first of these: that it is malformed,
as long as the text of this error can be written. -/
theorem compileFilter_eq_error_iff {ps : List Predicate} (h : ∀ p ∈ preorderAll ps, p.WellTyped) :
    ((∃ fault, compileFilter ps = .error fault) ↔
        ∃ p ∈ preorderAll ps, p.IsMalformed ∨ p.HasUnwritablePattern) ∧
      (∀ fault, compileFilter ps = .error fault ↔ FirstDefect (preorderAll ps) fault) ∧
      ∀ m : Malformed, m.fault = if m.isWritable then .malformed m else .badValue := by
  have hout := outcome_compileFilter h
  refine ⟨⟨?_, ?_⟩, fun fault => ⟨?_, hout.eq_error⟩, Malformed.fault_eq⟩
  · rintro ⟨fault, hfault⟩
    exact (hfault ▸ hout).firstDefect.exists_isRefused
  · rintro ⟨p, hp, hrefused⟩
    generalize compileFilter ps = x at hout
    cases hout with
    | ok es hnone => exact absurd hrefused (hnone p hp)
    | error fault _ => exact ⟨fault, rfl⟩
  · exact fun hfault => (hfault ▸ hout).firstDefect

/-- A range with one end in a group, before a test without a column and a raw predicate without its
document. -/
theorem compileFilter_eq_error_iff_group :
    let a := Value.text "a"
    let range : Predicate := { ofKind .between byAnd with column := a, values := .list [.int 1] }
    let ps := [.basic a (.text ">") (.int 1), .nested [range, .isNull .null], .raw .null]
    (∀ p ∈ preorderAll ps, p.WellTyped) ∧
      (∃ p ∈ preorderAll ps, p.IsMalformed ∨ p.HasUnwritablePattern) ∧
      FirstDefect (preorderAll ps) (.malformed (.badBounds false (.list [.int 1]))) := by
  intro a range ps
  have hps : preorderAll ps = [.basic a (.text ">") (.int 1), .nested [range, .isNull .null], range,
    .isNull .null, .raw .null] := rfl
  have hnone : Value.null.HasInstant := nofun
  have hone : (Value.int 1).HasInstant := nofun
  have hwell : ∀ p ∈ preorderAll ps, p.WellTyped := by
    rw [hps]
    simp only [List.forall_mem_cons]
    exact ⟨⟨.inr rfl, .inr rfl, hone, .inl rfl, .inl rfl⟩,
      ⟨.inl rfl, .inl rfl, hnone, .inl rfl, .inl rfl⟩,
      ⟨.inr rfl, .inl rfl, hnone, .inr ⟨_, rfl, by simpa using hone⟩, .inl rfl⟩,
      ⟨.inl rfl, .inl rfl, hnone, .inl rfl, .inl rfl⟩,
      ⟨.inl rfl, .inl rfl, hnone, .inl rfl, .inl rfl⟩, by simp⟩
  have herr : compileFilter ps = .error (.malformed (.badBounds false (.list [.int 1]))) := rfl
  obtain ⟨hiff, hfirst, -⟩ := compileFilter_eq_error_iff hwell
  exact ⟨hwell, hiff.mp ⟨_, herr⟩, (hfirst _).mp herr⟩

/-- A pattern that is an integer with too many digits, in a predicate that is not malformed, and a
range with such an integer for its one end. -/
theorem exists_refused_unwritable :
    (∃ ps, (∀ p ∈ preorderAll ps, p.WellTyped ∧ ¬ p.IsMalformed) ∧
      compileFilter ps = .error .badValue) ∧
    ∃ ps, (∀ p ∈ preorderAll ps, p.WellTyped) ∧ (∃ p ∈ preorderAll ps, p.IsMalformed) ∧
      compileFilter ps = .error .badValue := by
  obtain ⟨n, hn⟩ := Text.exists_not_isWritable
  have hnone : Value.null.HasInstant := nofun
  have hint : (Value.int n).HasInstant := nofun
  let pattern : Predicate := .basic (.text "a") (.text "like") (.int n)
  let range : Predicate :=
    { ofKind .between byAnd with column := .text "a", values := .list [.int n] }
  have hbasic : pattern.HasKind .basic := rfl
  have hbetween : range.HasKind .between := rfl
  have hpattern : pattern.WellTyped := ⟨.inr rfl, .inr rfl, hint, .inl rfl, .inl rfl⟩
  have hrange : range.WellTyped :=
    ⟨.inr rfl, .inl rfl, hnone, .inr ⟨_, rfl, by simpa using hint⟩, .inl rfl⟩
  have hcolumn : ∀ p : Predicate, p.column = .text "a" → ¬ p.LacksColumn := by
    rintro p hp (h | h) <;> exact nomatch hp.symm.trans h
  constructor
  · have hwell : ∀ p ∈ preorderAll [pattern], p.WellTyped := List.forall_mem_singleton.mpr hpattern
    have hthere : ¬ pattern.IsMalformed := by
      rintro (h | ⟨k, -, -, h⟩ | ⟨k, hk, h⟩)
      · exact h .basic rfl
      · exact hcolumn _ rfl h
      · obtain rfl := hbasic.unique hk
        exact h
    have hlacks : pattern.lacksText = true := by
      show (true && !Text.isWritable n) = true
      rw [hn]
      rfl
    exact ⟨[pattern], List.forall_mem_singleton.mpr ⟨hpattern, hthere⟩,
      (outcome_compileFilter hwell).eq_error (.here (.pattern ⟨hbasic, pattern, rfl, hlacks⟩))⟩
  · have hwell : ∀ p ∈ preorderAll [range], p.WellTyped := List.forall_mem_singleton.mpr hrange
    have hlacks : range.LacksOperand .between := .inr ⟨_, rfl, by simp⟩
    have hdefect := Defect.operand .between range hbetween (fun _ => hcolumn _ rfl) rfl hlacks
    have hfault : (range.operandError .between).fault = .badValue := by
      have hwritable : (range.operandError .between).isWritable = false := by
        show (Text.isWritable n && true) = false
        rw [hn]
        rfl
      rw [Malformed.fault_eq, hwritable]
      rfl
    exact ⟨[range], hwell, ⟨range, List.mem_singleton_self _, .operand .between hbetween hlacks⟩,
      (outcome_compileFilter hwell).eq_error (.here (hfault ▸ hdefect))⟩

end DocQuery
