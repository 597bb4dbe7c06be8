import DocQuery.Proofs.Predicate.Arrays
import DocQuery.Proofs.Predicate.Checks
import DocQuery.Proofs.Predicate.Operands

/-!
# Other spellings of predicates

A predicate may be replaced by its canonical form, and its operator may be written in other letter
cases: at any depth of a tree this leaves the filter document as it is (`compileFilter_respelled`).
`Predicate.canonicalTrees` replaces all predicates of a tree; it changes nothing when it is done
again.
-/

namespace DocQuery

/-- Raises an ASCII letter. -/
def CodePoint.toUpper : CodePoint → CodePoint
  | char c => char c.toUpper
  | surrogate n => surrogate n

/-- The text has ASCII characters only. -/
def Text.IsAscii (s : Text) : Prop :=
  ∀ c ∈ s, c.toNat < 0x80

/-- The same letters in whatever cases. -/
def Text.SameLetters (s t : Text) : Prop :=
  List.Forall₂ (fun c d => d = c ∨ d = c.toLower ∨ d = c.toUpper) s t

instance (s : Text) : Decidable (Text.IsAscii s) :=
  List.decidableBAll (fun c : CodePoint => c.toNat < 0x80) s

instance (s t : Text) : Decidable (Text.SameLetters s t) :=
  inferInstanceAs (Decidable (List.Forall₂ _ s t))

namespace Predicate

/-- An operator that is text has ASCII characters only. -/
def AsciiOperator (p : Predicate) : Prop :=
  ∀ s, p.operator.text? = some s → Text.IsAscii s

/-- The canonical form of a predicate, or the predicate with the letters of its operator in other
cases, or just as it is. -/
inductive SpelledAs (p : Predicate) : Predicate → Prop
  | same : SpelledAs p p
  | canonical {k : Kind} {q : Predicate} (hk : p.kind? = .ok k) (hq : p.canonical k = .ok q) :
      SpelledAs p q
  | cased {s t : Text} (hs : p.operator.text? = some s) (h : Text.SameLetters s t) :
      SpelledAs p { p with operator := .text t }

/-- At each depth the predicate is spelled in one of these ways. -/
inductive Respelled : Predicate → Predicate → Prop
  | node {p q : Predicate} {group : List Predicate} (h : SpelledAs p q)
      (hgroup : List.Forall₂ Respelled p.group group) : Respelled p { q with group }

mutual

/-- The tree with each predicate in canonical form. -/
def canonicalTree : Predicate → Except Fault Predicate
  | ⟨kind, column, operator, value, values, connective, negated, group, document⟩ => do
    let p : Predicate :=
      ⟨kind, column, operator, value, values, connective, negated, group, document⟩
    let variant ← p.kind?
    let q ← p.canonical variant
    match variant with
    | .nested => pure { q with group := ← canonicalTrees group }
    | _ => pure q
termination_by structural p => p

def canonicalTrees : List Predicate → Except Fault (List Predicate)
  | [] => pure []
  | p :: ps => do
    let q ← canonicalTree p
    pure (q :: (← canonicalTrees ps))
termination_by structural ps => ps

end

end Predicate

namespace Text
variable {c d : CodePoint} {s t : Text}

/-- The ASCII characters, one by one. -/
theorem ascii_cases : ∀ n < 0x80,
    ((Char.ofNat n).toLower.toNat < 0x80 ∧ (Char.ofNat n).toUpper.toNat < 0x80) ∧
      (Char.ofNat n).toLower.toLower = (Char.ofNat n).toLower ∧
      (Char.ofNat n).toUpper.toLower = (Char.ofNat n).toLower := by
  decide

theorem ascii_of_cased (h : d = c ∨ d = c.toLower ∨ d = c.toUpper) (hc : c.toNat < 0x80) :
    d.toNat < 0x80 ∧ d.toLower = c.toLower := by
  cases c with
  | surrogate n =>
    have : 0xD800 + n.val < 0x80 := hc
    omega
  | char c =>
    have hcases := ascii_cases c.toNat hc
    rw [Char.ofNat_toNat] at hcases
    obtain ⟨⟨hlower, hupper⟩, hll, hul⟩ := hcases
    rcases h with rfl | rfl | rfl
    · exact ⟨hc, rfl⟩
    · exact ⟨hlower, congrArg CodePoint.char hll⟩
    · exact ⟨hupper, congrArg CodePoint.char hul⟩

theorem SameLetters.ascii (h : SameLetters s t) (hs : IsAscii s) :
    IsAscii t ∧ t.map CodePoint.toLower = s.map CodePoint.toLower := by
  induction h with
  | nil => exact ⟨hs, rfl⟩
  | cons hcd _ ih =>
    obtain ⟨hc, hcs⟩ := List.forall_mem_cons.mp hs
    obtain ⟨hd, heq⟩ := ascii_of_cased hcd hc
    obtain ⟨hds, hmap⟩ := ih hcs
    exact ⟨List.forall_mem_cons.mpr ⟨hd, hds⟩, by rw [List.map_cons, List.map_cons, heq, hmap]⟩

theorem SameLetters.lower_eq (h : SameLetters s t) (hs : IsAscii s) : lower t = lower s := by
  obtain ⟨ht, hmap⟩ := h.ascii hs
  rw [lower_ascii hs, lower_ascii ht, hmap]

theorem sameLetters_lower (hs : IsAscii s) : SameLetters s (lower s) := by
  rw [lower_ascii hs, SameLetters, List.forall₂_map_right_iff, List.forall₂_same]
  exact fun c _ => .inr (.inl rfl)

end Text

open Text (IsAscii SameLetters)

theorem operatorSpelling_congr {s t : Text} (h : Text.lower t = Text.lower s) :
    operatorSpelling t = operatorSpelling s := by
  rw [operatorSpelling, operatorSpelling, h]

/-- The spellings of the store are stable, and so are the lower-case operators. -/
theorem operatorSpelling_operatorSpelling {s : Text} (hs : IsAscii s) :
    operatorSpelling (operatorSpelling s) = operatorSpelling s := by
  have htable : ∀ e ∈ operatorSpellings, operatorSpelling e.2 = e.2 := by decide
  have hlower := operatorSpelling_congr ((Text.sameLetters_lower hs).lower_eq hs)
  cases h : operatorSpellings.lookup (Text.lower s) with
  | none =>
    have hspelling : operatorSpelling s = Text.lower s := by
      rw [operatorSpelling, h, Option.getD_none]
    rw [hspelling, hlower, hspelling]
  | some spelling =>
    have hspelling : operatorSpelling s = spelling := by
      rw [operatorSpelling, h, Option.getD_some]
    rw [hspelling]
    obtain ⟨_, _, hmem, -⟩ := List.lookup_eq_some_iff.mp h
    exact htable (Text.lower s, spelling) (hmem ▸ List.mem_append_right _ List.mem_cons_self)

theorem lowerOctet_lowerOctet (b : UInt8) : lowerOctet (lowerOctet b) = lowerOctet b := by
  unfold lowerOctet
  grind

theorem canonicalOperator_of_text {operator : Value} {s : Text} (h : operator.text? = some s) :
    canonicalOperator operator = .ok (.text (operatorSpelling s)) := by
  rcases Value.text?_eq_some_iff.mp h with rfl | ⟨m, rfl, rfl⟩ <;> rfl

theorem canonicalOperator_canonicalOperator {operator o : Value}
    (h : canonicalOperator operator = .ok o)
    (hascii : ∀ s, operator.text? = some s → IsAscii s) : canonicalOperator o = .ok o := by
  cases ht : operator.text? with
  | some s =>
    obtain rfl := Except.ok.inj ((canonicalOperator_of_text ht).symm.trans h)
    rw [canonicalOperator_of_text (s := operatorSpelling s) rfl,
      operatorSpelling_operatorSpelling (hascii s ht)]
  | none =>
    cases operator with
    | null =>
      obtain rfl := pure_eq_ok_iff.mp h
      rfl
    | bytes bs =>
      obtain rfl := pure_eq_ok_iff.mp h
      show Except.ok (Value.bytes ((bs.map lowerOctet).map lowerOctet)) = _
      rw [List.map_map]
      simp only [Function.comp_def, lowerOctet_lowerOctet]
    | text | member => exact nomatch ht
    | _ => exact nomatch h

namespace Predicate
variable {p q r : Predicate} {ps qs : List Predicate} {group : List Predicate} {k : Kind}
  {isId : Bool} {v : Value} {c : Clause}

/-- What has been listed anew is listed as it is. -/
theorem canonicalValues_canonicalValues (hid : isIdColumn p.column = .ok isId)
    (h : p.canonicalValues isId = .ok v) (hcolumn : q.column = p.column) (hvalues : q.values = v) :
    q.canonicalValues isId = .ok v ∧ v.isNull = p.values.isNull := by
  rw [← hcolumn] at hid
  by_cases hlisted : p.IsListed
  · rw [canonicalValues_of_isListed (hcolumn ▸ hid) hlisted] at h
    obtain ⟨vs, hitems, hmap⟩ := bind_eq_ok_iff.mp h
    obtain ⟨ws, hws, rfl⟩ := map_eq_ok_iff.mp hmap
    have hnull : p.values.isNull = false := by
      cases hv : p.values <;> first | rfl | (rw [hv] at hitems; exact nomatch hitems)
    refine ⟨?_, hnull.symm⟩
    -- listed once more or left alone, it is the same list
    by_cases hq : q.IsListed
    · have hlists : q.values.items = .ok ws := by
        rw [hvalues]
        rfl
      rw [canonicalValues_of_items hid hq hlists, mapM_operandForm_mapM hws]
      rfl
    · rw [canonicalValues_of_not_isListed hid hq, hvalues]
  · rw [canonicalValues_of_not_isListed (hcolumn ▸ hid) hlisted] at h
    obtain rfl := Except.ok.inj h
    have hq : ¬ q.IsListed := by rwa [IsListed, hcolumn, hvalues]
    rw [canonicalValues_of_not_isListed hid hq, hvalues]
    exact ⟨rfl, rfl⟩

/-- A canonical form is its own. -/
theorem canonical_canonical (h : p.canonical k = .ok q) (hascii : p.AsciiOperator) :
    q.canonical k = .ok q := by
  obtain ⟨hcol, o, isId, v, vs, ho, hid, hv, hvs, rfl⟩ := canonical_iff_operands.mp h
  obtain ⟨hvalues, hnull⟩ := canonicalValues_canonicalValues
    (q := { p with operator := o, value := v, values := vs }) hid hvs rfl rfl
  refine canonical_iff_operands.mpr ⟨hcol, o, isId, v, vs,
    canonicalOperator_canonicalOperator ho hascii, hid, ?_, hvalues, rfl⟩
  show operandForm (isId && vs.isNull) v = .ok v
  rw [hnull]
  exact operandForm_operandForm hv

theorem canonical_cased {s t : Text} (h : p.canonical k = .ok q) (hs : p.operator.text? = some s)
    (hascii : IsAscii s) (ht : SameLetters s t) :
    canonical { p with operator := .text t } k = .ok q := by
  obtain ⟨hcol, o, isId, v, vs, ho, hid, hv, hvs, rfl⟩ := canonical_iff_operands.mp h
  refine canonical_iff_operands.mpr ⟨hcol, o, isId, v, vs, ?_, hid, hv, hvs, rfl⟩
  rw [canonicalOperator_of_text (s := t) rfl, operatorSpelling_congr (ht.lower_eq hascii),
    ← canonicalOperator_of_text hs, ho]

theorem canonical_group (h : p.canonical k = .ok q) (group : List Predicate) :
    canonical { p with group } k = .ok { q with group } := by
  obtain ⟨hcol, o, isId, v, vs, ho, hid, hv, hvs, rfl⟩ := canonical_iff_operands.mp h
  exact canonical_iff_operands.mpr ⟨hcol, o, isId, v, vs, ho, hid, hv, hvs, rfl⟩

theorem canonical_keeps (h : p.canonical k = .ok q) :
    q.kind = p.kind ∧ q.connective = p.connective ∧ q.group = p.group := by
  obtain ⟨-, o, isId, v, vs, -, -, -, -, rfl⟩ := canonical_iff_operands.mp h
  exact ⟨rfl, rfl, rfl⟩

theorem SpelledAs.keeps (h : SpelledAs p r) : r.kind = p.kind ∧ r.connective = p.connective := by
  cases h with
  | same => exact ⟨rfl, rfl⟩
  | canonical hk hq => exact ⟨(canonical_keeps hq).1, (canonical_keeps hq).2.1⟩
  | cased hs h => exact ⟨rfl, rfl⟩

/-- The spellings of a predicate have one canonical form. -/
theorem SpelledAs.canonical_eq (h : SpelledAs p r) (hascii : p.AsciiOperator)
    (hk : p.kind? = .ok k) (hq : p.canonical k = .ok q) : r.canonical k = .ok q := by
  cases h with
  | same => exact hq
  | canonical hk' hq' =>
    obtain rfl := Except.ok.inj (hk.symm.trans hk')
    obtain rfl := Except.ok.inj (hq.symm.trans hq')
    exact canonical_canonical hq hascii
  | cased hs h => exact canonical_cased hq hs (hascii _ hs) h

theorem kind?_congr (h : q.kind = p.kind) : q.kind? = p.kind? := by
  rw [kind?, kind?, h]

theorem isOr_congr (h : q.connective = p.connective) : q.isOr = p.isOr := by
  rw [isOr, isOr, h]

/-! ### Trees -/

theorem with_group (h : r.group = group) : { r with group } = r := by
  subst h
  cases r
  rfl

theorem respelled_of_same_group (h : SpelledAs p r) (hgroup : r.group = p.group)
    (hself : ∀ g ∈ p.group, Respelled g g) : Respelled p r := by
  have hnode : Respelled p { r with group := p.group } := .node h (List.forall₂_same.mpr hself)
  rwa [with_group hgroup] at hnode

theorem Respelled.refl : ∀ p : Predicate, Respelled p p :=
  of_groups fun _ ih => respelled_of_same_group .same rfl ih

theorem Respelled.isOr_eq (h : Respelled p r) : r.isOr = p.isOr := by
  cases h with
  | node h => exact isOr_congr h.keeps.2

theorem disjunctive_of_respelled (h : List.Forall₂ Respelled ps qs) :
    disjunctive qs = disjunctive ps := by
  have hor : qs.map isOr = ps.map isOr := by
    induction h with
    | nil => rfl
    | cons hr _ ih => rw [List.map_cons, List.map_cons, hr.isOr_eq, ih]
  rw [disjunctive_eq_joining, disjunctive_eq_joining, joining, joining, hor, h.length_eq]

theorem compile_of_respelled
    (hclause : ∀ p ∈ ps, ∀ r, Respelled p r → ∀ c, p.clause = .ok c → r.clause = .ok c)
    (h : List.Forall₂ Respelled ps qs) (hc : compile ps = .ok c) : compile qs = .ok c := by
  obtain ⟨cs, hcs, rfl⟩ := map_eq_ok_iff.mp hc
  have hqs : clauses qs = .ok cs := by
    clear hc
    induction h generalizing cs with
    | nil => exact hcs
    | cons hr _ ih =>
      obtain ⟨c, ds, hc, hds, rfl⟩ := clauses_cons_eq_ok_iff.mp hcs
      obtain ⟨hself, hrest⟩ := List.forall_mem_cons.mp hclause
      exact clauses_cons_eq_ok_iff.mpr ⟨c, ds, hself _ hr c hc, ih hrest ds hds, rfl⟩
  exact map_eq_ok_iff.mpr ⟨cs, hqs, by rw [disjunctive_of_respelled h]⟩

/-- By induction on the tree: the canonical form of a predicate is that of its spellings, and the
group has its clause by induction. -/
theorem clause_of_respelled : ∀ p : Predicate, (∀ q ∈ p.preorder, q.AsciiOperator) →
    ∀ r, Respelled p r → ∀ c, p.clause = .ok c → r.clause = .ok c := by
  refine of_groups fun p ih hascii r h c hc => ?_
  obtain ⟨k, q, hk, hq, hqc⟩ := clause_eq_ok_iff.mp hc
  cases h with
  | @node _ s group hs hgroup =>
    have hsq := hs.canonical_eq (hascii p (self_mem_preorder p)) hk hq
    refine clause_eq_ok_iff.mpr ⟨k, { q with group }, ?_, canonical_group hsq group,
      clauseOfKind_joined.mpr ?_⟩
    · exact (kind?_congr (q := { s with group }) hs.keeps.1).trans hk
    · by_cases hn : k = .nested
      · subst hn
        refine compile_of_respelled (fun g hg r hr c hc => ih g hg (fun q hq => ?_) r hr c hc)
          hgroup hqc
        exact hascii q (mem_preorder_of_group hk (mem_preorderAll_iff.mpr ⟨g, hg, hq⟩))
      -- the group of a predicate of another kind is not read
      · rwa [clauseOfKind_congr hn]

theorem canonicalTree_eq (p : Predicate) :
    canonicalTree p = p.kind? >>= fun k => p.canonical k >>= fun q => match k with
      | .nested => canonicalTrees p.group >>= fun group => pure { q with group }
      | _ => pure q := by
  cases p
  rw [canonicalTree]

theorem canonicalTree_of_nested (hk : p.kind? = .ok .nested) (hq : p.canonical .nested = .ok q)
    (hgroup : canonicalTrees p.group = .ok group) : canonicalTree p = .ok { q with group } := by
  rw [canonicalTree_eq, hk]
  show (p.canonical .nested >>= fun q => _) = _
  rw [hq]
  show (canonicalTrees p.group >>= fun group => _) = _
  rw [hgroup]
  rfl

theorem canonicalTree_of_ne_nested (hk : p.kind? = .ok k) (hn : k ≠ .nested)
    (hq : p.canonical k = .ok q) : canonicalTree p = .ok q := by
  rw [canonicalTree_eq, hk]
  show (p.canonical k >>= fun q => _) = _
  rw [hq]
  cases k <;> first | rfl | exact absurd rfl hn

theorem canonicalTrees_cons {t : Predicate} {ts : List Predicate} (hp : canonicalTree p = .ok t)
    (hps : canonicalTrees ps = .ok ts) : canonicalTrees (p :: ps) = .ok (t :: ts) := by
  rw [canonicalTrees, hp]
  show (canonicalTrees ps >>= fun ts => _) = _
  rw [hps]
  rfl

theorem exists_canonicalTrees_of {cs : List Clause}
    (h : ∀ p ∈ ps, ∀ c, p.clause = .ok c →
      ∃ q, canonicalTree p = .ok q ∧ Respelled p q ∧ canonicalTree q = .ok q)
    (hcs : clauses ps = .ok cs) :
    ∃ qs, canonicalTrees ps = .ok qs ∧ List.Forall₂ Respelled ps qs ∧
      canonicalTrees qs = .ok qs := by
  induction ps generalizing cs with
  | nil => exact ⟨[], rfl, .nil, rfl⟩
  | cons p ps ih =>
    obtain ⟨c, ds, hc, hds, rfl⟩ := clauses_cons_eq_ok_iff.mp hcs
    obtain ⟨hself, hrest⟩ := List.forall_mem_cons.mp h
    obtain ⟨q, hq, hpq, hqq⟩ := hself c hc
    obtain ⟨qs, hqs, hpsqs, hqsqs⟩ := ih hrest hds
    exact ⟨q :: qs, canonicalTrees_cons hq hqs, .cons hpq hpsqs, canonicalTrees_cons hqq hqsqs⟩

/-- What can be compiled has a canonical tree, which is its own. -/
theorem exists_canonicalTree : ∀ p : Predicate, (∀ q ∈ p.preorder, q.AsciiOperator) →
    ∀ c, p.clause = .ok c →
      ∃ q, canonicalTree p = .ok q ∧ Respelled p q ∧ canonicalTree q = .ok q := by
  refine of_groups fun p ih hascii c hc => ?_
  obtain ⟨k, q, hk, hq, hqc⟩ := clause_eq_ok_iff.mp hc
  have hqq := canonical_canonical hq (hascii p (self_mem_preorder p))
  obtain ⟨hkind, -, hsame⟩ := canonical_keeps hq
  have hqk : q.kind? = .ok k := (kind?_congr hkind).trans hk
  by_cases hn : k = .nested
  · subst hn
    obtain ⟨cs, hcs, -⟩ := map_eq_ok_iff.mp hqc
    obtain ⟨group, hgroup, hrespelled, hgroups⟩ := exists_canonicalTrees_of
      (fun g hg c hc => ih g hg (fun r hr => hascii r
        (mem_preorder_of_group hk (mem_preorderAll_iff.mpr ⟨g, hg, hr⟩))) c hc) hcs
    exact ⟨{ q with group }, canonicalTree_of_nested hk hq hgroup,
      .node (.canonical hk hq) hrespelled,
      canonicalTree_of_nested (p := { q with group }) (q := { q with group }) hqk
        (canonical_group hqq group) hgroups⟩
  · exact ⟨q, canonicalTree_of_ne_nested hk hn hq,
      respelled_of_same_group (.canonical hk hq) hsame fun g _ => .refl g,
      canonicalTree_of_ne_nested hqk hn hqq⟩

end Predicate

open Predicate

/-- A list of predicates with ASCII operators has the same filter document when every predicate of
its tree is replaced by its canonical form, and when any of them are spelled in other ways. -/
theorem compileFilter_respelled {ps : List Predicate} {doc : Entries}
    (hascii : ∀ p ∈ preorderAll ps, p.AsciiOperator) (h : compileFilter ps = .ok doc) :
    (∃ qs, canonicalTrees ps = .ok qs ∧ compileFilter qs = .ok doc ∧
        canonicalTrees qs = .ok qs) ∧
      ∀ qs, List.Forall₂ Respelled ps qs → compileFilter qs = .ok doc := by
  have hall : ∀ p ∈ ps, ∀ q ∈ p.preorder, q.AsciiOperator := fun p hp q hq =>
    hascii q (mem_preorderAll_iff.mpr ⟨p, hp, hq⟩)
  have hrespelled : ∀ qs, List.Forall₂ Respelled ps qs → compileFilter qs = .ok doc := by
    intro qs hqs
    obtain ⟨c, hc, hdoc⟩ := bind_eq_ok_iff.mp h
    have hqsc := compile_of_respelled (fun p hp => clause_of_respelled p (hall p hp)) hqs hc
    exact bind_eq_ok_iff.mpr ⟨c, hqsc, hdoc⟩
  obtain ⟨cs, hcs, -⟩ := compileFilter_eq_ok_iff.mp h
  obtain ⟨qs, hqs, hpsqs, hqsqs⟩ :=
    exists_canonicalTrees_of (fun p hp => exists_canonicalTree p (hall p hp)) hcs
  exact ⟨⟨qs, hqs, hrespelled qs hpsqs, hqsqs⟩, hrespelled⟩

/-- A group with an identifier and an operator in capitals, and a range of a date and a time. -/
theorem compileFilter_respelled_nested :
    let list (operator : Text) : List Predicate :=
      [nested [basic (.text "owner._id") .null (.text "507F1F77BCF86CD799439011"),
          basic (.text "tags") (.text operator) (.map [(.text "n", .int 1)]) byOr],
        { ofKind .between byAnd with
          column := .text "at"
          values := .tuple [.date ⟨2024, 1, 31⟩,
            .dateTime { date := ⟨2024, 2, 1⟩, offset := some 3600 }] }]
    let doc : Entries := [(.text "$and", .list [
      .map [(.text "$or", .list [
        .map [(.text "owner._id", .objectId "507f1f77bcf86cd799439011")],
        .map [(.text "tags", .map [(.text "$elemMatch", .map [(.text "n", .int 1)])])]])],
      .map [(.text "at", .map [(.text "$gte", .millis 1706659200000),
        (.text "$lte", .millis 1706742000000)])]])]
    (∀ p ∈ preorderAll (list "ElemMatch"), p.AsciiOperator) ∧
      compileFilter (list "ElemMatch") = .ok doc ∧
      List.Forall₂ Respelled (list "ElemMatch") (list "ELEMMATCH") ∧
      compileFilter (list "ELEMMATCH") = .ok doc ∧
      ∃ qs, canonicalTrees (list "ElemMatch") = .ok qs ∧ compileFilter qs = .ok doc ∧
        canonicalTrees qs = .ok qs := by
  intro list doc
  have hascii : ∀ p ∈ preorderAll (list "ElemMatch"), p.AsciiOperator := by
    have htexts : ∀ p ∈ preorderAll (list "ElemMatch"),
        p.operator.text? = none ∨ p.operator.text? = some "ElemMatch" := by
      decide
    intro p hp s hs
    rcases htexts p hp with h | h
    · exact nomatch h.symm.trans hs
    · obtain rfl := Option.some.inj (h.symm.trans hs)
      decide
  have hcased : List.Forall₂ Respelled (list "ElemMatch") (list "ELEMMATCH") := by
    have htags : ∀ p : Predicate, p.operator = .text "ElemMatch" →
        Respelled p { p with operator := .text "ELEMMATCH" } := fun p hp =>
      respelled_of_same_group (.cased (congrArg Value.text? hp) (by decide)) rfl
        fun g _ => .refl g
    have hnested : ∀ gs hs : List Predicate, List.Forall₂ Respelled gs hs →
        Respelled (nested gs) (nested hs) := fun gs _ h =>
      .node (p := nested gs) (q := nested gs) .same h
    refine .cons (hnested _ _ ?_) (.cons (.refl _) .nil)
    exact .cons (.refl _) (.cons (htags _ rfl) .nil)
  have h : compileFilter (list "ElemMatch") = .ok doc := rfl
  obtain ⟨hcanonical, hall⟩ := compileFilter_respelled hascii h
  exact ⟨hascii, h, hcased, hall _ hcased, hcanonical⟩

end DocQuery
