import DocQuery.Predicate.Canonical
import DocQuery.Proofs.Message
import DocQuery.Proofs.Predicate.Meaning

/-!
# What a predicate is refused for

Predicates whose fields have the declared types (`Predicate.WellTyped`) are refused for an unknown
kind, for a column or an operand that they lack (`Predicate.IsMalformed`), or for a pattern that
cannot be written as text (`Predicate.HasUnwritablePattern`). A predicate has one defect at most,
and so has a list: that of its first predicate with one (`FirstDefect.unique`).

`Predicate.Outcome` says of a computation that it stands for some predicates in order, so that it
fails with the first defect of these if there is one. Computations that follow each other stand for
the predicates of both (`Outcome.bind`).
-/

namespace DocQuery

/-- If the value is a time, it is one of the years 1 to 9999. -/
def Value.HasInstant (v : Value) : Prop :=
  ∀ t, v = .dateTime t → DateTime.earliest ≤ t.instant ∧ t.instant ≤ DateTime.latest

namespace Predicate

/-- The fields have their declared types, and no operand is a time without an instant. -/
structure WellTyped (p : Predicate) : Prop where
  column : p.column = .null ∨ p.column.isText = true
  operator : p.operator = .null ∨ p.operator.isText = true
  value : p.value.HasInstant
  values : p.values = .null ∨ ∃ vs, p.values = .list vs ∧ ∀ v ∈ vs, v.HasInstant
  document : p.document = .null ∨ ∃ es, p.document = .map es

def HasKind (p : Predicate) (k : Kind) : Prop :=
  p.kind.text? = some k.text

def LacksColumn (p : Predicate) : Prop :=
  p.column = .null ∨ p.column = .text ""

/-- The operand that the kind needs is not there. -/
def LacksOperand (p : Predicate) : Kind → Prop
  | .among | .notAmong => p.values = .null
  | .between => p.values = .null ∨ ∃ vs, p.values = .list vs ∧ vs.length ≠ 2
  | .raw => p.document = .null
  | .basic | .null | .notNull | .nested => False

inductive IsMalformed (p : Predicate) : Prop
  | kind (h : ∀ k, ¬ p.HasKind k)
  | column (k : Kind) (hk : p.HasKind k) (hcol : k.hasColumn = true) (h : p.LacksColumn)
  | operand (k : Kind) (hk : p.HasKind k) (h : p.LacksOperand k)

/-- The test matches a pattern with wildcards, which is the text of its operand. -/
def takesText : PatternTest → Bool
  | .like | .notLike => true
  | .regex | .notRegex => false

/-- The operand of a predicate in canonical form is to be a text, and has none. -/
def lacksText (q : Predicate) : Bool :=
  (patternTest? q.operator).any takesText && !q.value.isWritable

/-- An integer in the operand has too many digits for the text that the pattern is made of. -/
structure HasUnwritablePattern (p : Predicate) : Prop where
  basic : p.HasKind .basic
  lacksText : ∃ q, p.canonical .basic = .ok q ∧ q.lacksText = true

/-- What stands in the way of a clause for the predicate. -/
def IsRefused (p : Predicate) : Prop :=
  p.IsMalformed ∨ p.HasUnwritablePattern

/-- The error for a missing operand shows the predicate in its canonical form. -/
def operandError (q : Predicate) : Kind → Malformed
  | .between => .badBounds q.negated.truthy q.values
  | .raw => .missingDocument q
  | _ => .missingValues q

/-- What a predicate is refused for: its kind, else its column, else its operand. -/
inductive Defect (p : Predicate) : Fault → Prop
  | kind (h : ∀ k, ¬ p.HasKind k) : Defect p (Malformed.unknownKind p.kind).fault
  | column (k : Kind) (hk : p.HasKind k) (hcol : k.hasColumn = true) (h : p.LacksColumn) :
      Defect p (Malformed.missingColumn p).fault
  | operand (k : Kind) (q : Predicate) (hk : p.HasKind k)
      (hcol : k.hasColumn = true → ¬ p.LacksColumn) (hq : p.canonical k = .ok q)
      (h : p.LacksOperand k) : Defect p (q.operandError k).fault
  | pattern (h : p.HasUnwritablePattern) : Defect p .badValue

/-- The defect of the first predicate of a list that is refused. -/
inductive FirstDefect : List Predicate → Fault → Prop
  | here {p : Predicate} {ps : List Predicate} {fault : Fault} (h : p.Defect fault) :
      FirstDefect (p :: ps) fault
  | later {p : Predicate} {ps : List Predicate} {fault : Fault} (hp : ¬ p.IsRefused)
      (h : FirstDefect ps fault) : FirstDefect (p :: ps) fault

variable {p q : Predicate} {ps qs : List Predicate} {k l : Kind} {fault fault' : Fault}

theorem Kind.text_injective : Function.Injective Kind.text := by
  intro k l h
  have hk := Kind.ofText?_text k
  rw [h, Kind.ofText?_text] at hk
  exact (Option.some.inj hk).symm

theorem HasKind.unique (hk : p.HasKind k) (hl : p.HasKind l) : k = l :=
  Kind.text_injective (Option.some.inj (hk.symm.trans hl))

theorem kind?_eq_ok_iff : p.kind? = .ok k ↔ p.HasKind k := by
  rw [kind?, HasKind]
  cases ht : p.kind.text? with
  | none => simp
  | some s =>
    rw [Option.bind_some, Option.some.injEq, ← Kind.ofText?_eq_some_iff]
    cases Kind.ofText? s <;> simp

theorem kind?_of_forall_not (h : ∀ k, ¬ p.HasKind k) :
    p.kind? = .error (Malformed.unknownKind p.kind).fault := by
  cases hk : p.kind? with
  | ok k => exact absurd (kind?_eq_ok_iff.mp hk) (h k)
  | error fault =>
    rw [kind?] at hk
    split at hk
    · exact nomatch hk
    · exact hk.symm

theorem not_lacksColumn_of_canonical (hcol : k.hasColumn = true) (hq : p.canonical k = .ok q) :
    ¬ p.LacksColumn := by
  have htruthy := (canonical_eq_ok_iff.mp hq).1
  rw [hcol, Bool.true_and, Bool.not_eq_false'] at htruthy
  rintro (h | h) <;> exact nomatch htruthy.symm.trans (congrArg Value.truthy h)

theorem Defect.isRefused (h : p.Defect fault) : p.IsRefused := by
  cases h with
  | kind h => exact .inl (.kind h)
  | column k hk hcol h => exact .inl (.column k hk hcol h)
  | operand k q hk _ _ h => exact .inl (.operand k hk h)
  | pattern h => exact .inr h

theorem Defect.unique (h : p.Defect fault) (h' : p.Defect fault') : fault = fault' := by
  cases h with
  | kind h =>
    cases h' with
    | kind => rfl
    | column k hk | operand k _ hk => exact absurd hk (h k)
    | pattern h' => exact absurd h'.basic (h _)
  | column k hk hcol h =>
    cases h' with
    | kind h' => exact absurd hk (h' k)
    | column => rfl
    | operand l q hl hcol' =>
      obtain rfl := hk.unique hl
      exact absurd h (hcol' hcol)
    | pattern h' =>
      obtain rfl := hk.unique h'.basic
      obtain ⟨q, hq, -⟩ := h'.lacksText
      exact absurd h (not_lacksColumn_of_canonical rfl hq)
  | operand k q hk hcol hq h =>
    cases h' with
    | kind h' => exact absurd hk (h' k)
    | column l hl hcol' h' =>
      obtain rfl := hk.unique hl
      exact absurd h' (hcol hcol')
    | operand l q' hl _ hq' =>
      obtain rfl := hk.unique hl
      rw [Except.ok.inj (hq.symm.trans hq')]
    | pattern h' =>
      obtain rfl := hk.unique h'.basic
      exact h.elim
  | pattern h =>
    cases h' with
    | kind h' => exact absurd h.basic (h' _)
    | column l hl hcol' h' =>
      obtain rfl := hl.unique h.basic
      obtain ⟨q, hq, -⟩ := h.lacksText
      exact absurd h' (not_lacksColumn_of_canonical rfl hq)
    | operand l q' hl _ _ h' =>
      obtain rfl := hl.unique h.basic
      exact h'.elim
    | pattern => rfl

theorem FirstDefect.exists_isRefused (h : FirstDefect ps fault) : ∃ p ∈ ps, p.IsRefused := by
  induction h with
  | here h => exact ⟨_, by simp, h.isRefused⟩
  | later _ _ ih =>
    obtain ⟨p, hp, h⟩ := ih
    exact ⟨p, by simp [hp], h⟩

theorem FirstDefect.unique (h : FirstDefect ps fault) (h' : FirstDefect ps fault') :
    fault = fault' := by
  induction h with
  | here h =>
    cases h' with
    | here h' => exact h.unique h'
    | later hp => exact absurd h.isRefused hp
  | later hp _ ih =>
    cases h' with
    | here h' => exact absurd h'.isRefused hp
    | later _ h' => exact ih h'

theorem FirstDefect.append (h : FirstDefect ps fault) (qs : List Predicate) :
    FirstDefect (ps ++ qs) fault := by
  induction h with
  | here h => exact .here h
  | later hp _ ih => exact .later hp ih

theorem FirstDefect.append_left (hps : ∀ p ∈ ps, ¬ p.IsRefused) (h : FirstDefect qs fault) :
    FirstDefect (ps ++ qs) fault := by
  induction ps with
  | nil => exact h
  | cons p ps ih => exact .later (hps p (by simp)) (ih fun p hp => hps p (by simp [hp]))

variable {α β : Type}

/-- The computation has a result if none of the predicates is refused, and else the defect of the
first one that is. -/
inductive Outcome (ps : List Predicate) : Except Fault α → Prop
  | ok (a : α) (h : ∀ p ∈ ps, ¬ p.IsRefused) : Outcome ps (.ok a)
  | error (fault : Fault) (h : FirstDefect ps fault) : Outcome ps (.error fault)

variable {x : Except Fault α}

theorem Outcome.firstDefect (h : Outcome ps (.error fault : Except Fault α)) :
    FirstDefect ps fault := by
  cases h with
  | error _ h => exact h

theorem Outcome.eq_error (hx : Outcome ps x) (h : FirstDefect ps fault) : x = .error fault := by
  cases hx with
  | ok a hnone =>
    obtain ⟨p, hp, hrefused⟩ := h.exists_isRefused
    exact absurd hrefused (hnone p hp)
  | error fault' h' => rw [h'.unique h]

theorem Outcome.bind {f : α → Except Fault β} (hx : Outcome ps x)
    (hf : ∀ a, x = .ok a → Outcome qs (f a)) : Outcome (ps ++ qs) (x >>= f) := by
  cases hx with
  | error fault h => exact .error fault (h.append qs)
  | ok a h =>
    show Outcome (ps ++ qs) (f a)
    cases hfa : f a with
    | ok b =>
      refine .ok b fun p hp => ?_
      rcases List.mem_append.mp hp with hp | hp
      · exact h p hp
      · cases hfa ▸ hf a rfl with
        | ok _ h => exact h p hp
    | error fault =>
      cases hfa ▸ hf a rfl with
      | error _ hfirst => exact .error fault (.append_left h hfirst)

theorem Outcome.and_then {f : α → Except Fault β} (hx : Outcome ps x)
    (hf : ∀ a, x = .ok a → ∃ b, f a = .ok b) : Outcome ps (x >>= f) := by
  have hnil : ∀ a, x = .ok a → Outcome [] (f a) := by
    intro a ha
    obtain ⟨b, hb⟩ := hf a ha
    exact hb ▸ .ok b (by simp)
  simpa using hx.bind hnil

theorem Outcome.cons_of_not (hp : ¬ p.IsRefused) (hx : Outcome ps x) : Outcome (p :: ps) x := by
  cases hx with
  | ok a h => exact .ok a (List.forall_mem_cons.mpr ⟨hp, h⟩)
  | error fault h => exact .error fault (.later hp h)

end Predicate

end DocQuery
