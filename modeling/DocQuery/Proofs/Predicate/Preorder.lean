import DocQuery.Predicate.Canonical

/-!
# The predicates of a tree

`Predicate.preorderAll ps`: the predicates of a list and those that are reached from it through
nested ones, depth first and from left to right. `Predicate.of_groups` is the induction over a tree
of predicates.
-/

namespace DocQuery

namespace Predicate

mutual

/-- The predicate and, if it is nested, those that it leads to. -/
def preorder : Predicate → List Predicate
  | ⟨kind, column, operator, value, values, connective, negated, group, document⟩ =>
    let p : Predicate :=
      ⟨kind, column, operator, value, values, connective, negated, group, document⟩
    p :: match p.kind? with
      | .ok .nested => preorderAll group
      | _ => []
termination_by structural p => p

def preorderAll : List Predicate → List Predicate
  | [] => []
  | p :: ps => p.preorder ++ preorderAll ps
termination_by structural ps => ps

end

variable {p q : Predicate} {ps : List Predicate}

theorem preorder_eq (p : Predicate) :
    p.preorder = p :: match p.kind? with
      | .ok .nested => preorderAll p.group
      | _ => [] := by
  cases p
  rw [preorder]

theorem preorder_of_nested (h : p.kind? = .ok .nested) :
    p.preorder = p :: preorderAll p.group := by
  rw [preorder_eq, h]

theorem preorder_of_ne_nested (h : p.kind? ≠ .ok .nested) : p.preorder = [p] := by
  rw [preorder_eq]
  split
  · next hk => exact absurd hk h
  · rfl

theorem self_mem_preorder (p : Predicate) : p ∈ p.preorder := by
  rw [preorder_eq]
  exact List.mem_cons_self ..

theorem mem_preorderAll_iff : q ∈ preorderAll ps ↔ ∃ p ∈ ps, q ∈ p.preorder := by
  induction ps with
  | nil => simp [preorderAll]
  | cons p ps ih => simp [preorderAll, ih]

theorem mem_preorder_of_group (h : p.kind? = .ok .nested) (hq : q ∈ preorderAll p.group) :
    q ∈ p.preorder := by
  rw [preorder_of_nested h]
  exact List.mem_cons_of_mem p hq

variable {motive : Predicate → Prop}

mutual

/-- What holds of a predicate whenever it holds of its group holds of every predicate. -/
theorem of_groups (step : ∀ p : Predicate, (∀ q ∈ p.group, motive q) → motive p) :
    ∀ p : Predicate, motive p
  | ⟨_, _, _, _, _, _, _, group, _⟩ => step _ (forall_mem_of_groups step group)
termination_by structural p => p

theorem forall_mem_of_groups (step : ∀ p : Predicate, (∀ q ∈ p.group, motive q) → motive p) :
    ∀ ps : List Predicate, ∀ q ∈ ps, motive q
  | [] => by simp
  | p :: ps => List.forall_mem_cons.mpr ⟨of_groups step p, forall_mem_of_groups step ps⟩
termination_by structural ps => ps

end

end Predicate

end DocQuery
