import DocQuery.Filter.Merge
import DocQuery.Proofs.Value.Updates

/-!
# Documents whose clauses cannot be combined

`Clause.Normal cs`: no clause of `cs` can be combined with a later one. Clauses that can be combined
are of one class (`coherent_combine`), so that a document stays normal when further clauses join it
(`normal_foldl_addTo`), and clauses that are so make up a document as they are
(`foldl_addTo_nil_of_normal`).
-/

namespace DocQuery.Clause
variable {c d joined : Clause} {cs ds : List Clause}

/-- No clause can be combined with a later one. -/
def Normal (cs : List Clause) : Prop :=
  cs.Pairwise fun c d => c.combine d = none

/-- The operators of a test are there once each. -/
def HasDistinctOperators : Clause → Prop
  | tests _ operators => operators.Distinct
  | _ => True

theorem normal_single (c : Clause) : Normal [c] :=
  List.pairwise_singleton _ _

theorem combine_none_comm (h : c.combine d = none) : d.combine c = none := by
  cases c <;> cases d <;> simp_all [combine, Value.sameKey_comm]

/-- A combined clause goes with the same clauses as either of its parts. -/
theorem combine_congr (h : c.combine d = some joined) (e : Clause) :
    (joined.combine e = none ↔ c.combine e = none) ∧
      (d.combine e = none ↔ c.combine e = none) := by
  revert h
  fun_cases combine c d with
  | case1 cs ds => rintro ⟨⟩; cases e <;> simp [combine]
  | case2 cs ds => rintro ⟨⟩; cases e <;> simp [combine]
  | case3 f ops g more hfg =>
    rintro ⟨⟩
    cases e <;> simp [combine, Value.sameKey_congr hfg]
  | case4 => rintro ⟨⟩
  | case5 => rintro ⟨⟩

theorem coherent_combine : Coherent combine HasDistinctOperators where
  symm := combine_none_comm
  left h e := (combine_congr h e).1
  right h e := (combine_congr h e).2
  keeps := by
    intro c d joined hc h
    revert h
    fun_cases combine c d with
    | case1 | case2 => rintro ⟨⟩; trivial
    | case3 f ops g more hfg => rintro ⟨⟩; exact Entries.distinct_update hc more
    | case4 | case5 => rintro ⟨⟩
  assoc := by
    intro c d e x y hd hx hy
    revert hx hy
    fun_cases combine c d with
    | case1 | case2 => rintro ⟨⟩; cases e <;> rintro ⟨⟩; simp [combine]
    | case3 f ops g more hfg =>
      rintro ⟨⟩
      cases e with
      | tests h most =>
        intro hy
        by_cases hgh : g.sameKey h = true
        · obtain rfl : tests g (more.update most) = y := by simpa [combine, hgh] using hy
          have hfh : f.sameKey h = true := by rw [Value.sameKey_congr hfg, hgh]
          simp only [combine, hfg, hfh, if_true, Entries.update_update hd]
        · simp [combine, hgh] at hy
      | _ => rintro ⟨⟩
    | case4 | case5 => rintro ⟨⟩

theorem addTo_eq : addTo = addJoining combine := by
  funext ds c
  induction ds with
  | nil => rfl
  | cons d ds ih =>
    rw [addTo, addJoining, ih]
    cases d.combine c <;> rfl

theorem normal_foldl_addTo (h : Normal ds) (cs : List Clause) : Normal (cs.foldl addTo ds) := by
  rw [addTo_eq]
  exact coherent_combine.apart_foldl_addJoining h cs

theorem foldl_addTo_nil_of_normal (h : Normal cs) : cs.foldl addTo [] = cs := by
  rw [addTo_eq]
  exact foldl_addJoining_of_apart_append h

/-- The clauses after joining a list of clauses to those of a document. -/
def joinAll (ds cs : List Clause) : List Clause :=
  cs.foldl (fun ds c => c.clauses.foldl addTo ds) ds

theorem foldl_join (cs ds : List Clause) :
    cs.foldl join (document ds) = document (joinAll ds cs) := by
  induction cs generalizing ds with
  | nil => rfl
  | cons c cs ih => exact ih _

theorem normal_joinAll (h : Normal ds) (cs : List Clause) : Normal (joinAll ds cs) := by
  induction cs generalizing ds with
  | nil => exact h
  | cons c cs ih => exact ih (normal_foldl_addTo h c.clauses)

end DocQuery.Clause
