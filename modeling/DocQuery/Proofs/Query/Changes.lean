import Mathlib.Logic.Relation
import DocQuery.Proofs.Fallible
import DocQuery.Proofs.Query.Running

/-!
# What a step changes

`Query.Change` lists the changes of a query that steps are made of, one for each part of a query,
with what is known of the part afterwards. Whatever a step does, and also where it fails, it leaves
the query after some of them (`changes_run`), so that an invariant of queries has to be shown of
these changes only.
-/

namespace DocQuery

namespace Refined
variable {I : Query → Prop} {q : Query}

/-- What holds of a query and of the result of a step holds also where the step fails. -/
theorem query_ofExcept {x : Except Fault Query} (h : I q) (hx : ∀ q', x = .ok q' → I q') :
    I (ofExcept q x).query := by
  cases x with
  | error fault => exact h
  | ok changed => exact hx changed rfl

theorem query_ofExcept_bind {α : Type} {x : Except Fault α} {f : α → Query} (h : I q)
    (hf : ∀ a, I (f a)) : I (ofExcept q (x >>= fun a => pure (f a))).query := by
  refine query_ofExcept h fun q' hq' => ?_
  obtain ⟨a, -, hq'⟩ := bind_eq_ok_iff.mp hq'
  exact pure_eq_ok_iff.mp hq' ▸ hf a

end Refined

theorem Query.exists_of_project {q q' : Query} {projections : Value}
    (h : q.project projections = .ok q') : ∃ es, q' = { q with projections := es } := by
  unfold Query.project at h
  split at h
  · cases h
    exact ⟨_, rfl⟩
  · obtain ⟨ks, -, h⟩ := bind_eq_ok_iff.mp h
    obtain ⟨es, -, h⟩ := bind_eq_ok_iff.mp h
    cases h
    exact ⟨es, rfl⟩

namespace Query

/-- A change of one part of a query. -/
inductive Change : Query → Query → Prop
  | fresh (q : Query) : Change q q.fresh
  | predicates (q : Query) (ps : List Predicate) : Change q { q with predicates := ps }
  | columns (q : Query) (cs : Option (List Value)) : Change q { q with columns := cs }
  | groups (q : Query) (vs : List Value) : Change q { q with groups := vs }
  /-- An aggregate is there only while it is accumulated. -/
  | aggregate (q : Query) : Change q { q with aggregate := none }
  | orders (q : Query) (column direction : Value) :
      Change q { q with orders := q.orders.insert column direction }
  | offset (q : Query) (v : Value) (h : v.isNonNegative = .ok true) :
      Change q { q with offset := v }
  | limit (q : Query) (v : Value) (h : v.isNonNegative = .ok true) : Change q { q with limit := v }
  | distinct (q : Query) (b : Bool) : Change q { q with distinct := b }
  | projections (q : Query) (es : Entries) : Change q { q with projections := es }
  | options (q : Query) (es : Entries) : Change q { q with options := es }
  | paginating (q : Query) (b : Bool) : Change q { q with paginating := b }
  | timeout (q : Query) (v : Value) : Change q { q with timeout := v }

/-- Some changes, one after the other. -/
abbrev Changes : Query → Query → Prop :=
  Relation.ReflTransGen Change

namespace Changes
variable {q₀ q q' : Query}

theorem addPredicate (h : Changes q₀ q) (p : Predicate) : Changes q₀ (q.addPredicate p) :=
  h.tail (.predicates q _)

theorem addGroup (h : Changes q₀ q) (ps : List Predicate) (connective : Value) :
    Changes q₀ (q.addGroup ps connective) := by
  unfold Query.addGroup
  split
  · exact h
  · exact h.addPredicate _

theorem isNonNegative_of_atLeastZero {v w : Value} (h : v.atLeastZero = .ok w) :
    w.isNonNegative = .ok true := by
  obtain ⟨sign, hsign, h⟩ := bind_eq_ok_iff.mp h
  split at h <;> rw [pure_eq_ok_iff] at h <;> subst h
  · next hgt =>
    subst hgt
    exact bind_eq_ok_iff.mpr ⟨_, hsign, rfl⟩
  · rfl

theorem skip {count : Value} (h : Changes q₀ q) (hs : q.skip count = .ok q') : Changes q₀ q' := by
  obtain ⟨v, hv, hs⟩ := bind_eq_ok_iff.mp hs
  rw [pure_eq_ok_iff] at hs
  subst hs
  exact h.tail (.offset q v (isNonNegative_of_atLeastZero hv))

theorem take {count : Value} (h : Changes q₀ q) (ht : q.take count = .ok q') : Changes q₀ q' := by
  obtain ⟨isSet, hset, ht⟩ := bind_eq_ok_iff.mp ht
  split at ht <;> rw [pure_eq_ok_iff] at ht <;> subst ht
  · next hisSet =>
    subst hisSet
    exact h.tail (.limit q count hset)
  · exact h

theorem orderBy {column direction : Value} (h : Changes q₀ q)
    (ho : q.orderBy column direction = .ok q') : Changes q₀ q' := by
  obtain ⟨-, -, ho⟩ := bind_eq_ok_iff.mp ho
  rw [pure_eq_ok_iff] at ho
  subst ho
  exact h.tail (.orders q _ _)

theorem project {projections : Value} (h : Changes q₀ q) (hp : q.project projections = .ok q') :
    Changes q₀ q' := by
  obtain ⟨es, rfl⟩ := exists_of_project hp
  exact h.tail (.projections q es)

/-- A page stays paged even where it cannot be reckoned. -/
theorem page (h : Changes q₀ q) (number perPage : Value) :
    Changes q₀ (q.page number perPage).query := by
  have hpaged : Changes q₀ { q with paginating := true } := h.tail (.paginating q true)
  refine Refined.query_ofExcept hpaged fun q' hq' => ?_
  obtain ⟨offset, -, hq'⟩ := bind_eq_ok_iff.mp hq'
  obtain ⟨skipped, hskip, htake⟩ := bind_eq_ok_iff.mp hq'
  exact (hpaged.skip hskip).take htake

theorem selectDistinct (h : Changes q₀ q) (column : Value) :
    Changes q₀ (q.selectDistinct column) := by
  have hdistinct : Changes q₀ { q with distinct := true } := h.tail (.distinct q true)
  exact hdistinct.tail (.columns _ _)

theorem apply (h : Changes q₀ q) (r : Refinement) : Changes q₀ (r.apply q).query := by
  cases r with
  | select columns => exact Refined.query_ofExcept_bind h fun _ => h.tail (.columns q _)
  | project projections => exact Refined.query_ofExcept h fun _ hq' => h.project hq'
  | timeout milliseconds => exact h.tail (.timeout q _)
  | options given => exact Refined.query_ofExcept_bind h fun _ => h.tail (.options q _)
  | distinct column => exact h.selectDistinct column
  | groupBy columns => exact h.tail (.groups q _)
  | orderBy column direction => exact Refined.query_ofExcept h fun _ hq' => h.orderBy hq'
  | skip count => exact Refined.query_ofExcept h fun _ hq' => h.skip hq'
  | take count => exact Refined.query_ofExcept h fun _ hq' => h.take hq'
  | page number perPage => exact h.page number perPage
  | test column operator value connective =>
    cases column with
    | map es => exact h.addGroup _ _
    | _ => exact h.addPredicate _
  | among column values connective negated =>
    exact Refined.query_ofExcept_bind h fun p => h.addPredicate p
  | null column connective negated => exact h.addPredicate _
  | between column values connective negated =>
    exact Refined.query_ofExcept_bind h fun p => h.addPredicate p
  | raw document connective => exact Refined.query_ofExcept_bind h fun _ => h.addPredicate _
  | group steps connective =>
    rw [Refinement.apply]
    split
    · exact h
    · exact h.addGroup _ _
  | groupFrom callback => exact h
  | ask question => exact h

end Changes

open Run

variable {r : Replies} {q₀ : Query}

/-- The query of the session is reached by changes; nothing is said of its calls. -/
abbrev ChangedSession (q₀ : Query) : Session Query → Prop :=
  Upholds (Changes q₀) fun _ => True

theorem changes_rows (columns : Value) : Keeps (ChangedSession q₀) (Read.rows r columns) :=
  Read.keeps_rows trivial fun _ _ _ _ => trivial

theorem changes_firstRow (columns : Value) : Keeps (ChangedSession q₀) (Read.firstRow r columns) :=
  Read.keeps_firstRow trivial (fun _ _ _ _ => trivial) fun _ _ hq ht => hq.take ht

/-- Accumulating takes the aggregate back, also where it fails. -/
theorem changes_accumulate (function columns : Value) :
    Keeps (ChangedSession q₀) (Read.accumulate r function columns) := by
  refine keeps_bind (keeps_orFail _) fun vs => ?_
  refine upholds_change (J := fun q => Changes q₀ { q with aggregate := none })
    (fun q hq => hq.tail (.aggregate q)) fun q _ => ?_
  refine .bind (.andThen ?_) fun _ => keeps_orFail _
  exact (Read.keeps_rows trivial fun _ _ _ _ => trivial).weaken (fun _ hs => hs)
    (fun _ _ hs => ⟨hs.1.tail (.columns _ _), hs.2⟩) fun _ hs => ⟨hs.1.tail (.columns _ _), hs.2⟩

theorem changes_read (what : Read) : Keeps (ChangedSession q₀) (what.run r) := by
  cases what with
  | get columns => exact keeps_bind (changes_rows _) fun _ => keeps_pure _
  | first columns => exact changes_firstRow columns
  | find id columns =>
    exact upholds_change (fun q hq => hq.addPredicate _) fun _ _ => changes_firstRow columns
  | value column =>
    refine keeps_bind (changes_firstRow _) fun row => ?_
    split
    · exact keeps_orFail _
    · exact keeps_pure _
  | any => exact keeps_bind (changes_firstRow _) fun _ => keeps_pure _
  | pluck column key => exact keeps_bind (changes_rows _) fun _ => keeps_orFail _
  | aggregate function columns => exact changes_accumulate function columns
  | count column =>
    exact keeps_bind (changes_accumulate _ _) fun _ => keeps_bind (keeps_orFail _) fun _ =>
      keeps_pure _

theorem keeps_write {I : Query → Prop} (hI : ∀ q ps, I q → I { q with predicates := ps })
    (what : Write) : Keeps (Upholds I fun _ => True) (what.run r) := by
  intro s hs
  have hafter : I (what.after s.subject) := by
    obtain ⟨ps, hps⟩ := what.exists_after_eq s.subject
    exact hps ▸ hI _ ps hs.1
  exact (Write.has_run what).weaken (fun _ h => h) (fun _ t ht => ⟨ht.1 ▸ hafter, ht.2⟩)
    (fun t ht => ⟨ht.1 ▸ hafter, ht.2⟩) s ⟨rfl, hs.2⟩

/-- A question leaves the query as it is, unless it is for a fresh one. -/
theorem keeps_inspect {I : Query → Prop} (hI : ∀ q, I q → I q.fresh) (question : Inspection) :
    Keeps (Upholds I fun _ => True) (Step.inspectQuery question) := by
  refine keeps_subject_bind fun q hq => ?_
  cases question with
  | predicates | collection => exact keeps_pure _
  | filter | shape | plan | cacheKey => exact keeps_bind (keeps_orFail _) fun _ => keeps_pure _
  | fresh => exact .bind (upholds_setSubject (hI q hq)) fun _ => keeps_pure _
  | collectionMember name =>
    dsimp only
    split
    · exact keeps_pure _
    · exact keeps_throw _
  | collectionBy callback =>
    dsimp only
    split
    · exact keeps_pure _
    · exact keeps_throw _

theorem changes_refine (change : Refinement) :
    Keeps (ChangedSession q₀) (Step.refineQuery change) := by
  refine upholds_change (fun q hq => hq.apply change) fun q _ => ?_
  split
  · exact keeps_throw _
  · exact keeps_pure _

theorem changes_action (step : Step) : Keeps (ChangedSession q₀) (step.action r) := by
  cases step with
  | refine change => exact changes_refine change
  | inspect question => exact keeps_inspect (fun q hq => hq.tail (.fresh q)) question
  | read what => exact keeps_bind (changes_read what) fun _ => keeps_pure _
  | write what =>
    exact keeps_bind (keeps_write (fun q _ hq => hq.tail (.predicates q _)) what) fun _ =>
      keeps_pure _

/-- Whatever a step does, it leaves the query after some changes. -/
theorem changes_run (step : Step) (r : Replies) (q : Query) :
    Changes q (step.run r q).session.subject :=
  (Step.session_of_triple (changes_action step) (upholds_start .refl)).1

end Query

end DocQuery
