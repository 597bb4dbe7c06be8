import Mathlib.Data.List.Forall2

/-!
# Lists to which items are added by joining

`addJoining join as b` puts `b` in the place of the first item of `as` that it can be joined with,
or at the end. Where items that can be joined are of one class and joining is associative
(`Coherent`), adding item by item is associative too, as long as no items in the middle can be
joined with each other (`Apart`): `Coherent.foldl_addJoining_assoc`. Two ways of joining that go
together on related items (`Tracks`) give related lists.
-/

namespace DocQuery

variable {α : Type} {join : α → α → Option α} {P : α → Prop} {a b c d : α} {as bs cs : List α}

/-- Adds an item, joined with the first one that it can be joined with, or else at the end. -/
def addJoining (join : α → α → Option α) : List α → α → List α
  | [], b => [b]
  | a :: as, b => match join a b with
    | some c => c :: as
    | none => a :: addJoining join as b

/-- No item can be joined with a later one. -/
def Apart (join : α → α → Option α) (as : List α) : Prop :=
  as.Pairwise fun a b => join a b = none

/-- Items that can be joined are of one class, and stay in it. Joining is associative where the item
in the middle has a property, which joining keeps. -/
structure Coherent (join : α → α → Option α) (P : α → Prop) : Prop where
  symm : ∀ {a b}, join a b = none → join b a = none
  left : ∀ {a b c}, join a b = some c → ∀ d, join c d = none ↔ join a d = none
  right : ∀ {a b c}, join a b = some c → ∀ d, join b d = none ↔ join a d = none
  keeps : ∀ {a b c}, P a → join a b = some c → P c
  assoc : ∀ {a b c d e}, P b → join a b = some d → join b c = some e → join d c = join a e

theorem addJoining_cons_of_some {c : α} (h : join a b = some c) (as : List α) :
    addJoining join (a :: as) b = c :: as := by
  rw [addJoining, h]

theorem addJoining_cons_of_none (h : join a b = none) (as : List α) :
    addJoining join (a :: as) b = a :: addJoining join as b := by
  rw [addJoining, h]

theorem addJoining_of_forall_none (h : ∀ a ∈ as, join a b = none) :
    addJoining join as b = as ++ [b] := by
  induction as with
  | nil => rfl
  | cons a as ih =>
    rw [addJoining_cons_of_none (h a (by simp)), ih fun d hd => h d (by simp [hd])]
    rfl

/-- An item of the list after an addition was there, is the added one, or is a joined one. -/
theorem mem_addJoining (h : d ∈ addJoining join as b) :
    d ∈ as ∨ d = b ∨ ∃ a ∈ as, join a b = some d := by
  induction as with
  | nil => exact .inr (.inl (List.mem_singleton.mp h))
  | cons a as ih =>
    cases hab : join a b with
    | some c =>
      rw [addJoining_cons_of_some hab] at h
      rcases List.mem_cons.mp h with rfl | h
      · exact .inr (.inr ⟨a, by simp, hab⟩)
      · exact .inl (by simp [h])
    | none =>
      rw [addJoining_cons_of_none hab] at h
      rcases List.mem_cons.mp h with rfl | h
      · exact .inl (by simp)
      · rcases ih h with h | h | ⟨e, he, h⟩
        · exact .inl (by simp [h])
        · exact .inr (.inl h)
        · exact .inr (.inr ⟨e, by simp [he], h⟩)

theorem foldl_addJoining_of_apart_append (h : Apart join (as ++ bs)) :
    bs.foldl (addJoining join) as = as ++ bs := by
  induction bs generalizing as with
  | nil => simp
  | cons b bs ih =>
    have hb : ∀ a ∈ as, join a b = none := fun a ha =>
      (List.pairwise_append.mp h).2.2 a ha b (by simp)
    rw [List.foldl_cons, addJoining_of_forall_none hb, ih (by simpa using h)]
    simp

namespace Coherent
variable (hj : Coherent join P)
include hj

theorem none_comm : join a b = none ↔ join b a = none :=
  ⟨hj.symm, hj.symm⟩

theorem apart_addJoining (h : Apart join as) (b : α) : Apart join (addJoining join as b) := by
  induction as with
  | nil => exact List.pairwise_singleton _ _
  | cons a as ih =>
    obtain ⟨ha, has⟩ := List.pairwise_cons.mp h
    cases hab : join a b with
    | some c =>
      rw [addJoining_cons_of_some hab]
      exact List.pairwise_cons.mpr ⟨fun d hd => (hj.left hab d).mpr (ha d hd), has⟩
    | none =>
      rw [addJoining_cons_of_none hab]
      refine List.pairwise_cons.mpr ⟨fun d hd => ?_, ih has⟩
      rcases mem_addJoining hd with hd | rfl | ⟨e, he, hd⟩
      · exact ha d hd
      · exact hab
      · rw [hj.none_comm, hj.left hd, hj.none_comm]
        exact ha e he

theorem apart_foldl_addJoining (h : Apart join as) (bs : List α) :
    Apart join (bs.foldl (addJoining join) as) := by
  induction bs generalizing as with
  | nil => exact h
  | cons b bs ih => exact ih (hj.apart_addJoining h b)

theorem forall_addJoining (h : ∀ a ∈ as, P a) (hb : P b) : ∀ a ∈ addJoining join as b, P a := by
  intro d hd
  rcases mem_addJoining hd with hd | rfl | ⟨a, ha, hd⟩
  · exact h d hd
  · exact hb
  · exact hj.keeps (h a ha) hd

theorem exists_join_addJoining_self (h : join b c ≠ none) (as : List α) :
    ∃ a ∈ addJoining join as b, join a c ≠ none := by
  induction as with
  | nil => exact ⟨b, List.mem_singleton_self b, h⟩
  | cons a as ih =>
    cases hab : join a b with
    | some d =>
      rw [addJoining_cons_of_some hab]
      refine ⟨d, List.mem_cons_self, fun hdc => h ?_⟩
      rw [hj.right hab, ← hj.left hab]
      exact hdc
    | none =>
      obtain ⟨d, hd, hdc⟩ := ih
      rw [addJoining_cons_of_none hab]
      exact ⟨d, List.mem_cons_of_mem a hd, hdc⟩

theorem exists_join_addJoining (h : ∃ a ∈ as, join a c ≠ none) (b : α) :
    ∃ a ∈ addJoining join as b, join a c ≠ none := by
  obtain ⟨d, hd, hdc⟩ := h
  induction as with
  | nil => exact absurd hd List.not_mem_nil
  | cons a as ih =>
    cases hab : join a b with
    | some e =>
      rw [addJoining_cons_of_some hab]
      rcases List.mem_cons.mp hd with rfl | hd
      · exact ⟨e, List.mem_cons_self, mt (hj.left hab c).mp hdc⟩
      · exact ⟨d, List.mem_cons_of_mem e hd, hdc⟩
    | none =>
      rw [addJoining_cons_of_none hab]
      rcases List.mem_cons.mp hd with rfl | hd
      · exact ⟨d, List.mem_cons_self, hdc⟩
      · obtain ⟨e, he, hec⟩ := ih hd
        exact ⟨e, List.mem_cons_of_mem a he, hec⟩

/-- Items that cannot be joined are added in any order, if the first has its place already. -/
theorem addJoining_comm (hbc : join b c = none) (hb : ∃ a ∈ as, join a b ≠ none) :
    addJoining join (addJoining join as b) c = addJoining join (addJoining join as c) b := by
  obtain ⟨d, hd, hdb⟩ := hb
  induction as with
  | nil => exact absurd hd List.not_mem_nil
  | cons a as ih =>
    cases hab : join a b with
    | some x =>
      have hac : join a c = none := by rwa [← hj.right hab]
      have hxc : join x c = none := by rwa [hj.left hab]
      rw [addJoining_cons_of_some hab, addJoining_cons_of_none hxc, addJoining_cons_of_none hac,
        addJoining_cons_of_some hab]
    | none =>
      have hd : d ∈ as := by
        rcases List.mem_cons.mp hd with rfl | hd
        · exact absurd hab hdb
        · exact hd
      cases hac : join a c with
      | some y =>
        have hyb : join y b = none := by rwa [hj.left hac]
        rw [addJoining_cons_of_none hab, addJoining_cons_of_some hac, addJoining_cons_of_some hac,
          addJoining_cons_of_none hyb]
      | none =>
        rw [addJoining_cons_of_none hab, addJoining_cons_of_none hac, addJoining_cons_of_none hac,
          addJoining_cons_of_none hab, ih hd]

theorem foldl_addJoining_comm (hbs : ∀ b ∈ bs, join c b = none) (hc : ∃ a ∈ as, join a c ≠ none) :
    bs.foldl (addJoining join) (addJoining join as c) =
      addJoining join (bs.foldl (addJoining join) as) c := by
  induction bs generalizing as with
  | nil => rfl
  | cons b bs ih =>
    rw [List.foldl_cons, List.foldl_cons, hj.addJoining_comm (hbs b (by simp)) hc,
      ih (fun d hd => hbs d (by simp [hd])) (hj.exists_join_addJoining hc b)]

/-- Two items that can be joined come to the same as the joined one. -/
theorem addJoining_addJoining (hb : P b) (hbc : join b c = some d) (as : List α) :
    addJoining join (addJoining join as b) c = addJoining join as d := by
  induction as with
  | nil => exact addJoining_cons_of_some hbc []
  | cons a as ih =>
    cases hab : join a b with
    | some x =>
      have hxc : join x c = join a d := hj.assoc hb hab hbc
      have hne : join a d ≠ none := by
        rw [← hxc, Ne, hj.left hab, ← hj.right hab, hbc]
        exact Option.some_ne_none d
      obtain ⟨y, hy⟩ := Option.ne_none_iff_exists'.mp hne
      rw [addJoining_cons_of_some hab, addJoining_cons_of_some (hxc.trans hy),
        addJoining_cons_of_some hy]
    | none =>
      have hba : join b a = none := hj.symm hab
      have hac : join a c = none := hj.symm ((hj.right hbc a).mpr hba)
      have had : join a d = none := hj.symm ((hj.left hbc a).mpr hba)
      rw [addJoining_cons_of_none hab, addJoining_cons_of_none hac, addJoining_cons_of_none had, ih]

/-- An item that is added to the list in the middle. -/
theorem foldl_addJoining_addJoining (hbs : Apart join bs) (hP : ∀ b ∈ bs, P b) (c : α)
    (as : List α) : (addJoining join bs c).foldl (addJoining join) as =
      addJoining join (bs.foldl (addJoining join) as) c := by
  induction bs generalizing as with
  | nil => rfl
  | cons b bs ih =>
    obtain ⟨hb, hbs⟩ := List.pairwise_cons.mp hbs
    obtain ⟨hPb, hP⟩ := List.forall_mem_cons.mp hP
    cases hbc : join b c with
    | some d =>
      -- the item is of the class of `b`, so that it may be added before the rest of the list
      have hc : ∀ e ∈ bs, join c e = none := fun e he => (hj.right hbc e).mpr (hb e he)
      have hne : join b c ≠ none := hbc ▸ Option.some_ne_none d
      have hplace := hj.exists_join_addJoining_self hne as
      rw [addJoining_cons_of_some hbc, List.foldl_cons, List.foldl_cons,
        ← hj.addJoining_addJoining hPb hbc, hj.foldl_addJoining_comm hc hplace]
    | none =>
      rw [addJoining_cons_of_none hbc, List.foldl_cons, List.foldl_cons, ih hbs hP]

theorem foldl_addJoining_assoc (hbs : Apart join bs) (hP : ∀ b ∈ bs, P b) (hcs : ∀ c ∈ cs, P c)
    (as : List α) : cs.foldl (addJoining join) (bs.foldl (addJoining join) as) =
      (cs.foldl (addJoining join) bs).foldl (addJoining join) as := by
  induction cs generalizing bs with
  | nil => rfl
  | cons c cs ih =>
    obtain ⟨hc, hcs⟩ := List.forall_mem_cons.mp hcs
    rw [List.foldl_cons, List.foldl_cons, ← hj.foldl_addJoining_addJoining hbs hP,
      ih (hj.apart_addJoining hbs c) (hj.forall_addJoining hP hc) hcs]

end Coherent

/-! ### Two ways of joining -/

/-- Related items are joined to related ones, or not at all. -/
def Tracks {β : Type} (R : α → β → Prop) (join : α → α → Option α)
    (join' : β → β → Option β) : Prop :=
  ∀ a b a' b', R a a' → R b b' → Option.Rel R (join a b) (join' a' b')

theorem exists_of_mem_right {β : Type} {R : α → β → Prop} {bs : List β} {b : β}
    (h : List.Forall₂ R as bs) (hb : b ∈ bs) : ∃ a ∈ as, R a b := by
  induction h with
  | nil => exact absurd hb List.not_mem_nil
  | @cons c d _ _ hR _ ih =>
    rcases List.mem_cons.mp hb with rfl | hb
    · exact ⟨c, List.mem_cons_self, hR⟩
    · obtain ⟨a, ha, hab⟩ := ih hb
      exact ⟨a, List.mem_cons_of_mem c ha, hab⟩

namespace Tracks
variable {β : Type} {R : α → β → Prop} {join' : β → β → Option β} {as' bs' : List β} {b' : β}
  (ht : Tracks R join join')
include ht

theorem none_iff {a' b' : β} (ha : R a a') (hb : R b b') :
    join a b = none ↔ join' a' b' = none := by
  have hrel := ht a b a' b' ha hb
  revert hrel
  cases join a b <;> cases join' a' b' <;> simp

theorem addJoining (h : List.Forall₂ R as as') (hb : R b b') :
    List.Forall₂ R (addJoining join as b) (addJoining join' as' b') := by
  induction h with
  | nil => exact .cons hb .nil
  | @cons a a' as as' ha has ih =>
    have hrel := ht a b a' b' ha hb
    cases hab : join a b with
    | none =>
      rw [addJoining_cons_of_none hab, addJoining_cons_of_none ((ht.none_iff ha hb).mp hab)]
      exact .cons ha ih
    | some c =>
      rw [hab] at hrel
      obtain ⟨c', hab', hc⟩ : ∃ c', join' a' b' = some c' ∧ R c c' := by
        generalize join' a' b' = x at hrel
        cases hrel with
        | some hc => exact ⟨_, rfl, hc⟩
      rw [addJoining_cons_of_some hab, addJoining_cons_of_some hab']
      exact .cons hc has

theorem foldl_addJoining (h : List.Forall₂ R as as') (hb : List.Forall₂ R bs bs') :
    List.Forall₂ R (bs.foldl (DocQuery.addJoining join) as)
      (bs'.foldl (DocQuery.addJoining join') as') := by
  induction hb generalizing as as' with
  | nil => exact h
  | cons hb _ ih => exact ih (ht.addJoining h hb)

theorem apart (h : List.Forall₂ R as as') (ha : Apart join as) : Apart join' as' := by
  induction h with
  | nil => exact List.Pairwise.nil
  | cons hR has ih =>
    obtain ⟨hnone, ha⟩ := List.pairwise_cons.mp ha
    refine List.pairwise_cons.mpr ⟨fun b' hb' => ?_, ih ha⟩
    obtain ⟨b, hb, hbR⟩ := exists_of_mem_right has hb'
    exact (ht.none_iff hR hbR).mp (hnone b hb)

end Tracks

end DocQuery
