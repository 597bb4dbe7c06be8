import DocQuery.Proofs.Joining
import DocQuery.Proofs.Value.DistinctKeys

/-!
# Updates one after the other

An entry joins the one that has its key, and so does a key; both are cases of `joinSameKey`. Hence
updates may be made one after the other or all in one (`update_update`), and keys that are added to
others are those that are new among them (`foldl_addKey_eq`). A mapping that is written at once has
the keys as they first come (`keys_ofList`), each with what is written last under it
(`exists_last_of_mem_update`).
-/

namespace DocQuery

section SameKey
variable {α : Type} {key : α → Value} {f : α → α → α} {a b c : α}

/-- Joins items that have the same key. -/
def joinSameKey (key : α → Value) (f : α → α → α) (a b : α) : Option α :=
  if (key a).sameKey (key b) then some (f a b) else none

theorem joinSameKey_eq_none_iff :
    joinSameKey key f a b = none ↔ (key a).sameKey (key b) = false := by
  simp [joinSameKey]

theorem joinSameKey_eq_some_iff :
    joinSameKey key f a b = some c ↔ (key a).sameKey (key b) = true ∧ f a b = c := by
  simp [joinSameKey]

theorem coherent_joinSameKey (hkey : ∀ a b, key (f a b) = key a)
    (hassoc : ∀ a b c, f (f a b) c = f a (f b c)) :
    Coherent (joinSameKey key f) fun _ => True where
  symm h := by
    rw [joinSameKey_eq_none_iff] at h ⊢
    rwa [Value.sameKey_comm]
  left h d := by
    obtain ⟨-, rfl⟩ := joinSameKey_eq_some_iff.mp h
    rw [joinSameKey_eq_none_iff, joinSameKey_eq_none_iff, hkey]
  right h d := by
    obtain ⟨hab, -⟩ := joinSameKey_eq_some_iff.mp h
    rw [joinSameKey_eq_none_iff, joinSameKey_eq_none_iff, Value.sameKey_congr hab]
  keeps _ _ := trivial
  assoc _ hd he := by
    obtain ⟨hab, rfl⟩ := joinSameKey_eq_some_iff.mp hd
    obtain ⟨hbc, rfl⟩ := joinSameKey_eq_some_iff.mp he
    simp [joinSameKey, hkey, hab, Value.sameKey_congr hab, hbc, hassoc]

end SameKey

namespace Entries

section
variable {es new : Entries}

/-- An entry with the value of another one of its key. -/
def overwrite (e f : Value × Value) : Value × Value :=
  (e.1, f.2)

theorem insert_eq_addJoining (es : Entries) (k v : Value) :
    insert es k v = addJoining (joinSameKey (·.1) overwrite) es (k, v) := by
  induction es with
  | nil => rfl
  | cons e es ih =>
    by_cases h : e.1.sameKey k = true
    · simp [insert, addJoining, joinSameKey, overwrite, h]
    · simp [insert, addJoining, joinSameKey, h, ih]

theorem update_eq_foldl (es new : Entries) :
    update es new = new.foldl (addJoining (joinSameKey (·.1) overwrite)) es := by
  unfold update
  simp only [insert_eq_addJoining]

theorem apart_iff_distinct {f : Value × Value → Value × Value → Value × Value} :
    Apart (joinSameKey (·.1) f) es ↔ es.Distinct := by
  simp only [Apart, joinSameKey_eq_none_iff, Distinct, keys, List.pairwise_map]

/-- Entries may be updated one after the other, or with what the second makes of the first. -/
theorem update_update (h : new.Distinct) (es more : Entries) :
    update (update es new) more = update es (update new more) := by
  have hj : Coherent (joinSameKey (·.1) overwrite) fun _ => True :=
    coherent_joinSameKey (fun _ _ => rfl) fun _ _ _ => rfl
  simp only [update_eq_foldl]
  exact hj.foldl_addJoining_assoc (apart_iff_distinct.mpr h) (fun _ _ => trivial)
    (fun _ _ => trivial) es

end

section
variable {ks new : List Value} {k l : Value}

theorem addKey_of_any (h : ks.any (·.sameKey k) = true) : addKey ks k = ks :=
  if_pos h

theorem any_addKey (h : ks.any (·.sameKey l) = true) (k : Value) :
    (addKey ks k).any (·.sameKey l) = true := by
  unfold addKey
  split
  · exact h
  · rw [List.any_append, h, Bool.true_or]

theorem any_addKey_self (h : k.sameKey l = true) (ks : List Value) :
    (addKey ks k).any (·.sameKey l) = true := by
  unfold addKey
  split
  · next hk =>
    obtain ⟨m, hm, hmk⟩ := List.any_eq_true.mp hk
    exact List.any_eq_true.mpr ⟨m, hm, by rw [Value.sameKey_congr hmk, h]⟩
  · simp [h]

theorem any_foldl_addKey (h : ks.any (·.sameKey k) = true) (new : List Value) :
    (new.foldl addKey ks).any (·.sameKey k) = true := by
  induction new generalizing ks with
  | nil => exact h
  | cons l new ih => exact ih (any_addKey h l)

/-- Keys are added in order, but for those that are there. -/
theorem foldl_addKey_eq (h : new.Pairwise fun k l => k.sameKey l = false) (ks : List Value) :
    new.foldl addKey ks = ks ++ new.filter fun k => !ks.any (·.sameKey k) := by
  induction new generalizing ks with
  | nil => simp
  | cons k new ih =>
    obtain ⟨hk, hnew⟩ := List.pairwise_cons.mp h
    rw [List.foldl_cons, ih hnew, List.filter_cons]
    by_cases hany : ks.any (·.sameKey k) = true
    · simp [addKey_of_any hany, hany]
    · have hsame : ∀ l ∈ new, (!(ks ++ [k]).any (·.sameKey l)) = !ks.any (·.sameKey l) :=
        fun l hl => by simp [hk l hl]
      rw [addKey, if_neg hany, List.filter_congr hsame]
      simp [hany]

theorem addKey_eq_addJoining : addKey = addJoining (joinSameKey id fun k _ => k) := by
  funext ks k
  induction ks with
  | nil => rfl
  | cons l ks ih =>
    by_cases h : l.sameKey k = true
    · simp [addKey, addJoining, joinSameKey, h]
    · rw [addKey_cons_of_not ks h, ih]
      simp [addJoining, joinSameKey, h]

/-- It does not matter whether keys that come twice are left out first. -/
theorem foldl_addKey_foldl_addKey (ks new : List Value) :
    (new.foldl addKey []).foldl addKey ks = new.foldl addKey ks := by
  have hj : Coherent (joinSameKey id fun k _ => k) fun _ => True :=
    coherent_joinSameKey (fun _ _ => rfl) fun _ _ _ => rfl
  rw [addKey_eq_addJoining]
  exact (hj.foldl_addJoining_assoc List.Pairwise.nil (by simp) (fun _ _ => trivial) ks).symm

theorem pairwise_foldl_addKey (h : ks.Pairwise fun k l => k.sameKey l = false) (new : List Value) :
    (new.foldl addKey ks).Pairwise fun k l => k.sameKey l = false := by
  induction new generalizing ks with
  | nil => exact h
  | cons k new ih => exact ih (distinct_addKey h)

/-- The keys in the order in which they first come, each once. -/
def firsts : List Value → List Value
  | [] => []
  | k :: ks => k :: (firsts ks).filter fun l => !k.sameKey l

theorem foldl_addKey_nil (ks : List Value) : ks.foldl addKey [] = firsts ks := by
  induction ks with
  | nil => rfl
  | cons k ks ih =>
    have hdistinct := pairwise_foldl_addKey List.Pairwise.nil ks
    calc (k :: ks).foldl addKey [] = ks.foldl addKey [k] := rfl
      _ = (ks.foldl addKey []).foldl addKey [k] := (foldl_addKey_foldl_addKey [k] ks).symm
      _ = firsts (k :: ks) := by
        rw [foldl_addKey_eq hdistinct, ih]
        simp [firsts]

end

section
variable {es new : Entries} {e : Value × Value} {k v : Value}

theorem keys_ofList (new : List (Value × Value)) : keys (ofList new) = firsts (keys new) := by
  rw [ofList, keys_update]
  exact foldl_addKey_nil _

theorem mem_insert (h : es.Distinct) (he : e ∈ insert es k v) :
    e ∈ es ∧ e.1.sameKey k = false ∨ e.2 = v ∧ (k = e.1 ∨ k.sameKey e.1 = true) := by
  induction es with
  | nil =>
    obtain rfl := List.mem_singleton.mp he
    exact .inr ⟨rfl, .inl rfl⟩
  | cons f es ih =>
    obtain ⟨hf, hes⟩ := distinct_cons.mp h
    rw [insert] at he
    split at he
    · next hk =>
      rcases List.mem_cons.mp he with rfl | he
      · exact .inr ⟨rfl, .inr (by rwa [Value.sameKey_comm])⟩
      · refine .inl ⟨List.mem_cons_of_mem f he, ?_⟩
        rw [Value.sameKey_comm, ← Value.sameKey_congr hk]
        exact hf e he
    · next hk =>
      rcases List.mem_cons.mp he with rfl | he
      · exact .inl ⟨List.mem_cons_self, Bool.eq_false_iff.mpr hk⟩
      · exact (ih hes he).imp_left (And.imp_left (List.mem_cons_of_mem f))

/-- An entry has the value that is written last under its key, or it is there before. -/
theorem exists_last_of_mem_update (h : es.Distinct) (he : e ∈ update es new) :
    (∃ before p after, new = before ++ p :: after ∧ p.2 = e.2 ∧
      (p.1 = e.1 ∨ p.1.sameKey e.1 = true) ∧ ∀ f ∈ after, f.1.sameKey e.1 = false) ∨
    e ∈ es ∧ ∀ f ∈ new, f.1.sameKey e.1 = false := by
  induction new generalizing es with
  | nil => exact .inr ⟨he, by simp⟩
  | cons p new ih =>
    rw [update_cons] at he
    rcases ih (distinct_insert h p.1 p.2) he with ⟨before, p', after, rfl, hlast⟩ | ⟨he, hafter⟩
    · exact .inl ⟨p :: before, p', after, rfl, hlast⟩
    rcases mem_insert h he with ⟨he, hkey⟩ | ⟨hvalue, hkey⟩
    · rw [Value.sameKey_comm] at hkey
      exact .inr ⟨he, List.forall_mem_cons.mpr ⟨hkey, hafter⟩⟩
    · exact .inl ⟨[], p, new, rfl, hvalue.symm, hkey, hafter⟩

end

end Entries

end DocQuery
