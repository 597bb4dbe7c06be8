import DocQuery.Proofs.Fallible
import DocQuery.Value.Entries

/-!
# Entries with distinct keys

`Entries.Distinct es`: no key of `es` is the key of a later entry. Writing into such entries keeps
them so (`distinct_update`), writing them out again gives them back (`update_nil_of_distinct`), and
whatever is read as a mapping has distinct keys (`distinct_of_toEntries`). Where keys come twice,
what is written last is found (`get?_update_eq_last?`).
-/

namespace DocQuery

namespace Entries
variable {es new : Entries} {k v : Value}

/-- No key is the key of a later entry. -/
def Distinct (es : Entries) : Prop :=
  (keys es).Pairwise fun k l => k.sameKey l = false

theorem distinct_nil : Distinct [] := List.Pairwise.nil

theorem distinct_single (k v : Value) : Distinct [(k, v)] :=
  List.pairwise_singleton _ _

theorem distinct_cons {e : Value × Value} :
    Distinct (e :: es) ↔ (∀ f ∈ es, e.1.sameKey f.1 = false) ∧ Distinct es := by
  unfold Distinct
  rw [keys_cons, List.pairwise_cons]
  simp [keys]

theorem insert_of_forall_not (h : ∀ e ∈ es, e.1.sameKey k = false) (v : Value) :
    insert es k v = es ++ [(k, v)] := by
  induction es with
  | nil => rfl
  | cons e es ih =>
    rw [insert, if_neg (by simp [h e]), ih fun f hf => h f (by simp [hf])]
    rfl

theorem distinct_addKey {ks : List Value} {k : Value}
    (h : ks.Pairwise fun k l => k.sameKey l = false) :
    (addKey ks k).Pairwise fun k l => k.sameKey l = false := by
  unfold addKey
  split
  · exact h
  · next hk =>
    simp only [List.any_eq_true, not_exists, not_and, Bool.not_eq_true] at hk
    rw [List.pairwise_append]
    refine ⟨h, List.pairwise_singleton _ _, fun a ha b hb => ?_⟩
    rw [List.mem_singleton.mp hb]
    exact hk a ha

theorem distinct_insert (h : Distinct es) (k v : Value) : Distinct (insert es k v) := by
  unfold Distinct
  rw [keys_insert]
  exact distinct_addKey h

theorem distinct_update (h : Distinct es) (new : Entries) : Distinct (update es new) := by
  induction new generalizing es with
  | nil => exact h
  | cons e new ih =>
    rw [update_cons]
    exact ih (distinct_insert h e.1 e.2)

theorem distinct_ofList (new : List (Value × Value)) : Distinct (ofList new) :=
  distinct_update distinct_nil new

/-- New keys are written at the end, one after the other. -/
theorem update_of_distinct_append (h : Distinct (es ++ new)) : update es new = es ++ new := by
  induction new generalizing es with
  | nil => simp
  | cons e new ih =>
    have he : ∀ f ∈ es, f.1.sameKey e.1 = false := by
      unfold Distinct keys at h
      rw [List.map_append, List.pairwise_append] at h
      exact fun f hf => h.2.2 f.1 (List.mem_map_of_mem hf) e.1 (by simp)
    rw [update_cons, insert_of_forall_not he, ih (by simpa using h)]
    simp

theorem update_nil_of_distinct (h : Distinct new) : update [] new = new :=
  update_of_distinct_append h

theorem hasKey_eq_false_iff : hasKey es k = false ↔ ∀ e ∈ es, e.1.sameKey k = false := by
  simp [hasKey]

theorem get?_eq_none_of_forall (h : ∀ e ∈ es, e.1.sameKey k = false) : get? es k = none := by
  unfold get?
  rw [Option.map_eq_none_iff, List.find?_eq_none]
  intro e he
  simp [h e he]

theorem hasKey_eq_isSome (es : Entries) (k : Value) : hasKey es k = (get? es k).isSome := by
  unfold hasKey get?
  rw [Option.isSome_map, Bool.eq_iff_iff, List.find?_isSome, List.any_eq_true]

theorem hasKey_insert (es : Entries) (k v l : Value) :
    hasKey (insert es k v) l = (k.sameKey l || hasKey es l) := by
  rw [hasKey_eq_isSome, hasKey_eq_isSome, get?_insert]
  cases k.sameKey l <;> rfl

theorem hasKey_update (es new : Entries) (k : Value) :
    hasKey (update es new) k = (hasKey new k || hasKey es k) := by
  induction new generalizing es with
  | nil => rfl
  | cons e new ih =>
    rw [update_cons, ih, hasKey_insert]
    show (_ || (_ || _)) = ((e.1.sameKey k || hasKey new k) || _)
    cases hasKey new k <;> cases e.1.sameKey k <;> rfl

theorem hasKey_map_const (ks : List Value) (v k : Value) :
    hasKey (ks.map (·, v)) k = ks.any (·.sameKey k) := by
  simp [hasKey, List.any_map, Function.comp_def]

theorem exists_mem_of_get? (h : get? es k = some v) : ∃ e ∈ es, e.2 = v := by
  obtain ⟨e, he, rfl⟩ := Option.map_eq_some_iff.mp h
  exact ⟨e, List.mem_of_find?_eq_some he, rfl⟩

theorem ne_nil_of_get? (h : get? es k = some v) : es ≠ [] := by
  obtain ⟨_, he, -⟩ := exists_mem_of_get? h
  exact List.ne_nil_of_mem he

theorem ne_nil_of_hasKey (h : hasKey es k = true) : es ≠ [] := by
  rintro rfl
  exact Bool.noConfusion h

theorem get?_append (es new : Entries) (k : Value) :
    get? (es ++ new) k = (get? es k).or (get? new k) := by
  unfold get?
  rw [List.find?_append]
  cases es.find? fun e => e.1.sameKey k <;> rfl

theorem get?_cons (e : Value × Value) (es : Entries) (k : Value) :
    get? (e :: es) k = if e.1.sameKey k then some e.2 else get? es k := by
  unfold get?
  rw [List.find?_cons]
  cases e.1.sameKey k <;> rfl

theorem get?_congr {k l : Value} (h : k.sameKey l = true) (es : Entries) :
    get? es k = get? es l := by
  unfold get?
  have hkey : ∀ e : Value × Value, e.1.sameKey k = e.1.sameKey l := fun e => by
    rw [Value.sameKey_comm, Value.sameKey_congr h, Value.sameKey_comm]
  simp only [hkey]

/-- What is written last is found, and what was there where nothing is written. -/
theorem get?_update (es : Entries) (h : Distinct new) (k : Value) :
    get? (update es new) k = (get? new k).or (get? es k) := by
  induction new generalizing es with
  | nil => rfl
  | cons e new ih =>
    obtain ⟨he, hnew⟩ := distinct_cons.mp h
    rw [update_cons, ih _ hnew, get?_insert, get?_cons]
    by_cases hk : e.1.sameKey k
    · have hnone : get? new k = none := by
        refine get?_eq_none_of_forall fun f hf => ?_
        rw [Value.sameKey_comm, ← Value.sameKey_congr hk, he f hf]
      simp [hk, hnone]
    · simp [hk]

/-- The value that is written last under a key. -/
def last? (es : Entries) (k : Value) : Option Value :=
  get? es.reverse k

theorem last?_append (es new : Entries) (k : Value) :
    last? (es ++ new) k = (last? new k).or (last? es k) := by
  rw [last?, List.reverse_append, get?_append]
  rfl

theorem last?_cons (e : Value × Value) (es : Entries) (k : Value) :
    last? (e :: es) k = (last? es k).or (if e.1.sameKey k then some e.2 else none) := by
  rw [← List.singleton_append, last?_append]
  congr 1
  exact get?_cons e [] k

/-- Of several values that are written under one key, the last one is found. -/
theorem get?_update_eq_last? (es new : Entries) (k : Value) :
    get? (update es new) k = (last? new k).or (get? es k) := by
  induction new generalizing es with
  | nil => rfl
  | cons e new ih =>
    rw [update_cons, ih, get?_insert, last?_cons]
    cases last? new k with
    | some v => rfl
    | none => cases e.1.sameKey k <;> rfl

theorem exists_of_last?_eq_some {v : Value} (h : last? es k = some v) :
    ∃ e ∈ es, e.1.sameKey k = true ∧ e.2 = v := by
  obtain ⟨e, he, rfl⟩ := Option.map_eq_some_iff.mp h
  have hmem : e ∈ es := List.mem_reverse.mp (List.mem_of_find?_eq_some he)
  have hkey := List.find?_some he
  exact ⟨e, hmem, hkey, rfl⟩

theorem last?_ne_none {e : Value × Value} (he : e ∈ es) (hk : e.1.sameKey k = true) :
    last? es k ≠ none := by
  intro h
  have hno := List.find?_eq_none.mp (Option.map_eq_none_iff.mp h)
  exact hno e (List.mem_reverse.mpr he) hk

/-- Each entry is the last one under its key where those under one key are the same. -/
theorem forall_last?_eq_iff (hself : ∀ e ∈ es, e.1.sameKey e.1 = true) :
    (∀ e ∈ es, last? es e.1 = some e.2) ↔
      ∀ e ∈ es, ∀ f ∈ es, e.1.sameKey f.1 = true → e.2 = f.2 := by
  constructor
  · intro h e he f hf hef
    have hsame : last? es e.1 = last? es f.1 := get?_congr hef _
    rw [h e he, h f hf] at hsame
    exact Option.some.inj hsame
  · intro h e he
    obtain ⟨v, hv⟩ := Option.ne_none_iff_exists'.mp (last?_ne_none he (hself e he))
    obtain ⟨f, hf, hfe, rfl⟩ := exists_of_last?_eq_some hv
    rw [hv, h f hf e he hfe]

/-- Where one value is written under several keys. -/
theorem get?_update_const (es : Entries) (ks : List Value) (v k : Value) :
    get? (update es (ks.map (·, v))) k =
      if ks.any (·.sameKey k) then some v else get? es k := by
  induction ks generalizing es with
  | nil => rfl
  | cons l ks ih =>
    rw [List.map_cons, update_cons, ih, get?_insert, List.any_cons]
    cases ks.any (·.sameKey k) <;> cases l.sameKey k <;> rfl

theorem get?_map_const (es : Entries) (v k : Value) :
    get? (es.map fun e => (e.1, v)) k = (get? es k).map fun _ => v := by
  unfold get?
  rw [List.find?_map, Option.map_map, Option.map_map]
  rfl

theorem insert_append_of_forall_not (h : ∀ e ∈ es, e.1.sameKey k = false) :
    insert (es ++ new) k v = es ++ insert new k v := by
  induction es with
  | nil => rfl
  | cons e es ih =>
    rw [List.cons_append, insert, if_neg (by simp [h e]), ih fun f hf => h f (by simp [hf])]
    rfl

theorem update_append_of_forall_not {more : Entries}
    (h : ∀ e ∈ es, ∀ f ∈ more, e.1.sameKey f.1 = false) :
    update (es ++ new) more = es ++ update new more := by
  induction more generalizing new with
  | nil => rfl
  | cons f more ih =>
    have hf : ∀ e ∈ es, e.1.sameKey f.1 = false := fun e he => h e he f (by simp)
    rw [update_cons, insert_append_of_forall_not hf,
      ih fun e he g hg => h e he g (by simp [hg]), update_cons]

theorem insert_map_const (ks : List Value) (k v : Value) :
    insert (ks.map (·, v)) k v = (addKey ks k).map (·, v) := by
  induction ks with
  | nil => rfl
  | cons l ks ih =>
    rw [List.map_cons, insert]
    by_cases h : l.sameKey k
    · simp [h, addKey]
    · rw [if_neg h, addKey_cons_of_not ks h, List.map_cons, ih]

/-- One value under several keys: an entry for each key, the first time that it comes. -/
theorem update_map_const (ks new : List Value) (v : Value) :
    update (ks.map (·, v)) (new.map (·, v)) = (new.foldl addKey ks).map (·, v) := by
  induction new generalizing ks with
  | nil => rfl
  | cons k new ih => rw [List.map_cons, update_cons, insert_map_const, ih, List.foldl_cons]

theorem mem_of_mem_foldl_addKey {ks new : List Value} (h : k ∈ new.foldl addKey ks) :
    k ∈ ks ∨ k ∈ new := by
  induction new generalizing ks with
  | nil => exact .inl h
  | cons l new ih =>
    rcases ih h with hk | hk
    · unfold addKey at hk
      split at hk
      · exact .inl hk
      · rcases List.mem_append.mp hk with hk | hk
        · exact .inl hk
        · exact .inr (by simp [List.mem_singleton.mp hk])
    · exact .inr (List.mem_cons_of_mem l hk)

theorem forall_key_update {P : Value → Prop} (h : ∀ e ∈ es, P e.1) (hnew : ∀ e ∈ new, P e.1) :
    ∀ e ∈ update es new, P e.1 := by
  intro e he
  have hk : e.1 ∈ keys (update es new) := List.mem_map_of_mem he
  rw [keys_update] at hk
  rcases mem_of_mem_foldl_addKey hk with hk | hk
  · obtain ⟨e', he', hkey⟩ := List.mem_map.mp hk
    exact hkey ▸ h e' he'
  · obtain ⟨e', he', hkey⟩ := List.mem_map.mp hk
    exact hkey ▸ hnew e' he'

theorem forall_value_insert {P : Value → Prop} (h : ∀ e ∈ es, P e.2) (hv : P v) (k : Value) :
    ∀ e ∈ insert es k v, P e.2 := by
  induction es with
  | nil => simpa [insert] using hv
  | cons e es ih =>
    obtain ⟨he, hes⟩ := List.forall_mem_cons.mp h
    rw [insert]
    split
    · exact List.forall_mem_cons.mpr ⟨hv, hes⟩
    · exact List.forall_mem_cons.mpr ⟨he, ih hes⟩

theorem forall_value_update {P : Value → Prop} (h : ∀ e ∈ es, P e.2) (hnew : ∀ e ∈ new, P e.2) :
    ∀ e ∈ update es new, P e.2 := by
  induction new generalizing es with
  | nil => exact h
  | cons e new ih =>
    obtain ⟨he, hnew⟩ := List.forall_mem_cons.mp hnew
    rw [update_cons]
    exact ih (forall_value_insert h he e.1) hnew

/-- A value that is written over another one under a key takes its place. -/
theorem insert_insert {k : Value} (hk : k.sameKey k = true) (es : Entries) (v w : Value) :
    insert (insert es k v) k w = insert es k w := by
  induction es with
  | nil => exact if_pos hk
  | cons e es ih =>
    by_cases he : e.1.sameKey k = true
    · simp [insert, he]
    · simp [insert, he, ih]

theorem insert_ne_nil (es : Entries) (k v : Value) : insert es k v ≠ [] := by
  cases es with
  | nil => simp [insert]
  | cons e es => rw [insert]; split <;> simp

theorem update_eq_nil_iff : update es new = [] ↔ es = [] ∧ new = [] := by
  induction new generalizing es with
  | nil => simp
  | cons e new ih =>
    rw [update_cons, ih]
    simp [insert_ne_nil]

end Entries

namespace Value

theorem checkHashable_of_isHashable {v : Value} (h : v.isHashable = true) :
    v.checkHashable = .ok () := by
  rw [checkHashable, if_pos h]
  rfl

theorem forM_checkHashable {vs : List Value} (h : ∀ v ∈ vs, v.isHashable = true) :
    vs.forM checkHashable = .ok () := by
  induction vs with
  | nil => rfl
  | cons v vs ih =>
    have hv : (v :: vs).forM checkHashable =
        v.checkHashable >>= fun _ => vs.forM checkHashable := rfl
    rw [hv, checkHashable_of_isHashable (h v (by simp))]
    exact ih fun w hw => h w (by simp [hw])

theorem distinct_of_toEntries {v : Value} {es : Entries} (h : v.toEntries = .ok es) :
    Entries.Distinct es := by
  unfold toEntries at h
  split at h
  · next fs =>
    rw [pure_eq_ok_iff] at h
    exact h ▸ Entries.distinct_ofList fs
  · obtain ⟨vs, -, h⟩ := bind_eq_ok_iff.mp h
    obtain ⟨pairs, -, h⟩ := bind_eq_ok_iff.mp h
    rw [pure_eq_ok_iff] at h
    exact h ▸ Entries.distinct_ofList pairs

end Value

end DocQuery
