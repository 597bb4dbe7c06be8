import DocQuery.Proofs.CacheKey.Identity
import DocQuery.Proofs.Value.Written

/-!
# Operands that are identified by their written form

Octets and compiled patterns stand in the identifying text by their written form. At whatever place
such an operand stands, what is around it is written the same for every other one (`Surrounds`), so
that queries which differ in it only share their text exactly where it is written alike:
`shown_operand_iff`.
-/

namespace DocQuery

namespace Json

variable {f g : Json → Json}

/-- A value that is put in is written between texts which do not depend on it, if these can be
written. -/
def Surrounds (f : Json → Json) : Prop :=
  ∃ left right : Except Fault (List Char), ∀ j,
    (f j).compact = do pure ((← left) ++ (← j.compact) ++ (← right))

theorem Surrounds.id : Surrounds fun j => j :=
  ⟨pure [], pure [], fun j => by simp⟩

theorem Surrounds.comp (hf : Surrounds f) (hg : Surrounds g) : Surrounds fun j => f (g j) := by
  obtain ⟨l, r, hf⟩ := hf
  obtain ⟨l', r', hg⟩ := hg
  refine ⟨do pure ((← l) ++ (← l')), do pure ((← r') ++ (← r)), fun j => ?_⟩
  simp only [hf, hg, bind_assoc, pure_bind, List.append_assoc]

theorem compactItems_cons_append_cons (j : Json) (js : List Json) (k : Json) (ks : List Json) :
    compactItems (j :: (js ++ k :: ks)) =
      (do pure ((← j.compact) ++ ',' :: (← compactItems (js ++ k :: ks)))) := by
  cases js <;> rfl

theorem exists_compactItems_append_cons (js ks : List Json) :
    ∃ left right : Except Fault (List Char), ∀ k,
      compactItems (js ++ k :: ks) = (do pure ((← left) ++ (← k.compact) ++ (← right))) := by
  induction js with
  | nil =>
    cases ks with
    | nil => exact ⟨pure [], pure [], fun k => by simp [compactItems]⟩
    | cons l ks =>
      exact ⟨pure [], do pure (',' :: (← compactItems (l :: ks))), fun k => by simp [compactItems]⟩
  | cons j js ih =>
    obtain ⟨left, right, h⟩ := ih
    refine ⟨do pure ((← j.compact) ++ ',' :: (← left)), right, fun k => ?_⟩
    rw [List.cons_append, compactItems_cons_append_cons, h]
    simp only [bind_assoc, pure_bind, List.append_assoc, List.cons_append]

theorem surrounds_array (js ks : List Json) : Surrounds fun j => .array (js ++ j :: ks) := by
  obtain ⟨left, right, h⟩ := exists_compactItems_append_cons js ks
  refine ⟨do pure ('[' :: (← left)), do pure ((← right) ++ [']']), fun j => ?_⟩
  rw [compact, h]
  simp only [bind_assoc, pure_bind, List.append_assoc, List.cons_append]

theorem surrounds_object (name : Text) : Surrounds fun j => .object [(name, j)] :=
  ⟨pure ('\x7b' :: quoted name ++ [':']), pure ['\x7d'], fun j => by
    simp [compact, compactMembers]⟩

end Json

/-- A value with one place left open, at any depth in lists, tuples and mappings. -/
inductive Place where
  | here
  | list (before : List Value) (place : Place) (after : List Value)
  | tuple (before : List Value) (place : Place) (after : List Value)
  | map (before : Entries) (key : Value) (place : Place) (after : Entries)

namespace Place

def fill : Place → Value → Value
  | here, v => v
  | list before place after, v => .list (before ++ place.fill v :: after)
  | tuple before place after, v => .tuple (before ++ place.fill v :: after)
  | map before key place after, v => .map (before ++ (key, place.fill v) :: after)

end Place

namespace Value

variable {α β : Type} {f g : Value → Value} {v w : Value} {j k : Json}

theorem toJsonItems_eq (vs : List Value) : toJsonItems vs = vs.mapM toJson := by
  induction vs with
  | nil => rfl
  | cons v vs ih => rw [toJsonItems, List.mapM_cons, ih]

/-- The pair of an entry's key and value. -/
def entryJson (e : Value × Value) : Except Fault Json := do
  let name ← e.1.plain
  let j ← e.2.toJson
  pure (.array [.text name, j])

theorem toJsonEntries_eq (es : Entries) : toJsonEntries es = es.mapM entryJson := by
  induction es with
  | nil => rfl
  | cons e es ih =>
    rw [toJsonEntries, List.mapM_cons, ih, entryJson]
    simp only [bind_assoc, pure_bind]

/-- What is around a value cannot be written, or it is written the same for every value. -/
def Surrounds (f : Value → Value) : Prop :=
  (∃ fault, ∀ v j, v.toJson = .ok j → (f v).toJson = .error fault) ∨
    ∃ h, Json.Surrounds h ∧ ∀ v j, v.toJson = .ok j → (f v).toJson = .ok (h j)

/-- Of what is around the value, one part is written by `x` before it and the other by `y`. -/
theorem Surrounds.between (hf : Surrounds f) (x : Except Fault α) (y : Except Fault β)
    {h : α → β → Json → Json} (hh : ∀ a b, Json.Surrounds (h a b))
    (hg : ∀ v, (g v).toJson =
      x >>= fun a => (f v).toJson >>= fun j => y >>= fun b => pure (h a b j)) :
    Surrounds g := by
  cases x with
  | error fault => exact .inl ⟨fault, fun v j _ => hg v⟩
  | ok a =>
    rcases hf with ⟨fault, hf⟩ | ⟨i, hi, hf⟩
    · refine .inl ⟨fault, fun v j hj => ?_⟩
      rw [hg, hf v j hj]
      rfl
    cases y with
    | error fault =>
      refine .inl ⟨fault, fun v j hj => ?_⟩
      rw [hg, hf v j hj]
      rfl
    | ok b =>
      refine .inr ⟨fun j => h a b (i j), (hh a b).comp hi, fun v j hj => ?_⟩
      rw [hg, hf v j hj]
      rfl

theorem toJsonItems_append_cons (before : List Value) (v : Value) (after : List Value) :
    toJsonItems (before ++ v :: after) = before.mapM toJson >>= fun js =>
      v.toJson >>= fun j => after.mapM toJson >>= fun ks => pure (js ++ j :: ks) := by
  rw [toJsonItems_eq, List.mapM_append, List.mapM_cons]
  simp only [bind_assoc, pure_bind]

theorem toJsonEntries_append_cons (before : Entries) (key v : Value) (after : Entries) :
    toJsonEntries (before ++ (key, v) :: after) = before.mapM entryJson >>= fun js =>
      key.plain >>= fun name => v.toJson >>= fun j => after.mapM entryJson >>= fun ks =>
        pure (js ++ .array [.text name, j] :: ks) := by
  rw [toJsonEntries_eq, List.mapM_append, List.mapM_cons]
  simp only [entryJson, bind_assoc, pure_bind]

theorem surrounds_fill (place : Place) : Surrounds place.fill := by
  induction place with
  | here => exact .inr ⟨id, .id, fun v j hj => hj⟩
  | list before place after ih | tuple before place after ih =>
    refine ih.between (before.mapM toJson) (after.mapM toJson) Json.surrounds_array fun v => ?_
    rw [Place.fill, toJson, toJsonItems_append_cons]
    simp only [bind_assoc, pure_bind]
  | map before key place after ih =>
    refine ih.between (do pure ((← before.mapM entryJson), (← key.plain))) (after.mapM entryJson)
      (h := fun a ks j => tagged "$map" (.array (a.1 ++ .array [.text a.2, j] :: ks)))
      (fun a ks => (Json.surrounds_object "$map").comp
        ((Json.surrounds_array a.1 ks).comp (Json.surrounds_array [.text a.2] []))) fun v => ?_
    rw [Place.fill, toJson, toJsonEntries_append_cons]
    simp only [bind_assoc, pure_bind]

/-! ### Operands that are shown -/

/-- The JSON of what is identified by its written form. -/
def shownJson (cs : List Char) : Json :=
  tagged "$repr" (.text (Text.ofChars cs))

theorem exists_shownJson (h : IsShown v) :
    ∃ cs, v.written = .ok cs ∧ v.toJson = .ok (shownJson cs) := by
  obtain ⟨cs, hcs⟩ := exists_written_of_isShown h
  refine ⟨cs, hcs, ?_⟩
  have hjson : v.toJson = v.written.map shownJson := by cases h <;> rfl
  rw [hjson, hcs]
  rfl

theorem shownJson_inj {cs ds : List Char} (h : shownJson cs = shownJson ds) : cs = ds := by
  simpa [shownJson, tagged] using h

theorem exists_compact_shownJson (cs : List Char) : ∃ t, (shownJson cs).compact = .ok t :=
  ⟨_, rfl⟩

/-- No character from U+10000 on is written by the halves of another. -/
theorem compact_shownJson_eq_iff {cs ds t u : List Char} (ht : (shownJson cs).compact = .ok t)
    (hu : (shownJson ds).compact = .ok u) : t = u ↔ cs = ds := by
  rw [Json.compact_eq_iff rfl rfl ht hu]
  exact ⟨tagged_ofChars_inj, fun h => by rw [h]⟩

/-- Values around two operands have no identifying text for the same reason, or have the same one
exactly where the operands are written alike. -/
theorem identifyingText_fill (place : Place) {cs ds : List Char}
    (hv : v.toJson = .ok (shownJson cs)) (hw : w.toJson = .ok (shownJson ds)) :
    (∃ fault, (place.fill v).identifyingText = .error fault ∧
      (place.fill w).identifyingText = .error fault) ∨
    ∃ t u, (place.fill v).identifyingText = .ok t ∧ (place.fill w).identifyingText = .ok u ∧
      (t = u ↔ cs = ds) := by
  rcases surrounds_fill place with ⟨fault, hfill⟩ | ⟨h, ⟨left, right, hh⟩, hfill⟩
  · refine .inl ⟨fault, ?_, ?_⟩
    · exact bind_eq_error_iff.mpr (.inl (hfill v _ hv))
    · exact bind_eq_error_iff.mpr (.inl (hfill w _ hw))
  obtain ⟨t, ht⟩ := exists_compact_shownJson cs
  obtain ⟨u, hu⟩ := exists_compact_shownJson ds
  rw [identifyingText, identifyingText, hfill v _ hv, hfill w _ hw]
  show (∃ fault, (h (shownJson cs)).compact = _ ∧ (h (shownJson ds)).compact = _) ∨
    ∃ t u, (h (shownJson cs)).compact = _ ∧ (h (shownJson ds)).compact = _ ∧ _
  rw [hh, hh, ht, hu]
  cases left with
  | error fault => exact .inl ⟨fault, rfl, rfl⟩
  | ok l =>
    cases right with
    | error fault => exact .inl ⟨fault, rfl, rfl⟩
    | ok r =>
      refine .inr ⟨l ++ t ++ r, l ++ u ++ r, rfl, rfl, ?_⟩
      rw [List.append_left_inj, List.append_right_inj]
      exact compact_shownJson_eq_iff ht hu

end Value

open Value

variable {v w : Value}

/-- Octets and patterns of text have the same JSON only where they are the same, but for patterns
with the same flags that are cut off alike. Queries which differ in such an operand only, wherever
it stands and however long it is, either lack their text alike or share it in just these cases. -/
theorem shown_operand_iff (hv : IsShown v) (hw : IsShown w) :
    (∃ j k, v.toJson = .ok j ∧ w.toJson = .ok k ∧ (j = k ↔ v = w ∨ CutAlike v w)) ∧
    ∀ (place : Place) (s s' : Shape)
      (filter filter' database database' collection collection' : Value),
      keyParts s filter database collection = .ok (place.fill v) →
      keyParts s' filter' database' collection' = .ok (place.fill w) →
        (∃ fault, keyText s filter database collection = .error fault ∧
          keyText s' filter' database' collection' = .error fault) ∨
        ∃ t u, keyText s filter database collection = .ok t ∧
          keyText s' filter' database' collection' = .ok u ∧ (t = u ↔ v = w ∨ CutAlike v w) := by
  obtain ⟨cs, hcs, hj⟩ := exists_shownJson hv
  obtain ⟨ds, hds, hk⟩ := exists_shownJson hw
  have hiff : cs = ds ↔ v = w ∨ CutAlike v w := by
    rw [← written_eq_iff hv hw, hcs, hds, Except.ok.injEq]
  refine ⟨⟨_, _, hj, hk, ⟨fun h => hiff.mp (shownJson_inj h), fun h => by rw [hiff.mpr h]⟩⟩, ?_⟩
  intro place s s' filter filter' database database' collection collection' hparts hparts'
  rw [keyText_eq hparts, keyText_eq hparts', ← hiff]
  exact identifyingText_fill place hj hk

/-- Octets and a pattern of the same characters, in filters. -/
theorem shown_operand_iff_pattern :
    let v : Value := .bytes [0x61]
    let w : Value := .compiled (.text "a") 34
    let shop : Value := .text "shop"
    let place : Place := .list [shop, shop] (.map [] (.text "name") .here [])
      [.list [], .list [], .map [], .null, .null, .null]
    let textOf := fun operand => keyText {} (.map [(.text "name", operand)]) shop shop
    IsShown v ∧ IsShown w ∧
      (∀ operand, keyParts {} (.map [(.text "name", operand)]) shop shop =
        .ok (place.fill operand)) ∧
      ∃ t u, textOf v = .ok t ∧ textOf w = .ok u ∧ t ≠ u := by
  intro v w shop place textOf
  have hv : IsShown v := .octets _
  have hw : IsShown w := .pattern "a" ⟨by decide, by decide, by decide⟩
  have hparts : ∀ operand, keyParts {} (.map [(.text "name", operand)]) shop shop =
      .ok (place.fill operand) := fun operand => rfl
  refine ⟨hv, hw, hparts, ?_⟩
  rcases (shown_operand_iff hv hw).2 place {} {} _ _ _ _ _ _ (hparts v) (hparts w) with
    ⟨fault, h, -⟩ | ⟨t, u, ht, hu, hiff⟩
  · have htext : textOf v = .ok _ := rfl
    cases htext.symm.trans h
  · refine ⟨t, u, ht, hu, fun htu => ?_⟩
    have hcut : ∀ bs (u : Value), ¬ CutAlike (.bytes bs) u := by rintro _ _ ⟨⟩
    exact (hiff.mp htu).elim Value.noConfusion (hcut _ _)

/-- A pattern of 200 letters and one character more. -/
def longPattern (c : Char) : Text :=
  Text.ofChars (List.replicate 200 'a' ++ [c])

variable {b c : Char}

theorem quoted_longPattern (h : Text.escapeChar Text.apostrophe c = [c]) :
    Text.quoted (longPattern c) =
      Text.apostrophe :: (List.replicate 200 'a' ++ [c]) ++ [Text.apostrophe] := by
  rw [longPattern]
  refine Text.quoted_of_plain (List.forall_mem_append.mpr ⟨fun d hd => ?_, by simpa using h⟩)
  rw [List.eq_of_mem_replicate hd]
  decide

theorem isCut_longPattern (h : Text.escapeChar Text.apostrophe c = [c]) :
    IsCut (longPattern c) := by
  rw [IsCut, quoted_longPattern h, List.length_append, List.length_cons, List.length_append,
    List.length_replicate]
  exact (by decide : 200 < 200 + 1 + 1 + 1)

theorem cutAlike_longPattern (hb : Text.escapeChar Text.apostrophe b = [b])
    (hc : Text.escapeChar Text.apostrophe c = [c]) :
    CutAlike (.compiled (.text (longPattern b)) 32) (.compiled (.text (longPattern c)) 32) := by
  refine .intro 32 (isCut_longPattern hb) (isCut_longPattern hc) ?_
  rw [patternShown, patternShown, quoted_longPattern hb, quoted_longPattern hc]
  rfl

/-- Two patterns that differ in their last character only share the texts of their queries. -/
theorem exists_cutAlike :
    ∃ v w : Value, IsShown v ∧ IsShown w ∧ v ≠ w ∧ v.toJson = w.toJson ∧
      ∃ t, keyText {} (.map [(.text "name", v)]) (.text "shop") (.text "people") = .ok t ∧
        keyText {} (.map [(.text "name", w)]) (.text "shop") (.text "people") = .ok t := by
  let operand : Char → Value := fun c => .compiled (.text (longPattern c)) 32
  have hoperand : ∀ c, IsShown (operand c) := fun c =>
    .pattern _ ⟨by decide, by decide, by decide⟩
  have hne : operand 'b' ≠ operand 'c' := by
    intro h
    have hlast := Text.ofChars_inj.mp (text.inj (compiled.inj h).1)
    exact absurd (List.append_cancel_left hlast) (by decide)
  have hcut := cutAlike_longPattern (b := 'b') (c := 'c') (by decide) (by decide)
  obtain ⟨cs, hcs, hb⟩ := exists_shownJson (hoperand 'b')
  obtain ⟨ds, hds, hc⟩ := exists_shownJson (hoperand 'c')
  obtain rfl : cs = ds := Except.ok.inj
    (hcs.symm.trans (((written_eq_iff (hoperand 'b') (hoperand 'c')).mpr (.inr hcut)).trans hds))
  have htext : ∀ v : Value, v.toJson = .ok (shownJson cs) →
      keyText {} (.map [(.text "name", v)]) (.text "shop") (.text "people") =
        (Json.array [.text "shop", .text "people",
          tagged "$map" (.array [.array [.text "name", shownJson cs]]), .array [], .array [],
          tagged "$map" (.array []), .null, .null, .null]).compact := by
    intro v hv
    rw [keyText_eq (v := Place.fill (.list [.text "shop", .text "people"]
      (.map [] (.text "name") .here [])
      [.list [], .list [], .map [], .null, .null, .null]) v) rfl]
    simp only [Place.fill, List.nil_append, List.cons_append, identifyingText, toJson, toJsonItems,
      toJsonEntries, hv]
    rfl
  exact ⟨operand 'b', operand 'c', hoperand 'b', hoperand 'c', hne, hb.trans hc.symm, _,
    htext _ hb, htext _ hc⟩

end DocQuery
