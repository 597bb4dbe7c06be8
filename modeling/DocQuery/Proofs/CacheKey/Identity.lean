import DocQuery.CacheKey
import DocQuery.Proofs.Calendar.Iso
import DocQuery.Proofs.Json
import DocQuery.Proofs.Value.Halves
import DocQuery.Proofs.Value.Writable

/-!
# What the identifying text identifies

Values that the store knows have an identifying text unless an integer in them has too many digits.
They have the same one exactly when they are the same value, a tuple being read as a list and a
character from U+10000 on as its halves (`identifyingText_eq_iff`); and so have queries exactly when
each part of what identifies them is the same.
-/

namespace DocQuery

namespace Value

mutual

/-- Whether the value is one that JSON and its tags are made for: no real, no unknown object, keys
that are text, and dates of years that can be written. -/
def isIdentifiable : Value → Bool
  | null | bool _ | int _ | text _ | objectId _ | millis _ | regex (text _) _ => true
  | dateTime t => 0 ≤ t.date.year
  | date d => 0 ≤ d.year
  | list vs | tuple vs => allIdentifiable vs
  | map es => entriesIdentifiable es
  | _ => false
termination_by structural v => v

def allIdentifiable : List Value → Bool
  | [] => true
  | v :: vs => v.isIdentifiable && allIdentifiable vs
termination_by structural vs => vs

def entriesIdentifiable : List (Value × Value) → Bool
  | [] => true
  | (text _, v) :: es => v.isIdentifiable && entriesIdentifiable es
  | _ :: _ => false
termination_by structural es => es

end

mutual

theorem toJson_asLists : ∀ v : Value, v.asLists.toJson = v.toJson
  | list vs => by rw [asLists, toJson, toJson, toJsonItems_allAsLists vs]
  | tuple vs => by rw [asLists, toJson, toJson, toJsonItems_allAsLists vs]
  | map es => by rw [asLists, toJson, toJson, toJsonEntries_entriesAsLists es]
  | regex pattern flags => by rw [asLists, toJson, toJson]
  | null | bool _ | int _ | float _ | text _ | member _ | bytes _ | objectId _ | millis _
  | dateTime _ | date _ | compiled _ _ | uuid _ | timestamp _ _ | minKey | maxKey | missing => rfl
termination_by structural v => v

theorem toJsonItems_allAsLists : ∀ vs : List Value, toJsonItems (allAsLists vs) = toJsonItems vs
  | [] => rfl
  | v :: vs => by
    rw [allAsLists, toJsonItems, toJsonItems, toJson_asLists v, toJsonItems_allAsLists vs]
termination_by structural vs => vs

theorem toJsonEntries_entriesAsLists : ∀ es : List (Value × Value),
    toJsonEntries (entriesAsLists es) = toJsonEntries es
  | [] => rfl
  | (k, v) :: es => by
    rw [entriesAsLists, toJsonEntries, toJsonEntries, toJson_asLists v,
      toJsonEntries_entriesAsLists es]
termination_by structural es => es

end

variable {v w : Value} {vs ws : List Value} {es fs : List (Value × Value)} {j : Json}

theorem toJson_list_eq_ok_iff :
    (list vs).toJson = .ok j ↔ ∃ js, toJsonItems vs = .ok js ∧ j = .array js := by
  rw [toJson, bind_eq_ok_iff]
  exact exists_congr fun js => and_congr_right fun _ => by rw [pure_eq_ok_iff, eq_comm]

theorem toJson_tuple_eq_ok_iff :
    (tuple vs).toJson = .ok j ↔ ∃ js, toJsonItems vs = .ok js ∧ j = .array js := by
  rw [toJson, bind_eq_ok_iff]
  exact exists_congr fun js => and_congr_right fun _ => by rw [pure_eq_ok_iff, eq_comm]

theorem toJson_map_eq_ok_iff :
    (map es).toJson = .ok j ↔
      ∃ js, toJsonEntries es = .ok js ∧ j = .object [("$map", .array js)] := by
  rw [toJson, bind_eq_ok_iff]
  exact exists_congr fun js => and_congr_right fun _ => by rw [pure_eq_ok_iff, eq_comm]; rfl

theorem toJsonItems_cons_eq_ok_iff {js : List Json} :
    toJsonItems (v :: vs) = .ok js ↔
      ∃ j js', v.toJson = .ok j ∧ toJsonItems vs = .ok js' ∧ js = j :: js' := by
  rw [toJsonItems]
  simp only [bind_eq_ok_iff, pure_eq_ok_iff]
  constructor
  · rintro ⟨j, hj, js', hjs', rfl⟩; exact ⟨j, js', hj, hjs', rfl⟩
  · rintro ⟨j, js', hj, hjs', rfl⟩; exact ⟨j, hj, js', hjs', rfl⟩

theorem toJsonEntries_cons_eq_ok_iff {k : Text} {js : List Json} :
    toJsonEntries ((text k, v) :: es) = .ok js ↔
      ∃ j js', v.toJson = .ok j ∧ toJsonEntries es = .ok js' ∧ js = .array [.text k, j] :: js' := by
  rw [toJsonEntries]
  show (v.toJson >>= fun j => toJsonEntries es >>= fun js =>
    pure (.array [.text k, j] :: js)) = _ ↔ _
  simp only [bind_eq_ok_iff, pure_eq_ok_iff]
  constructor
  · rintro ⟨j, hj, js', hjs', rfl⟩; exact ⟨j, js', hj, hjs', rfl⟩
  · rintro ⟨j, js', hj, hjs', rfl⟩; exact ⟨j, hj, js', hjs', rfl⟩

/-- The value has this JSON, which can be told from others by its text and has one where each
integer can be written. -/
structure HasJson (v : Value) (j : Json) : Prop where
  toJson_eq : v.toJson = .ok j
  plain : j.allLeaves Json.isPlain = true
  short_eq : j.allLeaves Json.isShort = v.isWritable

mutual

theorem exists_hasJson : ∀ v : Value, v.isIdentifiable = true → ∃ j, HasJson v j
  | list vs, h => by
    obtain ⟨js, hjs, hplain, hshort⟩ := exists_toJsonItems vs h
    exact ⟨_, toJson_list_eq_ok_iff.mpr ⟨js, hjs, rfl⟩, hplain, hshort⟩
  | tuple vs, h => by
    obtain ⟨js, hjs, hplain, hshort⟩ := exists_toJsonItems vs h
    exact ⟨_, toJson_tuple_eq_ok_iff.mpr ⟨js, hjs, rfl⟩, hplain, hshort⟩
  | map es, h => by
    obtain ⟨js, hjs, hplain, hshort⟩ := exists_toJsonEntries es h
    exact ⟨_, toJson_map_eq_ok_iff.mpr ⟨js, hjs, rfl⟩,
      by simpa [Json.allLeaves, Json.allLeavesMembers] using hplain,
      by simpa [Json.allLeaves, Json.allLeavesMembers, isWritable] using hshort⟩
  | null, _ | bool _, _ | int _, _ | text _, _ | objectId _, _ | dateTime _, _ | date _, _ =>
    ⟨_, rfl, rfl, rfl⟩
  | millis _, _ | regex (text _) _, _ =>
    ⟨_, rfl, rfl, by simp [Json.allLeaves, Json.allLeavesMembers, Json.isShort, isWritable, tagged,
      patternJson, text?]⟩
termination_by structural v => v

theorem exists_toJsonItems : ∀ vs : List Value, allIdentifiable vs = true →
    ∃ js, toJsonItems vs = .ok js ∧ Json.allLeavesItems Json.isPlain js = true ∧
      Json.allLeavesItems Json.isShort js = allWritable vs
  | [], _ => ⟨[], rfl, rfl, rfl⟩
  | v :: vs, h => by
    rw [allIdentifiable, Bool.and_eq_true] at h
    obtain ⟨j, hj⟩ := exists_hasJson v h.1
    obtain ⟨js, hjs, hplain, hshort⟩ := exists_toJsonItems vs h.2
    exact ⟨_, toJsonItems_cons_eq_ok_iff.mpr ⟨j, js, hj.toJson_eq, hjs, rfl⟩,
      by simp [Json.allLeavesItems, hj.plain, hplain],
      by rw [Json.allLeavesItems, allWritable, hj.short_eq, hshort]⟩
termination_by structural vs => vs

theorem exists_toJsonEntries : ∀ es : List (Value × Value), entriesIdentifiable es = true →
    ∃ js, toJsonEntries es = .ok js ∧ Json.allLeavesItems Json.isPlain js = true ∧
      Json.allLeavesItems Json.isShort js = entriesWritable es
  | [], _ => ⟨[], rfl, rfl, rfl⟩
  | (text k, v) :: es, h => by
    rw [entriesIdentifiable, Bool.and_eq_true] at h
    obtain ⟨j, hj⟩ := exists_hasJson v h.1
    obtain ⟨js, hjs, hplain, hshort⟩ := exists_toJsonEntries es h.2
    exact ⟨_, toJsonEntries_cons_eq_ok_iff.mpr ⟨j, js, hj.toJson_eq, hjs, rfl⟩,
      by simp [Json.allLeavesItems, Json.allLeaves, Json.isPlain, hj.plain, hplain],
      by simp [Json.allLeavesItems, Json.allLeaves, Json.isShort, entriesWritable, isWritable,
        hj.short_eq, hshort]⟩
termination_by structural es => es

end

mutual

/-- The halves of characters may as well be put in their place before the value has become JSON. -/
theorem exists_toJson_withHalves : ∀ (v : Value) {j : Json}, v.isIdentifiable = true →
    v.toJson = .ok j → ∃ j', v.withHalves.toJson = .ok j' ∧ j'.withHalves = j.withHalves
  | list vs, j, hv, h => by
    obtain ⟨js, hjs, rfl⟩ := toJson_list_eq_ok_iff.mp h
    obtain ⟨js', hjs', heq⟩ := exists_toJsonItems_allWithHalves vs hv hjs
    exact ⟨_, toJson_list_eq_ok_iff.mpr ⟨js', hjs', rfl⟩, congrArg Json.array heq⟩
  | tuple vs, j, hv, h => by
    obtain ⟨js, hjs, rfl⟩ := toJson_tuple_eq_ok_iff.mp h
    obtain ⟨js', hjs', heq⟩ := exists_toJsonItems_allWithHalves vs hv hjs
    exact ⟨_, toJson_tuple_eq_ok_iff.mpr ⟨js', hjs', rfl⟩, congrArg Json.array heq⟩
  | map es, j, hv, h => by
    obtain ⟨js, hjs, rfl⟩ := toJson_map_eq_ok_iff.mp h
    obtain ⟨js', hjs', heq⟩ := exists_toJsonEntries_entriesWithHalves es hv hjs
    refine ⟨_, toJson_map_eq_ok_iff.mpr ⟨js', hjs', rfl⟩, ?_⟩
    simp only [Json.withHalves, Json.membersWithHalves, heq]
  | text s, j, hv, h => by
    cases h
    exact ⟨_, rfl, congrArg Json.text (Text.halved_halved s)⟩
  | regex (text p) flags, j, hv, h => by
    cases h
    refine ⟨_, rfl, ?_⟩
    simp only [patternJson, text?, Json.withHalves, Json.membersWithHalves, Text.halved_halved]
  | null, j, hv, h | bool _, j, hv, h | int _, j, hv, h | objectId _, j, hv, h | millis _, j, hv, h
  | dateTime _, j, hv, h | date _, j, hv, h => ⟨j, h, rfl⟩
termination_by structural v => v

theorem exists_toJsonItems_allWithHalves : ∀ (vs : List Value) {js : List Json},
    allIdentifiable vs = true → toJsonItems vs = .ok js →
      ∃ js', toJsonItems (allWithHalves vs) = .ok js' ∧
        Json.itemsWithHalves js' = Json.itemsWithHalves js
  | [], js, hv, h => ⟨js, h, rfl⟩
  | v :: vs, js, hv, h => by
    obtain ⟨j, js, hj, hjs, rfl⟩ := toJsonItems_cons_eq_ok_iff.mp h
    rw [allIdentifiable, Bool.and_eq_true] at hv
    obtain ⟨j', hj', heq⟩ := exists_toJson_withHalves v hv.1 hj
    obtain ⟨js', hjs', heqs⟩ := exists_toJsonItems_allWithHalves vs hv.2 hjs
    exact ⟨_, toJsonItems_cons_eq_ok_iff.mpr ⟨j', js', hj', hjs', rfl⟩, by
      rw [Json.itemsWithHalves, Json.itemsWithHalves, heq, heqs]⟩
termination_by structural vs => vs

theorem exists_toJsonEntries_entriesWithHalves : ∀ (es : List (Value × Value)) {js : List Json},
    entriesIdentifiable es = true → toJsonEntries es = .ok js →
      ∃ js', toJsonEntries (entriesWithHalves es) = .ok js' ∧
        Json.itemsWithHalves js' = Json.itemsWithHalves js
  | [], js, he, h => ⟨js, h, rfl⟩
  | (text k, v) :: es, js, he, h => by
    obtain ⟨j, js, hj, hjs, rfl⟩ := toJsonEntries_cons_eq_ok_iff.mp h
    rw [entriesIdentifiable, Bool.and_eq_true] at he
    obtain ⟨j', hj', heq⟩ := exists_toJson_withHalves v he.1 hj
    obtain ⟨js', hjs', heqs⟩ := exists_toJsonEntries_entriesWithHalves es he.2 hjs
    refine ⟨_, toJsonEntries_cons_eq_ok_iff.mpr ⟨j', js', hj', hjs', rfl⟩, ?_⟩
    simp only [Json.itemsWithHalves, Json.withHalves, Text.halved_halved, heq, heqs]
termination_by structural es => es

end

/-! ### One value for each JSON -/

/-- How the JSON of a value is told from that of others: by the kind of JSON, or by the tag. -/
def jsonTag : Value → Text
  | null => "null"
  | bool _ => "bool"
  | int _ => "int"
  | text _ => "text"
  | list _ | tuple _ => "array"
  | map _ => "$map"
  | objectId _ => "$oid"
  | millis _ => "$date"
  | dateTime _ => "$datetime"
  | date _ => "$dateonly"
  | regex _ _ => "$regex"
  | _ => "$repr"

/-- The kind of JSON, or the tag of an object. -/
def tagOf : Json → Text
  | .null => "null"
  | .bool _ => "bool"
  | .int _ => "int"
  | .real _ => "real"
  | .text _ => "text"
  | .array _ => "array"
  | .object [] => "object"
  | .object ((name, _) :: _) => name
  | .foreign => "foreign"

theorem tagOf_of_toJson (hv : v.isIdentifiable = true) (h : v.toJson = .ok j) :
    tagOf j.withHalves = v.jsonTag := by
  cases v with
  | list vs => obtain ⟨_, -, rfl⟩ := toJson_list_eq_ok_iff.mp h; rfl
  | tuple vs => obtain ⟨_, -, rfl⟩ := toJson_tuple_eq_ok_iff.mp h; rfl
  | map es => obtain ⟨_, -, rfl⟩ := toJson_map_eq_ok_iff.mp h; rfl
  | regex pattern flags =>
    cases pattern with
    | text t => cases h; rfl
    | _ => cases hv
  | null | bool | int | text | objectId | millis | dateTime | date => cases h; rfl
  | float | member | bytes | compiled | uuid | timestamp | minKey | maxKey | missing => cases hv

variable {k : Json}

theorem jsonTag_eq (hv : v.isIdentifiable = true) (hw : w.isIdentifiable = true)
    (hj : v.toJson = .ok j) (hk : w.toJson = .ok k) (hjk : j.withHalves = k.withHalves) :
    v.jsonTag = w.jsonTag := by
  rw [← tagOf_of_toJson hv hj, hjk, tagOf_of_toJson hw hk]

/-- Texts of characters under a tag. -/
theorem tagged_ofChars_inj {tag : Text} {cs ds : List Char}
    (h : (tagged tag (.text (Text.ofChars cs))).withHalves =
      (tagged tag (.text (Text.ofChars ds))).withHalves) : cs = ds := by
  simp only [tagged, Json.withHalves, Json.membersWithHalves, Json.object.injEq, List.cons.injEq,
    Prod.mk.injEq, Json.text.injEq, true_and, and_true] at h
  exact Text.halved_ofChars_inj h

mutual

/-- Values whose JSON differs in the halves of characters only do so too, tuples read as lists. -/
theorem identity_eq_of_toJson : ∀ (v : Value) {w : Value} {j k : Json}, v.isIdentifiable = true →
    w.isIdentifiable = true → v.toJson = .ok j → w.toJson = .ok k → j.withHalves = k.withHalves →
      v.withHalves.asLists = w.withHalves.asLists
  -- a tuple has the JSON of the list of its items
  | list vs, w, j, k, hv, hw, h, h', hjk | tuple vs, w, j, k, hv, hw, h, h', hjk => by
    have htag := jsonTag_eq hv hw h h' hjk
    obtain ⟨js, hjs, rfl⟩ := toJson_list_eq_ok_iff.mp h
    cases w with
    | list ws | tuple ws =>
      obtain ⟨ks, hks, rfl⟩ := toJson_list_eq_ok_iff.mp h'
      exact congrArg list (identities_eq_of_toJsonItems vs hv hw hjs hks (Json.array.inj hjk))
    | _ => simp [jsonTag] at htag
  | map es, w, j, k, hv, hw, h, h', hjk => by
    have htag := jsonTag_eq hv hw h h' hjk
    obtain ⟨js, hjs, rfl⟩ := toJson_map_eq_ok_iff.mp h
    cases w with
    | map fs =>
      obtain ⟨ks, hks, rfl⟩ := toJson_map_eq_ok_iff.mp h'
      simp only [Json.withHalves, Json.membersWithHalves, Json.object.injEq, List.cons.injEq,
        Prod.mk.injEq, Json.array.injEq, true_and, and_true] at hjk
      exact congrArg map (identities_eq_of_toJsonEntries es hv hw hjs hks hjk)
    | _ => simp [jsonTag] at htag
  | regex (text p) flags, w, j, k, hv, hw, h, h', hjk => by
    have htag := jsonTag_eq hv hw h h' hjk
    cases h
    cases w with
    | regex q flags' =>
      cases q with
      | text q =>
        cases h'
        simp only [patternJson, text?, Json.withHalves, Json.membersWithHalves, Json.object.injEq,
          List.cons.injEq, Prod.mk.injEq, Json.text.injEq, Json.int.injEq, true_and,
          and_true] at hjk
        obtain ⟨hpattern, hbits⟩ := hjk
        simp only [withHalves, asLists, hpattern, hbits]
      | _ => cases hw
    | _ => simp [jsonTag] at htag
  | dateTime t, w, j, k, hv, hw, h, h', hjk => by
    have htag := jsonTag_eq hv hw h h' hjk
    cases h
    cases w with
    | dateTime u =>
      cases h'
      rw [DateTime.iso_inj rfl (of_decide_eq_true hv) (of_decide_eq_true hw)
        (tagged_ofChars_inj hjk)]
    | _ => simp [jsonTag] at htag
  | date d, w, j, k, hv, hw, h, h', hjk => by
    have htag := jsonTag_eq hv hw h h' hjk
    cases h
    cases w with
    | date e =>
      cases h'
      rw [Date.iso_inj (of_decide_eq_true hv) (of_decide_eq_true hw) (tagged_ofChars_inj hjk)]
    | _ => simp [jsonTag] at htag
  | objectId a, w, j, k, hv, hw, h, h', hjk => by
    have htag := jsonTag_eq hv hw h h' hjk
    cases h
    cases w with
    | objectId b =>
      cases h'
      rw [String.toList_inj.mp (tagged_ofChars_inj hjk)]
    | _ => simp [jsonTag] at htag
  | text s, w, j, k, hv, hw, h, h', hjk => by
    have htag := jsonTag_eq hv hw h h' hjk
    cases h
    cases w with
    | text t =>
      cases h'
      exact congrArg text (Json.text.inj hjk)
    | _ => simp [jsonTag] at htag
  | null, w, j, k, hv, hw, h, h', hjk | bool _, w, j, k, hv, hw, h, h', hjk
  | int _, w, j, k, hv, hw, h, h', hjk | millis _, w, j, k, hv, hw, h, h', hjk => by
    have htag := jsonTag_eq hv hw h h' hjk
    cases h
    cases w with
    | null | bool | int | millis =>
      first | (simp [jsonTag] at htag; done) | (cases h'; cases hjk; rfl)
    | _ => simp [jsonTag] at htag
termination_by structural v => v

theorem identities_eq_of_toJsonItems : ∀ (vs : List Value) {ws : List Value} {js ks : List Json},
    allIdentifiable vs = true → allIdentifiable ws = true → toJsonItems vs = .ok js →
      toJsonItems ws = .ok ks → Json.itemsWithHalves js = Json.itemsWithHalves ks →
        allAsLists (allWithHalves vs) = allAsLists (allWithHalves ws)
  | [], ws, js, ks, hv, hw, h, h', hjk => by
    cases h
    cases ws with
    | nil => rfl
    | cons w ws =>
      obtain ⟨_, _, -, -, rfl⟩ := toJsonItems_cons_eq_ok_iff.mp h'
      exact nomatch hjk
  | v :: vs, ws, js, ks, hv, hw, h, h', hjk => by
    obtain ⟨j, js, hj, hjs, rfl⟩ := toJsonItems_cons_eq_ok_iff.mp h
    cases ws with
    | nil =>
      cases h'
      exact nomatch hjk
    | cons w ws =>
      obtain ⟨k, ks, hk, hks, rfl⟩ := toJsonItems_cons_eq_ok_iff.mp h'
      rw [allIdentifiable, Bool.and_eq_true] at hv hw
      obtain ⟨hfirst, hrest⟩ := List.cons.inj hjk
      rw [allWithHalves, allWithHalves, allAsLists, allAsLists,
        identity_eq_of_toJson v hv.1 hw.1 hj hk hfirst,
        identities_eq_of_toJsonItems vs hv.2 hw.2 hjs hks hrest]
termination_by structural vs => vs

theorem identities_eq_of_toJsonEntries : ∀ (es : List (Value × Value))
    {fs : List (Value × Value)} {js ks : List Json}, entriesIdentifiable es = true →
      entriesIdentifiable fs = true → toJsonEntries es = .ok js → toJsonEntries fs = .ok ks →
        Json.itemsWithHalves js = Json.itemsWithHalves ks →
          entriesAsLists (entriesWithHalves es) = entriesAsLists (entriesWithHalves fs)
  | [], fs, js, ks, he, hf, h, h', hjk => by
    cases h
    match fs, hf with
    | [], _ => rfl
    | (text l, w) :: fs, _ =>
      obtain ⟨_, _, -, -, rfl⟩ := toJsonEntries_cons_eq_ok_iff.mp h'
      exact nomatch hjk
  | (text k, v) :: es, fs, js, ks, he, hf, h, h', hjk => by
    obtain ⟨j, js, hj, hjs, rfl⟩ := toJsonEntries_cons_eq_ok_iff.mp h
    match fs, hf with
    | [], _ =>
      cases h'
      exact nomatch hjk
    | (text l, w) :: fs, hf =>
      obtain ⟨j', js', hj', hjs', rfl⟩ := toJsonEntries_cons_eq_ok_iff.mp h'
      rw [entriesIdentifiable, Bool.and_eq_true] at he hf
      simp only [Json.itemsWithHalves, Json.withHalves, List.cons.injEq, Json.array.injEq,
        Json.text.injEq, and_true] at hjk
      obtain ⟨⟨hkey, hfirst⟩, hrest⟩ := hjk
      simp only [entriesWithHalves, keyWithHalves, entriesAsLists, hkey,
        identity_eq_of_toJson v he.1 hf.1 hj hj' hfirst,
        identities_eq_of_toJsonEntries es he.2 hf.2 hjs hjs' hrest]
termination_by structural es => es

end

theorem HasJson.identifyingText_eq (h : HasJson v j) : v.identifyingText = j.compact := by
  rw [identifyingText, h.toJson_eq]
  rfl

theorem discard_identifyingText (hv : v.isIdentifiable = true) :
    discard v.identifyingText = failUnless v.isWritable .badValue := by
  obtain ⟨j, hj⟩ := exists_hasJson v hv
  have hnative : j.allLeaves Json.isNative = true :=
    Json.allLeaves_imp (fun k hk => by cases k <;> first | rfl | exact hk) j hj.plain
  rw [hj.identifyingText_eq, Json.discard_compact hnative, hj.short_eq]

theorem identifyingTexts_eq_iff {t u : List Char} (hv : v.isIdentifiable = true)
    (hw : w.isIdentifiable = true) (ht : v.identifyingText = .ok t)
    (hu : w.identifyingText = .ok u) : t = u ↔ v.identity = w.identity := by
  obtain ⟨j, hj⟩ := exists_hasJson v hv
  obtain ⟨k, hk⟩ := exists_hasJson w hw
  rw [hj.identifyingText_eq] at ht
  rw [hk.identifyingText_eq] at hu
  rw [Json.compact_eq_iff hj.plain hk.plain ht hu, ← asLists_withHalves, ← asLists_withHalves]
  constructor
  · exact identity_eq_of_toJson v hv hw hj.toJson_eq hk.toJson_eq
  · intro h
    obtain ⟨j', hj', hjj'⟩ := exists_toJson_withHalves v hv hj.toJson_eq
    obtain ⟨k', hk', hkk'⟩ := exists_toJson_withHalves w hw hk.toJson_eq
    -- what is read alike has one JSON, and each is that JSON but for the halves of characters
    rw [← toJson_asLists, h, toJson_asLists, hk'] at hj'
    rw [← hjj', ← hkk', Except.ok.inj hj']

end Value

open Value

/-- The aggregate as far as it identifies a query whose values are read in a way. -/
def Aggregate.identity (read : Value → Value) (a : Aggregate) : Except Fault Value × List Value :=
  (a.functionName.map fun name => read (.text name), a.columns.map read)

/-- The queries agree in each of the nine parts that identify them, their values read in a way. -/
structure SameParts (read : Value → Value) (s s' : Shape)
    (filter filter' database database' collection collection' : Value) : Prop where
  database_eq : read database = read database'
  collection_eq : read collection = read collection'
  filter_eq : read filter = read filter'
  columns_eq : s.columns.map read = s'.columns.map read
  groups_eq : s.groups.map read = s'.groups.map read
  orders_eq : read s.orders = read s'.orders
  offset_eq : read s.offset = read s'.offset
  limit_eq : read s.limit = read s'.limit
  aggregate_eq :
    s.aggregate.map (Aggregate.identity read) = s'.aggregate.map (Aggregate.identity read)

variable {s s' : Shape} {filter filter' database database' collection collection' v w : Value}

/-- The aggregate as one part of what identifies a query. -/
def Aggregate.keyPart : Option Aggregate → Except Fault Value
  | none => .ok .null
  | some a => a.functionName.map fun name => .list [.text name, .list a.columns]

theorem keyParts_eq : keyParts s filter database collection =
    (Aggregate.keyPart s.aggregate).map fun part =>
      .list [database, collection, filter, .list s.columns, .list s.groups, s.orders, s.offset,
        s.limit, part] := by
  unfold keyParts Aggregate.keyPart
  cases s.aggregate with
  | none => rfl
  | some a =>
    dsimp only
    cases a.functionName <;> rfl

variable {read : Value → Value}

theorem read_keyPart_eq_iff (hlist : ∀ vs, read (.list vs) = .list (vs.map read))
    (hnull : read .null = .null) {a b : Option Aggregate} {part part' : Value}
    (ha : Aggregate.keyPart a = .ok part) (hb : Aggregate.keyPart b = .ok part') :
    read part = read part' ↔ a.map (Aggregate.identity read) = b.map (Aggregate.identity read) := by
  cases a with
  | none =>
    cases ha
    cases b with
    | none => cases hb; exact iff_of_true rfl rfl
    | some b =>
      obtain ⟨name', -, rfl⟩ := map_eq_ok_iff.mp hb
      simp [hnull, hlist]
  | some a =>
    obtain ⟨name, hname, rfl⟩ := map_eq_ok_iff.mp ha
    cases b with
    | none => cases hb; simp [hnull, hlist]
    | some b =>
      obtain ⟨name', hname', rfl⟩ := map_eq_ok_iff.mp hb
      simp [hlist, Aggregate.identity, hname, hname', Except.map]

/-- What identifies two queries is read alike where each part of it is. -/
theorem read_keyParts_eq_iff (hlist : ∀ vs, read (.list vs) = .list (vs.map read))
    (hnull : read .null = .null) (hv : keyParts s filter database collection = .ok v)
    (hw : keyParts s' filter' database' collection' = .ok w) :
    read v = read w ↔
      SameParts read s s' filter filter' database database' collection collection' := by
  obtain ⟨part, hpart, rfl⟩ := map_eq_ok_iff.mp (keyParts_eq.symm.trans hv)
  obtain ⟨part', hpart', rfl⟩ := map_eq_ok_iff.mp (keyParts_eq.symm.trans hw)
  have haggregate := read_keyPart_eq_iff hlist hnull hpart hpart'
  simp only [hlist, List.map_cons, List.map_nil, Value.list.injEq, List.cons.injEq, and_true]
  constructor
  · rintro ⟨hd, hc, hf, hcols, hgroups, horders, hoffset, hlimit, ha⟩
    exact ⟨hd, hc, hf, hcols, hgroups, horders, hoffset, hlimit, haggregate.mp ha⟩
  · rintro ⟨hd, hc, hf, hcols, hgroups, horders, hoffset, hlimit, ha⟩
    exact ⟨hd, hc, hf, hcols, hgroups, horders, hoffset, hlimit, haggregate.mpr ha⟩

theorem keyText_eq (hv : keyParts s filter database collection = .ok v) :
    keyText s filter database collection = v.identifyingText := by
  rw [keyText, hv]
  rfl

theorem identity_keyParts_eq_iff (hv : keyParts s filter database collection = .ok v)
    (hw : keyParts s' filter' database' collection' = .ok w) :
    v.identity = w.identity ↔
      SameParts identity s s' filter filter' database database' collection collection' :=
  read_keyParts_eq_iff identity_list rfl hv hw

theorem asLists_keyParts_eq_iff (hv : keyParts s filter database collection = .ok v)
    (hw : keyParts s' filter' database' collection' = .ok w) :
    v.asLists = w.asLists ↔
      SameParts asLists s s' filter filter' database database' collection collection' :=
  read_keyParts_eq_iff asLists_list rfl hv hw

/-- A value has an identifying text unless an integer in it has too many digits, and values have one
text exactly where they are the same, tuples read as lists and characters from U+10000 on as their
halves; if no text in them has a surrogate, where they are the same but for tuples. With queries it
is so in each of the nine parts that identify them. -/
theorem identifyingText_eq_iff (hv : v.isIdentifiable = true) (hw : w.isIdentifiable = true) :
    (((∃ t, v.identifyingText = .ok t) ↔ v.isWritable = true) ∧
      (∀ fault, v.identifyingText = .error fault ↔ v.isWritable = false ∧ fault = .badValue) ∧
      (∀ t u, v.identifyingText = .ok t → w.identifyingText = .ok u →
        (t = u ↔ v.identity = w.identity)) ∧
      (v.isWellFormed = true → w.isWellFormed = true →
        (v.identity = w.identity ↔ v.asLists = w.asLists))) ∧
    ∀ (s s' : Shape) (filter filter' database database' collection collection' : Value),
      keyParts s filter database collection = .ok v →
      keyParts s' filter' database' collection' = .ok w →
        ((∃ t, keyText s filter database collection = .ok t) ↔ v.isWritable = true) ∧
        (∀ fault, keyText s filter database collection = .error fault ↔
          v.isWritable = false ∧ fault = .badValue) ∧
        (∀ t u, keyText s filter database collection = .ok t →
          keyText s' filter' database' collection' = .ok u →
            (t = u ↔
              SameParts identity s s' filter filter' database database' collection collection')) ∧
        (v.isWellFormed = true → w.isWellFormed = true →
          (SameParts identity s s' filter filter' database database' collection collection' ↔
            SameParts asLists s s' filter filter' database database' collection collection')) := by
  have hdiscard := discard_identifyingText hv
  refine ⟨⟨exists_ok_iff_of_discard hdiscard, fun fault => eq_error_iff_of_discard hdiscard,
    fun t u => identifyingTexts_eq_iff hv hw, identity_eq_iff⟩, ?_⟩
  intro s s' filter filter' database database' collection collection' hparts hparts'
  rw [keyText_eq hparts, keyText_eq hparts', ← identity_keyParts_eq_iff hparts hparts',
    ← asLists_keyParts_eq_iff hparts hparts']
  exact ⟨exists_ok_iff_of_discard hdiscard, fun fault => eq_error_iff_of_discard hdiscard,
    fun t u => identifyingTexts_eq_iff hv hw, identity_eq_iff⟩

/-- A tuple and a list in a mapping, and queries that differ in the sequence of their orders. -/
theorem identifyingText_eq_iff_tuple :
    let v : Value := .map [(.text "$in", .tuple [.int 1, .bool true]), (.text "é", .objectId "0f")]
    let w : Value := .map [(.text "$in", .list [.int 1, .bool true]), (.text "é", .objectId "0f")]
    let s : Shape := { orders := .map [(.text "a", .int 1), (.text "b", .int (-1))] }
    let s' : Shape := { orders := .map [(.text "b", .int (-1)), (.text "a", .int 1)] }
    let shop : Value := .text "shop"
    (v.isIdentifiable = true ∧ w.isIdentifiable = true ∧ v.isWellFormed = true ∧
      w.isWellFormed = true ∧ ∃ t u, v.identifyingText = .ok t ∧ w.identifyingText = .ok u ∧
        t = u) ∧
    ∃ x y t u, keyParts s v shop shop = .ok x ∧ keyParts s' w shop shop = .ok y ∧
      x.isIdentifiable = true ∧ y.isIdentifiable = true ∧ x.isWellFormed = true ∧
        y.isWellFormed = true ∧ keyText s v shop shop = .ok t ∧ keyText s' w shop shop = .ok u ∧
          t ≠ u := by
  intro v w s s' shop
  obtain ⟨⟨hv, -, hvw, -⟩, -⟩ := identifyingText_eq_iff (v := v) (w := w) rfl rfl
  obtain ⟨⟨hw, -⟩, -⟩ := identifyingText_eq_iff (v := w) (w := v) rfl rfl
  obtain ⟨t, ht⟩ := hv.mpr rfl
  obtain ⟨u, hu⟩ := hw.mpr rfl
  let x : Value := .list [shop, shop, v, .list [], .list [], s.orders, s.offset, s.limit, .null]
  let y : Value := .list [shop, shop, w, .list [], .list [], s'.orders, s'.offset, s'.limit, .null]
  obtain ⟨hx, -, hxy, -⟩ :=
    (identifyingText_eq_iff (v := x) (w := y) rfl rfl).2 s s' v w shop shop shop shop rfl rfl
  obtain ⟨hy, -⟩ :=
    (identifyingText_eq_iff (v := y) (w := x) rfl rfl).2 s' s w v shop shop shop shop rfl rfl
  obtain ⟨t', ht'⟩ := hx.mpr rfl
  obtain ⟨u', hu'⟩ := hy.mpr rfl
  refine ⟨⟨rfl, rfl, rfl, rfl, t, u, ht, hu, (hvw t u ht hu).mpr rfl⟩,
    _, _, t', u', rfl, rfl, rfl, rfl, rfl, rfl, ht', hu', fun h => ?_⟩
  exact absurd ((hxy t' u' ht' hu').mp h).orders_eq (by decide)

/-- A character and its two halves have one identifying text, and an integer with too many digits
has none. -/
theorem exists_identifyingText_collision :
    (∃ (v w : Value) (t : List Char), v.isIdentifiable = true ∧ w.isIdentifiable = true ∧
      v.asLists ≠ w.asLists ∧ v.identifyingText = .ok t ∧ w.identifyingText = .ok t) ∧
    ∃ v : Value, v.isIdentifiable = true ∧ v.identifyingText = .error .badValue := by
  obtain ⟨n, hn⟩ := Text.exists_not_isWritable
  exact ⟨⟨.text "😀", .text [.surrogate 0x3D, .surrogate 0x600], _, rfl, rfl, by decide, rfl, rfl⟩,
    .int n, rfl, (eq_error_iff_of_discard (discard_identifyingText rfl)).mpr ⟨hn, rfl⟩⟩

end DocQuery
