import DocQuery.Path

/-!
# Reading by a path

A path without a dot reads the field of its name (`read_text_of_not_mem`). A path with one reads a
field of a field, and so nothing where the fields hold no mappings (`read_text_of_mem`). In general
it reads what the names between its dots lead to (`valueAt_eq_iff`), so that two paths with a dot
between them read by the second what is read by the first (`read_joined`). A path that is made a
name of its own has no dot, and is as it was only where it had none.
-/

namespace DocQuery.Path

variable {path : Text} {es : Entries} {c : CodePoint}

theorem segments_cons (h : c ≠ .char '.') (path : Text) :
    segments (c :: path) = consFirst c (segments path) := by
  rw [segments]
  exact h

/-- The segments of a path are what stands between its dots. -/
theorem segments_eq_splitOn (path : Text) : segments path = path.splitOn (.char '.') := by
  induction path with
  | nil => rfl
  | cons c path ih =>
    rw [List.splitOn_cons_eq_if_modifyHead]
    by_cases hc : c = .char '.'
    · rw [hc, segments, ih]
      simp
    · obtain ⟨first, rest, hpath⟩ :=
        List.exists_cons_of_ne_nil (List.splitOn_ne_nil (.char '.') path)
      simp [hc, segments_cons hc, ih, hpath, consFirst]

theorem segments_of_not_mem (h : .char '.' ∉ path) : segments path = [path] := by
  rw [segments_eq_splitOn, List.splitOn_eq_singleton h]

theorem segments_append_dot (path more : Text) :
    segments (path ++ .char '.' :: more) = segments path ++ segments more := by
  simp only [segments_eq_splitOn, List.splitOn_append_cons_self]

theorem exists_segments_of_mem (h : .char '.' ∈ path) :
    ∃ first second rest, segments path = first :: second :: rest := by
  obtain ⟨before, after, rfl, hbefore⟩ := List.eq_append_cons_of_mem h
  obtain ⟨second, rest, hafter⟩ :=
    List.exists_cons_of_ne_nil (List.splitOn_ne_nil (.char '.') after)
  refine ⟨before, second, rest, ?_⟩
  rw [segments_append_dot, segments_of_not_mem hbefore, segments_eq_splitOn, hafter]
  rfl

theorem get_null (path : List Value) : get .null path = .null := by
  induction path with
  | nil => rfl
  | cons key path ih => exact ih

theorem read_text (v : Value) (path : Text) :
    read v (.text path) = .ok (get v ((segments path).map .text)) := rfl

theorem read_text_of_not_mem (h : CodePoint.char '.' ∉ path) (es : Entries) :
    read (.map es) (.text path) = .ok ((Entries.get? es (.text path)).getD .null) := by
  rw [read_text, segments_of_not_mem h, List.map_singleton]
  rfl

theorem child_of_not_map {v : Value} (h : ∀ es, v ≠ .map es) (key : Value) :
    child v key = .null := by
  unfold child
  split
  · next es => exact absurd rfl (h es)
  · rfl

theorem read_text_of_mem (h : CodePoint.char '.' ∈ path) (hes : ∀ e ∈ es, ∀ fs, e.2 ≠ .map fs) :
    read (.map es) (.text path) = .ok .null := by
  obtain ⟨first, second, rest, hsegments⟩ := exists_segments_of_mem h
  have hfirst : ∀ fs, child (.map es) (.text first) ≠ .map fs := by
    intro fs
    cases hfind : es.find? fun e => e.1.sameKey (.text first) with
    | none => simp [child, Entries.get?, hfind]
    | some e => simpa [child, Entries.get?, hfind] using hes e (List.mem_of_find?_eq_some hfind) fs
  rw [read_text, hsegments, List.map_cons, List.map_cons, get_cons, get_cons,
    child_of_not_map hfirst, get_null]

/-! ### What a path leads to -/

/-- Names that lead from one value to another: each is a key of a mapping, which holds the next
value under it. -/
inductive Leads : Value → List Text → Value → Prop
  | here (v : Value) : Leads v [] v
  | field {es : Entries} {name : Text} {names : List Text} {u v : Value}
      (h : Entries.get? es (.text name) = some u) (hrest : Leads u names v) :
      Leads (.map es) (name :: names) v

/-- What a value holds at a path. -/
def valueAt (path : Text) (v : Value) : Value :=
  get v ((segments path).map .text)

variable {u v w : Value} {name : Text} {names : List Text}

theorem leads_nil_iff : Leads v [] w ↔ v = w := by
  constructor
  · rintro ⟨⟩
    rfl
  · rintro rfl
    exact .here v

theorem leads_map_cons_iff : Leads (.map es) (name :: names) w ↔
    ∃ u, Entries.get? es (.text name) = some u ∧ Leads u names w := by
  constructor
  · rintro ⟨⟩
    next u hu hrest => exact ⟨u, hu, hrest⟩
  · rintro ⟨u, hu, hrest⟩
    exact .field hu hrest

theorem get_texts_eq_iff : get v (names.map .text) = w ↔
    Leads v names w ∨ w = .null ∧ ∀ u, ¬ Leads v names u := by
  induction names generalizing v with
  | nil => simp [leads_nil_iff, get]
  | cons name names ih =>
    rw [List.map_cons, get_cons]
    by_cases hmap : ∃ es, v = .map es
    · obtain ⟨es, rfl⟩ := hmap
      simp only [leads_map_cons_iff, child]
      cases Entries.get? es (.text name) with
      | none => simp [get_null, eq_comm]
      | some u => simpa using ih
    · have hnone : ∀ u, ¬ Leads v (name :: names) u := by
        rintro u ⟨⟩
        exact hmap ⟨_, rfl⟩
      rw [child_of_not_map (fun es h => hmap ⟨es, h⟩), get_null]
      simp [hnone, eq_comm]

/-- A value holds at a path what the names between the dots lead to, and null if that is nothing. -/
theorem valueAt_eq_iff (path : Text) (v w : Value) :
    let names := path.splitOn (.char '.')
    valueAt path v = w ↔ Leads v names w ∨ w = .null ∧ ∀ u, ¬ Leads v names u := by
  rw [← segments_eq_splitOn]
  exact get_texts_eq_iff

/-- The names between the dots of a path. -/
def namesOf (path : Text) : List Text :=
  path.splitOn (.char '.')

/-- What names lead to, or null where a key is missing or a value before the last is no mapping. -/
def LeadsOrNull (v : Value) (names : List Text) (w : Value) : Prop :=
  Leads v names w ∨ w = .null ∧ ∀ u, ¬ Leads v names u

variable {more : List Text}

theorem namesOf_joined (s t : Text) : namesOf (s ++ "." ++ t) = namesOf s ++ namesOf t := by
  have hdot : s ++ "." ++ t = s ++ .char '.' :: t := List.append_assoc s "." t
  rw [namesOf, hdot, List.splitOn_append_cons_self]
  rfl

namespace Leads

theorem unique (hv : Leads u names v) (hw : Leads u names w) : v = w := by
  induction hv with
  | here u => exact leads_nil_iff.mp hw
  | field hget _ ih =>
    obtain ⟨u', hget', hrest⟩ := leads_map_cons_iff.mp hw
    obtain rfl := Option.some.inj (hget.symm.trans hget')
    exact ih hrest

theorem append (hv : Leads u names v) (hw : Leads v more w) : Leads u (names ++ more) w := by
  induction hv with
  | here u => exact hw
  | field hget _ ih => exact .field hget (ih hw)

theorem exists_of_append (h : Leads u (names ++ more) w) :
    ∃ v, Leads u names v ∧ Leads v more w := by
  induction names generalizing u with
  | nil => exact ⟨u, .here u, h⟩
  | cons name names ih =>
    cases h with
    | field hget hrest =>
      obtain ⟨v, hv, hw⟩ := ih hrest
      exact ⟨v, .field hget hv, hw⟩

theorem eq_null (h : Leads .null names w) : w = .null := by
  cases h
  rfl

end Leads

namespace LeadsOrNull

theorem unique (hv : LeadsOrNull u names v) (hw : LeadsOrNull u names w) : v = w := by
  rcases hv with hv | ⟨rfl, hnone⟩
  · rcases hw with hw | ⟨-, hnone⟩
    · exact hv.unique hw
    · exact absurd hv (hnone v)
  · rcases hw with hw | ⟨rfl, -⟩
    · exact absurd hw (hnone w)
    · rfl

theorem eq_null (h : LeadsOrNull .null names w) : w = .null := by
  rcases h with hw | ⟨hw, -⟩
  · exact hw.eq_null
  · exact hw

theorem append (hv : LeadsOrNull u names v) (hw : LeadsOrNull v more w) :
    LeadsOrNull u (names ++ more) w := by
  rcases hv with hv | ⟨rfl, hnone⟩
  · rcases hw with hw | ⟨rfl, hnone⟩
    · exact .inl (hv.append hw)
    · refine .inr ⟨rfl, fun x hx => ?_⟩
      obtain ⟨v', hv', hx⟩ := hx.exists_of_append
      exact hnone x (hv'.unique hv ▸ hx)
  -- Names that lead nowhere lead nowhere when others follow them, and the null that is read in
  -- their place holds nothing.
  · refine .inr ⟨hw.eq_null, fun x hx => ?_⟩
    obtain ⟨v, hv, -⟩ := hx.exists_of_append
    exact hnone v hv

end LeadsOrNull

theorem leadsOrNull_valueAt (path : Text) (v : Value) :
    LeadsOrNull v (namesOf path) (valueAt path v) :=
  (valueAt_eq_iff path v _).mp rfl

theorem read_of_text? {p : Value} (h : p.text? = some path) (v : Value) :
    read v p = .ok (valueAt path v) := by
  rcases Value.text?_eq_some_iff.mp h with rfl | ⟨m, rfl, rfl⟩ <;> rfl

/-- Reading by two paths with a dot between them is reading by the second what is read by the
first. Neither reading fails, and each gives what its names lead to. -/
theorem read_joined {d p q : Value} {s t : Text} (hp : p.text? = some s)
    (hq : q.text? = some t) :
    ∃ u w, read d p = .ok u ∧ LeadsOrNull d (namesOf s) u ∧
      read u q = .ok w ∧ LeadsOrNull u (namesOf t) w ∧
      read d (.text (s ++ "." ++ t)) = .ok w ∧ LeadsOrNull d (namesOf s ++ namesOf t) w := by
  have hu := leadsOrNull_valueAt s d
  have hw := leadsOrNull_valueAt t (valueAt s d)
  have hjoined := leadsOrNull_valueAt (s ++ "." ++ t) d
  rw [namesOf_joined] at hjoined
  have hread : read d (.text (s ++ "." ++ t)) = .ok (valueAt t (valueAt s d)) := by
    rw [read_of_text? rfl, hjoined.unique (hu.append hw)]
  exact ⟨_, _, read_of_text? hp d, hu, read_of_text? hq _, hw, hread, hu.append hw⟩

/-- A path that ends in a dot and so in an empty name, joined with a named constant. -/
theorem read_joined_empty_name :
    let row := Value.map [(.text "tags", .map [(.text "", .map [(.text "or", .int 3)])])]
    let tagged := Value.map [(.text "or", .int 3)]
    (Value.text "tags.").text? = some "tags." ∧
      (Value.member (.connective .or)).text? = some "or" ∧
      read row (.text "tags.") = .ok tagged ∧
      read tagged (.member (.connective .or)) = .ok (.int 3) ∧
      read row (.text "tags..or") = .ok (.int 3) := by
  intro row tagged
  obtain ⟨u, w, hu, -, hw, -, hjoined, -⟩ :=
    read_joined (d := row) (p := .text "tags.") (q := .member (.connective .or)) rfl rfl
  have htagged : read row (.text "tags.") = .ok tagged := rfl
  have hor : read tagged (.member (.connective .or)) = .ok (.int 3) := rfl
  obtain rfl : tagged = u := Except.ok.inj (htagged.symm.trans hu)
  obtain rfl : .int 3 = w := Except.ok.inj (hor.symm.trans hw)
  exact ⟨rfl, rfl, hu, hw, hjoined⟩

theorem flatten_of_not_mem (h : CodePoint.char '.' ∉ path) : flatten path = path := by
  have hpoints : ∀ c ∈ path, (if c = .char '.' then CodePoint.char '_' else c) = c := fun c hc => by
    have hne : c ≠ .char '.' := fun hdot => h (hdot ▸ hc)
    simp [hne]
  rw [flatten, List.map_congr_left hpoints, List.map_id']

theorem dot_not_mem_flatten (path : Text) : CodePoint.char '.' ∉ flatten path := by
  rw [flatten, List.mem_map]
  rintro ⟨c, -, hc⟩
  split at hc
  · exact absurd hc (by decide)
  · next hne => exact hne hc

theorem underscore_mem_flatten (h : CodePoint.char '.' ∈ path) :
    CodePoint.char '_' ∈ flatten path :=
  List.mem_map.mpr ⟨.char '.', h, rfl⟩

end DocQuery.Path
