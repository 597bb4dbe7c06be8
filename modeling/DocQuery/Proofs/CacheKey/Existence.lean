import DocQuery.Proofs.CacheKey.Soundness

/-!
# Which queries have a cache key

Two kinds of values have no identifying text: a regular expression is put into it with its pattern
as it is, and JSON has no form for a pattern of bytes; and an integer with too many digits cannot be
printed (`exists_prints_identifyingText`). A query with a filter lacks a key exactly where such a
value is among what its caller has given: `exists_cacheKey_iff`.
-/

namespace DocQuery

namespace Value

mutual

/-- Whether every regular expression in the value, at any depth, has a pattern that is text. The
keys of a mapping are written out and do not count. -/
def hasTextPatterns : Value → Bool
  | regex pattern _ => pattern.isText
  | list vs | tuple vs => allHaveTextPatterns vs
  | map es => entriesHaveTextPatterns es
  | _ => true
termination_by structural v => v

def allHaveTextPatterns : List Value → Bool
  | [] => true
  | v :: vs => v.hasTextPatterns && allHaveTextPatterns vs
termination_by structural vs => vs

def entriesHaveTextPatterns : List (Value × Value) → Bool
  | [] => true
  | (_, v) :: es => v.hasTextPatterns && entriesHaveTextPatterns es
termination_by structural es => es

end

variable {v : Value} {vs : List Value} {es : Entries} {fault : Fault}

theorem hasTextPatterns_of_not_truthy (h : v.truthy = false) : v.hasTextPatterns = true := by
  cases v with
  | list vs | tuple vs | map vs =>
    cases vs with
    | nil => rfl
    | cons => simp [truthy] at h
  | regex => simp [truthy] at h
  | _ => rfl

theorem isWritable_of_not_truthy (h : v.truthy = false) : v.isWritable = true := by
  cases v with
  | list vs | tuple vs | map vs =>
    cases vs with
    | nil => rfl
    | cons => simp [truthy] at h
  | int n =>
    obtain rfl : n = 0 := by simpa [truthy] using h
    rfl
  | regex | compiled | millis | timestamp => simp [truthy] at h
  | _ => rfl

/-! ### Values and their JSON -/

variable {α β γ : Type} {x : Except Fault α} {y : Except Fault β} {short native : α → Bool}
  {short' native' : β → Bool} {short'' native'' : γ → Bool} {writable texts writable' texts' : Bool}

/-- What becomes of a value, given whether it can be written and whether its patterns are text. What
is made of it has a form in JSON where these are, and can then be printed where it can be written;
it may only fail where it cannot. -/
inductive Normalizes (short native : α → Bool) : Bool → Bool → Except Fault α → Prop
  | done {writable texts : Bool} (a : α) (hnative : native a = texts)
      (hshort : writable = true → short a = true)
      (hwritable : texts = true → short a = true → writable = true) :
      Normalizes short native writable texts (.ok a)
  | long (texts : Bool) : Normalizes short native false texts (.error .badValue)

/-- What has no parts can be written, and has a form in JSON. -/
theorem Normalizes.plain {a : α} (hshort : short a = true) (hnative : native a = true) :
    Normalizes short native true true (.ok a) :=
  .done a hnative (fun _ => hshort) fun _ _ => rfl

theorem Normalizes.map (hx : Normalizes short native writable texts x) (f : α → β)
    (hshort : ∀ a, short' (f a) = short a) (hnative : ∀ a, native' (f a) = native a) :
    Normalizes short' native' writable texts (x >>= fun a => pure (f a)) := by
  cases hx with
  | long => exact .long _
  | done a hn hs hw =>
    refine .done (f a) ((hnative a).trans hn) ?_ ?_
    · rwa [hshort]
    · rwa [hshort]

theorem Normalizes.bind (hx : Normalizes short native writable texts x)
    (hy : Normalizes short' native' writable' texts' y) (f : α → β → γ)
    (hshort : ∀ a b, short'' (f a b) = (short a && short' b))
    (hnative : ∀ a b, native'' (f a b) = (native a && native' b)) :
    Normalizes short'' native'' (writable && writable') (texts && texts')
      (x >>= fun a => y >>= fun b => pure (f a b)) := by
  cases hx with
  | long => exact .long _
  | done a hn hs hw =>
    cases hy with
    | long => rw [Bool.and_false]; exact .long _
    | done b hn' hs' hw' =>
      refine .done (f a b) (by rw [hnative, hn, hn']) ?_ ?_
      · rw [hshort, Bool.and_eq_true, Bool.and_eq_true]
        exact fun h => ⟨hs h.1, hs' h.2⟩
      · rw [hshort, Bool.and_eq_true, Bool.and_eq_true, Bool.and_eq_true]
        exact fun ht h => ⟨hw ht.1 h.1, hw' ht.2 h.2⟩

/-- The JSON of a value. -/
abbrev NormalizesJson : Bool → Bool → Except Fault Json → Prop :=
  Normalizes (Json.allLeaves Json.isShort) (Json.allLeaves Json.isNative)

abbrev NormalizesItems : Bool → Bool → Except Fault (List Json) → Prop :=
  Normalizes (Json.allLeavesItems Json.isShort) (Json.allLeavesItems Json.isNative)

theorem allLeaves_tagged {tag : Text} {j : Json} {ok : Json → Bool} :
    (tagged tag j).allLeaves ok = j.allLeaves ok :=
  Bool.and_true _

theorem normalizes_int (n : Int) : NormalizesJson (Text.isWritable n) true (.ok (.int n)) :=
  .done _ rfl id fun _ => id

theorem normalizes_of_discard {x : Except Fault α} (h : discard x = failUnless writable .badValue) :
    Normalizes (fun _ => true) (fun _ => true) writable true x := by
  cases writable with
  | true =>
    obtain ⟨a, rfl⟩ := (exists_ok_iff_of_discard h).mpr rfl
    exact .plain rfl rfl
  | false =>
    obtain rfl := (eq_error_iff_of_discard h).mpr ⟨rfl, rfl⟩
    exact .long _

theorem normalizes_written (v : Value) : NormalizesJson v.isWritable true
    (v.written >>= fun cs => pure (tagged "$repr" (.text (Text.ofChars cs)))) :=
  (normalizes_of_discard (discard_written v)).map _ (fun _ => rfl) fun _ => rfl

theorem normalizes_regex (pattern : Value) (flags : Pattern.Flags) :
    NormalizesJson (pattern.isWritable && Text.isWritable flags.bits) pattern.isText
      (.ok (.object [("$regex", patternJson pattern), ("$options", .int flags.bits)])) := by
  cases hpattern : pattern.text? with
  | none =>
    have htext : pattern.isText = false := by rw [isText, hpattern]; rfl
    rw [htext, patternJson, hpattern]
    refine .done _ rfl (fun h => ?_) nofun
    simpa [Json.allLeaves, Json.allLeavesMembers, Json.isShort] using (Bool.and_eq_true _ _ ▸ h).2
  | some s =>
    have htext : pattern.isText = true := by rw [isText, hpattern]; rfl
    have hwritable : pattern.isWritable = true := by
      rcases text?_eq_some_iff.mp hpattern with rfl | ⟨m, rfl, -⟩ <;> rfl
    rw [htext, hwritable, patternJson, hpattern]
    exact .done _ rfl (by simp [Json.allLeaves, Json.allLeavesMembers, Json.isShort])
      (by simp [Json.allLeaves, Json.allLeavesMembers, Json.isShort])

mutual

theorem normalizes_toJson :
    ∀ v : Value, NormalizesJson v.isWritable v.hasTextPatterns v.toJson
  | list vs => (normalizes_toJsonItems vs).map _ (fun _ => rfl) fun _ => rfl
  | tuple vs => (normalizes_toJsonItems vs).map _ (fun _ => rfl) fun _ => rfl
  | map es => (normalizes_toJsonEntries es).map _ (fun _ => allLeaves_tagged)
    fun _ => allLeaves_tagged
  | regex pattern flags => normalizes_regex pattern flags
  | int n => normalizes_int n
  | millis n => (normalizes_int n).map (tagged "$date") (fun _ => allLeaves_tagged)
    fun _ => allLeaves_tagged
  | null | bool _ | float _ | text _ | member _ | objectId _ | dateTime _ | date _ => .plain rfl rfl
  | bytes bs => normalizes_written (bytes bs)
  | compiled p flags => normalizes_written (compiled p flags)
  | uuid s => normalizes_written (uuid s)
  | timestamp s i => normalizes_written (timestamp s i)
  | minKey => normalizes_written minKey
  | maxKey => normalizes_written maxKey
  | missing => normalizes_written missing
termination_by structural v => v

theorem normalizes_toJsonItems :
    ∀ vs : List Value, NormalizesItems (allWritable vs) (allHaveTextPatterns vs) (toJsonItems vs)
  | [] => .plain rfl rfl
  | v :: vs => (normalizes_toJson v).bind (normalizes_toJsonItems vs) _ (fun _ _ => rfl)
    fun _ _ => rfl
termination_by structural vs => vs

theorem normalizes_toJsonEntries : ∀ es : List (Value × Value),
    NormalizesItems (entriesWritable es) (entriesHaveTextPatterns es) (toJsonEntries es)
  | [] => .plain rfl rfl
  | (k, v) :: es => by
    let each (ok : Json → Bool) (p : Json × List Json) : Bool :=
      p.1.allLeaves ok && Json.allLeavesItems ok p.2
    have hvalues : Normalizes (each Json.isShort) (each Json.isNative) _ _ _ :=
      (normalizes_toJson v).bind (normalizes_toJsonEntries es) Prod.mk (fun _ _ => rfl)
        fun _ _ => rfl
    have hentry : NormalizesItems _ _ _ := (normalizes_of_discard (discard_plain k)).bind hvalues
      (fun name p => Json.array [.text name, p.1] :: p.2)
      (fun _ _ => by simp [each, Json.allLeavesItems, Json.allLeaves, Json.isShort])
      fun _ _ => by simp [each, Json.allLeavesItems, Json.allLeaves, Json.isNative]
    simp only [bind_assoc, pure_bind, Bool.true_and, ← Bool.and_assoc] at hentry
    exact hentry
termination_by structural es => es

end

/-- The identifying text of a value is printed, unless an integer has too many digits or a pattern
is not text. -/
theorem exists_prints_identifyingText (v : Value) :
    ∃ cs, Json.Prints v.isWritable v.hasTextPatterns v.identifyingText cs := by
  unfold identifyingText
  have hjson := normalizes_toJson v
  revert hjson
  generalize v.toJson = x, v.isWritable = writable, v.hasTextPatterns = texts
  rintro (⟨j, rfl, hshort, hwritable⟩ | texts)
  · refine ⟨j.layout, ?_⟩
    have hprints := Json.prints_compact j
    show Json.Prints writable (j.allLeaves Json.isNative) j.compact j.layout
    revert hprints hshort hwritable
    generalize j.compact = x, j.layout = cs, j.allLeaves Json.isShort = short,
      j.allLeaves Json.isNative = native
    intro hshort hwritable hprints
    cases hprints with
    | text =>
      obtain rfl := hwritable rfl rfl
      exact .text _
    | long =>
      obtain rfl : writable = false := Bool.eq_false_iff.mpr fun h => nomatch hshort h
      exact .long _ _
    | foreign => exact .foreign _ _
  · exact ⟨[], .long _ _⟩

theorem identifyingText_eq_error (hw : v.isWritable = false) (ht : v.hasTextPatterns = true) :
    v.identifyingText = .error .badValue := by
  obtain ⟨cs, hprints⟩ := v.exists_prints_identifyingText
  rw [hw, ht] at hprints
  revert hprints
  generalize v.identifyingText = x
  rintro ⟨⟩
  rfl

end Value

namespace Query

open Value

variable {q : Query} {f : Entries}

/-- What the caller's values are that the key of the query with this filter is made from. -/
def keyed (q : Query) (f : Entries) : List Value :=
  [q.database, .map f, .list (q.columns.getD []), .list q.groups, .map q.orders, q.offset, q.limit]

/-- The names that are made text for the key: that of the collection and, unless the caller has
named a database, that of the collection's. -/
def keyNames (q : Query) : List Value :=
  q.collection.name.toList ++ if q.database.truthy then [] else q.collection.database.toList

theorem nameText_cases (name : Option Value) :
    (∃ s, nameText name = .ok (.text s) ∧ ∀ v ∈ name.toList, v.isWritable = true) ∨
      nameText name = .error .badValue ∧ ¬ ∀ v ∈ name.toList, v.isWritable = true := by
  cases name with
  | none => exact .inl ⟨"", rfl, fun _ h => nomatch h⟩
  | some v =>
    by_cases hv : v.isWritable = true
    · obtain ⟨s, hs⟩ := exists_plain_iff.mpr hv
      refine .inl ⟨s, ?_, by simpa using hv⟩
      rw [nameText, hs]
      rfl
    · have hfault := plain_eq_error_iff.mpr ⟨Bool.eq_false_iff.mpr hv, rfl⟩
      refine .inr ⟨?_, by simpa using hv⟩
      rw [nameText, hfault]
      rfl

/-- The name of the database stands for itself, or is made text from a name that can be written. -/
theorem databaseName_cases (q : Query) :
    (∃ d, q.databaseName = .ok d ∧ d.isWritable = q.database.isWritable ∧
        d.hasTextPatterns = q.database.hasTextPatterns ∧
        ∀ v ∈ if q.database.truthy then [] else q.collection.database.toList, v.isWritable = true) ∨
      q.databaseName = .error .badValue ∧
        ¬ ∀ v ∈ if q.database.truthy then [] else q.collection.database.toList,
          v.isWritable = true := by
  unfold databaseName
  cases hd : q.database.truthy with
  | true => exact .inl ⟨q.database, rfl, rfl, rfl, fun _ h => nomatch h⟩
  | false =>
    rcases nameText_cases q.collection.database with ⟨s, hs, hnames⟩ | hfault
    · exact .inl ⟨.text s, hs, (isWritable_of_not_truthy hd).symm,
        (hasTextPatterns_of_not_truthy hd).symm, hnames⟩
    · exact .inr hfault

theorem keyParts_of_no_aggregate {s : Shape} (h : s.aggregate = none)
    (filter database collection : Value) : keyParts s filter database collection =
      .ok (.list [database, collection, filter, .list s.columns, .list s.groups, s.orders, s.offset,
        s.limit, .null]) := by
  rw [keyParts_eq, h]
  rfl

/-- A query without an aggregate is identified by its names and by what its caller has given. -/
theorem keyValue_cases (hq : q.Reachable) (f : Entries) :
    (∃ v, q.keyValue f = .ok v ∧
        (v.hasTextPatterns = true ↔ ∀ u ∈ q.keyed f, u.hasTextPatterns = true) ∧
        (v.isWritable = true ↔ ∀ u ∈ q.keyed f, u.isWritable = true) ∧
        ∀ u ∈ q.keyNames, u.isWritable = true) ∨
      q.keyValue f = .error .badValue ∧ ¬ ∀ u ∈ q.keyNames, u.isWritable = true := by
  have hnames : (∀ u ∈ q.keyNames, u.isWritable = true) ↔
      (∀ u ∈ q.collection.name.toList, u.isWritable = true) ∧
        ∀ u ∈ if q.database.truthy then [] else q.collection.database.toList,
          u.isWritable = true := List.forall_mem_append
  unfold keyValue
  rcases q.databaseName_cases with ⟨d, hd, hwritable, htexts, hdatabase⟩ | ⟨hd, hdatabase⟩
  · rcases nameText_cases q.collection.name with ⟨s, hs, hcollection⟩ | ⟨hs, hcollection⟩
    · have hparts : keyParts q.ownShape (.map f) d (.text s) = _ :=
        keyParts_of_no_aggregate hq.settled.aggregate_eq _ _ _
      rw [hd, hs]
      refine .inl ⟨_, hparts, ?_, ?_, hnames.mpr ⟨hcollection, hdatabase⟩⟩
      · simp [keyed, hasTextPatterns, allHaveTextPatterns, htexts, ownShape]
      · simp [keyed, isWritable, allWritable, hwritable, ownShape]
    · refine .inr ⟨?_, fun h => hcollection (hnames.mp h).1⟩
      rw [hd, hs]
      rfl
  · refine .inr ⟨?_, fun h => hdatabase (hnames.mp h).2⟩
    rw [hd]
    rfl

/-- A query with a filter has a cache key exactly where every regular expression in what its caller
has given has a pattern that is text, and every integer in it and in the names can be written. The
fault tells which of the two it lacks. -/
theorem exists_cacheKey_iff (hq : q.Reachable) (hf : q.filter = .ok f) :
    ((∃ key, q.cacheKey = .ok key) ↔ (∀ v ∈ q.keyed f, v.hasTextPatterns = true) ∧
      ∀ v ∈ q.keyed f ++ q.keyNames, v.isWritable = true) ∧
    ∀ fault, q.cacheKey = .error fault →
      (fault = .wrongType ∧ ∃ v ∈ q.keyed f, v.hasTextPatterns = false) ∨
        fault = .badValue ∧ ∃ v ∈ q.keyed f ++ q.keyNames, v.isWritable = false := by
  have hkey : q.cacheKey = (q.keyValue f >>= identifyingText).map digestText := by
    rw [cacheKey_eq, keyText_eq, hf]
    rfl
  have hlacks : ∀ (vs : List Value) (ok : Value → Bool),
      (∃ v ∈ vs, ok v = false) ↔ ¬ ∀ v ∈ vs, ok v = true := by simp
  rw [hkey]
  simp only [hlacks, List.forall_mem_append]
  rcases keyValue_cases hq f with ⟨v, hv, htexts, hwritable, hnames⟩ | ⟨hv, hnames⟩
  · obtain ⟨cs, hprints⟩ := v.exists_prints_identifyingText
    rw [hv, and_iff_left hnames, ← htexts, ← hwritable]
    show ((∃ key, v.identifyingText.map digestText = .ok key) ↔ _) ∧
      ∀ fault, v.identifyingText.map digestText = .error fault → _
    revert hprints
    generalize v.identifyingText = x, v.isWritable = writable, v.hasTextPatterns = texts
    rintro ⟨⟩ <;> simp [Except.map]
  · rw [hv]
    constructor
    · exact iff_of_false (fun ⟨_, h⟩ => nomatch h) fun h => hnames h.2.2
    · rintro _ ⟨⟩
      exact .inr ⟨rfl, fun h => hnames h.2⟩

/-- A regular expression in a list of operands. -/
theorem exists_cacheKey_iff_nested :
    let start : Query := { collection := {} }
    let pattern : Value := .regex (.text "^a") .ignoreCase
    let q := ((Refinement.among (.text "tags") (.list [pattern, .null]) Predicate.byAnd
      (.bool false)).apply start).query
    q.Reachable ∧ ∃ f key, q.filter = .ok f ∧ pattern.hasTextPatterns = true ∧
      q.cacheKey = .ok key := by
  intro start pattern q
  have hq : q.Reachable := Reachable.apply (.start _ _) _
  have hf : q.filter =
    .ok [(.text "tags", .map [(.text "$in", .list [pattern, .null])])] := rfl
  obtain ⟨key, hkey⟩ := (exists_cacheKey_iff hq hf).1.mpr ⟨by decide, by decide⟩
  exact ⟨hq, _, key, hf, rfl, hkey⟩

/-- Queries that compile and have no cache key: one with a pattern of bytes, and one with an integer
that has too many digits. -/
theorem exists_filter_without_key :
    (∃ (q : Query) (f : Entries), q.Reachable ∧ q.filter = .ok f ∧
      q.cacheKey = .error .wrongType) ∧
    ∃ (q : Query) (f : Entries), q.Reachable ∧ q.filter = .ok f ∧
      q.cacheKey = .error .badValue := by
  let start : Query := { collection := {} }
  let asked (operator : Text) (operand : Value) : Query :=
    ((Refinement.test (.text "name") (.text operator) operand Predicate.byAnd).apply start).query
  have hreachable : ∀ operator operand, (asked operator operand).Reachable := fun _ _ =>
    Reachable.apply (.start _ _) _
  obtain ⟨n, hn⟩ := Text.exists_not_isWritable
  refine ⟨⟨asked "regex" (.regex (.bytes [0x61, 0x62]) .empty), _, hreachable _ _, rfl, rfl⟩,
    asked "=" (.int n), [(.text "name", .int n)], hreachable _ _, rfl, ?_⟩
  have htext : (asked "=" (.int n)).keyText = _ := identifyingText_eq_error
    (v := .list [.text "", .text "", .map [(.text "name", .int n)], .list [], .list [], .map [],
      .null, .null, .null])
    (by simp [isWritable, allWritable, entriesWritable, hn]) rfl
  rw [cacheKey_eq, htext]
  rfl

end Query

end DocQuery
