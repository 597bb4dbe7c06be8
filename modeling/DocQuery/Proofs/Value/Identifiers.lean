import DocQuery.Proofs.Value.Texts
import DocQuery.Value.Canonical

/-!
# Where identifiers are recognised

Lists and tuples are gone into by their indices (`Value.at?`), and a value that is neither is a
leaf. Recognising identifiers goes leaf by leaf: the lists and tuples stay, and a leaf is changed
only where it is a text that writes an identifier. Main statement: `identifiers_at_leaves`.
-/

namespace DocQuery

namespace Text

/-- The hexadecimal digits in lower case. -/
def lowerHexDigits : List Char :=
  ['0', '1', '2', '3', '4', '5', '6', '7', '8', '9', 'a', 'b', 'c', 'd', 'e', 'f']

/-- The hexadecimal digits, in lower and in upper case. -/
def hexDigits : List Char :=
  lowerHexDigits ++ ['A', 'B', 'C', 'D', 'E', 'F']

theorem toNat_lt_of_isHexDigit {c : Char} (h : isHexDigit c = true) : c.toNat < 0x80 := by
  simp only [isHexDigit, Char.isDigit, Bool.or_eq_true, Bool.and_eq_true, decide_eq_true_eq] at h
  rcases h with (⟨-, h⟩ | ⟨-, h⟩) | ⟨-, h⟩ <;>
    exact Nat.lt_of_le_of_lt (UInt32.le_iff_toNat_le.mp h) (by decide)

theorem isHexDigit_iff {c : Char} : isHexDigit c = true ↔ c ∈ hexDigits := by
  have hascii : ∀ n < 0x80, isHexDigit (Char.ofNat n) = true → Char.ofNat n ∈ hexDigits := by
    decide
  have hdigits : hexDigits.all isHexDigit = true := by decide
  refine ⟨fun h => ?_, List.all_eq_true.mp hdigits c⟩
  have hmem := hascii c.toNat (toNat_lt_of_isHexDigit h)
  rw [Char.ofNat_toNat] at hmem
  exact hmem h

theorem mem_chars_iff {s : Text} {c : Char} : c ∈ chars s ↔ CodePoint.char c ∈ s := by
  rw [chars, List.mem_filterMap]
  constructor
  · rintro ⟨p, hp, hc⟩
    cases p with
    | char d => exact Option.some.inj hc ▸ hp
    | surrogate n => exact nomatch hc
  · exact fun h => ⟨_, h, rfl⟩

/-- The digits of an identifier in lower case have the values that they had. -/
theorem lower_hexDigit {c : Char} (h : c ∈ hexDigits) :
    hexValue c.toLower = hexValue c ∧ c.toLower ∈ lowerHexDigits := by
  have hall : hexDigits.all (fun c =>
      hexValue c.toLower == hexValue c && lowerHexDigits.contains c.toLower) = true := by decide
  simpa using List.all_eq_true.mp hall c h

end Text

namespace Value

/-- What a value is on the outside: a list or a tuple of so many values, or a leaf. -/
inductive Frame where
  | list (length : Nat)
  | tuple (length : Nat)
  | leaf
deriving DecidableEq, Repr

def frame : Value → Frame
  | list vs => .list vs.length
  | tuple vs => .tuple vs.length
  | _ => .leaf

/-- What is found by indices into lists and tuples, from the outermost on. -/
def at? (v : Value) : List Nat → Option Value
  | [] => some v
  | i :: path => match v with
    | list vs | tuple vs => vs[i]?.bind fun w => at? w path
    | _ => none

/-- The text is 24 hexadecimal digits. -/
def WritesIdentifier (s : Text) : Prop :=
  s.length = 24 ∧ ∀ p ∈ s, ∃ c ∈ Text.hexDigits, p = .char c

/-- Digits of the same values, all in lower case. -/
structure IdentifierOf (s : Text) (hex : String) : Prop where
  values : hex.toList.map Text.hexValue = (Text.chars s).map Text.hexValue
  lower : ∀ c ∈ hex.toList, c ∈ Text.lowerHexDigits

variable {v leaf : Value} {s : Text} {path : List Nat}

theorem isIdentifier_iff : isIdentifier s = true ↔ WritesIdentifier s := by
  have hdigit : ∀ p : CodePoint,
      p.is Text.isHexDigit = true ↔ ∃ c ∈ Text.hexDigits, p = .char c := fun p => by
    cases p <;> simp [CodePoint.is, Text.isHexDigit_iff]
  simp only [isIdentifier, WritesIdentifier, Bool.and_eq_true, beq_iff_eq, List.all_eq_true, hdigit]

instance (s : Text) : Decidable (WritesIdentifier s) :=
  decidable_of_iff _ isIdentifier_iff

theorem identifierOf_lower (h : WritesIdentifier s) :
    IdentifierOf s (String.ofList ((Text.chars s).map Char.toLower)) := by
  have hdigits : ∀ c ∈ Text.chars s, c ∈ Text.hexDigits := fun c hc => by
    obtain ⟨d, hd, hcd⟩ := h.2 _ (Text.mem_chars_iff.mp hc)
    exact CodePoint.char_inj.mp hcd ▸ hd
  constructor
  · rw [String.toList_ofList, List.map_map]
    exact List.map_congr_left fun c hc => (Text.lower_hexDigit (hdigits c hc)).1
  · rw [String.toList_ofList]
    exact List.forall_mem_map.mpr fun c hc => (Text.lower_hexDigit (hdigits c hc)).2

/-- No constant has a text that writes an identifier. -/
theorem not_writesIdentifier_member (m : Member) : ¬ WritesIdentifier m.text := by
  cases m with
  | connective c => cases c <;> decide
  | kind k => cases k <;> decide
  | accumulator f => cases f <;> decide

theorem eq_text_of_writesIdentifier (hleaf : leaf.text? = some s) (h : WritesIdentifier s) :
    leaf = text s := by
  rcases text?_eq_some_iff.mp hleaf with htext | ⟨m, -, rfl⟩
  · exact htext
  · exact absurd h (not_writesIdentifier_member m)

theorem withIdentifiers_of_writes (h : WritesIdentifier s) :
    (text s).withIdentifiers = objectId (String.ofList ((Text.chars s).map Char.toLower)) := by
  rw [withIdentifiers, if_pos (isIdentifier_iff.mpr h)]

theorem withIdentifiers_of_leaf (hframe : v.frame = .leaf)
    (h : ∀ s, v.text? = some s → ¬ WritesIdentifier s) : v.withIdentifiers = v := by
  cases v with
  | list | tuple => exact nomatch hframe
  | text s => rw [withIdentifiers, if_neg fun hs => h s rfl (isIdentifier_iff.mp hs)]
  | _ => rfl

theorem frame_withIdentifiers (v : Value) : v.withIdentifiers.frame = v.frame := by
  cases v with
  | list vs | tuple vs => simp [withIdentifiers, frame, allWithIdentifiers_eq_map]
  | text s =>
    rw [withIdentifiers]
    split <;> rfl
  | _ => rfl

theorem at?_of_leaf (h : v.frame = .leaf) (i : Nat) (path : List Nat) :
    v.at? (i :: path) = none := by
  cases v with
  | list | tuple => exact nomatch h
  | _ => rfl

/-- Identifiers are recognised in each value that is found, and nowhere else. -/
theorem at?_withIdentifiers (v : Value) (path : List Nat) :
    v.withIdentifiers.at? path = (v.at? path).map withIdentifiers := by
  induction path generalizing v with
  | nil => rfl
  | cons i path ih =>
    have hvalues : ∀ vs : List Value, (allWithIdentifiers vs)[i]?.bind (·.at? path) =
        (vs[i]?.bind (·.at? path)).map withIdentifiers := fun vs => by
      rw [allWithIdentifiers_eq_map, List.getElem?_map]
      cases vs[i]? with
      | none => rfl
      | some w => exact ih w
    cases hframe : v.frame with
    | leaf =>
      rw [at?_of_leaf hframe, at?_of_leaf ((frame_withIdentifiers v).trans hframe)]
      rfl
    | list n | tuple n =>
      cases v with
      | list vs | tuple vs => exact hvalues vs
      | _ => exact nomatch hframe

end Value

open Value

/-- Lists and tuples stay as they are, to any depth. A leaf becomes the identifier that it writes,
if it is a text of 24 hexadecimal digits, and else stays; so that no such text is left, and a second
time nothing changes. -/
theorem identifiers_at_leaves (v : Value) :
    (∀ path, (v.withIdentifiers.at? path).map frame = (v.at? path).map frame) ∧
    (∀ path leaf, v.at? path = some leaf → leaf.frame = .leaf →
      (∀ s, leaf.text? = some s → WritesIdentifier s →
        ∃ hex, v.withIdentifiers.at? path = some (.objectId hex) ∧ IdentifierOf s hex) ∧
      ((∀ s, leaf.text? = some s → ¬ WritesIdentifier s) →
        v.withIdentifiers.at? path = some leaf)) ∧
    (∀ path leaf s, v.withIdentifiers.at? path = some leaf → leaf.text? = some s →
      ¬ WritesIdentifier s) ∧
    v.withIdentifiers.withIdentifiers = v.withIdentifiers := by
  refine ⟨fun path => ?_, fun path leaf hleaf hframe => ⟨fun s hs hwrites => ?_, fun hnone => ?_⟩,
    fun path leaf s hleaf hs hwrites => ?_, withIdentifiers_withIdentifiers v⟩
  · rw [at?_withIdentifiers, Option.map_map]
    exact Option.map_congr fun w _ => frame_withIdentifiers w
  · obtain rfl := eq_text_of_writesIdentifier hs hwrites
    refine ⟨_, ?_, identifierOf_lower hwrites⟩
    rw [at?_withIdentifiers, hleaf, Option.map_some, withIdentifiers_of_writes hwrites]
  · rw [at?_withIdentifiers, hleaf, Option.map_some, withIdentifiers_of_leaf hframe hnone]
  · obtain rfl := eq_text_of_writesIdentifier hs hwrites
    -- such a text would be recognised the second time, when nothing changes
    have htwice : v.withIdentifiers.withIdentifiers.at? path = some (.text s) := by
      rw [withIdentifiers_withIdentifiers, hleaf]
    rw [at?_withIdentifiers, hleaf, Option.map_some, withIdentifiers_of_writes hwrites] at htwice
    exact nomatch htwice

/-- A text in a tuple in a list, with capitals, next to one of 23 digits and a mapping that is left
alone. -/
theorem identifiers_at_leaves_capitals :
    let digits : Text := "5F1D7F3E9B1E8A0012345678"
    let short : Value := .text "5f1d7f3e9b1e8a001234567"
    let fields : Value := .map [(.text "_id", .text digits)]
    let v : Value := .list [.tuple [.text digits, short], fields]
    (v.at? [0, 0] = some (.text digits) ∧ WritesIdentifier digits ∧
      ∃ hex, v.withIdentifiers.at? [0, 0] = some (.objectId hex) ∧ IdentifierOf digits hex) ∧
    (v.at? [0, 1] = some short ∧ v.withIdentifiers.at? [0, 1] = some short) ∧
    v.at? [1] = some fields ∧ v.withIdentifiers.at? [1] = some fields := by
  intro digits short fields v
  have hwrites : WritesIdentifier digits := by decide
  have hshort : ∀ s, short.text? = some s → ¬ WritesIdentifier s := fun s hs => by
    obtain rfl := Option.some.inj hs
    decide
  obtain ⟨-, hleaves, -, -⟩ := identifiers_at_leaves v
  exact ⟨⟨rfl, hwrites, (hleaves [0, 0] _ rfl rfl).1 digits rfl hwrites⟩,
    ⟨rfl, (hleaves [0, 1] _ rfl rfl).2 hshort⟩,
    rfl, (hleaves [1] _ rfl rfl).2 fun s hs => nomatch hs⟩

end DocQuery
