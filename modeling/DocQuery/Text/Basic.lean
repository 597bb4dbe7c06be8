/-!
# Texts

A `Text` is a list of code points. These are the characters and the surrogates, which are the halves
that characters from U+10000 on have in UTF-16: no well-formed text has one, but the text of a
caller may. Strings and characters count as texts and code points (`Text.ofString_inj`).
-/

namespace DocQuery

/-- A character, or the surrogate so many places after U+D800. -/
inductive CodePoint where
  | char (c : Char)
  | surrogate (n : Fin 0x800)
deriving DecidableEq, Repr, Inhabited

namespace CodePoint

instance : Coe Char CodePoint := ⟨char⟩

def toNat : CodePoint → Nat
  | char c => c.toNat
  | surrogate n => 0xD800 + n

def char? : CodePoint → Option Char
  | char c => some c
  | surrogate _ => none

/-- Whether it is a character of a class. -/
def is (p : Char → Bool) : CodePoint → Bool
  | char c => p c
  | surrogate _ => false

/-- Lowers an ASCII letter. -/
def toLower : CodePoint → CodePoint
  | char c => char c.toLower
  | surrogate n => surrogate n

theorem toNat_inj {p q : CodePoint} (h : p.toNat = q.toNat) : p = q := by
  cases p with
  | char c =>
    cases q with
    | char d => exact congrArg char (Char.toNat_inj.mp h)
    | surrogate n =>
      have hvalid : c.toNat < 0xD800 ∨ 0xDFFF < c.toNat ∧ c.toNat < 0x110000 := c.valid
      have hn : c.toNat = 0xD800 + n := h
      omega
  | surrogate m =>
    cases q with
    | char d =>
      have hvalid : d.toNat < 0xD800 ∨ 0xDFFF < d.toNat ∧ d.toNat < 0x110000 := d.valid
      have hm : 0xD800 + m = d.toNat := h
      omega
    | surrogate n => exact congrArg surrogate (Fin.ext (Nat.add_left_cancel h))

theorem toNat_lt (p : CodePoint) : p.toNat < 0x110000 := by
  cases p with
  | char c =>
    have hvalid : c.toNat < 0xD800 ∨ 0xDFFF < c.toNat ∧ c.toNat < 0x110000 := c.valid
    show c.toNat < _
    omega
  | surrogate n =>
    show 0xD800 + (n : Nat) < _
    omega

theorem char_inj {c d : Char} : char c = char d ↔ c = d := by
  simp

end CodePoint

abbrev Text := List CodePoint

namespace Text

def ofChars (cs : List Char) : Text :=
  cs.map .char

@[coe]
def ofString (s : String) : Text :=
  ofChars s.toList

instance : Coe String Text := ⟨ofString⟩

/-- The characters of a text, without its surrogates. -/
def chars (t : Text) : List Char :=
  t.filterMap CodePoint.char?

@[simp]
theorem ofChars_inj {cs ds : List Char} : ofChars cs = ofChars ds ↔ cs = ds :=
  List.map_inj_right fun _ _ => CodePoint.char_inj.mp

@[simp]
theorem ofString_inj {s t : String} : ofString s = ofString t ↔ s = t := by
  rw [ofString, ofString, ofChars_inj, String.toList_inj]

end Text

end DocQuery
