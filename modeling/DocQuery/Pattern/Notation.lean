import DocQuery.Text.Quoted

/-!
# Notations for patterns

A wildcard pattern matches any text where it has a percent sign. It is turned into a regular
expression in which every other character stands for itself, open at an end of the pattern that is a
percent sign and anchored at the others.

A text that starts with a slash and ends with a further one and a run of letters is a pattern with
flags. The last slash ends the pattern, and a line end may follow the letters.
-/

namespace DocQuery.Pattern

open Text (backslash)

/-- The characters that have a meaning in a regular expression, or that its layout ignores. -/
def specials : Text :=
  "()[]\x7b\x7d?*+-|^$\\.&~# \t\n\r\x0b\x0c"

def escapePoint (c : CodePoint) : Text :=
  if c ∈ specials then [.char backslash, c] else [c]

/-- The regular expression that matches the text and nothing else. -/
def escape (s : Text) : Text :=
  s.flatMap escapePoint

/-- The regular expression of any text. -/
def anyText : Text := ".*"

/-- Opens the percent signs after the first character that no backslash stands before. A sign that
was opened does not open the one after it. -/
def openInner : Text → Text
  | c :: .char '%' :: rest =>
    if c = backslash then c :: openInner ('%' :: rest) else c :: anyText ++ openInner rest
  | c :: rest => c :: openInner rest
  | [] => []

/-- Opens the percent signs of an escaped text. -/
def openWildcards : Text → Text
  | .char '%' :: rest => anyText ++ openInner rest
  | s => openInner s

def like (s : Text) : Text :=
  let first : Text := if s.head? = some (.char '%') then "" else "^"
  let last : Text := if s.getLast? = some (.char '%') then "" else "$"
  first ++ openWildcards (escape s) ++ last

def isLetter (c : Char) : Bool :=
  ('a' ≤ c && c ≤ 'z') || ('A' ≤ c && c ≤ 'Z')

/-- The parts before and after the last slash. -/
def splitAtLastSlash? (s : Text) : Option (Text × Text) :=
  match s.reverse.dropWhile (· != .char '/') with
  | [] => none
  | _ :: before => some (before.reverse, (s.reverse.takeWhile (· != .char '/')).reverse)

/-- The flag letters in what follows the last slash. -/
def flagLetters? (s : Text) : Option Text :=
  let letters := if s.getLast? = some (.char '\n') then s.dropLast else s
  if letters.all (·.is isLetter) then some letters else none

/-- The pattern and the flag letters of a text. -/
def delimited? : Text → Option (Text × Text)
  | .char '/' :: rest => do
    let (pattern, tail) ← splitAtLastSlash? rest
    let letters ← flagLetters? tail
    pure (pattern, letters)
  | _ => none

end DocQuery.Pattern
