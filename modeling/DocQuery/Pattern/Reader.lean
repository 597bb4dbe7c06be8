import DocQuery.Pattern.Flags
import DocQuery.Pattern.Regular
import DocQuery.Text.Digits

/-!
# Reading regular expressions

A regular expression is read from its text one item at a time, with the groups that are open on a
stack. Under the layout flag, blanks and comments between items stand for nothing. Main definition:
`Regular.read?`, which also gives the flags that the text itself sets.
-/

namespace DocQuery.Pattern

open Text (isHexDigit hexValue)

/-! ### Escapes -/

/-- The digits at the start of a text, at most so many. -/
def takeNumeral (isDigit : Char → Bool) (most : Nat) (cs : Text) : Text :=
  (cs.take most).takeWhile (·.is isDigit)

def numeralValue (base : Nat) (cs : Text) : Nat :=
  (Text.chars cs).foldl (fun n c => n * base + hexValue c) 0

def isOctalDigit (c : Char) : Bool :=
  '0' ≤ c && c ≤ '7'

/-- The number of hexadecimal digits after the letter of an escape. -/
def hexWidths : List (CodePoint × Nat) :=
  [('x', 2), ('u', 4), ('U', 8)]

/-- The letters that stand for a control character. -/
def controlLetters : List (CodePoint × Nat) :=
  [('a', 0x7), ('f', 0xC), ('n', 0xA), ('r', 0xD), ('t', 0x9), ('v', 0xB)]

def setLetters : List (CodePoint × CharSet) :=
  [('d', .digits), ('D', .outside .digits), ('s', .blanks), ('S', .outside .blanks),
    ('w', .word), ('W', .outside .word)]

def edgeLetters : List (CodePoint × Regular) :=
  [('A', .textStart), ('Z', .textEnd), ('b', .wordEdge), ('B', .noWordEdge)]

/-- The number of the character that an escape stands for, from what follows the backslash. -/
def readCharEscape : Text → Option (Nat × Text)
  | [] => none
  | c :: rest => match controlLetters.lookup c, hexWidths.lookup c with
    | some n, _ => some (n, rest)
    | none, some width =>
      let digits := takeNumeral isHexDigit width rest
      if digits.length = width then some (numeralValue 16 digits, rest.drop width) else none
    | none, none => if c.is Char.isAlphanum then none else some (c.toNat, rest)

/-- An octal numeral of at most three digits. -/
def readOctal (cs : Text) : Nat × Text :=
  let digits := takeNumeral isOctalDigit 3 cs
  (numeralValue 8 digits, cs.drop digits.length)

/-- A numeral that starts with a zero or has three octal digits stands for a character; another one
has at most two digits and refers to a group. -/
def readNumberEscape (cs : Text) : Regular × Text :=
  if cs.head? = some (.char '0') || (takeNumeral isOctalDigit 3 cs).length = 3 then
    let (n, rest) := readOctal cs
    (.char (.one n), rest)
  else
    let digits := takeNumeral Char.isDigit 2 cs
    (.again (numeralValue 10 digits), cs.drop digits.length)

def readEscape (cs : Text) : Option (Regular × Text) :=
  match cs with
  | [] => none
  | c :: rest => match edgeLetters.lookup c, setLetters.lookup c with
    | some r, _ => some (r, rest)
    | none, some set => some (.char set, rest)
    | none, none =>
      if c.is Char.isDigit then some (readNumberEscape cs)
      else (readCharEscape cs).map fun (n, rest) => (.char (.one n), rest)

/-! ### Sets of characters -/

/-- What can stand in a set between its brackets. -/
inductive SetItem where
  | char (n : Nat)
  | set (s : CharSet)

def SetItem.toSet : SetItem → CharSet
  | char n => .one n
  | set s => s

def readSetItem : Text → Option (SetItem × Text)
  | [] => none
  | .char '\\' :: .char 'b' :: rest => some (.char 0x8, rest)
  | .char '\\' :: cs => match cs.head?.bind (setLetters.lookup ·) with
    | some s => some (.set s, cs.drop 1)
    | none =>
      if cs.head?.any (·.is isOctalDigit) then
        let (n, rest) := readOctal cs
        some (.char n, rest)
      else (readCharEscape cs).map fun (n, rest) => (.char n, rest)
  | c :: rest => some (.char c.toNat, rest)

/-- The set of characters from one to another. -/
def setRange? : SetItem → SetItem → Option CharSet
  | .char low, .char high => some (.range low high)
  | _, _ => none

/-- Reads up to the bracket that closes a set; the bracket that would close a set of nothing stands
for itself. -/
def readSetItems (found : Option CharSet) (cs : Text) : Option (CharSet × Text) :=
  let add (s : CharSet) := found.elim s (.either · s)
  match found.filter fun _ => cs.head? = some (.char ']') with
  | some s => some (s, cs.drop 1)
  | none => do
    let (item, rest) ← readSetItem cs
    match rest with
    | .char '-' :: .char ']' :: rest => some (add (.either item.toSet (.one '-'.toNat)), rest)
    | .char '-' :: rest =>
      let (last, rest) ← readSetItem rest
      let range ← setRange? item last
      if _h : rest.length < cs.length then readSetItems (some (add range)) rest else none
    | rest =>
      if _h : rest.length < cs.length then readSetItems (some (add item.toSet)) rest else none
termination_by cs.length

/-- The set whose items follow its opening bracket. -/
def readSet : Text → Option (CharSet × Text)
  | .char '^' :: rest => (readSetItems none rest).map fun (s, rest) => (.outside s, rest)
  | cs => readSetItems none cs

/-! ### Groups -/

/-- What a group that is open makes of its body. -/
inductive Opening where
  | plain
  | captured (index : Nat)
  | settled
  | ahead (negated : Bool)
  | behind (negated : Bool)
  | ifGroup (index : Nat)

/-- A group that is open: the alternatives before the current one, and the items of that, each with
the latest first. -/
structure Frame where
  opening : Opening := .plain
  layout : Bool
  alternatives : List Regular := []
  items : List Regular := []

namespace Frame

def current (f : Frame) : Regular :=
  f.items.foldl (fun r item => .seq item r) .empty

def body (f : Frame) : Regular :=
  f.alternatives.foldl (fun r alternative => .either alternative r) f.current

/-- The group as an item of the one around it. -/
def close (f : Frame) : Regular :=
  match f.opening with
  | .plain => f.body
  | .captured index => .group index f.body
  | .settled => .settled f.body
  | .ahead negated => .ahead negated f.body
  | .behind negated => .behind negated f.body
  | .ifGroup index => match f.alternatives with
    | [] => .ifGroup index f.current .empty
    | yes :: _ => .ifGroup index yes f.current

def push (f : Frame) (r : Regular) : Frame :=
  { f with items := r :: f.items }

def nextAlternative (f : Frame) : Frame :=
  { f with alternatives := f.current :: f.alternatives, items := [] }

def repeatLast? (f : Frame) (least : Nat) (most : Option Nat) (effort : Effort) : Option Frame :=
  match f.items with
  | [] => none
  | r :: older => some { f with items := .repeated r least most effort :: older }

end Frame

/-- What has been read: the innermost open group, those around it, the number of groups with their
names, and the flags that the text has set. -/
structure Reading where
  frame : Frame
  outer : List Frame := []
  groupCount : Nat := 0
  names : List (Text × Nat) := []
  flags : Nat := 0

namespace Reading

def push (s : Reading) (r : Regular) : Reading :=
  { s with frame := s.frame.push r }

def enter (s : Reading) (opening : Opening) (layout : Bool) : Reading :=
  { s with frame := { opening, layout }, outer := s.frame :: s.outer }

/-- Opens a group that captures, under the next number. -/
def capture (s : Reading) (name : Option (Text)) : Reading :=
  let index := s.groupCount + 1
  let names := name.elim s.names fun n => (n, index) :: s.names
  { s.enter (.captured index) s.frame.layout with groupCount := index, names }

def leave? (s : Reading) : Option Reading :=
  match s.outer with
  | [] => none
  | f :: outer => some { s with frame := f.push s.frame.close, outer }

end Reading

/-- The characters before one that must come, and those after it. -/
def readUntil (stop : CodePoint) (cs : Text) : Option (Text × Text) :=
  match cs.dropWhile (· != stop) with
  | [] => none
  | _ :: rest => some (cs.takeWhile (· != stop), rest)

/-- The bits of the letters by which a text sets flags of its own. -/
def inlineFlags : List (CodePoint × Nat) :=
  [('t', 1), ('i', 2), ('L', 4), ('m', 8), ('s', 16), ('u', 32), ('x', 64), ('a', 256)]

/-- Flags for the whole text, or those to add and to take away for a group. -/
def readInlineFlags (s : Reading) (cs : Text) : Option (Reading × Text) :=
  let isEnd (c : CodePoint) := c = ')' || c = ':'
  let letters := cs.takeWhile fun c => !isEnd c
  let added := letters.takeWhile (· != .char '-')
  let removed := letters.dropWhile (· != .char '-')
  let layout := (s.frame.layout || .char 'x' ∈ added) && .char 'x' ∉ removed
  match cs.dropWhile fun c => !isEnd c with
  | .char ')' :: rest =>
    let bits := added.filterMap (inlineFlags.lookup ·)
    some ({ s with
      flags := bits.foldl (· ||| ·) s.flags, frame := { s.frame with layout } }, rest)
  | .char ':' :: rest => some (s.enter .plain layout, rest)
  | _ => none

/-- What follows an opening bracket up to the body of the group, or all of what has no body. -/
def readOpening (s : Reading) : Text → Option (Reading × Text)
  | .char '?' :: .char 'P' :: .char '<' :: cs => do
    let (name, rest) ← readUntil '>' cs
    some (s.capture name, rest)
  | .char '?' :: .char 'P' :: .char '=' :: cs => do
    let (name, rest) ← readUntil ')' cs
    some (s.push (.again (← s.names.lookup name)), rest)
  | .char '?' :: .char '#' :: cs => (readUntil ')' cs).map fun (_, rest) => (s, rest)
  | .char '?' :: .char '(' :: cs => do
    let (name, rest) ← readUntil ')' cs
    let index ← if name.all (·.is Char.isDigit) then some (numeralValue 10 name)
      else s.names.lookup name
    some (s.enter (.ifGroup index) s.frame.layout, rest)
  | .char '?' :: .char ':' :: rest => some (s.enter .plain s.frame.layout, rest)
  | .char '?' :: .char '>' :: rest => some (s.enter .settled s.frame.layout, rest)
  | .char '?' :: .char '=' :: rest => some (s.enter (.ahead false) s.frame.layout, rest)
  | .char '?' :: .char '!' :: rest => some (s.enter (.ahead true) s.frame.layout, rest)
  | .char '?' :: .char '<' :: .char '=' :: rest =>
    some (s.enter (.behind false) s.frame.layout, rest)
  | .char '?' :: .char '<' :: .char '!' :: rest =>
    some (s.enter (.behind true) s.frame.layout, rest)
  | .char '?' :: cs => readInlineFlags s cs
  | cs => some (s.capture none, cs)

/-! ### Items -/

/-- The bounds of a repetition from what follows its opening brace, if they are bounds. -/
def readBounds? (cs : Text) : Option (Nat × Option Nat × Text) :=
  let bound? (cs : Text) := if cs = [] then none else some (numeralValue 10 cs)
  let low := cs.takeWhile (·.is Char.isDigit)
  match cs.drop low.length with
  | .char '\x7d' :: rest => (bound? low).map fun n => (n, some n, rest)
  | .char ',' :: cs =>
    let high := cs.takeWhile (·.is Char.isDigit)
    match cs.drop high.length with
    | .char '\x7d' :: rest => some ((bound? low).getD 0, bound? high, rest)
    | _ => none
  | _ => none

/-- A repetition of the latest item; a mark after it says which repetitions are preferred. -/
def readRepeated (s : Reading) (least : Nat) (most : Option Nat) (cs : Text) :
    Option (Reading × Text) :=
  let (effort, rest) := match cs with
    | .char '?' :: rest => (Effort.lazy, rest)
    | .char '+' :: rest => (.holding, rest)
    | _ => (.greedy, cs)
  (s.frame.repeatLast? least most effort).map fun frame => ({ s with frame }, rest)

/-- The blanks that are layout. -/
def isLayoutBlank (c : CodePoint) : Bool :=
  CharSet.blanks.has c

def readItem (s : Reading) (c : CodePoint) (cs : Text) : Option (Reading × Text) :=
  if s.frame.layout && isLayoutBlank c then some (s, cs)
  else if s.frame.layout && c = '#' then some (s, (cs.dropWhile (· != .char '\n')).drop 1)
  else match c with
    | .char '\\' => (readEscape cs).map fun (r, rest) => (s.push r, rest)
    | .char '[' => (readSet cs).map fun (set, rest) => (s.push (.char set), rest)
    | .char '.' => some (s.push (.char .every), cs)
    | .char '^' => some (s.push .textStart, cs)
    | .char '$' => some (s.push .textEnd, cs)
    | .char '|' => some ({ s with frame := s.frame.nextAlternative }, cs)
    | .char '(' => readOpening s cs
    | .char ')' => s.leave?.map (·, cs)
    | .char '*' => readRepeated s 0 none cs
    | .char '+' => readRepeated s 1 none cs
    | .char '?' => readRepeated s 0 (some 1) cs
    | .char '\x7b' => match readBounds? cs with
      | some (least, most, rest) => readRepeated s least most rest
      | none => some (s.push (.char (.one c.toNat)), cs)
    | _ => some (s.push (.char (.one c.toNat)), cs)

/-- Reads item after item; none gives characters back. -/
def readItems (s : Reading) (cs : Text) : Option Reading :=
  match cs with
  | [] => some s
  | c :: cs => do
    let (s, rest) ← readItem s c cs
    if _h : rest.length < cs.length + 1 then readItems s rest else none
termination_by cs.length

/-- The flag under which blanks and comments are layout. -/
def layoutBit : Nat := 64

/-- The regular expression that a text stands for under the flags, and the flags together with those
that the text sets. -/
def Regular.read? (flags : Nat) (cs : Text) : Option (Regular × Nat) := do
  let s ← readItems { frame := { layout := flags / layoutBit % 2 = 1 }, flags } cs
  if s.outer.isEmpty then some (s.frame.body, s.flags) else none

end DocQuery.Pattern
