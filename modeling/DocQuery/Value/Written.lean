import DocQuery.Decimal.Shortest
import DocQuery.Text.Quoted
import DocQuery.Value.View

/-!
# Written forms of values

`Value.written` shows a value so that its type can be told, with texts between quotes;
`Value.plain` is the text that stands for a value where text is wanted. They differ on texts,
constants, identifiers and times only, and both fail for a value with an integer that has too many
digits, at any depth.
-/

namespace DocQuery

/-- Numbers from 0.0001 up to sixteen digits before the point are written positionally. -/
def realLayout : Decimal.Layout where
  positionalFrom := -4
  positionalBelow := 16
  exponentWidth := 2
  notANumber := "nan"
  infinite := "inf"

/-- Parts with a comma and a blank between them. -/
def commaSeparated (parts : List (List Char)) : List Char :=
  (parts.intersperse [',', ' ']).flatten

/-- A call of the named function, as text. -/
def callForm (function : String) (arguments : List (List Char)) : List Char :=
  function.toList ++ '(' :: commaSeparated arguments ++ [')']

namespace Date

def written (d : Date) : List Char :=
  callForm "datetime.date" [Text.signed d.year, Text.decimal d.month, Text.decimal d.day]

end Date

namespace DateTime

/-- An offset west of UTC is written as a day back and the rest of that day. -/
def offsetWritten (seconds : Int) : List Char :=
  if seconds = 0 then "datetime.timezone.utc".toList
  else
    let arguments :=
      if seconds < 0 then
        [("days=-1").toList, "seconds=".toList ++ Text.signed (seconds + 86400)]
      else ["seconds=".toList ++ Text.signed seconds]
    callForm "datetime.timezone" [callForm "datetime.timedelta" arguments]

/-- Seconds and microseconds are left out where they and what follows them are zero. -/
def written (t : DateTime) : List Char :=
  let fine :=
    if t.micro ≠ 0 then [Text.decimal t.second, Text.decimal t.micro]
    else if t.second ≠ 0 then [Text.decimal t.second]
    else []
  let zone := match t.offset with
    | none => []
    | some seconds => ["tzinfo=".toList ++ offsetWritten seconds]
  callForm "datetime.datetime"
    ([Text.signed t.date.year, Text.decimal t.date.month, Text.decimal t.date.day,
      Text.decimal t.hour, Text.decimal t.minute] ++ fine ++ zone)

end DateTime

namespace Value

/-- The flags of a compiled pattern that have a name, in the order in which they are written. -/
def flagNames : List (Nat × String) :=
  [(1, "re.TEMPLATE"), (2, "re.IGNORECASE"), (4, "re.LOCALE"), (8, "re.MULTILINE"),
    (16, "re.DOTALL"), (32, "re.UNICODE"), (64, "re.VERBOSE"), (128, "re.DEBUG"),
    (256, "re.ASCII")]

/-- Names with a bar between them. -/
def alternatives (names : List (List Char)) : List Char :=
  (names.intersperse ['|']).flatten

/-- The flags as names; what has no name is written as one number. -/
def flagsWritten (flags : Nat) : List (List Char) :=
  let named := flagNames.filter fun f => flags / f.1 % 2 == 1
  let rest := flags / 512 * 512
  named.map (·.2.toList) ++ if rest = 0 then [] else [['0', 'x'] ++ Nat.toDigits 16 rest]

/-- A pattern of text is for all of the character database unless it says otherwise. -/
def shownFlags (pattern : Value) (flags : Nat) : Nat :=
  if pattern.isText ∧ flags / 32 % 2 = 1 ∧ flags / 4 % 2 = 0 ∧ flags / 256 % 2 = 0 then flags - 32
  else flags

/-- The most characters of a pattern that a compiled pattern shows. -/
def maxPatternShown : Nat := 200

def compiledWritten (pattern : Value) (patternWritten : List Char) (flags : Nat) : List Char :=
  let shown := flagsWritten (shownFlags pattern flags)
  let flagPart := if shown = [] then [] else [alternatives shown]
  callForm "re.compile" (patternWritten.take maxPatternShown :: flagPart)

/-- The numeral of an integer, unless it has too many digits. -/
def writeInt (n : Int) : Except Fault (List Char) :=
  if Text.isWritable n then pure (Text.signed n) else throw .badValue

/-- Flags that letters gave are written by name, others as their number. -/
def regexFlagsWritten (flags : Pattern.Flags) : Except Fault (List Char) := do
  let number ← writeInt flags.bits
  pure (if flags.byLetters ∧ flags.bits ≠ 0 then alternatives (flags.names.map String.toList)
    else number)

mutual

/-- The value with its type made visible. -/
def written : Value → Except Fault (List Char)
  | null => pure "None".toList
  | bool true => pure "True".toList
  | bool false => pure "False".toList
  | int n => writeInt n
  | float x => pure (realLayout.write x)
  | text s => pure (Text.quoted s)
  | member m => pure ('<' :: m.qualifiedName.toList ++ [':', ' '] ++ Text.quoted m.text ++ ['>'])
  | bytes bs => pure (Text.quotedOctets bs)
  | list vs => do pure ('[' :: commaSeparated (← writtenItems vs) ++ [']'])
  | tuple [v] => do pure ('(' :: (← v.written) ++ [',', ')'])
  | tuple vs => do pure ('(' :: commaSeparated (← writtenItems vs) ++ [')'])
  | map es => do pure ('\x7b' :: commaSeparated (← writtenEntries es) ++ ['\x7d'])
  | objectId hex => pure (callForm "ObjectId" [Text.quoted hex])
  | millis ms => do pure (callForm "DatetimeMS" [← writeInt ms])
  | dateTime t => pure t.written
  | date d => pure d.written
  | regex p flags => do pure (callForm "Regex" [← p.written, ← regexFlagsWritten flags])
  | compiled p flags => do pure (compiledWritten p (← p.written) flags.toNat)
  | uuid s => pure (callForm "UUID" [Text.quoted s])
  | timestamp s i => do pure (callForm "Timestamp" [← writeInt s, ← writeInt i])
  | minKey => pure (callForm "MinKey" [])
  | maxKey => pure (callForm "MaxKey" [])
  | missing => pure "MISSING".toList
termination_by structural v => v

def writtenItems : List Value → Except Fault (List (List Char))
  | [] => pure []
  | v :: vs => do
    let cs ← v.written
    pure (cs :: (← writtenItems vs))
termination_by structural vs => vs

def writtenEntries : List (Value × Value) → Except Fault (List (List Char))
  | [] => pure []
  | (k, v) :: es => do
    let key ← k.written
    let value ← v.written
    pure ((key ++ [':', ' '] ++ value) :: (← writtenEntries es))
termination_by structural es => es

end

/-- The text that stands for a value. -/
def plain : Value → Except Fault Text
  | text s => pure s
  | member m => pure m.qualifiedName
  | objectId hex => pure hex
  | uuid s => pure s
  | dateTime t => pure (Text.ofChars (t.iso ' '))
  | date d => pure (Text.ofChars d.iso)
  | v => do pure (Text.ofChars (← v.written))

end Value

end DocQuery
