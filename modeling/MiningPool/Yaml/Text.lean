/-
Module: MiningPool.Yaml.Text
Purpose: writing mappings as YAML.
Main exports: Yaml.Entry, Yaml.mappingText, Yaml.styleOf
-/
import MiningPool.Yaml.Scalar
import MiningPool.Yaml.Word

/-!
A text is written in the plainest way in which it is read back as the same text. That is the text itself,
unless it looks like a number or another word with a meaning, or like a part of a collection; then it goes
between single quotes. Characters that do not show need double quotes and escapes. A text with line feeds
is written as indented lines, if these show all of it.
-/

namespace MiningPool.Yaml

/-- The characters that are written as they are. -/
def isPrintable (c : Char) : Bool :=
  let code := c.toNat
  code == 0x0A || (0x20 ≤ code && code ≤ 0x7E) || (0xA0 ≤ code && code ≤ 0xD7FF) ||
    (0xE000 ≤ code && code ≤ 0xFFFD && code != 0xFEFF) || 0x10000 ≤ code

/-! ### Choosing a style -/

/-- Whether somewhere one character stands right in front of another one. -/
def hasPair (first second : Char → Bool) : List Char → Bool
  | [] => false
  | [_] => false
  | a :: b :: rest => (first a && second b) || hasPair first second (b :: rest)

/-- A property of the first character. -/
def headIs (property : Char → Bool) (text : List Char) : Bool := text.head?.any property

/-- A property of the last character. -/
def lastIs (property : Char → Bool) (text : List Char) : Bool := text.getLast?.any property

def isSpace (c : Char) : Bool := c == ' '

/-- Space, tab or line break. -/
def isWhite (c : Char) : Bool := isBlank c || isBreak c

/-- Whether white space or nothing stands in front of what follows. -/
def beginsWhite (text : List Char) : Bool := text.isEmpty || headIs isWhite text

/-- The characters that no plain text begins with. -/
def isOpeningIndicator (c : Char) : Bool :=
  c ∈ ['#', ',', '[', ']', '{', '}', '&', '*', '!', '|', '>', '\'', '"', '%', '@', '\x60']

/-- Whether the beginning of a text has a meaning of its own. -/
def beginsIndicator (text : List Char) : Bool :=
  ['-', '-', '-'].isPrefixOf text || ['.', '.', '.'].isPrefixOf text ||
    match text with
    | [] => false
    | c :: rest =>
      isOpeningIndicator c || ((c == '?' || c == ':' || c == '-') && beginsWhite rest)

/-- Whether a colon or a comment stands apart within a text. -/
def holdsIndicator (text : List Char) : Bool :=
  hasPair (· == ':') isWhite text || lastIs (· == ':') text || hasPair isWhite (· == '#') text

/-- Whether all characters are written as they are and no line ends in a space. -/
def showsAll (text : List Char) : Bool := text.all isPrintable && !hasPair isSpace isBreak text

/-- Whether a text can be written within quotes as it is. -/
def fitsQuotes (text : List Char) : Bool := showsAll text && !hasPair isBreak isSpace text

/-- Whether a text can be written without quotes in one line. -/
def fitsPlain (text : List Char) : Bool :=
  showsAll text && !text.any isBreak && !headIs isSpace text && !lastIs isSpace text &&
    !beginsIndicator text && !holdsIndicator text

/-- Whether a text can be written as indented lines. -/
def fitsLines (text : List Char) : Bool := showsAll text && !lastIs isSpace text

/-- The style in which a text is written. -/
def styleOf (text : String) : Style :=
  let chars := text.toList
  if '\n' ∈ chars then if fitsLines chars then .literal else .doubleQuoted
  else if isText text && fitsPlain chars then .plain
  else if fitsQuotes chars then .singleQuoted
  else .doubleQuoted

/-! ### Writing in a style -/

/-- The spaces in front of further lines of a value. -/
def indentation : List Char := [' ', ' ']

/-- The characters with indentation in front of the first character of every line; `fresh` tells whether a
line begins here. -/
def indentLines (fresh : Bool) : List Char → List Char
  | [] => []
  | c :: rest =>
    if isBreak c then c :: indentLines true rest
    else if fresh then indentation ++ c :: indentLines false rest
    else c :: indentLines false rest

/-- A text between single quotes. -/
def singleQuoted (text : List Char) : List Char :=
  let doubled := text.flatMap fun c => if c = '\'' then ['\'', '\''] else [c]
  let closing := if lastIs isBreak text then indentation else []
  ['\''] ++ indentLines false doubled ++ closing ++ ['\'']

/-- The letters of the escapes that are used in writing. -/
def writtenEscapes : List (Nat × Char) :=
  [(0x00, '0'), (0x07, 'a'), (0x08, 'b'), (0x09, 't'), (0x0A, 'n'), (0x0B, 'v'), (0x0C, 'f'), (0x0D, 'r'),
    (0x1B, 'e'), (0x22, '"'), (0x5C, '\\'), (0x85, 'N'), (0xA0, '_'), (0x2028, 'L'), (0x2029, 'P')]

/-- A hexadecimal digit in upper case. -/
def upperDigit (n : Nat) : Char := (Nat.digitChar n).toUpper

/-- A number in so many hexadecimal digits. -/
def upperDigits : (count : Nat) → Nat → List Char
  | 0, _ => []
  | count + 1, n => upperDigits count (n / 16) ++ [upperDigit (n % 16)]

/-- One character between double quotes. -/
def writeDoubleQuoted (c : Char) : List Char :=
  if isPrintable c && !isBreak c && c != '"' && c != '\\' then [c]
  else
    let code := c.toNat
    match writtenEscapes.lookup code with
    | some letter => ['\\', letter]
    | none =>
      if code < 0x100 then '\\' :: 'x' :: upperDigits 2 code
      else if code < 0x10000 then '\\' :: 'u' :: upperDigits 4 code
      else '\\' :: 'U' :: upperDigits 8 code

/-- A text between double quotes. -/
def doubleQuoted (text : List Char) : List Char := ['"'] ++ text.flatMap writeDoubleQuoted ++ ['"']

/-- Whether a text ends in more than one line break, or is nothing but one. -/
def isOpenEnded (text : List Char) : Bool :=
  match text.reverse with
  | [a] => isBreak a
  | a :: b :: _ => isBreak a && isBreak b
  | [] => false

/-- What stands behind the mark of a block of lines: the indentation, if the lines do not show it, and what
becomes of the line breaks at the end. -/
def lineHints (text : List Char) : List Char :=
  (if headIs isSpace text || headIs isBreak text then ['2'] else []) ++
    (if !lastIs isBreak text then ['-'] else if isOpenEnded text then ['+'] else [])

/-- A text as indented lines, up to its own end. -/
def literalLines (text : List Char) : List Char :=
  ['|'] ++ lineHints text ++ ['\n'] ++ indentLines true text

/-- A text in a style. -/
def writeText (style : Style) (text : List Char) : List Char :=
  match style with
  | .plain => text
  | .singleQuoted => singleQuoted text
  | .doubleQuoted => doubleQuoted text
  | .literal | .folded => literalLines text

/-! ### Mappings -/

/-- A value of a mapping. -/
inductive Entry where
  /-- A word with a meaning, such as a number. -/
  | word (word : String)
  | text (text : String)
  | list (words : List String)
deriving Repr, DecidableEq

namespace Entry

/-- The value with the space in front of it and the end of its line. -/
def written : Entry → List Char
  | .word value => ' ' :: value.toList ++ ['\n']
  | .text value =>
    let style := styleOf value
    let closing := if style = .literal ∧ lastIs isBreak value.toList then [] else ['\n']
    ' ' :: writeText style value.toList ++ closing
  | .list [] => " []\n".toList
  | .list values => '\n' :: values.flatMap fun value => '-' :: ' ' :: value.toList ++ ['\n']

/-- Whether line breaks at the end of a block are part of the value. -/
def isOpen : Entry → Option Bool
  | .text value => if styleOf value = .literal then some (isOpenEnded value.toList) else none
  | .word _ | .list _ => none

end Entry

/-- A mapping of plain keys. If the last block keeps the line breaks at its end, the end of the document is
marked. -/
def mappingText (members : List (String × Entry)) : String :=
  let lines := members.flatMap fun (key, entry) => key.toList ++ ':' :: entry.written
  let closing := if (members.filterMap (·.2.isOpen)).getLast? = some true then "...\n".toList else []
  String.ofList (lines ++ closing)

end MiningPool.Yaml
