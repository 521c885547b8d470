/-
Module: MiningPool.Yaml.Source
Purpose: the characters of a YAML text with their places.
Main exports: Yaml.Place, Yaml.source?
-/

/-!
YAML gives meaning to lines and columns, so every character is kept together with its place. Line breaks
of all kinds are brought to one form, except for the two separators that are characters of their own and
stay what they are. A text may begin with a byte order mark, and no text may hold control characters.
-/

namespace MiningPool.Yaml

/-- A character and where it stands. -/
structure Place where
  char : Char
  /-- The number of characters in front of it. -/
  index : Nat
  line : Nat
  column : Nat
deriving Repr, DecidableEq

/-- The mark that may stand in front of a text. -/
def byteOrderMark : Char := Char.ofNat 0xFEFF

/-- The characters that may occur in a text. -/
def isAllowed (c : Char) : Bool :=
  let code := c.toNat
  code == 0x09 || code == 0x0A || code == 0x0D || (0x20 ≤ code && code ≤ 0x7E) || code == 0x85 ||
    (0xA0 ≤ code && code ≤ 0xD7FF) || (0xE000 ≤ code && code ≤ 0xFFFD) || 0x10000 ≤ code

/-- The line breaks that become line feeds. -/
def isPlainBreak (c : Char) : Bool := c == '\n' || c == '\r' || c == '\x85'

/-- The line break and the paragraph break that stay as they are. -/
def isSeparator (c : Char) : Bool := c == '\u2028' || c == '\u2029'

/-- Whether a character of a source ends a line. -/
def isBreak (c : Char) : Bool := c == '\n' || isSeparator c

/-- Space and tab. -/
def isBlank (c : Char) : Bool := c == ' ' || c == '\t'

/-- Characters with their places, from a given place on. -/
def placesFrom (index line column : Nat) : List Char → List Place
  | [] => []
  | '\r' :: '\n' :: rest => ⟨'\n', index, line, column⟩ :: placesFrom (index + 2) (line + 1) 0 rest
  | c :: rest =>
    if isPlainBreak c then ⟨'\n', index, line, column⟩ :: placesFrom (index + 1) (line + 1) 0 rest
    else if isSeparator c then ⟨c, index, line, column⟩ :: placesFrom (index + 1) (line + 1) 0 rest
    else ⟨c, index, line, column⟩ :: placesFrom (index + 1) line (column + 1) rest

/-- A text without the mark in front of it. -/
def withoutMark : List Char → List Char
  | [] => []
  | c :: rest => if c = byteOrderMark then rest else c :: rest

/-- The places of a text, if it holds nothing but characters that may occur. -/
def source? (text : List Char) : Option (List Place) :=
  let text := withoutMark text
  if text.all isAllowed then some (placesFrom 0 0 0 text) else none

/-! ### Looking ahead -/

/-- Whether a word ends here: at white space or at the end of the text. -/
def endsWord : List Place → Bool
  | [] => true
  | p :: _ => isBlank p.char || isBreak p.char

/-- Whether a line ends here. -/
def endsLine : List Place → Bool
  | [] => true
  | p :: _ => isBreak p.char

/-- Whether a character follows. -/
def begins (c : Char) : List Place → Bool
  | [] => false
  | p :: _ => p.char == c

/-- The rest of a line is skipped, but not its break. -/
def skipLine (source : List Place) : List Place := source.dropWhile fun p => !isBreak p.char

/-- Skips spaces and tabs. -/
def skipBlanks (source : List Place) : List Place := source.dropWhile fun p => isBlank p.char

/-- Skips blanks, a comment and a line break; nothing else may stand in the line. -/
def skipLineEnd? (source : List Place) : Option (List Place) :=
  let source := skipBlanks source
  let source := if begins '#' source then skipLine source else source
  match source with
  | [] => some []
  | p :: rest => if isBreak p.char then some rest else none

/-- Whether three equal marks stand alone at the beginning of a line. -/
def beginsMarker (mark : Char) : List Place → Bool
  | a :: b :: c :: rest =>
    a.column == 0 && a.char == mark && b.char == mark && c.char == mark && endsWord rest
  | _ => false

/-- Whether a document begins or ends here. -/
def beginsBoundary (source : List Place) : Bool :=
  beginsMarker '-' source || beginsMarker '.' source

end MiningPool.Yaml
