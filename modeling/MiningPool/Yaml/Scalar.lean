/-
Module: MiningPool.Yaml.Scalar
Purpose: scalars and how they are written within lines.
Main exports: Yaml.Style, Yaml.Scalar, Yaml.readPlain?, Yaml.readSingleQuoted?, Yaml.readDoubleQuoted?
-/
import MiningPool.Hex
import MiningPool.Yaml.Source

/-!
A scalar is a text. It may be written plainly or between quotes, over several lines. Blanks around a line
break do not count; a single break stands for a space, and of several breaks all but the first one
count. Between single quotes a quote is written twice; between double quotes a backslash begins an
escape, and in front of a line break it takes the break away.

A plain scalar ends in front of a colon or a comment that stands apart, in front of a line that is not
indented further than its surroundings, and inside brackets in front of a comma or a bracket.
-/

namespace MiningPool.Yaml

/-- How a scalar is written. -/
inductive Style where
  | plain
  | singleQuoted
  | doubleQuoted
  | literal
  | folded
deriving Repr, DecidableEq

/-- A text and how it was written. -/
structure Scalar where
  style : Style
  text : String
deriving Repr, DecidableEq

/-! ### Folding -/

/-- White space behind the last character that counts, last character first. -/
inductive Gap where
  | blanks (passed : List Char)
  /-- The first break, unless that was taken away, and the breaks behind it. -/
  | breaks (first : Option Char) (further : List Char)
deriving Repr, DecidableEq

namespace Gap

/-- No white space. -/
def empty : Gap := blanks []

/-- Whether a line has ended. -/
def broken : Gap → Bool
  | blanks _ => false
  | breaks _ _ => true

/-- One more blank or break. -/
def add (c : Char) : Gap → Gap
  | blanks passed => if isBreak c then breaks (some c) [] else blanks (c :: passed)
  | breaks first further => if isBreak c then breaks first (c :: further) else breaks first further

/-- The characters that the white space stands for, last character first. -/
def folded : Gap → List Char
  | blanks passed => passed
  | breaks (some '\n') [] => [' ']
  | breaks (some '\n') further => further
  | breaks first further => further ++ first.toList

end Gap

/-! ### Plain scalars -/

/-- A plain scalar that has been read. -/
structure PlainReading where
  text : String
  /-- Whether a line ended behind it. -/
  broken : Bool
  rest : List Place

/-- The characters that end a plain scalar inside brackets. -/
def isFlowIndicator (c : Char) : Bool := c == ',' || c == '[' || c == ']' || c == '{' || c == '}'

/-- Whether a colon in front of this cannot be told from one that ends a key. -/
def beginsAmbiguity : List Place → Bool
  | [] => false
  | p :: _ => isFlowIndicator p.char || p.char == '?'

/-- Reads a plain scalar, whose further lines have to be indented by `indent`. -/
def readPlainFrom? (inFlow : Bool) (indent : Int) (done : List Char) (gap : Gap) :
    List Place → Option PlainReading
  | [] => some ⟨String.ofList done.reverse, gap.broken, []⟩
  | p :: rest =>
    let c := p.char
    if isBlank c || isBreak c then
      if c = '\t' ∧ gap.broken ∧ (p.column : Int) < indent then none
      else readPlainFrom? inFlow indent done (gap.add c) rest
    else if gap ≠ .empty ∧
        ((!inFlow && decide ((p.column : Int) < indent)) || beginsBoundary (p :: rest) || c == '#') then
      some ⟨String.ofList done.reverse, gap.broken, p :: rest⟩
    else if inFlow ∧ c = ':' ∧ beginsAmbiguity rest then none
    else if (c == ':' && endsWord rest) || (inFlow && isFlowIndicator c) then
      some ⟨String.ofList done.reverse, gap.broken, p :: rest⟩
    else readPlainFrom? inFlow indent (c :: (gap.folded ++ done)) .empty rest

/-- Reads the plain scalar that begins here. -/
def readPlain? (inFlow : Bool) (indent : Int) (source : List Place) : Option PlainReading :=
  readPlainFrom? inFlow indent [] .empty source

/-! ### Quoted scalars -/

/-- Reads up to the closing single quote. -/
def readSingleQuotedFrom? (done : List Char) (gap : Gap) : List Place → Option (String × List Place)
  | [] => none
  | p :: rest =>
    if isBlank p.char || isBreak p.char then readSingleQuotedFrom? done (gap.add p.char) rest
    else if beginsBoundary (p :: rest) then none
    else if p.char = '\'' then
      match rest with
      | [] => some (String.ofList (gap.folded ++ done).reverse, [])
      | q :: behind =>
        if q.char = '\'' then readSingleQuotedFrom? ('\'' :: (gap.folded ++ done)) .empty behind
        else some (String.ofList (gap.folded ++ done).reverse, q :: behind)
    else readSingleQuotedFrom? (p.char :: (gap.folded ++ done)) .empty rest

/-- Reads the scalar behind an opening single quote. -/
def readSingleQuoted? (source : List Place) : Option (String × List Place) :=
  readSingleQuotedFrom? [] .empty source

/-- The escapes of one letter and the characters they stand for. -/
def escapes : List (Char × Nat) :=
  [('0', 0x00), ('a', 0x07), ('b', 0x08), ('t', 0x09), ('\t', 0x09), ('n', 0x0A), ('v', 0x0B),
    ('f', 0x0C), ('r', 0x0D), ('e', 0x1B), (' ', 0x20), ('"', 0x22), ('/', 0x2F), ('\\', 0x5C),
    ('N', 0x85), ('_', 0xA0), ('L', 0x2028), ('P', 0x2029)]

/-- The escapes that are followed by hexadecimal digits, and the number of these. -/
def codeEscapes : List (Char × Nat) := [('x', 2), ('u', 4), ('U', 8)]

/-- The character of a code point. -/
def charOfCode? (code : Nat) : Option Char :=
  if h : code.isValidChar then some (Char.ofNatAux code h) else none

/-- The value of a hexadecimal digit. -/
def hexValue? (c : Char) : Option Nat :=
  if c.toNat < 0x80 then Hex.digitValue? (UInt8.ofNat c.toNat) else none

/-- How far an escape has come. -/
inductive Escape where
  | outside
  /-- Behind the backslash. -/
  | opened
  /-- Inside the digits of a code point; so many more are expected. -/
  | code (left value : Nat)
deriving Repr, DecidableEq

/-- Reads up to the closing double quote. -/
def readDoubleQuotedFrom? (done : List Char) (gap : Gap) (escape : Escape) :
    List Place → Option (String × List Place)
  | [] => none
  | p :: rest =>
    let c := p.char
    match escape with
    | .code left value =>
      match hexValue? c with
      | none => none
      | some digit =>
        let value := value * 16 + digit
        if left = 1 then
          match charOfCode? value with
          | none => none
          | some c => readDoubleQuotedFrom? (c :: done) .empty .outside rest
        else readDoubleQuotedFrom? done .empty (.code (left - 1) value) rest
    | .opened =>
      if isBreak c then readDoubleQuotedFrom? done (.breaks none []) .outside rest
      else
        match escapes.lookup c, codeEscapes.lookup c with
        | some code, _ => readDoubleQuotedFrom? (Char.ofNat code :: done) .empty .outside rest
        | none, some digits => readDoubleQuotedFrom? done .empty (.code digits 0) rest
        | none, none => none
    | .outside =>
      if isBlank c || isBreak c then readDoubleQuotedFrom? done (gap.add c) .outside rest
      else if beginsBoundary (p :: rest) then none
      else if c = '"' then some (String.ofList (gap.folded ++ done).reverse, rest)
      else if c = '\\' then readDoubleQuotedFrom? (gap.folded ++ done) .empty .opened rest
      else readDoubleQuotedFrom? (c :: (gap.folded ++ done)) .empty .outside rest

/-- Reads the scalar behind an opening double quote. -/
def readDoubleQuoted? (source : List Place) : Option (String × List Place) :=
  readDoubleQuotedFrom? [] .empty .outside source

end MiningPool.Yaml
