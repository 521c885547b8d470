/-
Module: MiningPool.Yaml.Token
Purpose: the tokens of a YAML text, indentation included.
Main exports: Yaml.Token, Yaml.tokens?
-/
import MiningPool.Yaml.Block
import MiningPool.Yaml.Tag

/-!
Outside of brackets the indentation of keys and of list marks tells where collections begin and end; tokens
of their own stand for this. That something is a key shows only at the colon behind it. So every place
where a key may begin is remembered, and at the colon a token is put in there. Such a key has to stand in
one line and may not be longer than a limit; where indentation has promised a key, there must be one.

A tab is no indentation: it is not skipped where a key may begin, except inside brackets.
-/

namespace MiningPool.Yaml

/-- What a text consists of. -/
inductive Token where
  | directive (directive : Directive)
  | documentStart
  | documentEnd
  | sequenceStart
  | mappingStart
  /-- The end of an indented collection. -/
  | blockEnd
  | bracketOpen
  | bracketClose
  | braceOpen
  | braceClose
  | comma
  /-- The mark of an item of an indented list. -/
  | entry
  | key
  | value
  | alias (name : String)
  | anchor (name : String)
  | tag (tag : TagText)
  | scalar (scalar : Scalar)
deriving Repr, DecidableEq

/-- A place where a key may have begun. -/
structure KeyPlace where
  /-- The number of tokens in front of it. -/
  position : Nat
  place : Place
  /-- Whether indentation demands a key. -/
  required : Bool

namespace KeyPlace

/-- How many characters a key may have that is not marked as one. -/
def longest : Nat := 1024

/-- Whether a colon at a place is too far away. -/
def isPast (key : KeyPlace) (place : Place) : Bool :=
  key.place.line < place.line || key.place.index + longest < place.index

end KeyPlace

/-- Tokens that have been read, and what the layout says about the next ones. -/
structure Layout where
  /-- The tokens, last one first. -/
  tokens : List Token
  /-- The column of the innermost indented collection; negative outside of all. -/
  indent : Int
  /-- The columns around it, innermost first. -/
  outer : List Int
  /-- The key that may have begun inside the innermost brackets. -/
  key : Option KeyPlace
  /-- Those outside of the brackets, innermost first. -/
  outerKeys : List (Option KeyPlace)
  /-- Whether a key may begin here. -/
  keyAllowed : Bool

namespace Layout

/-- Nothing has been read. -/
def start : Layout := ⟨[], -1, [], none, [], true⟩

/-- Whether this is inside brackets. -/
def inFlow (layout : Layout) : Bool := !layout.outerKeys.isEmpty

def push (token : Token) (layout : Layout) : Layout :=
  { layout with tokens := token :: layout.tokens }

/-- Puts a token in at a position. -/
def insert (position : Nat) (token : Token) (layout : Layout) : Layout :=
  { layout with tokens := layout.tokens.insertIdx (layout.tokens.length - position) token }

/-- Sets whether a key may begin. -/
def allowKey (allowed : Bool) (layout : Layout) : Layout := { layout with keyAllowed := allowed }

/-! ### Keys -/

/-- Forgets the innermost key, unless it is required. -/
def dropKey? (layout : Layout) : Option Layout :=
  match layout.key with
  | some key => if key.required then none else some { layout with key := none }
  | none => some layout

/-- A key without those that a place has gone past; a required one must not be among them. -/
def withoutPast? (place : Place) : Option KeyPlace → Option (Option KeyPlace)
  | none => some none
  | some key =>
    if key.isPast place then
      if key.required then none else some none
    else some (some key)

/-- Forgets the keys that a place has gone past. -/
def dropPast? (place : Place) (layout : Layout) : Option Layout := do
  let key ← withoutPast? place layout.key
  let outerKeys ← layout.outerKeys.mapM (withoutPast? place)
  some { layout with key, outerKeys }

/-- Remembers that a key may begin here. -/
def saveKey? (place : Place) (layout : Layout) : Option Layout :=
  if layout.keyAllowed then do
    let required := !layout.inFlow && decide (layout.indent = place.column)
    let layout ← layout.dropKey?
    some { layout with key := some ⟨layout.tokens.length, place, required⟩ }
  else some layout

/-! ### Indentation -/

/-- Ends the collections that are indented beyond a column. -/
def closeBeyond (column indent : Int) : List Int → List Token → List Token × Int × List Int
  | [], tokens => (tokens, indent, [])
  | next :: outer, tokens =>
    if column < indent then closeBeyond column next outer (.blockEnd :: tokens)
    else (tokens, indent, next :: outer)

/-- Ends the collections that are indented beyond a column; inside brackets columns do not matter. -/
def unroll (column : Int) (layout : Layout) : Layout :=
  if layout.inFlow then layout
  else
    let (tokens, indent, outer) := closeBeyond column layout.indent layout.outer layout.tokens
    { layout with tokens, indent, outer }

/-- Begins a collection at a column, unless one has begun there, by a token at a position. -/
def roll (column : Nat) (position : Nat) (token : Token) (layout : Layout) : Layout :=
  if layout.inFlow then layout
  else if layout.indent < column then
    { layout.insert position token with
      indent := column
      outer := layout.indent :: layout.outer }
  else layout

/-- Begins a collection in front of the next token. -/
def rollHere (place : Place) (token : Token) (layout : Layout) : Layout :=
  layout.roll place.column layout.tokens.length token

/-! ### Marks -/

/-- Ends all indented collections in front of a line that belongs to no document. -/
def leave? (layout : Layout) : Option Layout := do
  let layout ← (layout.unroll (-1)).dropKey?
  some (layout.allowKey false)

/-- An opening bracket, which may begin a key. -/
def openBracket? (place : Place) (token : Token) (layout : Layout) : Option Layout := do
  let layout ← layout.saveKey? place
  some { layout.push token with
    key := none
    outerKeys := layout.key :: layout.outerKeys
    keyAllowed := true }

/-- A closing bracket. -/
def closeBracket? (token : Token) (layout : Layout) : Option Layout := do
  let layout ← layout.dropKey?
  let layout :=
    match layout.outerKeys with
    | [] => layout
    | key :: outerKeys => { layout with key, outerKeys }
  some ((layout.push token).allowKey false)

/-- A comma inside brackets. -/
def comma? (layout : Layout) : Option Layout := do
  let layout ← layout.dropKey?
  some ((layout.push .comma).allowKey true)

/-- The mark of an item. -/
def entry? (place : Place) (layout : Layout) : Option Layout := do
  let layout ←
    if layout.inFlow then some layout
    else if layout.keyAllowed then some (layout.rollHere place .sequenceStart)
    else none
  let layout ← layout.dropKey?
  some ((layout.push .entry).allowKey true)

/-- The mark of a key. -/
def markedKey? (place : Place) (layout : Layout) : Option Layout := do
  let layout ←
    if layout.inFlow then some layout
    else if layout.keyAllowed then some (layout.rollHere place .mappingStart)
    else none
  let layout ← layout.dropKey?
  some ((layout.push .key).allowKey (!layout.inFlow))

/-- A colon: the end of a remembered key, or of a marked or missing one. -/
def value? (place : Place) (layout : Layout) : Option Layout :=
  match layout.key with
  | some key =>
    let layout := layout.insert key.position .key
    let layout := layout.roll key.place.column key.position .mappingStart
    some (({ layout with key := none }.push .value).allowKey false)
  | none =>
    if layout.inFlow then some ((layout.push .value).allowKey false)
    else if layout.keyAllowed then
      some (((layout.rollHere place .mappingStart).push .value).allowKey true)
    else none

/-- A token that may begin a key but is not followed by one. -/
def word? (place : Place) (token : Token) (layout : Layout) : Option Layout := do
  let layout ← layout.saveKey? place
  some ((layout.push token).allowKey false)

end Layout

/-! ### Between tokens -/

/-- Skips white space and comments in front of a token. Outside of brackets a key may begin in a new
line. -/
def skipToToken (inFlow keyAllowed comment : Bool) : List Place → Bool × List Place
  | [] => (keyAllowed, [])
  | p :: rest =>
    let c := p.char
    if isBreak c then skipToToken inFlow (keyAllowed || !inFlow) false rest
    else if comment then skipToToken inFlow keyAllowed true rest
    else if c == '#' then skipToToken inFlow keyAllowed true rest
    else if c == ' ' || (c == '\t' && (inFlow || !keyAllowed)) || (c == byteOrderMark && p.column == 0)
    then skipToToken inFlow keyAllowed false rest
    else (keyAllowed, p :: rest)

/-- The characters that have a meaning at the beginning of a token. -/
def isIndicator (c : Char) : Bool :=
  c ∈ ['-', '?', ':', ',', '[', ']', '{', '}', '#', '&', '*', '!', '|', '>', '\'', '"', '%', '@', '\x60']

/-- Whether a plain scalar may begin with a character in front of the rest. -/
def beginsPlain (inFlow : Bool) (c : Char) (rest : List Place) : Bool :=
  !(isBlank c || isBreak c || isIndicator c) ||
    (c == '-' && !(begins ' ' rest || begins '\t' rest)) ||
    (!inFlow && (c == '?' || c == ':') && !endsWord rest)

/-- Reads the token at a place, and those that the layout puts in front of it. -/
def readToken? (layout : Layout) (p : Place) (rest : List Place) : Option (Layout × List Place) :=
  let c := p.char
  let inFlow := layout.inFlow
  if p.column = 0 ∧ c = '%' then do
    let layout ← layout.leave?
    let (directive, rest) ← readDirective? rest
    some (layout.push (.directive directive), rest)
  else if beginsMarker '-' (p :: rest) then do
    some ((← layout.leave?).push .documentStart, rest.drop 2)
  else if beginsMarker '.' (p :: rest) then do
    some ((← layout.leave?).push .documentEnd, rest.drop 2)
  else if c = '[' then do some (← layout.openBracket? p .bracketOpen, rest)
  else if c = '{' then do some (← layout.openBracket? p .braceOpen, rest)
  else if c = ']' then do some (← layout.closeBracket? .bracketClose, rest)
  else if c = '}' then do some (← layout.closeBracket? .braceClose, rest)
  else if c = ',' then do some (← layout.comma?, rest)
  else if c = '-' ∧ endsWord rest then do some (← layout.entry? p, rest)
  else if c = '?' ∧ (inFlow ∨ endsWord rest) then do some (← layout.markedKey? p, rest)
  else if c = ':' ∧ (inFlow ∨ endsWord rest) then do some (← layout.value? p, rest)
  else if c = '*' then do
    let (name, rest) ← readName? rest
    some (← layout.word? p (.alias name), rest)
  else if c = '&' then do
    let (name, rest) ← readName? rest
    some (← layout.word? p (.anchor name), rest)
  else if c = '!' then do
    let (tag, rest) ← readTag? inFlow (p :: rest)
    some (← layout.word? p (.tag tag), rest)
  else if (c = '|' ∨ c = '>') ∧ ¬ inFlow then do
    let layout ← layout.dropKey?
    let (scalar, rest) ← readBlock? (if c = '|' then .literal else .folded) layout.indent rest
    some ((layout.push (.scalar scalar)).allowKey true, rest)
  else if c = '\'' then do
    let (text, rest) ← readSingleQuoted? rest
    some (← layout.word? p (.scalar ⟨.singleQuoted, text⟩), rest)
  else if c = '"' then do
    let (text, rest) ← readDoubleQuoted? rest
    some (← layout.word? p (.scalar ⟨.doubleQuoted, text⟩), rest)
  else if beginsPlain inFlow c rest then do
    let reading ← readPlain? inFlow (layout.indent + 1) (p :: rest)
    let layout ← layout.word? p (.scalar ⟨.plain, reading.text⟩)
    some (layout.allowKey reading.broken, reading.rest)
  else none

/-- Reads the tokens of a source, at most `limit` of them, and ends what is still indented. -/
def readTokens? : (limit : Nat) → Layout → List Place → Option (List Token)
  | 0, _, _ => none
  | limit + 1, layout, source =>
    match skipToToken layout.inFlow layout.keyAllowed false source with
    | (_, []) => layout.leave?.map fun layout => layout.tokens.reverse
    | (keyAllowed, p :: rest) => do
      let layout ← (layout.allowKey keyAllowed).dropPast? p
      let (layout, rest) ← readToken? (layout.unroll p.column) p rest
      readTokens? limit layout rest

/-- The tokens of a text. -/
def tokens? (text : String) : Option (List Token) := do
  let source ← source? text.toList
  readTokens? (source.length + 1) Layout.start source

end MiningPool.Yaml
