/-
Module: MiningPool.Yaml.Tag
Purpose: names, tags and directives.
Main exports: Yaml.Tag, Yaml.TagText, Yaml.readName?, Yaml.readTag?, Yaml.Directive, Yaml.readDirective?
-/
import MiningPool.Utf8
import MiningPool.Yaml.Scalar

/-!
A tag tells what a node is. It is written as a handle and a suffix; a directive in front of the document
may say what a handle stands for. A tag between angle brackets has no handle. Bytes of a tag may be
written as `%` and two hexadecimal digits, and a zero byte ends it.

A name marks a node, so that the node can be used again.
-/

namespace MiningPool.Yaml

/-- The bytes of a tag. -/
abbrev Tag := List UInt8

/-- A tag as it is written. Without a handle the suffix is the tag. -/
structure TagText where
  handle : List Char
  suffix : Tag
deriving Repr, DecidableEq

/-- Letters, digits, the dash and the underscore. -/
def isNameChar (c : Char) : Bool := c.isAlphanum || c == '-' || c == '_'

/-- Splits off the characters of a name. -/
def splitName (source : List Place) : List Char × List Place :=
  ((source.takeWhile fun p => isNameChar p.char).map (·.char),
    source.dropWhile fun p => isNameChar p.char)

/-- Whether a name may end here. -/
def endsName : List Place → Bool
  | [] => true
  | p :: _ => isBlank p.char || isBreak p.char || p.char ∈ ['?', ':', ',', ']', '}', '%', '@', '\x60']

/-- Reads the name behind `&` or `*`. -/
def readName? (source : List Place) : Option (String × List Place) :=
  match splitName source with
  | ([], _) => none
  | (name, rest) => if endsName rest then some (String.ofList name, rest) else none

/-! ### Tags -/

/-- The characters that may occur in the suffix of a tag; between angle brackets there are more. -/
def isTagChar (bracketed : Bool) (c : Char) : Bool :=
  isNameChar c || c ∈ [';', '/', '?', ':', '@', '&', '=', '+', '$', '.', '!', '~', '*', '\'', '(', ')'] ||
    (bracketed && c ∈ [',', '[', ']'])

/-- The number of bytes of a character by its first byte. -/
def sequenceLength? (byte : Nat) : Option Nat :=
  if byte < 0x80 then some 1
  else if byte < 0xC0 then none
  else if byte < 0xE0 then some 2
  else if byte < 0xF0 then some 3
  else if byte < 0xF8 then some 4
  else none

/-- Reads the characters of a tag; `more` bytes are missing from a character that has begun. -/
def readTagBytes? (bracketed : Bool) (more : Nat) (done : List UInt8) :
    List Place → Option (Tag × List Place)
  | [] => if more = 0 then some (done.reverse, []) else none
  | p :: rest =>
    if p.char = '%' then
      match rest with
      | a :: b :: rest =>
        match hexValue? a.char, hexValue? b.char with
        | some high, some low =>
          let byte := high * 16 + low
          if more = 0 then
            match sequenceLength? byte with
            | none => none
            | some length => readTagBytes? bracketed (length - 1) (UInt8.ofNat byte :: done) rest
          else if 0x80 ≤ byte ∧ byte < 0xC0 then
            readTagBytes? bracketed (more - 1) (UInt8.ofNat byte :: done) rest
          else none
        | _, _ => none
      | _ => none
    else if more ≠ 0 then none
    else if isTagChar bracketed p.char then
      readTagBytes? bracketed 0 ((Utf8.encodeChar p.char).reverse ++ done) rest
    else some (done.reverse, p :: rest)

/-- A tag up to its first zero byte. -/
def cutTag (tag : Tag) : Tag := tag.takeWhile (· ≠ 0)

/-- Reads at least one character of a tag. -/
def readSuffix? (bracketed : Bool) (source : List Place) : Option (Tag × List Place) :=
  match readTagBytes? bracketed 0 [] source with
  | some ([], _) => none
  | some (bytes, rest) => some (cutTag bytes, rest)
  | none => none

/-- Splits off an exclamation mark, the name behind it, and another mark if one follows. -/
def readHandle? : List Place → Option (List Char × List Place)
  | [] => none
  | p :: rest =>
    if p.char = '!' then
      let (name, rest) := splitName rest
      if begins '!' rest then some ('!' :: name ++ ['!'], rest.drop 1)
      else some ('!' :: name, rest)
    else none

/-- Whether marks enclose a handle. -/
def isClosed (handle : List Char) : Bool := 1 < handle.length && handle.getLast? == some '!'

/-- Reads a tag without looking at what follows. -/
def readTagText? (source : List Place) : Option (TagText × List Place) :=
  if begins '<' (source.drop 1) then do
    let (suffix, rest) ← readSuffix? true (source.drop 2)
    if begins '>' rest then some (⟨[], suffix⟩, rest.drop 1) else none
  else do
    let (handle, rest) ← readHandle? source
    if isClosed handle then
      let (suffix, rest) ← readSuffix? false rest
      some (⟨handle, suffix⟩, rest)
    else
      let (bytes, rest) ← readTagBytes? false 0 [] rest
      let suffix := cutTag (Utf8.encode (String.ofList (handle.drop 1)) ++ bytes)
      if suffix.isEmpty then some (⟨[], [0x21]⟩, rest) else some (⟨['!'], suffix⟩, rest)

/-- Reads the tag that begins here. White space has to follow, or a comma inside brackets. -/
def readTag? (inFlow : Bool) (source : List Place) : Option (TagText × List Place) := do
  let (tag, rest) ← readTagText? source
  if endsWord rest || (inFlow && begins ',' rest) then some (tag, rest) else none

/-! ### Directives -/

/-- A line in front of a document. -/
inductive Directive where
  | version (major minor : Nat)
  /-- What a handle stands for. -/
  | handle (handle : List Char) (meaning : Tag)
deriving Repr, DecidableEq

/-- Reads a number of at most nine digits. -/
def readVersionNumber? (source : List Place) : Option (Nat × List Place) :=
  let digits := (source.takeWhile fun p => p.char.isDigit).map (·.char)
  if digits.isEmpty || 9 < digits.length then none
  else
    some (digits.foldl (fun n c => n * 10 + (c.toNat - 48)) 0, source.drop digits.length)

/-- Reads the directive behind its percent sign, and the end of its line. -/
def readDirective? (source : List Place) : Option (Directive × List Place) := do
  let (name, rest) := splitName source
  if name.isEmpty || !endsWord rest then none
  else if name = "YAML".toList then
    let (major, rest) ← readVersionNumber? (skipBlanks rest)
    if begins '.' rest then
      let (minor, rest) ← readVersionNumber? (rest.drop 1)
      some (.version major minor, ← skipLineEnd? rest)
    else none
  else if name = "TAG".toList then
    let (handle, rest) ← readHandle? (skipBlanks rest)
    if (isClosed handle || handle = ['!']) && !endsLine rest && endsWord rest then
      let (meaning, rest) ← readSuffix? true (skipBlanks rest)
      if endsWord rest then some (.handle handle meaning, ← skipLineEnd? rest) else none
    else none
  else none

end MiningPool.Yaml
