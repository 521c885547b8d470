/-
Module: MiningPool.Yaml.Block
Purpose: scalars that are written as indented lines.
Main exports: Yaml.readBlock?
-/
import MiningPool.Yaml.Scalar

/-!
A block scalar is a header and the lines below it that are indented. The header may say how far they are
indented beyond their surroundings, and what becomes of the line breaks at the end: all go, one stays
(unless told otherwise), or all stay. Without such a number the first line with content decides.

In a folded block a single break between two lines that do not begin with white space stands for a space.
-/

namespace MiningPool.Yaml

/-- What becomes of the line breaks behind the last line. -/
inductive Chomping where
  | strip
  | clip
  | keep
deriving Repr, DecidableEq

/-- What the first line of a block scalar says. -/
structure BlockHeader where
  chomping : Chomping
  /-- The indentation beyond the surroundings. -/
  indentation : Option Nat
deriving Repr, DecidableEq

namespace BlockHeader

/-- How a mark sets the treatment of line breaks. -/
def chomping? (c : Char) : Option Chomping :=
  if c = '+' then some .keep else if c = '-' then some .strip else none

/-- How a digit sets the indentation; zero is no indentation. -/
def indentation? (c : Char) : Option Nat :=
  if '1' ≤ c ∧ c ≤ '9' then some (c.toNat - 48) else none

/-- Reads the mark and the digit, either of which may be missing, in either order. -/
def read (source : List Place) : BlockHeader × List Place :=
  match source with
  | [] => (⟨.clip, none⟩, [])
  | p :: rest =>
    match chomping? p.char, indentation? p.char with
    | some chomping, _ =>
      match rest with
      | [] => (⟨chomping, none⟩, [])
      | q :: behind =>
        match indentation? q.char with
        | some n => (⟨chomping, some n⟩, behind)
        | none => (⟨chomping, none⟩, rest)
    | none, some n =>
      match rest with
      | [] => (⟨.clip, some n⟩, [])
      | q :: behind =>
        match chomping? q.char with
        | some chomping => (⟨chomping, some n⟩, behind)
        | none => (⟨.clip, some n⟩, rest)
    | none, none => (⟨.clip, none⟩, source)

end BlockHeader

/-- Empty lines and indentation that have been passed. -/
structure BlankLines where
  /-- The breaks, last one first. -/
  breaks : List Char
  /-- The greatest number of spaces in front of a line. -/
  widest : Nat
  rest : List Place

/-- Skips indentation, up to the given one if there is one, and empty lines. A tab where indentation is
expected is refused. -/
def skipBlankLines? (indent : Option Nat) (breaks : List Char) (widest : Nat) :
    List Place → Option BlankLines
  | [] => some ⟨breaks, widest, []⟩
  | p :: rest =>
    let inside := indent.all (p.column < ·)
    if p.char = ' ' ∧ inside then skipBlankLines? indent breaks (max widest (p.column + 1)) rest
    else if p.char = '\t' ∧ inside then none
    else if isBreak p.char then skipBlankLines? indent (p.char :: breaks) widest rest
    else some ⟨breaks, widest, p :: rest⟩

/-- What has been read of the lines; characters are kept last one first. -/
structure BlockLines where
  text : List Char
  /-- The break at the end of the last line; none at the end of the source. -/
  lineBreak : Option Char
  /-- The breaks of the empty lines behind it. -/
  blankLines : List Char
  /-- Whether the last line began with white space. -/
  indented : Bool

namespace BlockLines

/-- No line. -/
def start (blankLines : List Char) : BlockLines := ⟨[], none, blankLines, false⟩

/-- The text with the breaks in front of another line. -/
def joined (folding : Bool) (lines : BlockLines) (indented : Bool) : List Char :=
  if folding ∧ lines.lineBreak = some '\n' ∧ ¬ lines.indented ∧ ¬ indented then
    if lines.blankLines.isEmpty then ' ' :: lines.text else lines.blankLines ++ lines.text
  else lines.blankLines ++ (lines.lineBreak.toList ++ lines.text)

/-- The whole text. -/
def finish (chomping : Chomping) (lines : BlockLines) : String :=
  let text :=
    match chomping with
    | .strip => lines.text
    | .clip => lines.lineBreak.toList ++ lines.text
    | .keep => lines.blankLines ++ (lines.lineBreak.toList ++ lines.text)
  String.ofList text.reverse

/-- Reads the lines that are indented by `indent`, at most `limit` of them. -/
def read? (folding : Bool) (indent : Nat) :
    (limit : Nat) → BlockLines → List Place → Option (BlockLines × List Place)
  | 0, lines, source => some (lines, source)
  | _, lines, [] => some (lines, [])
  | limit + 1, lines, p :: rest =>
    if p.column ≠ indent then some (lines, p :: rest)
    else
      let indented := isBlank p.char
      let content := (p :: rest).takeWhile fun q => !isBreak q.char
      let text := (content.map (·.char)).reverse ++ lines.joined folding indented
      match skipLine (p :: rest) with
      | [] => some (⟨text, none, [], indented⟩, [])
      | q :: behind =>
        match skipBlankLines? (some indent) [] 0 behind with
        | none => none
        | some blank => read? folding indent limit ⟨text, some q.char, blank.breaks, indented⟩ blank.rest

end BlockLines

/-- Reads the block scalar behind its mark; `outer` is the indentation of its surroundings, which is
negative if there are none. -/
def readBlock? (style : Style) (outer : Int) (source : List Place) : Option (Scalar × List Place) := do
  let (header, rest) := BlockHeader.read source
  let rest ← skipLineEnd? rest
  let given := header.indentation.map fun n => (max outer 0).toNat + n
  let blank ← skipBlankLines? given [] 0 rest
  let indent := given.getD (max blank.widest (max (outer + 1).toNat 1))
  let (lines, rest) ←
    BlockLines.read? (style == .folded) indent source.length (BlockLines.start blank.breaks) blank.rest
  some (⟨style, lines.finish header.chomping⟩, rest)

end MiningPool.Yaml
