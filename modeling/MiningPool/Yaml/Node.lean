/-
Module: MiningPool.Yaml.Node
Purpose: what a YAML text says: scalars, lists and mappings.
Main exports: Yaml.Node, Yaml.Document, Yaml.parse?, Yaml.Document.follow
-/
import MiningPool.Yaml.Token

/-!
A document is a node, which is a scalar, a list of nodes, or a mapping of nodes to nodes. A node may have a
tag, and a name under which it can be used again further on. Where a node is expected and none stands, there
is an empty plain scalar.

Names are numbered: a node that is given a name has the number of different names that have been given
before it. A use of a name refers to the number that the name had at that place, and a number stands for
the last node of the document that has it.
-/

namespace MiningPool.Yaml

/-- A node. -/
inductive Node where
  | scalar (tag : Option Tag) (scalar : Scalar)
  | sequence (tag : Option Tag) (items : List Node)
  | mapping (tag : Option Tag) (members : List (Node × Node))
  /-- The use of a name behind so many names that have been given. -/
  | alias (name : String) (given : Nat)
deriving Inhabited

/-- A node with the name that it was given. -/
structure NamedNode where
  name : String
  node : Node

/-- The tag that means nothing in particular. -/
def plainTag : Tag := [0x21]

/-- What handles stand for unless a directive says otherwise. -/
def commonHandles : List (List Char × Tag) :=
  [(['!'], plainTag), (['!', '!'], Utf8.encode "tag:yaml.org,2002:")]

/-- The tag that a text stands for; its handle has to be known. -/
def TagText.meaning? (handles : List (List Char × Tag)) (tag : TagText) : Option Tag :=
  if tag.handle.isEmpty then some tag.suffix
  else (handles.lookup tag.handle).map (· ++ tag.suffix)

/-! ### Grammar -/

/-- The rest of a document while it is read. -/
structure Reading where
  tokens : List Token
  /-- The names that have been given, last one first, with the number of their nodes. -/
  names : List String
  /-- The nodes that have been given a name and are complete, by the number of names before them. -/
  nodes : List (Nat × NamedNode)

namespace Reading

/-- The rest behind some tokens. -/
def behind (reading : Reading) (tokens : List Token) : Reading := { reading with tokens }

end Reading

/-- Name and tag of a node. -/
structure Properties where
  name : Option String
  tag : Option TagText

namespace Properties

/-- Splits name and tag off, which may stand in either order. -/
def split : List Token → Properties × List Token
  | .anchor name :: .tag tag :: rest => (⟨some name, some tag⟩, rest)
  | .anchor name :: rest => (⟨some name, none⟩, rest)
  | .tag tag :: .anchor name :: rest => (⟨some name, some tag⟩, rest)
  | .tag tag :: rest => (⟨none, some tag⟩, rest)
  | rest => (⟨none, none⟩, rest)

end Properties

/-- An empty plain scalar. -/
def Node.empty : Node := .scalar none ⟨.plain, ""⟩

/-- Whether no item stands in front of these tokens in an indented list. -/
def endsEntry : List Token → Bool
  | .entry :: _ | .blockEnd :: _ => true
  | _ => false

/-- Whether no item stands in front of these tokens in a list that is not indented. -/
def endsLooseEntry : List Token → Bool
  | .entry :: _ | .key :: _ | .value :: _ | .blockEnd :: _ => true
  | _ => false

/-- Whether no key or value stands in front of these tokens in an indented mapping. -/
def endsMember : List Token → Bool
  | .key :: _ | .value :: _ | .blockEnd :: _ => true
  | _ => false

/-- Whether no key stands in front of these tokens between brackets. -/
def endsFlowKey : List Token → Bool
  | .value :: _ | .comma :: _ | .bracketClose :: _ => true
  | _ => false

/-- Whether no value stands in front of these tokens between brackets. -/
def endsFlowValue : List Token → Bool
  | .comma :: _ | .bracketClose :: _ => true
  | _ => false

/-- Whether no key stands in front of these tokens between braces. -/
def endsBraceKey : List Token → Bool
  | .value :: _ | .comma :: _ | .braceClose :: _ => true
  | _ => false

/-- Whether no value stands in front of these tokens between braces. -/
def endsBraceValue : List Token → Bool
  | .comma :: _ | .braceClose :: _ => true
  | _ => false

section Grammar

variable (handles : List (List Char × Tag))

mutual

/-- Reads a node, in at most `limit` steps. Indented collections may stand only where `block` says so, and
lists that are not indented further than the mapping around them only where `loose` says so. -/
def readNode? (limit : Nat) (block loose : Bool) (reading : Reading) : Option (Node × Reading) :=
  match limit with
  | 0 => none
  | limit + 1 =>
    match reading.tokens with
    | .alias name :: rest =>
      if name ∈ reading.names then some (.alias name reading.names.length, reading.behind rest)
      else none
    | tokens => do
      let (properties, rest) := Properties.split tokens
      let tag ←
        match properties.tag with
        | none => some none
        | some tag => (tag.meaning? handles).map some
      let given := reading.names.length
      let names := properties.name.toList ++ reading.names
      let (node, reading) ←
        readContent? limit block loose properties tag { reading with tokens := rest, names }
      match properties.name with
      | none => some (node, reading)
      | some name => some (node, { reading with nodes := (given, ⟨name, node⟩) :: reading.nodes })

/-- Reads what stands behind name and tag. -/
def readContent? (limit : Nat) (block loose : Bool) (properties : Properties) (tag : Option Tag)
    (reading : Reading) : Option (Node × Reading) :=
  match limit with
  | 0 => none
  | limit + 1 =>
    match reading.tokens with
    | .scalar scalar :: rest =>
      some (.scalar (if tag = some plainTag then none else tag) scalar, reading.behind rest)
    | .bracketOpen :: rest => do
      let (items, reading) ← readBracketItems? limit true (reading.behind rest)
      some (.sequence tag items, reading)
    | .braceOpen :: rest => do
      let (members, reading) ← readBraceMembers? limit true (reading.behind rest)
      some (.mapping tag members, reading)
    | tokens =>
      match block, loose, tokens with
      | _, true, .entry :: _ => do
        let (items, reading) ← readLooseItems? limit reading
        some (.sequence tag items, reading)
      | true, _, .sequenceStart :: rest => do
        let (items, reading) ← readItems? limit (reading.behind rest)
        some (.sequence tag items, reading)
      | true, _, .mappingStart :: rest => do
        let (members, reading) ← readMembers? limit (reading.behind rest)
        some (.mapping tag members, reading)
      | _, _, _ =>
        if properties.name.isSome || tag.isSome then some (.scalar tag ⟨.plain, ""⟩, reading) else none

/-- Reads the items of an indented list and its end. -/
def readItems? (limit : Nat) (reading : Reading) : Option (List Node × Reading) :=
  match limit with
  | 0 => none
  | limit + 1 =>
    match reading.tokens with
    | .entry :: rest => do
      let (item, reading) ←
        if endsEntry rest then some (Node.empty, reading.behind rest)
        else readNode? limit true false (reading.behind rest)
      let (items, reading) ← readItems? limit reading
      some (item :: items, reading)
    | .blockEnd :: rest => some ([], reading.behind rest)
    | _ => none

/-- Reads the items of a list that is not indented further than the mapping around it. -/
def readLooseItems? (limit : Nat) (reading : Reading) : Option (List Node × Reading) :=
  match limit with
  | 0 => none
  | limit + 1 =>
    match reading.tokens with
    | .entry :: rest => do
      let (item, reading) ←
        if endsLooseEntry rest then some (Node.empty, reading.behind rest)
        else readNode? limit true false (reading.behind rest)
      let (items, reading) ← readLooseItems? limit reading
      some (item :: items, reading)
    | _ => some ([], reading)

/-- Reads the members of an indented mapping and its end. -/
def readMembers? (limit : Nat) (reading : Reading) : Option (List (Node × Node) × Reading) :=
  match limit with
  | 0 => none
  | limit + 1 =>
    match reading.tokens with
    | .blockEnd :: rest => some ([], reading.behind rest)
    | .key :: rest => do
      let (key, reading) ←
        if endsMember rest then some (Node.empty, reading.behind rest)
        else readNode? limit true true (reading.behind rest)
      let (value, reading) ← readMemberValue? limit reading
      let (members, reading) ← readMembers? limit reading
      some ((key, value) :: members, reading)
    | _ => none

/-- Reads the value of a member of an indented mapping. -/
def readMemberValue? (limit : Nat) (reading : Reading) : Option (Node × Reading) :=
  match limit with
  | 0 => none
  | limit + 1 =>
    match reading.tokens with
    | .value :: rest =>
      if endsMember rest then some (Node.empty, reading.behind rest)
      else readNode? limit true true (reading.behind rest)
    | _ => some (Node.empty, reading)

/-- Reads items between brackets and the closing bracket. A marked key and a value are a mapping of their
own. -/
def readBracketItems? (limit : Nat) (first : Bool) (reading : Reading) : Option (List Node × Reading) :=
  match limit with
  | 0 => none
  | limit + 1 =>
    match reading.tokens with
    | .bracketClose :: rest => some ([], reading.behind rest)
    | tokens => do
      let rest ←
        match first, tokens with
        | true, rest => some rest
        | false, .comma :: rest => some rest
        | false, _ => none
      match rest with
      | .bracketClose :: rest => some ([], reading.behind rest)
      | .key :: rest =>
        let (key, reading) ←
          if endsFlowKey rest then some (Node.empty, reading.behind (rest.drop 1))
          else readNode? limit false false (reading.behind rest)
        let (value, reading) ←
          match reading.tokens with
          | .value :: rest =>
            if endsFlowValue rest then some (Node.empty, reading.behind rest)
            else readNode? limit false false (reading.behind rest)
          | _ => some (Node.empty, reading)
        let (items, reading) ← readBracketItems? limit false reading
        some (.mapping none [(key, value)] :: items, reading)
      | rest =>
        let (item, reading) ← readNode? limit false false (reading.behind rest)
        let (items, reading) ← readBracketItems? limit false reading
        some (item :: items, reading)

/-- Reads members between braces and the closing brace. A key may stand alone. -/
def readBraceMembers? (limit : Nat) (first : Bool) (reading : Reading) :
    Option (List (Node × Node) × Reading) :=
  match limit with
  | 0 => none
  | limit + 1 =>
    match reading.tokens with
    | .braceClose :: rest => some ([], reading.behind rest)
    | tokens => do
      let rest ←
        match first, tokens with
        | true, rest => some rest
        | false, .comma :: rest => some rest
        | false, _ => none
      match rest with
      | .braceClose :: rest => some ([], reading.behind rest)
      | .key :: rest =>
        let (key, reading) ←
          if endsBraceKey rest then some (Node.empty, reading.behind rest)
          else readNode? limit false false (reading.behind rest)
        let (value, reading) ←
          match reading.tokens with
          | .value :: rest =>
            if endsBraceValue rest then some (Node.empty, reading.behind rest)
            else readNode? limit false false (reading.behind rest)
          | _ => some (Node.empty, reading)
        let (members, reading) ← readBraceMembers? limit false reading
        some ((key, value) :: members, reading)
      | rest =>
        let (key, reading) ← readNode? limit false false (reading.behind rest)
        let (members, reading) ← readBraceMembers? limit false reading
        some ((key, Node.empty) :: members, reading)

end

end Grammar

/-! ### Documents -/

/-- A document. -/
structure Document where
  root : Node
  /-- The nodes that were given a name, in the order of the names. -/
  named : List NamedNode

namespace Document

/-- The number of a named node: that of the different names before it. -/
def number (document : Document) (position : Nat) : Nat :=
  ((document.named.take position).map (·.name)).eraseDups.length

/-- The last of some positions that has a property. -/
def lastWhere? (property : Nat → Bool) (positions : Nat) : Option Nat :=
  (List.range positions).reverse.find? property

/-- The node that a use of a name refers to. -/
def target? (document : Document) (name : String) (given : Nat) : Option Node := do
  let position ← lastWhere? (fun i => (document.named[i]?).any (·.name = name)) given
  let number := document.number position
  let last ← lastWhere? (fun i => document.number i = number) document.named.length
  (document.named[last]?).map (·.node)

/-- The node itself, or the one that it refers to. -/
def follow (document : Document) : Node → Node
  | .alias name given => (document.target? name given).getD Node.empty
  | node => node

end Document

/-- Splits the directives off. -/
def splitDirectives : List Token → List Directive × List Token
  | .directive directive :: rest =>
    let (directives, rest) := splitDirectives rest
    (directive :: directives, rest)
  | rest => ([], rest)

/-- What handles stand for. No handle may be set twice, and only one directive may tell the version, which
has to be a known one. -/
def handlesOf? (handles : List (List Char × Tag)) (version : Bool) :
    List Directive → Option (List (List Char × Tag))
  | [] => some (handles ++ commonHandles)
  | .version major minor :: rest =>
    if version || major ≠ 1 || (minor ≠ 1 && minor ≠ 2) then none else handlesOf? handles true rest
  | .handle handle meaning :: rest =>
    if (handles.lookup handle).isSome then none else handlesOf? (handles ++ [(handle, meaning)]) version rest

/-- Whether a document with nothing in it ends here. -/
def endsDocument : List Token → Bool
  | [] | .directive _ :: _ | .documentStart :: _ | .documentEnd :: _ => true
  | _ => false

/-- Whether nothing follows but marks of an end. -/
def endsText (tokens : List Token) : Bool := (tokens.dropWhile (· == .documentEnd)).isEmpty

/-- Reads the node of a document that is the only one of a text. -/
def readRoot? (handles : List (List Char × Tag)) (tokens : List Token) : Option Document := do
  let (root, reading) ← readNode? handles (4 * tokens.length + 4) true false ⟨tokens, [], []⟩
  if endsText reading.tokens then
    let named := (List.range reading.names.length).filterMap fun i => reading.nodes.lookup i
    some ⟨root, named⟩
  else none

/-- What a text says, if that is one document or nothing at all. -/
def parse? (text : String) : Option (Option Document) := do
  let tokens ← tokens? text
  match tokens with
  | [] => some none
  | .directive _ :: _ | .documentStart :: _ =>
    let (directives, rest) := splitDirectives tokens
    let handles ← handlesOf? [] false directives
    match rest with
    | .documentStart :: rest =>
      if endsDocument rest then if endsText rest then some (some ⟨Node.empty, []⟩) else none
      else (readRoot? handles rest).map some
    | _ => none
  | tokens => (readRoot? commonHandles tokens).map some

end MiningPool.Yaml
