/-
Module: MiningPool.Rpc.MediaType
Purpose: whether the media type of a message says that it is JSON.
Main exports: MediaType.isJson
-/

/-!
A media type is a type and a subtype with a slash between them, and perhaps parameters behind semicolons.
Names are made of token characters. A parameter is a name, an equals sign and a token or a quoted text; a
token may be empty at the very end only, and blanks may stand before a name and after a quoted text.

JSON is `application/json`, and also any `application` type whose subtype ends in `+json` or has `json`
before its last plus sign. Case does not matter.
-/

namespace MiningPool.MediaType

/-- A character of a token. -/
def isToken (c : Char) : Bool :=
  c.isAlphanum || c ∈ ['!', '#', '$', '%', '&', '\'', '*', '+', '-', '.', '^', '_', '\x60', '|', '~']

/-- A character that may stand in a header field. -/
def isVisible (c : Char) : Bool := c = '\t' || (32 ≤ c.toNat && c.toNat < 127)

/-- A character that may stand inside quotes. -/
def isQuotable (c : Char) : Bool := 32 ≤ c.toNat && c.toNat ≠ 127

/-- A place inside the parameters; `begun` tells whether a character has been seen. -/
inductive Place where
  | name (begun : Bool)
  | value (begun : Bool)
  | quoted (begun : Bool)
  | afterQuoted
deriving Repr, DecidableEq

/-- Whether the rest of the parameters is well formed. A quotation mark does not end a quoted text that
is still empty. -/
def paramsFrom : Place → List Char → Bool
  | .name begun, [] => !begun
  | .name begun, c :: rest =>
    if c = ' ' && !begun then paramsFrom (.name false) rest
    else if c = '=' && begun then paramsFrom (.value false) rest
    else isToken c && paramsFrom (.name true) rest
  | .value _, [] => true
  | .value begun, c :: rest =>
    if c = '"' && !begun then paramsFrom (.quoted false) rest
    else if c = ';' && begun then paramsFrom (.name false) rest
    else isToken c && paramsFrom (.value true) rest
  | .quoted _, [] => false
  | .quoted begun, c :: rest =>
    if c = '"' && begun then paramsFrom .afterQuoted rest
    else isQuotable c && paramsFrom (.quoted true) rest
  | .afterQuoted, [] => true
  | .afterQuoted, c :: rest =>
    if c = ';' then paramsFrom (.name false) rest else c = ' ' && paramsFrom .afterQuoted rest

/-- A subtype without its suffix, and the suffix behind the last plus sign that is not its first
character. -/
def splitSuffix (subtype : List Char) : List Char × Option (List Char) :=
  match subtype with
  | [] => ([], none)
  | first :: rest =>
    let backwards := rest.reverse
    let suffix := backwards.takeWhile (· ≠ '+')
    match backwards.dropWhile (· ≠ '+') with
    | [] => (subtype, none)
    | _ :: before => (first :: before.reverse, some suffix.reverse)

/-- Whether type and subtype stand for JSON. -/
def namesJson (type subtype : List Char) : Bool :=
  let (base, suffix) := splitSuffix (subtype.map Char.toLower)
  type.map Char.toLower = "application".toList &&
    (base = "json".toList || suffix = some "json".toList)

/-- Whether a header field names a JSON type. -/
def isJson (field : String) : Bool :=
  let characters := field.toList
  let type := characters.takeWhile isToken
  match characters.dropWhile isToken with
  | '/' :: rest =>
    let subtype := rest.takeWhile isToken
    let wellFormed :=
      match rest.dropWhile isToken with
      | [] => true
      | ';' :: params => !subtype.isEmpty && paramsFrom (.name false) params
      | _ => false
    characters.all isVisible && !type.isEmpty && wellFormed && namesJson type subtype
  | _ => false

end MiningPool.MediaType
