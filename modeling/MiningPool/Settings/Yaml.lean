/-
Module: MiningPool.Settings.Yaml
Purpose: reading settings from YAML, and writing them.
Main exports: Settings.ofYaml, Settings.yamlText
-/
import MiningPool.Number.Power
import MiningPool.Settings.Basic
import MiningPool.Yaml.Node
import MiningPool.Yaml.Text

/-!
Settings are a mapping from keys to values; a text with nothing in it gives no setting. A key that is no
setting is ignored with its value, and a setting must not be given twice.

A text is a scalar as it is written, whatever it looks like. Numbers and truth values are plain scalars, or
blocks of lines with the tag of their kind. A missing value is an empty plain scalar or a word for nothing
without a tag of its own. A named value is a scalar with the name, or an empty scalar that has the name as
its tag.
-/

namespace MiningPool

/-! ### Values of nodes -/

namespace Yaml

/-- The tag of a kind of values. -/
def kindTag (name : String) : Tag := Utf8.encode ("tag:yaml.org,2002:" ++ name)

/-- Whether a scalar can be a number or a truth value. -/
def isWord (kind : String) (tag : Option Tag) (style : Style) : Bool :=
  style = .plain || (style = .literal && tag = some (kindTag kind))

namespace Node

/-- The text of a scalar. -/
def text? : Node → Option String
  | .scalar _ content => some content.text
  | _ => none

/-- A truth value. -/
def bool? : Node → Option Bool
  | .scalar tag content => if isWord "bool" tag content.style then Yaml.bool? content.text else none
  | _ => none

/-- A natural number of so many bits. -/
def natural? (bits : Nat) : Node → Option Nat
  | .scalar tag content =>
    if isWord "int" tag content.style then Yaml.natural? (2 ^ bits) content.text.toList else none
  | _ => none

/-- Whether a node stands for no value; nothing if its tag says so but not its text. -/
def isMissing? : Node → Option Bool
  | .scalar tag content =>
    match content.style, tag with
    | .plain, none => some (content.text.isEmpty || isNull content.text)
    | .plain, some tag =>
      if tag = kindTag "null" then if isNull content.text then some true else none else some false
    | _, _ => some false
  | _ => some false

/-- A value that may be missing. -/
def optional? {α : Type} (read : Node → Option α) (node : Node) : Option (Option α) :=
  match node.isMissing? with
  | none => none
  | some true => some none
  | some false => (read node).map some

/-- The items of a list; an empty plain scalar has none. -/
def items? : Node → Option (List Node)
  | .sequence _ items => some items
  | .scalar _ content => if content = ⟨.plain, ""⟩ then some [] else none
  | _ => none

/-- The members of a mapping; an empty plain scalar has none. -/
def members? : Node → Option (List (Node × Node))
  | .mapping _ members => some members
  | .scalar _ content => if content = ⟨.plain, ""⟩ then some [] else none
  | _ => none

/-- The name that a tag of the text's own gives. -/
def tagName? (tag : Option Tag) : Option String :=
  match tag with
  | some (0x21 :: name) => (Utf8.decode? name).map String.ofList
  | _ => none

/-- The name of a choice. -/
def choiceName? : Node → Option String
  | .scalar tag content =>
    match tagName? tag with
    | none => some content.text
    | some name =>
      if content.style = .plain ∧ (content.text.isEmpty ∨ isNull content.text) then some name else none
  | _ => none

/-- A choice. -/
def choice? {α : Type} [Choice α] (node : Node) : Option α := node.choiceName?.bind Choice.named?

end Node

end Yaml

/-! ### Reading -/

namespace SettingKind

/-- A value of a kind in a document. -/
def ofYaml? (document : Yaml.Document) : (kind : SettingKind) → Yaml.Node → Option kind.Value
  | flag, node => (document.follow node).bool?
  | natural bits, node => (document.follow node).natural? bits
  | optionalNatural bits, node => (document.follow node).optional? (·.natural? bits)
  | naturals bits, node => do
    let items ← (document.follow node).items?
    items.mapM fun item => (document.follow item).natural? bits
  | text, node => (document.follow node).text?
  | path, node => (document.follow node).text?
  | optionalPath, node => (document.follow node).optional? (·.text?)
  | level, node => (document.follow node).choice?
  | format, node => (document.follow node).choice?
  | policy, node => (document.follow node).choice?

/-- A value as it is written. -/
def yamlEntry : (kind : SettingKind) → kind.Value → Yaml.Entry
  | flag, value => .word (if value then "true" else "false")
  | natural _, value => .word (toString (value : Nat))
  | optionalNatural _, none => .word "null"
  | optionalNatural _, some value => .word (toString (value : Nat))
  | naturals _, values => .list (values.map fun (value : Nat) => toString value)
  | text, value => .text value
  | path, value => .text value
  | optionalPath, none => .word "null"
  | optionalPath, some value => .text value
  | level, value => .text (Choice.name value)
  | format, value => .text (Choice.name value)
  | policy, value => .text (Choice.name value)

end SettingKind

namespace Settings

/-- Takes the settings out of the members of a mapping, one after the other. -/
def ofMembers? (document : Yaml.Document) (given : GivenSettings) :
    List (Yaml.Node × Yaml.Node) → Option GivenSettings
  | [] => some given
  | (key, value) :: rest => do
    let key ← (document.follow key).text?
    match Setting.ofKey? key with
    | none => ofMembers? document given rest
    | some setting =>
      if (given setting).isSome then none
      else
        let value ← setting.kind.ofYaml? document value
        ofMembers? document (given.set setting value) rest

/-- The settings of a document. -/
def ofDocument? (document : Yaml.Document) : Option GivenSettings := do
  ofMembers? document GivenSettings.empty (← document.root.members?)

/-- The settings that a YAML text gives. -/
def ofYaml (text : String) : Except Error GivenSettings :=
  let given? : Option GivenSettings :=
    match Yaml.parse? text with
    | none => none
    | some none => some GivenSettings.empty
    | some (some document) => ofDocument? document
  match given? with
  | some given => .ok given
  | none => .error .unreadableYaml

/-- All settings as YAML. -/
def yamlText (settings : Settings) : String :=
  Yaml.mappingText (Setting.all.map fun setting => (setting.key, setting.kind.yamlEntry (settings setting)))

end Settings

end MiningPool
