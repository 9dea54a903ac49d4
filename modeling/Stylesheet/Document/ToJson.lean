import Stylesheet.Document
import Stylesheet.Json.Value

/-!
# Documents as JSON

Every record is an object with its comments and its line first. Imports and layers are always
written, as null when absent; every other kind is left out when absent.
-/

namespace Stylesheet

namespace Json

def list {α : Type} (toJson : α → Json) (items : List α) : Json :=
  .array (items.map toJson)

/-- A value that may be absent, written as null if it is. -/
def orNull {α : Type} (toJson : α → Json) : Option α → Json
  | none => .null
  | some value => toJson value

/-- A member that is left out if its value is absent. -/
def optional {α : Type} (key : Text) (toJson : α → Json) : Option α → List (Text × Json)
  | none => []
  | some value => [(key, toJson value)]

end Json

def Declaration.toJson (declaration : Declaration) : Json :=
  .object [
    ("property".toList, .string declaration.property),
    ("value".toList, .string declaration.value)]

namespace Rule

/-- The members of a rule; keyframe steps name them differently. -/
def members (selectorKey declarationsKey : Text) (rule : Rule) : List (Text × Json) :=
  [(selectorKey, .string rule.selector),
    (declarationsKey, Json.list Declaration.toJson rule.declarations)]

def styleMembers : Rule → List (Text × Json) :=
  members "selector".toList "declarations".toList

def stepMembers : Rule → List (Text × Json) :=
  members "step".toList "rules".toList

end Rule

def Keyframes.members (keyframes : Keyframes) : List (Text × Json) :=
  [("name".toList, .string keyframes.name),
    ("steps".toList, Json.list (fun step => .object step.stepMembers) keyframes.steps)]

/-- A nested at-rule is given by the value of its document. -/
def MediaRule.toJson : MediaRule Json → Json
  | .style rule => .object rule.styleMembers
  | .atRule nested => .object [("at_rule".toList, nested)]

def MediaBlock.members (block : MediaBlock Json) : List (Text × Json) :=
  [("media_query".toList, .string block.query),
    ("rules".toList, Json.list MediaRule.toJson block.rules)]

def Directive.members (value : Text) : List (Text × Json) :=
  [("value".toList, .string value)]

/-- A record as an object, with the members of its content last. -/
def Record.toJson {α : Type} (members : α → List (Text × Json)) (record : Record α) : Json :=
  .object <|
    ("comment".toList, Json.orNull (Json.list .string) record.comment) ::
    ("line".toList, .number record.line) ::
    members record.content

namespace Sheet

/-- A sheet whose nested at-rules are JSON values already. -/
def toJson (sheet : Sheet Json) : Json :=
  let directives := Json.list (Record.toJson Directive.members)
  .object <|
    Json.optional "charset".toList directives sheet.charset ++
    [("imports".toList, Json.orNull directives sheet.imports),
      ("tailwind".toList, Json.orNull directives sheet.tailwind)] ++
    Json.optional "config".toList (Record.toJson Directive.members) sheet.config ++
    Json.optional "keyframes".toList (Json.list (Record.toJson Keyframes.members))
      sheet.keyframes ++
    Json.optional "media".toList (Json.list (Record.toJson MediaBlock.members)) sheet.media ++
    Json.optional "styles".toList (Json.list (Record.toJson Rule.styleMembers)) sheet.styles

end Sheet

namespace Document

def toJson : Document → Json :=
  fold Sheet.toJson

/-- The JSON text of a document. -/
def print (layout : Json.Layout) (document : Document) : Text :=
  document.toJson.print layout

end Document

end Stylesheet
