import Stylesheet.Parse
import Stylesheet.Document.ToJson
import Stylesheet.Document.OfJson

/-!
# Configuration

How deep nested at-rules are kept, and in which layout JSON is written.
-/

namespace Stylesheet

open Json (Schema Decoder Fault)

structure Config where
  maxNesting : Option Nat := none
  layout : Json.Layout := .pretty
deriving DecidableEq

namespace Config

/-- The document of a text. -/
def parse (config : Config) (text : Text) : Document :=
  Document.parse config.maxNesting text

/-- The JSON text of a document. -/
def print (config : Config) (document : Document) : Text :=
  document.print config.layout

def toJson (config : Config) : Json :=
  .object [
    ("max_nesting_depth".toList, Json.orNull .number config.maxNesting),
    ("pretty_json".toList, .bool (config.layout = .pretty))]

def schema : Schema Config Config where
  fields := [
    Schema.field "max_nesting_depth".toList (Decoder.orNull Decoder.count)
      fun most config => { config with maxNesting := most },
    Schema.field "pretty_json".toList Decoder.flag
      fun pretty config => { config with layout := if pretty then .pretty else .compact }]
  start := {}
  finish := .ok
  lenient := true

/-- The configuration of a JSON text. -/
def ofJson? (text : Text) : Except Fault Config :=
  (schema.decode "EngineConfig".toList).run text

end Config

end Stylesheet
