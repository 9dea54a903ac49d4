import Stylesheet.Config
import Stylesheet.Render

/-!
# Sessions

A session changes one document step by step. A step that cannot be taken leaves everything as it
was.
-/

namespace Stylesheet

structure Session where
  config : Config := {}
  document : Document := .empty

namespace Session

inductive Step where
  | parse (text : Text)
  | mergeText (text : Text)
  | load (json : Text)
  | mergeJson (json : Text)
  | mergeKind (kind : Kind) (text : Text)
  | clear
  | reparse
  | setNesting (most : Option Nat)
  | setLayout (layout : Json.Layout)
  | render
deriving DecidableEq

/-- What a step answers. -/
inductive Answer where
  | state (size : Nat) (isEmpty : Bool) (json : Text)
  | text (text : Text)
  | fault (fault : Json.Fault)
deriving DecidableEq

/-- The answer of a step that was taken: what the document is like after it. -/
def state (session : Session) : Answer :=
  .state session.document.size session.document.isEmpty (session.config.print session.document)

def setDocument (session : Session) (document : Document) : Session :=
  { session with document := document }

def merge (session : Session) (document : Document) : Session :=
  session.setDocument (session.document.merge document)

/-- Takes one step. -/
def step (session : Session) : Step → Except Json.Fault Session
  | .parse text => .ok (session.setDocument (session.config.parse text))
  | .mergeText text => .ok (session.merge (session.config.parse text))
  | .load json => (Document.ofJson? json).map session.setDocument
  | .mergeJson json => (Document.ofJson? json).map session.merge
  | .mergeKind kind text =>
      .ok (session.merge (Document.parseKind kind session.config.maxNesting 0 text))
  | .clear => .ok (session.setDocument .empty)
  | .reparse => .ok (session.setDocument (session.config.parse session.document.render))
  | .setNesting most => .ok { session with config.maxNesting := most }
  | .setLayout layout => .ok { session with config.layout := layout }
  | .render => .ok session

/-- Takes one step and answers it. -/
def answer (session : Session) (step : Step) : Answer × Session :=
  match session.step step, step with
  | .error fault, _ => (.fault fault, session)
  | .ok next, .render => (.text next.document.render, next)
  | .ok next, _ => (next.state, next)

/-- The answers of a session's steps, in order. -/
def run : Session → List Step → List Answer
  | _, [] => []
  | session, step :: steps =>
      let (answer, next) := session.answer step
      answer :: run next steps

end Session

end Stylesheet
