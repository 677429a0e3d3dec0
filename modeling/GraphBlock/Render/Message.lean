import GraphBlock.Text.Utf8

/-!
# Completions

What the renderer sends back.  A completion is not addressed to a request: it names the fingerprint
it answers and the origin it comes from.
-/

namespace GraphBlock

inductive Outcome where
  | success (image : Bytes)
  | failure (message : String)
  deriving DecidableEq, Repr

structure Completion where
  origin : String
  fingerprint : String
  outcome : Outcome
  deriving DecidableEq, Repr

/-- Why a graph could not be drawn. -/
inductive RenderError where
  /-- The renderer reported an error; its message is kept as it is. -/
  | renderFailed (fingerprint message : String)
  /-- The renderer did not take the request. -/
  | rendererUnavailable (reason : String)
  deriving DecidableEq, Repr

def RenderError.message : RenderError → String
  | renderFailed fingerprint message =>
    "Renderer failed for graph " ++ fingerprint ++ ": " ++ message
  | rendererUnavailable reason => "Renderer unavailable: " ++ reason

end GraphBlock
