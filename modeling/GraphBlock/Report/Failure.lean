import GraphBlock.Cache.Error
import GraphBlock.Render.Message
import GraphBlock.Spec.ParseError

/-!
# Failures and their causes

A `Failure` is what the program as a whole can report.  A `Trouble` is what comes up from below: a
cause, and the contexts that were put around it on the way.  `chain` lists its texts from the
outside in.
-/

namespace GraphBlock

inductive Failure where
  | parse (error : ParseError)
  | render (error : RenderError)
  | cache (error : CacheError)
  /-- The block could not be read. -/
  | inputUnreadable (path reason : String)
  | configuration (message : String)
  /-- The settings file is no TOML, or a value in it has the wrong type. -/
  | malformedSettings
  | other (message : String)
  deriving DecidableEq, Repr

namespace Failure

def message : Failure → String
  | parse e => "Invalid graph specification: " ++ e.message
  | render e => e.message
  | cache e => e.message
  | inputUnreadable path _ => "Cannot read graph specification from " ++ path
  | configuration message => "Configuration error: " ++ message
  | malformedSettings => "Configuration error"
  | other message => message

/-- The texts of the failures behind this one. -/
def sources : Failure → List String
  | parse e => [e.message]
  | cache e => (e.source?.map IoError.message).toList
  | _ => []

end Failure

/-- What went wrong first. -/
inductive Cause where
  | failure (failure : Failure)
  | parse (error : ParseError)
  | render (error : RenderError)
  | cache (error : CacheError)
  /-- The text of a settings file does not hold settings. -/
  | settings
  | io (error : IoError)
  | message (text : String)
  deriving DecidableEq, Repr

namespace Cause

/-- The failure that a cause amounts to, if it is one that the program knows. -/
def failure? : Cause → Option Failure
  | failure f => some f
  | parse e => some (.parse e)
  | render e => some (.render e)
  | cache e => some (.cache e)
  | settings | io _ | message _ => none

/-- The text of a cause and the texts behind it. -/
def chain : Cause → List String
  | failure f => f.message :: f.sources
  | parse e => [e.message]
  | render e => [e.message]
  | cache e => e.message :: (e.source?.map IoError.message).toList
  | settings => [Failure.malformedSettings.message]
  | io e => [e.message]
  | message text => [text]

/-- All texts on one line. -/
def chainLine (c : Cause) : String :=
  ": ".intercalate c.chain

end Cause

structure Trouble where
  cause : Cause
  /-- What was being done, the outermost first. -/
  contexts : List String
  deriving DecidableEq, Repr

namespace Trouble

def ofCause (cause : Cause) : Trouble :=
  ⟨cause, []⟩

/-- Puts a context around everything so far. -/
def within (t : Trouble) (context : String) : Trouble :=
  { t with contexts := context :: t.contexts }

/-- Contexts from the outside in, then the cause and what is behind it. -/
def chain (t : Trouble) : List String :=
  t.contexts ++ t.cause.chain

end Trouble

end GraphBlock
