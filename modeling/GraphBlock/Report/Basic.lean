import GraphBlock.Report.Failure

/-!
# Reports

What a user is shown: a failure with, where there is one, a way out and some detail.  A failure
that the program knows is advised on by its kind, whatever contexts stand around it; anything else
is shown with its whole chain.
-/

namespace GraphBlock

structure Report where
  failure : Failure
  suggestion : Option String
  details : Option String
  deriving DecidableEq, Repr

namespace ParseError

def fieldNames : String :=
  ", ".intercalate (FieldKey.all.map FieldKey.name)

/-- How to mend a block. -/
def suggestion : ParseError → String
  | tooManySegments .. => "Use a single '---' line between the settings block and the equations"
  | missingFieldValue .. =>
    "Write settings as key=value pairs separated by ';' or new lines, e.g. width=600; height=400"
  | invalidFieldType key _ => "Use a whole number for '" ++ key ++ "', e.g. " ++ key ++ "=10"
  | unrecognizedField .. => "Recognized fields are: " ++ fieldNames
  | bannedCharacter .. =>
    "Remove quotes (\" and ') and backticks from expressions and restrictions"
  | duplicateStyle .. | duplicateColor .. => "Keep at most one style and one color per equation"
  | invalidBoundary lowerKey _ upperKey _ =>
    "Make '" ++ lowerKey.name ++ "' smaller than '" ++ upperKey.name ++ "'"
  | emptyExpression .. => "Start each equation line with an expression before any '|' modifiers"

/-- The rule that a block breaks. -/
def rule : ParseError → String
  | tooManySegments .. =>
    "A graph is either equation lines only, or settings, '---', then equation lines"
  | missingFieldValue .. => "Every settings entry needs a key, an '=' and a value"
  | invalidFieldType .. => "All settings fields are integers"
  | unrecognizedField .. => "Field names are case-sensitive"
  | bannedCharacter .. => "These characters cannot be passed safely to the renderer"
  | duplicateStyle .. | duplicateColor .. =>
    "Styles are solid, dashed, dotted, point, open and cross; colors are red, blue, green, "
      ++ "purple, orange, black or a #hex value"
  | invalidBoundary .. => "The viewport needs left < right and bottom < top"
  | emptyExpression .. => "Modifiers apply to the expression that precedes them"

end ParseError

namespace Report

def ofFailure (f : Failure) : Report :=
  match f with
  | .parse e => ⟨f, some e.suggestion, some (e.kind ++ ": " ++ e.rule)⟩
  | .render (.renderFailed ..) =>
    ⟨f, some "Check the equations for expressions the renderer cannot plot",
      some "The message above is reported by the renderer verbatim"⟩
  | .render (.rendererUnavailable ..) =>
    ⟨f, some "Make sure the rendering surface is loaded and reachable", none⟩
  | .cache (.directoryMissing ..) =>
    ⟨f, some "Create the cache directory or change cache.directory in your config",
      some "plotmark never creates the cache directory itself"⟩
  | .inputUnreadable _ reason =>
    ⟨f, some "Pass the path to a graph file, or '-' to read from stdin", some reason⟩
  | .cache _ | .configuration _ | .malformedSettings | .other _ => ⟨f, none, none⟩

/-- A line for each text, numbered from `n`. -/
def numbered (n : Nat) : List String → String
  | [] => ""
  | t :: ts =>
    "\n  " ++ String.ofList (Text.Decimal.ofNat n) ++ ": " ++ t ++ numbered (n + 1) ts

/-- The first text, and the others numbered below it. -/
def withCauses : List String → String
  | [] => ""
  | [t] => t
  | t :: ts => t ++ "\n\nCaused by:" ++ numbered 1 ts

/-- What can be done about a failed access to a file. -/
def ioSuggestion : IoErrorKind → Option String
  | .notFound => some "Check that the file or directory exists and the path is correct"
  | .permissionDenied =>
    some "Check the file permissions or run from a directory you can write to"
  | .other => none

def ofTrouble (t : Trouble) : Report :=
  match t.cause.failure? with
  | some f => ofFailure f
  | none =>
    match t.cause with
    | .settings =>
      ⟨.malformedSettings,
        some ("Check the TOML syntax of your plotmark config. "
          ++ "Valid cache locations are \"memory\" and \"filesystem\""),
        some "Run 'plotmark config show' to see the effective configuration"⟩
    | .io e => ⟨.other (withCauses t.chain), ioSuggestion e.kind, none⟩
    | _ => ⟨.other (withCauses t.chain), none, none⟩

def withSuggestion (r : Report) (s : String) : Report :=
  { r with suggestion := some s }

def withDetails (r : Report) (s : String) : Report :=
  { r with details := some s }

/-- The report as plain text. -/
def text (r : Report) : String :=
  r.failure.message ++ (r.details.elim "" ("\nDetails: " ++ ·))
    ++ r.suggestion.elim "" ("\nSuggestion: " ++ ·)

end Report

end GraphBlock
