import GraphBlock.Spec.Encoding

/-!
# Specs

A compiled graph block.  The fingerprint is computed once, when the spec is made, and the type
says that it is the fingerprint of the content; two specs of equal content are equal.  `toSource`
writes a spec back as a block that states every setting.
-/

namespace GraphBlock

structure Spec where
  equations : List Equation
  fields : Fields
  fingerprint : String
  fingerprint_eq : fingerprint = fingerprintOf equations fields
  deriving DecidableEq, Repr

namespace Spec

def ofContent (equations : List Equation) (fields : Fields) : Spec :=
  ⟨equations, fields, fingerprintOf equations fields, rfl⟩

theorem ext_content {s t : Spec} (he : s.equations = t.equations) (hf : s.fields = t.fields) :
    s = t := by
  obtain ⟨e, f, p, hp⟩ := s
  obtain ⟨e', f', p', hp'⟩ := t
  simp only at he hf
  subst he hf hp hp'
  rfl

@[simp] theorem ofContent_content (s : Spec) : ofContent s.equations s.fields = s :=
  ext_content rfl rfl

/-- What separates the settings from the equations. -/
def separator : String :=
  "---"

def settingsLine (f : Fields) : String :=
  "; ".intercalate (FieldKey.all.map fun k => k.name ++ "=" ++ ParseError.number (f.get k))

/-- All settings on one line, the separator, and a line for each equation. -/
def toSource (s : Spec) : String :=
  settingsLine s.fields ++ "\n" ++ separator ++ "\n"
    ++ String.join (s.equations.map fun e => e.line ++ "\n")

end Spec

end GraphBlock
