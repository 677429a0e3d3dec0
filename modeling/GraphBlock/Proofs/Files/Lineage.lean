import GraphBlock.Proofs.Files.Components
import Mathlib.Logic.Relation

/-!
# Ancestors of a path

An ancestor of a path is got by taking parents (`Path.IsAncestor`).  The lineage of the parent is
that of the path without its first (`Path.lineage_of_parent?`), so what follows the first are
ancestors (`Path.isAncestor_of_mem_tail`).
-/

namespace GraphBlock

namespace Path

variable {p q a : Path}

/-- Parents lead from the path to its ancestor. -/
def IsAncestor (a p : Path) : Prop :=
  Relation.TransGen (fun p q => p.parent? = some q) p a

theorem beginnings_of_kept {absolute : Bool} {n : List Char} {before : List (List Char)}
    (h : kept absolute (n :: before) = n :: kept absolute before) :
    beginnings absolute (n :: before)
      = (n :: before).reverse :: beginnings absolute before := by
  rw [kept] at h
  split_ifs at h with hn
  · exact absurd h.symm (List.cons_ne_self _ _)
  · rw [beginnings, if_neg hn]

theorem lineage_of_parent? (h : p.parent? = some q) : q.lineage = p.lineage.tail := by
  rcases beginnings_cases p.isAbsolute p.row with ⟨-, hnil⟩ | ⟨n, before, hs, -, -, hb⟩
  · rw [parent?, lineage_eq, hnil] at h
    cases h
  · rcases beginnings_cases p.isAbsolute before with ⟨-, hnil⟩ | ⟨m, before', hs', -, hk, hb'⟩
    · rw [parent?, lineage_eq, hb, hnil] at h
      rw [lineage_eq p, hb, hnil]
      cases hp : p.isAbsolute <;> rw [hp] at h <;> cases h <;> rfl
    · obtain ⟨habs, hrow⟩ := row_of_suffix (List.cons_ne_nil m before')
        (hs'.trans ((List.suffix_cons n before).trans hs))
      rw [parent?, lineage_eq, hb, hb'] at h
      obtain rfl := Option.some.inj h
      rw [lineage_eq p, hb, hb', lineage_eq, habs, hrow, beginnings_of_kept hk]
      rfl

theorem isAncestor_of_mem_tail : ∀ {l : List Path} {p : Path}, p.lineage = l → a ∈ l.tail →
    a.IsAncestor p
  | [], _, _, ha => by cases ha
  | [_], _, _, ha => by cases ha
  | _ :: q :: rest, p, hl, ha => by
    have hq : p.parent? = some q := by rw [parent?, hl]
    have hrest : q.lineage = q :: rest := by rw [lineage_of_parent? hq, hl, List.tail_cons]
    rcases List.mem_cons.1 ha with rfl | ha
    · exact .single hq
    · exact .head hq (isAncestor_of_mem_tail hrest ha)

end Path

end GraphBlock
