import GraphBlock.Text.Blank

/-!
# Cutting a text

`pieces p` cuts a text at every character of a class and `segments` at every `---`, read from the
left without overlap.  Both give one piece more than there are cuts.
-/

namespace GraphBlock.Text

/-- Puts a character in front of the first piece. -/
def consFirst (c : Char) : List (List Char) → List (List Char)
  | [] => [[c]]
  | p :: ps => (c :: p) :: ps

/-- The pieces between the characters of the class `p`. -/
def pieces (p : Char → Bool) : List Char → List (List Char)
  | [] => [[]]
  | c :: s => if p c then [] :: pieces p s else consFirst c (pieces p s)

/-- The pieces between the separators `---`. -/
def segments : List Char → List (List Char)
  | '-' :: '-' :: '-' :: s => [] :: segments s
  | c :: s => consFirst c (segments s)
  | [] => [[]]

/-- The pieces that are not blank, trimmed. -/
def entries (p : Char → Bool) (s : List Char) : List (List Char) :=
  ((pieces p s).map trim).filter (· ≠ [])

/-- What stands before and after the first `c`. -/
def splitFirst (c : Char) : List Char → Option (List Char × List Char)
  | [] => none
  | d :: s => if d = c then some ([], s) else (splitFirst c s).map fun r => (d :: r.1, r.2)

theorem consFirst_ne_nil (c : Char) (ps : List (List Char)) : consFirst c ps ≠ [] := by
  cases ps <;> simp [consFirst]

theorem pieces_ne_nil (p : Char → Bool) : ∀ s : List Char, pieces p s ≠ []
  | [] => by simp [pieces]
  | c :: s => by
    simp only [pieces]
    split
    · simp
    · exact consFirst_ne_nil _ _

theorem segments_ne_nil (s : List Char) : segments s ≠ [] := by
  fun_cases segments s
  · simp
  · exact consFirst_ne_nil _ _
  · simp

theorem splitFirst_eq_some {c : Char} : ∀ {s a b : List Char},
    splitFirst c s = some (a, b) → s = a ++ c :: b ∧ c ∉ a
  | [], a, b, h => by simp [splitFirst] at h
  | d :: s, a, b, h => by
    simp only [splitFirst] at h
    split at h
    · simp only [Option.some.injEq, Prod.mk.injEq] at h
      obtain ⟨rfl, rfl⟩ := h
      simp [*]
    · rename_i hd
      obtain ⟨⟨a', b'⟩, hr, he⟩ := Option.map_eq_some_iff.1 h
      simp only [Prod.mk.injEq] at he
      obtain ⟨rfl, rfl⟩ := he
      have ih := splitFirst_eq_some hr
      refine ⟨by rw [ih.1]; rfl, ?_⟩
      simp only [List.mem_cons, not_or]
      exact ⟨fun e => hd e.symm, ih.2⟩

end GraphBlock.Text
