import GraphBlock.Proofs.Spec.Grammar
import GraphBlock.Render.Request

/-!
# One body under another

The lines of two bodies, one under the other, are compiled one after the other
(`parseBody_append`).  So a block of both bodies compiles if the blocks of each of them do, under
the same settings, and then it is these two put together; and if it does not compile, the body
above is blamed first (`Spec.Joins`).
-/

namespace GraphBlock

open Text

/-- Two bodies, one under the other, are read from above, and a fault above hides those below. -/
theorem parseBody_append (a b : List Char) : parseBody (a ++ '\n' :: b)
    = (parseBody a).bind fun es => (parseBody b).map fun fs => es ++ fs := by
  have hcut := entries_append_cons (p := (· == '\n')) (c := '\n') rfl a b
  rw [parseBody, parseBody, parseBody, hcut, List.mapM_append]
  rcases (entries (· == '\n') a).mapM Equation.parse with d | es
  · rfl
  · rcases (entries (· == '\n') b).mapM Equation.parse with d | fs <;> rfl

namespace Spec

/-- What the whole of a block compiles to is what its two parts compile to, put together, or the
first error of these. -/
structure Joins (whole above below : Except ParseError Spec) : Prop where
  ok_iff : (∃ s, whole = .ok s) ↔ (∃ s, above = .ok s) ∧ ∃ s, below = .ok s
  content : ∀ {s t u}, whole = .ok s → above = .ok t → below = .ok u →
    s.fields = t.fields ∧ s.fields = u.fields ∧ s.equations = t.equations ++ u.equations
  commands : ∀ {s t u}, whole = .ok s → above = .ok t → below = .ok u →
    s.request.commands = t.request.commands ++ u.request.commands
  error_iff : ∀ d, whole = .error d ↔ above = .error d ∨ (∃ s, above = .ok s) ∧ below = .error d

theorem joins_of_error_above (d : ParseError) (below : Except ParseError Spec) :
    Joins (.error d) (.error d) below := by
  refine ⟨?_, ?_, ?_, fun d' => ?_⟩ <;> simp

theorem joins_of_error_below (d : ParseError) (t : Spec) : Joins (.error d) (.ok t) (.error d) := by
  refine ⟨?_, ?_, ?_, fun d' => ?_⟩ <;> simp

theorem joins_ofContent (es fs : List Equation) (f : Fields) :
    Joins (.ok (ofContent (es ++ fs) f)) (.ok (ofContent es f)) (.ok (ofContent fs f)) := by
  refine ⟨by simp, ?_, ?_, by simp⟩
  · rintro s t u ⟨rfl⟩ ⟨rfl⟩ ⟨rfl⟩
    exact ⟨rfl, rfl, rfl⟩
  · rintro s t u ⟨rfl⟩ ⟨rfl⟩ ⟨rfl⟩
    exact List.map_append

theorem joins_of_layout {whole above below : String} {settings a b : List Char}
    (hwhole : Layout whole.toList settings (a ++ '\n' :: b))
    (habove : Layout above.toList settings a) (hbelow : Layout below.toList settings b) :
    Joins (parse whole) (parse above) (parse below) := by
  rw [parse_of_layout hwhole, parse_of_layout habove, parse_of_layout hbelow, parseBody_append]
  rcases parseFields settings with d | f
  · exact joins_of_error_above d _
  · rcases parseBody a with d | es
    · exact joins_of_error_above d _
    · rcases parseBody b with d | fs
      · exact joins_of_error_below d _
      · exact joins_ofContent es fs f

theorem layout_separator {settings body : List Char} (hs : ¬ dashes <:+: settings)
    (hl : settings.getLast? ≠ some '-') (hb : ¬ dashes <:+: body) :
    Layout (settings ++ dashes ++ body) settings body :=
  segments_eq_iff_layout.1
    (.inr (by rw [segments_append body hs hl, segments_of_not_infix hb]))

/-- Two bodies may be written one under the other, under the same settings or none: the block
compiles if and only if both blocks with one body do, it has their equations in order and their
settings, and its error is the first one of theirs. -/
theorem bodies_compose (a b : String) (ha : ¬ dashes <:+: a.toList) (hb : ¬ dashes <:+: b.toList) :
    Joins (parse (a ++ "\n" ++ b)) (parse a) (parse b)
      ∧ ∀ s : String, ¬ dashes <:+: s.toList → s.toList.getLast? ≠ some '-' →
        Joins (parse (s ++ separator ++ a ++ "\n" ++ b)) (parse (s ++ separator ++ a))
          (parse (s ++ separator ++ b)) := by
  have hab : ¬ dashes <:+: a.toList ++ '\n' :: b.toList := not_infix_append_cons (by decide) hb ha
  constructor
  · have hwhole : Layout (a ++ "\n" ++ b).toList [] (a.toList ++ '\n' :: b.toList) := by
      simpa using Layout.body hab
    exact joins_of_layout hwhole (.body ha) (.body hb)
  · intro s hs hl
    have hwhole : Layout (s ++ separator ++ a ++ "\n" ++ b).toList s.toList
        (a.toList ++ '\n' :: b.toList) := by
      simpa [separator, dashes] using layout_separator hs hl hab
    have habove : Layout (s ++ separator ++ a).toList s.toList a.toList := by
      simpa [separator, dashes] using layout_separator hs hl ha
    have hbelow : Layout (s ++ separator ++ b).toList s.toList b.toList := by
      simpa [separator, dashes] using layout_separator hs hl hb
    exact joins_of_layout hwhole habove hbelow

/-- Two bodies that compile, under settings, and two of which the one below does not. -/
theorem bodies_compose_two :
    (∃ s, parse ("left=1\n" ++ separator ++ "y=x|red\r\n" ++ "\n" ++ "x=2") = .ok s
        ∧ s.equations = [⟨"y=x", none, some (.named .red), []⟩, .ofExpression "x=2"]
        ∧ s.fields = ⟨600, 400, 1, 10, -7, 7, by decide, by decide⟩
        ∧ s.request.commands = [⟨"y=x", some "#c74440", none, none⟩, ⟨"x=2", none, none, none⟩])
      ∧ parse ("y=x" ++ "\n" ++ "|-") = .error (.emptyExpression "|-") := by
  have hnone : ∀ s : String, '-' ∉ s.toList → ¬ dashes <:+: s.toList := fun _ =>
    noDashes_of_not_mem
  obtain ⟨-, hjoins⟩ := bodies_compose "y=x|red\r\n" "x=2" (hnone _ (by decide))
    (hnone _ (by decide))
  have h := hjoins "left=1\n" (hnone _ (by decide)) (by decide)
  have habove : parse ("left=1\n" ++ separator ++ "y=x|red\r\n")
      = .ok (ofContent [⟨"y=x", none, some (.named .red), []⟩]
        ⟨600, 400, 1, 10, -7, 7, by decide, by decide⟩) := rfl
  have hbelow : parse ("left=1\n" ++ separator ++ "x=2")
      = .ok (ofContent [.ofExpression "x=2"] ⟨600, 400, 1, 10, -7, 7, by decide, by decide⟩) := rfl
  obtain ⟨s, hs⟩ := h.ok_iff.2 ⟨⟨_, habove⟩, ⟨_, hbelow⟩⟩
  obtain ⟨hf, -, he⟩ := h.content hs habove hbelow
  refine ⟨⟨s, hs, he, hf, h.commands hs habove hbelow⟩, ?_⟩
  obtain ⟨h, -⟩ := bodies_compose "y=x" "|-" (hnone _ (by decide))
    (noDashes_of_length_lt (by decide))
  have habove : parse "y=x" = .ok (ofContent [.ofExpression "y=x"] .default) := rfl
  exact (h.error_iff _).2 (.inr ⟨⟨_, habove⟩, rfl⟩)

end Spec

end GraphBlock
