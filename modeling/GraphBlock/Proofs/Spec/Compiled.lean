import GraphBlock.Proofs.Spec.Grammar
import GraphBlock.Render.Request

/-!
# What a block compiles to

The values that some block compiles to are the sound ones (`Spec.parse_content_iff_sound`): bounds
in order, the fingerprint of the content, and in every equation texts that can stand between two
bars.  A text with a quote or a backtick anywhere in it is no block, whatever part of a block it
would be (`Spec.unquoted_of_parse`), so none of these characters reaches the renderer
(`Spec.no_quote_reaches_renderer`).
-/

namespace GraphBlock

open Text

/-- A double quote, a single quote or a backtick stands in the text. -/
def Quoted (s : List Char) : Prop :=
  '\x22' ∈ s ∨ '\x27' ∈ s ∨ '\x60' ∈ s

theorem clean_iff_not_quoted {s : List Char} : Clean s ↔ ¬ Quoted s := by
  rw [clean_iff_not_mem, Quoted, not_or, not_or]

section Content

/-- What a spec holds, as values that nothing is known of. -/
structure Content where
  equations : List Equation
  values : FieldKey → Int64
  fingerprint : String

def Spec.content (s : Spec) : Content :=
  ⟨s.equations, s.fields.get, s.fingerprint⟩

/-- The values of the six keys as a render surface. -/
def Fields.ofBounds (v : FieldKey → Int64) (hx : v .left < v .right) (hy : v .bottom < v .top) :
    Fields :=
  ⟨v .width, v .height, v .left, v .right, v .bottom, v .top, hx, hy⟩

theorem Fields.get_ofBounds {v : FieldKey → Int64} (hx : v .left < v .right)
    (hy : v .bottom < v .top) : (ofBounds v hx hy).get = v := by
  funext k
  cases k <;> rfl

/-- Bounds in order, the fingerprint of what else there is, and equations with nothing in them that
a line could not state. -/
structure Content.Sound (c : Content) : Prop where
  left_lt_right : c.values .left < c.values .right
  bottom_lt_top : c.values .bottom < c.values .top
  fingerprint : c.fingerprint
    = fingerprintOf c.equations (.ofBounds c.values left_lt_right bottom_lt_top)
  expression : ∀ e ∈ c.equations, Phrase e.expression.toList ∧ ¬ Quoted e.expression.toList
  fragment : ∀ e ∈ c.equations, ∀ f ∈ e.restrictions, Phrase f.toList ∧ ¬ Quoted f.toList
    ∧ Modifier.classify f = .restriction f
  hex : ∀ e ∈ c.equations, ∀ t, e.color = some (.hex t) →
    ∃ s, t.toList = '#' :: s ∧ s ≠ [] ∧ ∀ c ∈ s, c.isAlphanum = true

theorem Content.sound_iff {c : Content} : c.Sound
    ↔ ∃ s : Spec, s.content = c ∧ ∀ e ∈ s.equations, e.Admissible := by
  constructor
  · intro h
    refine ⟨⟨c.equations, _, c.fingerprint, h.fingerprint⟩, ?_, fun e he => ?_⟩
    · rw [Spec.content, Fields.get_ofBounds]
    · refine ⟨(h.expression e he).1, fun f hf => ?_, fun t ht => isHex_iff.2 (h.hex e he t ht)⟩
      obtain ⟨hp, -, hc⟩ := h.fragment e he f hf
      exact ⟨hp, hc⟩
  · rintro ⟨s, rfl, h⟩
    have hunquoted : ∀ {t : List Char}, Phrase t → Phrase t ∧ ¬ Quoted t :=
      fun hp => ⟨hp, clean_iff_not_quoted.1 hp.clean⟩
    refine ⟨s.fields.left_lt_right, s.fields.bottom_lt_top, s.fingerprint_eq,
      fun e he => hunquoted (h e he).expression, fun e he f hf => ?_,
      fun e he t ht => isHex_iff.1 ((h e he).hex t ht)⟩
    obtain ⟨hp, hc⟩ := (h e he).fragment f hf
    exact ⟨hp, (hunquoted hp).2, hc⟩

/-- What blocks compile to is exactly what is sound. -/
theorem Spec.parse_content_iff_sound (c : Content) :
    (∃ source s, Spec.parse source = .ok s ∧ s.content = c) ↔ c.Sound := by
  rw [Content.sound_iff]
  constructor
  · rintro ⟨source, s, hs, hc⟩
    exact ⟨s, hc, admissible_of_mem_equations hs⟩
  · rintro ⟨s, hc, hs⟩
    exact ⟨s.toSource, s, parse_toSource_of_admissible hs, hc⟩

end Content

section Quotes

theorem clean_of_trim {s : List Char} (h : Clean (trim s)) : Clean s := by
  intro c hc hb
  rcases blank_or_mem_trim hc with hw | ht
  · exact absurd hw (by simp [isBlank_of_banned c hb])
  · exact h c ht hb

theorem clean_of_code {s : List Char}
    (h : ∀ c ∈ s, 40 ≤ c.toNat ∧ c.toNat ≤ 90 ∨ 97 ≤ c.toNat) : Clean s := by
  intro c hc hb
  have hcode := h c hc
  simp only [bannedCharacters, List.mem_cons, List.not_mem_nil, or_false] at hb
  rcases hb with rfl | rfl | rfl <;> exact absurd hcode (by decide)

theorem Numeral.clean {s : List Char} {i : Int} (h : Numeral s i) : Clean s :=
  clean_of_code fun c hc => by
    have := h.code c hc
    omega

theorem Clean.append {a b : List Char} (ha : Clean a) (hb : Clean b) : Clean (a ++ b) :=
  fun c hc => (List.mem_append.1 hc).elim (ha c) (hb c)

/-- A key and a numeral leave no room for a quote. -/
theorem clean_of_gives {entry : List Char} {given : FieldKey × Int} :
    Gives entry given → Clean entry
  | ⟨before, after, he, hk, hn⟩ => by
    have hbefore : Clean (trim before) := clean_of_code fun c hc =>
      .inr ((name_spec given.1).2.2 c (hk ▸ hc)).1
    have hequals : Clean ['='] := clean_of_code (List.all_iff_forall_prop.1 (by decide))
    rw [he]
    exact (clean_of_trim hbefore).append (hequals.append (clean_of_trim hn.clean))

theorem WellSet.clean {settings : List Char} : WellSet settings → Clean settings
  | ⟨_, hg, _⟩ => clean_of_entries (List.all_iff_forall_prop.1 (by decide)) fun _ hq =>
    let ⟨_, _, h⟩ := exists_of_forall₂_mem hg hq
    clean_of_gives h

theorem Layout.clean {source settings body : List Char} (h : Layout source settings body)
    (hs : Clean settings) (hb : Clean body) : Clean source := by
  rcases h with - | -
  · exact hb
  · exact (hs.append (clean_of_code (List.all_iff_forall_prop.1 (by decide)))).append hb

namespace Spec

variable {source : String} {s : Spec}

theorem unquoted_of_parse (h : Spec.parse source = .ok s) : ¬ Quoted source.toList := by
  obtain ⟨body, hb, hs⟩ := parse_eq_ok_iff.1 h
  have hbody : Clean body :=
    clean_of_entries (List.all_iff_forall_prop.1 (by decide)) fun line hl =>
      clean_iff_not_mem.2 (parseBody_isOk_iff_equationLines.1 ⟨_, hb⟩ line hl).clean
  rw [← clean_iff_not_quoted]
  rcases hs with ⟨hs, -⟩ | ⟨settings, hs, hf⟩
  · exact (segments_eq_iff_layout.1 (.inl ⟨hs, rfl⟩)).clean (by simp [Clean]) hbody
  · exact (segments_eq_iff_layout.1 (.inr hs)).clean
      (parseFields_isOk_iff_wellSet.1 ⟨_, hf⟩).clean hbody

end Spec

namespace Equation

variable {e : Equation}

theorem clean_restriction (h : e.Admissible) : Clean (e.restriction.getD "").toList := by
  have hbraces : Clean "\x7b".toList ∧ Clean "\x7d".toList :=
    ⟨clean_of_code (List.all_iff_forall_prop.1 (by decide)),
      clean_of_code (List.all_iff_forall_prop.1 (by decide))⟩
  unfold restriction
  split
  · simp [Clean]
  · rw [Option.getD_some, String.toList_join]
    intro c hc
    obtain ⟨t, ht, hct⟩ := List.mem_flatMap.1 hc
    obtain ⟨f, hf, rfl⟩ := List.mem_map.1 ht
    rw [braced, String.toList_append, String.toList_append] at hct
    exact ((hbraces.1.append (h.fragment f hf).phrase.clean).append hbraces.2) c hct

/-- What the renderer is told about an admissible equation holds no quote. -/
theorem clean_command (h : e.Admissible) : Clean e.command.latex.toList
    ∧ ∀ color, e.command.color = some color → Clean color.toList := by
  refine ⟨?_, fun color hc => ?_⟩
  · rw [command, String.toList_append]
    exact h.expression.clean.append (clean_restriction h)
  · obtain ⟨c, hec, rfl⟩ := Option.map_eq_some_iff.1 hc
    rcases c with c | t
    · exact (phrase_of_isHex (by cases c <;> decide)).clean
    · exact (phrase_of_isHex (h.hex t hec)).clean

end Equation

namespace Spec

/-- A text with a quote or a backtick does not compile, and no command of a spec that compiles has
one in its text or its color. -/
theorem no_quote_reaches_renderer :
    (∀ source : String, Quoted source.toList → ∃ error, Spec.parse source = .error error)
      ∧ ∀ source s, Spec.parse source = .ok s → ∀ command ∈ s.request.commands,
        ¬ Quoted command.latex.toList
          ∧ ∀ color, command.color = some color → ¬ Quoted color.toList := by
  refine ⟨fun source hq => ?_, fun source s hs command hc => ?_⟩
  · rcases h : Spec.parse source with error | s
    · exact ⟨error, rfl⟩
    · exact absurd hq (unquoted_of_parse h)
  · obtain ⟨e, he, rfl⟩ := List.mem_map.1 hc
    obtain ⟨hlatex, hcolor⟩ := Equation.clean_command (admissible_of_mem_equations hs e he)
    exact ⟨clean_iff_not_quoted.1 hlatex, fun color h => clean_iff_not_quoted.1 (hcolor color h)⟩

/-- A quote between the settings and a hex color behind an expression. -/
theorem no_quote_reaches_renderer_both :
    (∃ error, Spec.parse "width=1;\x27;---y=x" = .error error)
      ∧ ∃ s, Spec.parse "y=x|#Ff0|x>0" = .ok s
        ∧ s.request.commands = [⟨"y=x\x7bx>0\x7d", some "#Ff0", none, none⟩]
        ∧ ∀ command ∈ s.request.commands, ¬ Quoted command.latex.toList
          ∧ ∀ color, command.color = some color → ¬ Quoted color.toList :=
  ⟨no_quote_reaches_renderer.1 _ (.inr (.inl (by decide))),
    _, rfl, rfl, no_quote_reaches_renderer.2 "y=x|#Ff0|x>0" _ rfl⟩

end Spec

end Quotes

end GraphBlock
