import GraphBlock.Toml.Quoted
import Mathlib.Data.List.Basic

/-!
# A string that is written is read back

What `write` makes of a text is read as this text, with what follows it left over
(`read?_write`), as long as no quote follows.  Each form has a lemma of its own: one line without
escapes (`literal_append`) and with them (`basic_escaped`), several lines without
(`literalLines_append`) and with (`basicLines_escaped`).  An escape is a letter or four digits
(`Escape`), whichever reader meets it.
-/

namespace GraphBlock.Toml.Quoted

variable {c : Char} {s e rest : List Char}

section Escapes

/-- What stands for a character: a backslash and a letter, or one with the digits of the code. -/
inductive Escape : Char → List Char → Prop
  | letter {c : Char} (l : Char) (h : escape? l = some c) (hx : l ≠ 'x') (hu : l ≠ 'u')
    (hU : l ≠ 'U') : Escape c ['\\', l]
  | code {c : Char} (a b : Char) (h : unicode? ['0', '0', a, b] = some c) :
    Escape c ['\\', 'u', '0', '0', a, b]

theorem unicode?_hexDigit : ∀ n < 128,
    unicode? ['0', '0', hexDigit (n / 16), hexDigit (n % 16)] = some (Char.ofNat n) := by
  decide

theorem escape_quote : Escape '\x22' ['\\', '\x22'] :=
  .letter '\x22' rfl (by decide) (by decide) (by decide)

theorem escape_of_escapeOf? {lines : Bool} (h : escapeOf? lines c = some e) : Escape c e := by
  simp only [escapeOf?] at h
  split_ifs at h with hb ht hn _ hf hr hs hplain
  all_goals cases h
  · exact hb ▸ .letter 'b' rfl (by decide) (by decide) (by decide)
  · exact ht ▸ .letter 't' rfl (by decide) (by decide) (by decide)
  · exact hn ▸ .letter 'n' rfl (by decide) (by decide) (by decide)
  · exact hf ▸ .letter 'f' rfl (by decide) (by decide) (by decide)
  · exact hr ▸ .letter 'r' rfl (by decide) (by decide) (by decide)
  · exact hs ▸ .letter '\\' rfl (by decide) (by decide) (by decide)
  · refine .code _ _ ?_
    simp only [isPlain, Bool.or_eq_true, Bool.and_eq_true, decide_eq_true_eq, not_or, not_and,
      not_not] at hplain
    rw [unicode?_hexDigit _ (by omega), Char.ofNat_toNat]

theorem plain_of_escapeOf? {lines : Bool} (h : escapeOf? lines c = none) :
    (isPlain c = true ∨ lines = true ∧ c = '\n') ∧ c ≠ '\\' := by
  simp only [escapeOf?] at h
  split_ifs at h with hb ht hn hl hf hr hs hplain
  · exact ⟨.inr ⟨hl, hn⟩, by simp [hn]⟩
  · exact ⟨.inl hplain, hs⟩

/-- A character is escaped, stands for itself, or is one of two quotes on several lines. -/
theorem escaped_cons (lines : Bool) (run : Nat) (c : Char) (s : List Char) :
    (∃ e, Escape c e ∧ escaped lines run (c :: s) = e ++ escaped lines 0 s)
    ∨ ((isPlain c = true ∨ lines = true ∧ c = '\n') ∧ c ≠ '\\' ∧ c ≠ '\x22'
      ∧ escaped lines run (c :: s) = c :: escaped lines 0 s)
    ∨ (lines = true ∧ run < 2 ∧ c = '\x22'
      ∧ escaped lines run (c :: s) = c :: escaped lines (run + 1) s) := by
  rw [escaped]
  split
  · rename_i hq
    by_cases hrun : run < if lines then 2 else 0
    · rw [if_pos hrun]
      cases lines with
      | false => cases hrun
      | true => exact .inr (.inr ⟨rfl, hrun, hq, rfl⟩)
    · rw [if_neg hrun]
      exact .inl ⟨['\\', '\x22'], hq ▸ escape_quote, rfl⟩
  · rename_i hq
    cases he : escapeOf? lines c with
    | some e => exact .inl ⟨e, escape_of_escapeOf? he, rfl⟩
    | none =>
      obtain ⟨hplain, hb⟩ := plain_of_escapeOf? he
      exact .inr (.inl ⟨hplain, hb, hq, rfl⟩)

end Escapes

section OneLine

theorem literal_cons (h : isPlain c = true) (hq : c ≠ '\x27') :
    literal (c :: s) = push c (literal s) := by
  rw [literal, if_pos h]
  exact hq

theorem literal_append (h : ∀ c ∈ s, isPlain c = true ∧ c ≠ '\x27') :
    literal (s ++ '\x27' :: rest) = some (s, rest) := by
  induction s with
  | nil => rfl
  | cons c s ih =>
    obtain ⟨hplain, hq⟩ := h c List.mem_cons_self
    rw [List.cons_append, literal_cons hplain hq, ih fun d hd => h d (List.mem_cons_of_mem c hd)]
    rfl

theorem basic_cons (h : isPlain c = true) (hq : c ≠ '\x22') (hb : c ≠ '\\') :
    basic (c :: s) = push c (basic s) := by
  rw [basic]
  · simp [h, hb]
  all_goals simp [hq, hb]

theorem basic_letter {l : Char} (hx : l ≠ 'x') (hu : l ≠ 'u') (hU : l ≠ 'U') :
    basic ('\\' :: l :: s) = push? (escape? l) (basic s) := by
  rw [basic]
  all_goals simp [hx, hu, hU]

theorem basic_escape (h : Escape c e) (s : List Char) : basic (e ++ s) = push c (basic s) := by
  cases h with
  | letter l h hx hu hU =>
    change basic ('\\' :: l :: s) = _
    rw [basic_letter hx hu hU, h, push?]
  | code a b h =>
    change push? (unicode? ['0', '0', a, b]) (basic s) = _
    rw [h, push?]

theorem basic_escaped (rest : List Char) : ∀ (s : List Char) (run : Nat),
    basic (escaped false run s ++ '\x22' :: rest) = some (s, rest)
  | [], _ => rfl
  | c :: s, run => by
    have ih := basic_escaped rest s 0
    rcases escaped_cons false run c s with ⟨e, he, heq⟩ | ⟨hplain, hb, hq, heq⟩ | ⟨hl, -⟩
    · rw [heq, List.append_assoc, basic_escape he, ih]
      rfl
    · rw [heq, List.cons_append, basic_cons (hplain.resolve_right (by simp)) hq hb, ih]
      rfl
    · cases hl

end OneLine

section Lines

/-- Two quotes stand in front. -/
def Doubled (q : Char) (s : List Char) : Prop :=
  ∃ r, s = q :: q :: r

theorem ne_return (h : isPlain c = true ∨ c = '\n') : c ≠ '\r' := by
  rintro rfl
  revert h
  decide

theorem literalLines_cons (h : isPlain c = true ∨ c = '\n')
    (hq : c = '\x27' → ¬ Doubled '\x27' s) :
    literalLines (c :: s) = push c (literalLines s) := by
  rw [literalLines]
  · simp [h]
  · rintro r hc rfl
    exact hq hc ⟨_, rfl⟩
  · rintro r hc rfl
    exact hq hc ⟨_, rfl⟩
  · rintro r hc rfl
    exact hq hc ⟨_, rfl⟩
  · exact fun _ hc => absurd hc (ne_return h)

/-- One quote in front of three belongs to the text. -/
theorem literalLines_close (h : rest.head? ≠ some '\x27') :
    literalLines ('\x27' :: '\x27' :: '\x27' :: rest) = some ([], rest)
      ∧ literalLines ('\x27' :: '\x27' :: '\x27' :: '\x27' :: rest) = some (['\x27'], rest) := by
  have hrest : ∀ r, rest ≠ '\x27' :: r := by
    rintro r rfl
    exact h rfl
  constructor
  · rw [literalLines]
    · exact fun r => hrest _
    · exact hrest
  · rw [literalLines]
    exact hrest

theorem literalLines_append (hrest : rest.head? ≠ some '\x27') : ∀ {s : List Char},
    (∀ c ∈ s, isPlain c = true ∨ c = '\n') → ¬ ['\x27', '\x27', '\x27'] <:+: s →
      literalLines (s ++ '\x27' :: '\x27' :: '\x27' :: rest) = some (s, rest)
  | [], _, _ => (literalLines_close hrest).1
  | c :: s, hs, hrun => by
    have ih := literalLines_append hrest (fun d hd => hs d (List.mem_cons_of_mem c hd))
      fun h => hrun (h.trans (List.suffix_cons c s).isInfix)
    by_cases hq : c = '\x27' ∧ Doubled '\x27' (s ++ '\x27' :: '\x27' :: '\x27' :: rest)
    · obtain ⟨rfl, r, hr⟩ := hq
      -- the text ends here, or it has three quotes in a row
      rcases s with _ | ⟨d, _ | ⟨d', s⟩⟩
      · exact (literalLines_close hrest).2
      · obtain rfl : d = '\x27' := (List.cons.inj hr).1
        rfl
      · obtain ⟨rfl, hr'⟩ := List.cons.inj hr
        obtain ⟨rfl, -⟩ := List.cons.inj hr'
        exact absurd ⟨[], s, rfl⟩ hrun
    · rw [List.cons_append, literalLines_cons (hs c List.mem_cons_self) (not_and.1 hq), ih]
      rfl

theorem basicLines_cons (h : isPlain c = true ∨ c = '\n') (hb : c ≠ '\\')
    (hq : c = '\x22' → ¬ Doubled '\x22' s) :
    basicLines false (c :: s) = push c (basicLines false s) := by
  rw [basicLines]
  · simp [h, hb]
  iterate 3
    rintro r hc rfl
    exact hq hc ⟨_, rfl⟩
  iterate 4 simp [hb]
  exact fun _ hc => absurd hc (ne_return h)

theorem lineEnds_letter {l : Char} (h : escape? l = some c) (s : List Char) :
    lineEnds (l :: s) = false := by
  unfold escape? at h
  split at h <;> first | rfl | cases h

theorem basicLines_letter {l : Char} (h : escape? l = some c) (hx : l ≠ 'x') (hu : l ≠ 'u')
    (hU : l ≠ 'U') : basicLines false ('\\' :: l :: s) = push c (basicLines false s) := by
  rw [basicLines, lineEnds_letter h, h]
  · rfl
  all_goals simp [hx, hu, hU]

theorem basicLines_escape (h : Escape c e) (s : List Char) :
    basicLines false (e ++ s) = push c (basicLines false s) := by
  cases h with
  | letter l h hx hu hU => exact basicLines_letter h hx hu hU
  | code a b h =>
    change push? (unicode? ['0', '0', a, b]) (basicLines false s) = _
    rw [h, push?]

theorem basicLines_close (h : rest.head? ≠ some '\x22') :
    basicLines false ('\x22' :: '\x22' :: '\x22' :: rest) = some ([], rest)
      ∧ basicLines false ('\x22' :: '\x22' :: '\x22' :: '\x22' :: rest)
        = some (['\x22'], rest) := by
  have hrest : ∀ r, rest ≠ '\x22' :: r := by
    rintro r rfl
    exact h rfl
  constructor
  · rw [basicLines]
    · exact fun r => hrest _
    · exact hrest
  · rw [basicLines]
    exact hrest

/-- A quote in front of a text that is escaped is a quote of the text that was not escaped. -/
theorem escaped_of_quote {lines : Bool} {run : Nat} {r : List Char}
    (h : escaped lines run (c :: s) ++ rest = '\x22' :: r) :
    lines = true ∧ c = '\x22' ∧ run < 2 ∧ r = escaped lines (run + 1) s ++ rest := by
  rcases escaped_cons lines run c s with ⟨e, he, heq⟩ | ⟨-, -, hq, heq⟩ | ⟨hl, hrun, hq, heq⟩
  · rw [heq] at h
    rcases he with _ | _ <;> cases h
  · rw [heq] at h
    exact absurd (List.cons.inj h).1 hq
  · rw [heq] at h
    exact ⟨hl, hq, hrun, (List.cons.inj h).2.symm⟩

theorem basicLines_escaped (hrest : rest.head? ≠ some '\x22') : ∀ (s : List Char) (run : Nat),
    basicLines false (escaped true run s ++ '\x22' :: '\x22' :: '\x22' :: rest) = some (s, rest)
  | [], _ => (basicLines_close hrest).1
  | c :: s, run => by
    rcases escaped_cons true run c s with ⟨e, he, heq⟩ | ⟨hplain, hb, hq, heq⟩ | ⟨-, -, rfl, heq⟩
    · rw [heq, List.append_assoc, basicLines_escape he, basicLines_escaped hrest s 0]
      rfl
    · rw [heq, List.cons_append, basicLines_cons (hplain.imp id And.right) hb
        (fun h => absurd h hq), basicLines_escaped hrest s 0]
      rfl
    · have ih := basicLines_escaped hrest s (run + 1)
      rw [heq, List.cons_append]
      by_cases hq : Doubled '\x22' (escaped true (run + 1) s
          ++ '\x22' :: '\x22' :: '\x22' :: rest)
      · obtain ⟨r, hr⟩ := hq
        -- the text ends here, because a third quote would be escaped
        rcases s with _ | ⟨d, s⟩
        · exact (basicLines_close hrest).2
        · obtain ⟨-, rfl, hrun, hr'⟩ := escaped_of_quote hr
          rcases s with _ | ⟨d', s⟩
          · obtain ⟨-, rfl⟩ := List.cons.inj hr'
            rw [hr]
            rfl
          · obtain ⟨-, -, hrun', -⟩ := escaped_of_quote hr'.symm
            omega
      · rw [basicLines_cons (.inl rfl) (by decide) fun _ => hq, ih]
        rfl

end Lines

section Runs

/-- The longest row of a character so far, and the row that has just been met. -/
def runStep (q : Char) (p : Nat × Nat) (c : Char) : Nat × Nat :=
  let run := if c = q then p.2 + 1 else 0
  (max p.1 run, run)

theorem longestRun_eq (q : Char) (s : List Char) :
    longestRun q s = (s.foldl (runStep q) (0, 0)).1 := rfl

theorem foldl_runStep (q : Char) : ∀ (s : List Char) (p : Nat × Nat), p.2 ≤ p.1 →
    p.1 ≤ (s.foldl (runStep q) p).1 ∧ (s.foldl (runStep q) p).2 ≤ (s.foldl (runStep q) p).1
  | [], _, h => ⟨Nat.le_refl _, h⟩
  | c :: s, p, _ => by
    obtain ⟨hfst, hsnd⟩ := foldl_runStep q s (runStep q p c) (Nat.le_max_right _ _)
    exact ⟨Nat.le_trans (Nat.le_max_left _ _) hfst, hsnd⟩

theorem foldl_replicate (q : Char) : ∀ (n : Nat) (p : Nat × Nat),
    ((List.replicate n q).foldl (runStep q) p).2 = p.2 + n
  | 0, _ => rfl
  | n + 1, p => by
    rw [List.replicate_succ, List.foldl_cons, foldl_replicate q n, runStep, if_pos rfl]
    omega

/-- A row of one character is no longer than the longest. -/
theorem le_longestRun {q : Char} {n : Nat} (h : List.replicate n q <:+: s) :
    n ≤ longestRun q s := by
  obtain ⟨a, b, rfl⟩ := h
  rw [longestRun_eq, List.foldl_append, List.foldl_append]
  have hrow := foldl_replicate q n (a.foldl (runStep q) (0, 0))
  have hbefore := (foldl_runStep q a (0, 0) (Nat.le_refl _)).2
  have hat := (foldl_runStep q (List.replicate n q) _ hbefore).2
  have hafter := (foldl_runStep q b _ hat).1
  omega

end Runs

section Forms

theorem dropNewline_lead (h : '\n' ∉ s → rest.head? ≠ some '\n' ∧ rest.head? ≠ some '\r') :
    dropNewline (lead s ++ rest) = rest := by
  by_cases hs : '\n' ∈ s
  · rw [lead, if_pos (List.contains_iff_mem.2 hs)]
    rfl
  · obtain ⟨hn, hr⟩ := h hs
    rw [lead, if_neg fun hc => hs (List.contains_iff_mem.1 hc), List.nil_append]
    rcases rest with _ | ⟨c, r⟩
    · rfl
    · rw [dropNewline]
      · rintro r' ⟨rfl, -⟩
        exact hn rfl
      · rintro r' ⟨rfl, -⟩
        exact hr rfl

theorem read?_writeBasic (h : rest.head? ≠ some '\x22') (s : List Char) :
    read? (writeBasic s ++ rest) = some (s, rest) := by
  have hbasic := basic_escaped rest s 0
  rw [writeBasic, List.append_assoc, List.cons_append, List.singleton_append, read?]
  · exact hbasic
  · intro r hr
    rcases s with _ | ⟨c, s⟩
    · obtain ⟨-, rfl⟩ := List.cons.inj hr
      exact h rfl
    · cases (escaped_of_quote hr).1

theorem read?_writeLiteral (hs : s ≠ []) (h : ∀ c ∈ s, isPlain c = true ∧ c ≠ '\x27') :
    read? (writeLiteral s ++ rest) = some (s, rest) := by
  have hliteral : literal (s ++ '\x27' :: rest) = some (s, rest) := literal_append h
  rw [writeLiteral, List.append_assoc, List.cons_append, List.singleton_append, read?]
  · exact hliteral
  · intro r hr
    obtain ⟨c, s, rfl⟩ := List.exists_cons_of_ne_nil hs
    exact (h c List.mem_cons_self).2 (List.cons.inj hr).1

theorem read?_writeBasicLines (h : rest.head? ≠ some '\x22') (s : List Char) :
    read? (writeBasicLines s ++ rest) = some (s, rest) := by
  have hlines := basicLines_escaped h s 0
  rw [writeBasicLines, List.append_assoc, List.append_assoc, List.append_assoc]
  change basicLines false (dropNewline (lead s ++ (escaped true 0 s ++ _))) = _
  rw [dropNewline_lead]
  · exact hlines
  · intro hs
    rcases s with _ | ⟨c, s⟩
    · exact ⟨by simp [escaped], by simp [escaped]⟩
    · rcases escaped_cons true 0 c s with ⟨e, he, heq⟩ | ⟨hplain, -, -, heq⟩ | ⟨-, -, rfl, heq⟩
      · rw [heq]
        rcases he with _ | _ <;> exact ⟨by simp, by simp⟩
      · have hplain' := hplain.imp id And.right
        rw [heq]
        refine ⟨?_, ?_⟩
        · rintro h
          exact hs (Option.some.inj h ▸ List.mem_cons_self)
        · rintro h
          exact ne_return hplain' (Option.some.inj h)
      · rw [heq]
        exact ⟨by simp, by simp⟩

theorem read?_writeLiteralLines (h : rest.head? ≠ some '\x27')
    (hs : ∀ c ∈ s, isPlain c = true ∨ c = '\n') (hrun : longestRun '\x27' s ≤ 2) :
    read? (writeLiteralLines s ++ rest) = some (s, rest) := by
  have hlines := literalLines_append h hs fun hin => absurd (le_longestRun (n := 3) hin) (by omega)
  rw [writeLiteralLines, List.append_assoc, List.append_assoc, List.append_assoc]
  change literalLines (dropNewline (lead s ++ (s ++ _))) = _
  rw [dropNewline_lead]
  · exact hlines
  · intro hnew
    rcases s with _ | ⟨c, s⟩
    · exact ⟨by simp, by simp⟩
    · refine ⟨fun h => ?_, fun h => ?_⟩
      · exact hnew (Option.some.inj h ▸ List.mem_cons_self)
      · exact ne_return (hs c List.mem_cons_self) (Option.some.inj h)

/-- A text that is written is read back, with what follows it left over. -/
theorem read?_write (hdouble : rest.head? ≠ some '\x22') (hsingle : rest.head? ≠ some '\x27')
    (s : List Char) : read? (write s ++ rest) = some (s, rest) := by
  have hcodes : s.any needsCode = false → ∀ c ∈ s, isPlain c = true ∨ c = '\n' := by
    intro h c hc
    have hneeds := List.any_eq_false.1 h c hc
    rw [needsCode] at hneeds
    by_cases hn : c = '\n'
    · exact .inr hn
    · simpa [hn] using hneeds
  simp only [write, Bool.and_eq_true, Bool.not_eq_true', beq_iff_eq, decide_eq_true_eq]
  split_ifs with hbasic hliteral hlines hliteralLines hnew
  · exact read?_writeBasic hdouble s
  · obtain ⟨⟨hc, hrun⟩, hn⟩ := hliteral
    refine read?_writeLiteral (fun hs => hbasic (by simp [hs, longestRun])) fun c hmem => ⟨?_, ?_⟩
    · refine (hcodes hc c hmem).resolve_right ?_
      rintro rfl
      rw [List.contains_iff_mem.2 hmem] at hn
      cases hn
    · rintro rfl
      obtain ⟨a, b, rfl⟩ := List.append_of_mem hmem
      have hone : 1 ≤ longestRun '\x27' (a ++ '\x27' :: b) := le_longestRun ⟨a, b, by simp⟩
      omega
  · exact read?_writeBasicLines hdouble s
  · exact read?_writeLiteralLines hsingle (hcodes hliteralLines.1) hliteralLines.2
  · exact read?_writeBasicLines hdouble s
  · exact read?_writeBasic hdouble s

/-- What is written begins with a quote. -/
theorem exists_write (s : List Char) : ∃ q r, (q = '\x22' ∨ q = '\x27') ∧ write s = q :: r := by
  simp only [write]
  split_ifs
  · exact ⟨_, _, .inl rfl, rfl⟩
  · exact ⟨_, _, .inr rfl, rfl⟩
  · exact ⟨_, _, .inl rfl, rfl⟩
  · exact ⟨_, _, .inr rfl, rfl⟩
  · exact ⟨_, _, .inl rfl, rfl⟩
  · exact ⟨_, _, .inl rfl, rfl⟩

end Forms

end GraphBlock.Toml.Quoted
