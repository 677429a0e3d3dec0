import GraphBlock.Proofs.Spec.CanonicalBytes

/-!
# How long canonical texts are

Cutting and trimming never lengthen a text, and the two braces around a fragment take at most twice
the room of the bar in front of it.  So every length in the canonical bytes of what a block of less
than `2 ^ 63` bytes compiles to fits eight bytes (`fits_of_parse`).
-/

namespace GraphBlock

open Text

/-- The bytes of texts that stand behind a bar or a line break each. -/
def weight : List (List Char) → Nat
  | [] => 0
  | p :: ps => (Utf8.encode p).length + 1 + weight ps

@[simp] theorem weight_nil : weight [] = 0 := rfl

@[simp] theorem weight_cons (p : List Char) (ps : List (List Char)) :
    weight (p :: ps) = (Utf8.encode p).length + 1 + weight ps := rfl

@[simp] theorem encode_nil : Utf8.encode [] = [] := rfl

theorem length_encode_le {r s : List Char} (h : r <:+: s) :
    (Utf8.encode r).length ≤ (Utf8.encode s).length := by
  obtain ⟨a, b, rfl⟩ := h
  simp only [Utf8.encode_append, List.length_append]
  omega

theorem weight_le_of_sublist {ps qs : List (List Char)} (h : ps.Sublist qs) :
    weight ps ≤ weight qs := by
  induction h with
  | slnil => exact Nat.le_refl _
  | cons q _ ih =>
    rw [weight_cons]
    omega
  | cons_cons q _ ih =>
    rw [weight_cons, weight_cons]
    omega

theorem length_le_weight : ∀ ps : List (List Char), ps.length ≤ weight ps
  | [] => Nat.zero_le _
  | p :: ps => by
    have := length_le_weight ps
    simp only [List.length_cons, weight_cons]
    omega

theorem weight_pieces_le (p : Char → Bool) : ∀ s : List Char,
    weight (pieces p s) ≤ (Utf8.encode s).length + 1
  | [] => by simp [pieces]
  | c :: s => by
    have ih := weight_pieces_le p s
    have hc := c.utf8Size_pos
    simp only [pieces]
    split
    · simp only [weight_cons, Utf8.length_encode_cons, encode_nil, List.length_nil]
      omega
    · obtain ⟨q, qs, he⟩ := List.exists_cons_of_ne_nil (pieces_ne_nil p s)
      rw [he] at ih ⊢
      simp only [consFirst, weight_cons, Utf8.length_encode_cons] at ih ⊢
      omega

theorem weight_trim_le : ∀ ps : List (List Char), weight (ps.map trim) ≤ weight ps
  | [] => Nat.le_refl _
  | p :: ps => by
    have := weight_trim_le ps
    have := length_encode_le (trim_isInfix p)
    simp only [List.map_cons, weight_cons]
    omega

theorem weight_entries_le (p : Char → Bool) (s : List Char) :
    weight (entries p s) ≤ (Utf8.encode s).length + 1 :=
  (weight_le_of_sublist List.filter_sublist).trans
    ((weight_trim_le _).trans (weight_pieces_le p s))

theorem fragmentsIn_sublist : ∀ tokens : List String, (fragmentsIn tokens).Sublist tokens
  | [] => List.Sublist.slnil
  | t :: tokens => by
    have ih := fragmentsIn_sublist tokens
    rw [fragmentsIn_cons]
    rcases hc : Modifier.classify t with s | c | f
    · exact ih.cons t
    · exact ih.cons t
    · obtain rfl := (Modifier.classify_spec t).1 f hc
      exact ih.cons_cons f

namespace Equation

theorem toList_map_words (ts : List (List Char)) :
    (words ts).map String.toList = ts.filter (· ≠ []) := by
  simp [words, Function.comp_def]

theorem size_braced (f : String) : Encoding.size (braced f) = Encoding.size f + 2 := by
  have hopen : ('\x7b' : Char).utf8Size = 1 := rfl
  have hclose : ('\x7d' : Char).utf8Size = 1 := rfl
  simp only [Encoding.size, braced, String.toList_append, String.reduceToList, List.cons_append,
    List.nil_append, Utf8.length_encode_cons, Utf8.encode_append, List.length_append, encode_nil,
    List.length_nil, hopen, hclose]
  omega

theorem length_join_braced : ∀ fs : List String,
    (Utf8.encode (fs.flatMap fun f => (braced f).toList)).length ≤ 2 * weight (fs.map String.toList)
  | [] => Nat.le_refl _
  | f :: fs => by
    have ih := length_join_braced fs
    have hf := size_braced f
    simp only [Encoding.size] at hf
    rw [List.flatMap_cons, Utf8.encode_append, List.length_append, hf, List.map_cons, weight_cons]
    omega

theorem size_restriction_le {e : Equation} {r : String} (h : r ∈ e.restriction) :
    Encoding.size r ≤ 2 * weight (e.restrictions.map String.toList) := by
  simp only [restriction, Option.mem_def] at h
  split at h
  · simp at h
  · obtain rfl := Option.some.inj h
    simpa [Encoding.size, String.toList_join, List.flatMap_map] using
      length_join_braced e.restrictions

theorem fits_of_parse {line : List Char} {e : Equation} (h : Equation.parse line = .ok e)
    (hsize : (Utf8.encode line).length < 2 ^ 63) : e.Fits := by
  obtain ⟨x, ts, hp, -, -, he, -, hcolor, hr, -⟩ := parse_eq_ok_iff.1 h
  have hw : (Utf8.encode x).length + weight ts ≤ (Utf8.encode line).length := by
    have := (weight_trim_le _).trans (weight_pieces_le (· == '|') line)
    rw [hp, weight_cons] at this
    omega
  have hwords : weight ((words ts).map String.toList) ≤ weight ts := by
    rw [toList_map_words]
    exact weight_le_of_sublist List.filter_sublist
  refine ⟨?_, fun c hc => ?_, fun r hr' => ?_⟩
  · rw [he, Encoding.size, String.toList_ofList]
    omega
  · rw [Option.mem_def.1 hc, Option.toList_some] at hcolor
    rcases c with c | t
    · cases c <;> decide
    · have ht := (hex_of_mem_colorsIn (hcolor ▸ List.mem_singleton_self _)).1
      have := weight_le_of_sublist
        (List.singleton_sublist.2 (List.mem_map_of_mem (f := String.toList) ht))
      simp only [weight_cons, weight_nil] at this
      simp only [Encoding.size, Color.text]
      omega
  · have hfrag : weight (e.restrictions.map String.toList)
        ≤ weight ((words ts).map String.toList) :=
      weight_le_of_sublist ((hr ▸ fragmentsIn_sublist _).map _)
    have := size_restriction_le hr'
    omega

end Equation

/-- A block of less than `2 ^ 63` bytes compiles to texts whose lengths fit eight bytes. -/
theorem Spec.fits_of_parse {source : String} {s : Spec} (h : Spec.parse source = .ok s)
    (hsize : Encoding.size source < 2 ^ 63) : s.Fits := by
  obtain ⟨body, hbody, hseg⟩ := Spec.parse_eq_ok_iff.1 h
  have hmem : body ∈ segments source.toList := by
    rcases hseg with ⟨hseg, -⟩ | ⟨settings, hseg, -⟩ <;> simp [hseg]
  have hlen : (Utf8.encode body).length < 2 ^ 63 :=
    (length_encode_le (infix_of_mem_segments hmem)).trans_lt hsize
  refine ⟨?_, fun e he => ?_⟩
  · have hl := (mapM_eq_ok_iff.1 hbody).length_eq
    have hw := (length_le_weight _).trans (weight_entries_le (· == '\n') body)
    omega
  · obtain ⟨line, hline, hparse⟩ := exists_of_mem_mapM hbody he
    obtain ⟨-, -, hinfix, -⟩ := mem_entries hline
    exact Equation.fits_of_parse hparse ((length_encode_le hinfix).trans_lt hlen)

end GraphBlock
