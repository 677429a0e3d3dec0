import GraphBlock.Proofs.Spec.Size

/-!
# Where fragments in braces meet

Between two fragments in braces stand a closing and an opening brace, and a fragment may hold the
same two characters itself.  So the wrapped fragments of an equation determine what is left of the
fragments when they are cut at every such place, and nothing more (`restriction_eq_iff_content`).
Specs that compiled therefore share their canonical bytes exactly if they differ at most in where
their fragments are cut, and the bytes of a spec are its own exactly if its equations leave no
choice there (`encoding_eq_iff_content`).  Some leave one (`distinct_specs_share_encoding`).
-/

namespace GraphBlock

open Text

/-- What stands between two fragments in braces. -/
def seam : List Char :=
  ['\x7d', '\x7b']

/-- A text cut at its seams. -/
def parts : List Char → List (List Char)
  | '\x7d' :: '\x7b' :: s => [] :: parts s
  | c :: s => consFirst c (parts s)
  | [] => [[]]

theorem parts_cons {c : Char} {s : List Char} (h : ¬ seam <+: c :: s) :
    parts (c :: s) = consFirst c (parts s) := by
  rw [parts]
  rintro s rfl rfl
  exact h ⟨s, rfl⟩

theorem parts_ne_nil (s : List Char) : parts s ≠ [] := by
  fun_cases parts s
  · simp
  · rename_i c s _
    rcases parts s with _ | ⟨p, ps⟩ <;> simp [consFirst]
  · simp

theorem parts_append_seam (a b : List Char) : parts (a ++ seam ++ b) = parts a ++ parts b := by
  induction a using parts.induct with
  | case1 s ih => simp only [List.cons_append, parts, ih]
  | case2 c s hc ih =>
    have hno : ¬ seam <+: c :: (s ++ seam ++ b) := by
      rintro ⟨r, hr⟩
      rcases s with _ | ⟨d, s⟩ <;> simp [seam] at hr hc
      exact hc hr.1.symm hr.2.1.symm
    rw [List.cons_append, List.cons_append, parts_cons hno, ih, parts.eq_2 c s hc]
    obtain ⟨p, ps, hp⟩ := List.exists_cons_of_ne_nil (parts_ne_nil s)
    rw [hp]
    rfl
  | case3 => rfl

theorem parts_of_not_infix : ∀ {s : List Char}, ¬ seam <:+: s → parts s = [s]
  | [], _ => rfl
  | c :: s, h => by
    rw [parts_cons fun hp => h hp.isInfix,
      parts_of_not_infix fun hi => h (hi.trans (List.suffix_cons c s).isInfix)]
    rfl

/-- Nothing is lost by cutting. -/
theorem intercalate_parts (s : List Char) : seam.intercalate (parts s) = s := by
  induction s using parts.induct with
  | case1 s ih =>
    rw [parts, List.intercalate_cons_of_ne_nil (parts_ne_nil s), ih]
    rfl
  | case2 c s hc ih => rw [parts.eq_2 c s hc, intercalate_consFirst c seam (parts_ne_nil s), ih]
  | case3 => rfl

theorem parts_inj {s t : List Char} : parts s = parts t ↔ s = t :=
  ⟨fun h => by rw [← intercalate_parts s, h, intercalate_parts], congrArg parts⟩

theorem parts_intercalate : ∀ {fs : List (List Char)}, fs ≠ [] →
    parts (seam.intercalate fs) = fs.flatMap parts
  | [], h => absurd rfl h
  | [f], _ => by simp
  | f :: g :: fs, _ => by
    rw [List.intercalate_cons_cons, parts_append_seam, parts_intercalate (List.cons_ne_nil g fs)]
    rfl

namespace Equation

/-- What is left of the fragments if they are cut at every seam. -/
def content (e : Equation) : List (List Char) :=
  e.restrictions.flatMap fun f => parts f.toList

theorem toList_join_braced : ∀ {fs : List String}, fs ≠ [] →
    (String.join (fs.map braced)).toList
      = '\x7b' :: (seam.intercalate (fs.map String.toList) ++ ['\x7d'])
  | [], h => absurd rfl h
  | [f], _ => by simp [braced]
  | f :: g :: fs, _ => by
    have ih := toList_join_braced (List.cons_ne_nil g fs)
    simp only [String.toList_join, List.map_cons, List.flatMap_cons] at ih ⊢
    rw [ih, List.intercalate_cons_cons]
    simp [braced, seam]

theorem content_eq_nil_iff {e : Equation} : e.content = [] ↔ e.restrictions = [] := by
  rw [content]
  rcases e.restrictions with _ | ⟨f, fs⟩ <;> simp [parts_ne_nil]

theorem parts_intercalate_restrictions {e : Equation} (h : e.restrictions ≠ []) :
    parts (seam.intercalate (e.restrictions.map String.toList)) = e.content := by
  rw [parts_intercalate (by simpa using h), List.flatMap_map, content]

/-- The wrapped fragments are the same exactly if all parts of the fragments are. -/
theorem restriction_eq_iff_content {d e : Equation} :
    d.restriction = e.restriction ↔ d.content = e.content := by
  by_cases hd : d.restrictions = [] <;> by_cases he : e.restrictions = []
  · simp [restriction, content, hd, he]
  · have hne : [] ≠ e.content := Ne.symm (mt content_eq_nil_iff.1 he)
    simp [restriction, hd, he, content_eq_nil_iff.2 hd, hne]
  · have hne : d.content ≠ [] := mt content_eq_nil_iff.1 hd
    simp [restriction, hd, he, content_eq_nil_iff.2 he, hne]
  · rw [restriction, restriction, if_neg hd, if_neg he, Option.some.injEq, ← String.toList_inj,
      toList_join_braced hd, toList_join_braced he, List.cons.injEq, eq_self, true_and,
      List.append_cancel_right_eq, ← parts_inj, parts_intercalate_restrictions hd,
      parts_intercalate_restrictions he]

/-- Both say the same, but maybe with seams in the place of bars. -/
structure SameContent (d e : Equation) : Prop where
  expression : d.expression = e.expression
  style : d.style = e.style
  color : d.color = e.color
  content : d.content = e.content

theorem alike_iff_sameContent {d e : Equation} : d.Alike e ↔ d.SameContent e :=
  ⟨fun h => ⟨h.expression, h.style, h.color, restriction_eq_iff_content.1 h.restriction⟩,
    fun h => ⟨h.expression, h.style, h.color, restriction_eq_iff_content.2 h.content⟩⟩

/-- No fragment holds a seam. -/
def Seamless (e : Equation) : Prop :=
  ∀ f ∈ e.restrictions, ¬ seam <:+: f.toList

instance (e : Equation) : Decidable e.Seamless :=
  inferInstanceAs (Decidable (∀ f ∈ e.restrictions, ¬ seam <:+: f.toList))

theorem flatMap_parts : ∀ {fs : List String}, (∀ f ∈ fs, ¬ seam <:+: f.toList) →
    (fs.flatMap fun f => parts f.toList) = fs.map String.toList
  | [], _ => rfl
  | f :: fs, h => by
    rw [List.flatMap_cons, parts_of_not_infix (h f List.mem_cons_self),
      flatMap_parts fun g hg => h g (List.mem_cons_of_mem f hg)]
    rfl

theorem Seamless.content_eq {e : Equation} (h : e.Seamless) :
    e.content = e.restrictions.map String.toList :=
  flatMap_parts h

theorem SameContent.eq_of_restrictions {d e : Equation} (h : d.SameContent e)
    (hr : d.restrictions = e.restrictions) : d = e := by
  rcases d with ⟨x, s, c, r⟩
  rcases e with ⟨x', s', c', r'⟩
  rw [mk.injEq]
  exact ⟨h.expression, h.style, h.color, hr⟩

theorem SameContent.eq {d e : Equation} (h : d.SameContent e) (hd : d.Seamless)
    (he : e.Seamless) : d = e := by
  refine h.eq_of_restrictions (List.map_injective_iff.2 (fun _ _ => String.toList_inj.1) ?_)
  rw [← hd.content_eq, ← he.content_eq, h.content]

theorem eq_of_sameContent : ∀ {ds es : List Equation}, List.Forall₂ SameContent ds es →
    (∀ d ∈ ds, ∀ e ∈ es, d.SameContent e → d = e) → ds = es
  | [], [], .nil, _ => rfl
  | d :: ds, e :: es, .cons h hs, heq => by
    rw [heq d List.mem_cons_self e List.mem_cons_self h, eq_of_sameContent hs fun x hx y hy =>
      heq x (List.mem_cons_of_mem d hx) y (List.mem_cons_of_mem e hy)]

end Equation

section Fragment

variable {a b : String}

theorem Phrase.append_seam {p q : List Char} (hp : Phrase p) (hq : Phrase q) :
    Phrase (p ++ seam ++ q) := by
  have hdashes : ¬ dashes <:+: p ++ seam ++ q := by
    rw [List.append_assoc]
    exact not_infix_append_cons (by decide)
      (not_infix_append_cons (a := []) (by decide) hq.noDashes (noDashes_of_length_lt (by simp)))
      hp.noDashes
  refine ⟨by simp [hp.ne_nil], hp.tight.append hq.tight hp.ne_nil hq.ne_nil seam, ?_, ?_, hdashes,
    fun c hc => ?_⟩
  · simp [seam, hp.noBar, hq.noBar]
  · simp [seam, hp.noBreak, hq.noBreak]
  · simp only [List.mem_append] at hc
    rcases hc with (hc | hc) | hc
    · exact hp.clean c hc
    · simp only [seam, List.mem_cons, List.not_mem_nil, or_false] at hc
      rcases hc with rfl | rfl <;> decide
    · exact hq.clean c hc

/-- Neither a name nor a color by its number sign holds a brace. -/
theorem classify_of_mem_brace {f : String} (h : '\x7d' ∈ f.toList) :
    Modifier.classify f = .restriction f := by
  have hname : ∀ {name : String}, '\x7d' ∉ name.toList → ¬ matchesName name f = true := by
    intro name hn hm
    refine hn ?_
    rw [← beq_iff_eq.1 hm]
    exact List.mem_map.2 ⟨_, h, by decide⟩
  have hs : Style.ofToken? f = none :=
    List.find?_eq_none.2 fun s _ => hname (by cases s <;> decide)
  have hc : NamedColor.ofToken? f = none :=
    List.find?_eq_none.2 fun c _ => hname (by cases c <;> decide)
  have hx : Color.isHex f.toList = false := by
    rw [Bool.eq_false_iff]
    intro hx
    unfold Color.isHex at hx
    split at hx
    · rename_i s hs
      simp only [Bool.and_eq_true, List.all_eq_true] at hx
      rw [hs] at h
      rcases List.mem_cons.1 h with h | h
      · exact absurd h (by decide)
      · exact absurd (hx.2 _ h) (by decide)
    · simp at hx
  simp [Modifier.classify, hs, hc, hx]

theorem Fragment.append_seam (ha : Fragment a) (hb : Fragment b) :
    Fragment (a ++ "\x7d\x7b" ++ b) := by
  refine ⟨?_, classify_of_mem_brace (by simp)⟩
  rw [String.toList_append, String.toList_append]
  exact ha.phrase.append_seam hb.phrase

theorem fragment_intercalate : ∀ {fs : List String}, fs ≠ [] → (∀ f ∈ fs, Fragment f) →
    Fragment ("\x7d\x7b".intercalate fs)
  | [], h, _ => absurd rfl h
  | [f], _, hf => by
    rw [String.intercalate_singleton]
    exact hf f List.mem_cons_self
  | f :: g :: fs, _, hf => by
    rw [String.intercalate_cons_cons]
    exact (hf f List.mem_cons_self).append_seam
      (fragment_intercalate (List.cons_ne_nil g fs) fun x hx => hf x (List.mem_cons_of_mem f hx))

end Fragment

namespace Equation

variable {d e : Equation}

/-- There is one way only to cut the content into fragments: there is at most one fragment, and it
does not come apart into two at a seam. -/
structure Determined (e : Equation) : Prop where
  single : e.restrictions.length ≤ 1
  whole : ∀ f ∈ e.restrictions, ∀ a b, f = a ++ "\x7d\x7b" ++ b → ¬ (Fragment a ∧ Fragment b)

theorem Seamless.determined (h : e.Seamless) (hl : e.restrictions.length ≤ 1) : e.Determined := by
  refine ⟨hl, fun f hf a b hab _ => h f hf ⟨a.toList, b.toList, ?_⟩⟩
  rw [hab, String.toList_append, String.toList_append]
  rfl

theorem SameContent.refl (e : Equation) : e.SameContent e :=
  ⟨rfl, rfl, rfl, rfl⟩

theorem Determined.eq (hd : d.Determined) (he : e.Admissible) (h : d.SameContent e) : d = e := by
  refine h.eq_of_restrictions ?_
  by_cases hnil : e.restrictions = []
  · rw [hnil, ← content_eq_nil_iff, h.content, content_eq_nil_iff, hnil]
  · have hne : d.restrictions ≠ [] := by
      intro hd'
      rw [← content_eq_nil_iff, h.content, content_eq_nil_iff] at hd'
      exact hnil hd'
    obtain ⟨f, hf⟩ := List.length_eq_one_iff.1
      (Nat.le_antisymm hd.single (List.length_pos_iff.2 hne))
    have hjoin : f = "\x7d\x7b".intercalate e.restrictions := by
      have hparts := parts_intercalate_restrictions hnil
      rw [← h.content, content, hf, List.flatMap_singleton, parts_inj] at hparts
      rw [← String.toList_inj, String.toList_intercalate, ← hparts]
      rfl
    rcases hr : e.restrictions with _ | ⟨g, _ | ⟨k, gs⟩⟩
    · exact absurd hr hnil
    · rw [hf, hjoin, hr, String.intercalate_singleton]
    · rw [hr, String.intercalate_cons_cons] at hjoin
      have hfrag : ∀ x ∈ g :: k :: gs, Fragment x := hr ▸ he.fragment
      refine absurd ⟨hfrag g List.mem_cons_self, fragment_intercalate (List.cons_ne_nil k gs)
        fun x hx => hfrag x (List.mem_cons_of_mem g hx)⟩ (hd.whole f ?_ _ _ hjoin)
      rw [hf]
      exact List.mem_singleton_self f

/-- Where there is a choice, another equation says the same. -/
theorem exists_ne_of_not_determined (he : e.Admissible) (h : ¬ e.Determined) :
    ∃ d : Equation, d.Admissible ∧ e.SameContent d ∧ e ≠ d := by
  have hmk : ∀ fs, (∀ f ∈ fs, Fragment f) →
      (fs.flatMap fun f => parts f.toList) = e.content → fs ≠ e.restrictions →
        ∃ d : Equation, d.Admissible ∧ e.SameContent d ∧ e ≠ d := by
    intro fs hfs hcontent hne
    refine ⟨⟨e.expression, e.style, e.color, fs⟩, ⟨he.expression, hfs, he.hex⟩,
      ⟨rfl, rfl, rfl, hcontent.symm⟩, fun heq => ?_⟩
    exact hne (congrArg restrictions heq).symm
  have hparts : ∀ a b : String,
      parts (a ++ "\x7d\x7b" ++ b).toList = parts a.toList ++ parts b.toList := fun a b => by
    rw [String.toList_append, String.toList_append]
    exact parts_append_seam a.toList b.toList
  rcases hr : e.restrictions with _ | ⟨f, _ | ⟨g, fs⟩⟩
  · exact absurd ⟨by simp [hr], by simp [hr]⟩ h
  · have hwhole : ∃ a b, f = a ++ "\x7d\x7b" ++ b ∧ Fragment a ∧ Fragment b := by
      by_contra hno
      refine h ⟨by simp [hr], fun x hx a b hab hfrag => hno ⟨a, b, ?_, hfrag⟩⟩
      rw [hr] at hx
      rw [← List.mem_singleton.1 hx, hab]
    obtain ⟨a, b, rfl, ha, hb⟩ := hwhole
    refine hmk [a, b] (by simp [ha, hb]) ?_ (by simp [hr])
    simp only [content, hr, List.flatMap_cons, List.flatMap_nil, List.append_nil, hparts]
  · have hfrag : ∀ x ∈ f :: g :: fs, Fragment x := hr ▸ he.fragment
    refine hmk ((f ++ "\x7d\x7b" ++ g) :: fs) (fun x hx => ?_) ?_ fun heq => ?_
    · rcases List.mem_cons.1 hx with rfl | hx
      · exact (hfrag f List.mem_cons_self).append_seam
          (hfrag g (List.mem_cons_of_mem f List.mem_cons_self))
      · exact hfrag x (List.mem_cons_of_mem f (List.mem_cons_of_mem g hx))
    · simp only [content, hr, List.flatMap_cons, hparts, List.append_assoc]
    · have hlen := congrArg List.length heq
      rw [hr, List.length_cons, List.length_cons, List.length_cons] at hlen
      omega

end Equation

namespace Spec

variable {s t : Spec} {a b : String}

theorem encoding_eq_iff_sameContent (hs : ∀ e ∈ s.equations, e.Admissible)
    (ht : ∀ e ∈ t.equations, e.Admissible) (fs : s.Fits) (ft : t.Fits) :
    encoding s.equations s.fields = encoding t.equations t.fields ↔
      List.Forall₂ Equation.SameContent s.equations t.equations ∧ s.fields = t.fields := by
  constructor
  · intro h
    obtain ⟨halike, hf⟩ := alike_of_encoding_eq hs ht fs ft h
    exact ⟨halike.imp fun _ _ => Equation.alike_iff_sameContent.1, hf⟩
  · rintro ⟨hcontent, hf⟩
    exact encoding_eq_of_alike (hcontent.imp fun _ _ => Equation.alike_iff_sameContent.2) hf

theorem Fits.of_sameContent (fs : s.Fits) {es : List Equation}
    (h : List.Forall₂ Equation.SameContent s.equations es) : (ofContent es s.fields).Fits := by
  refine ⟨h.length_eq ▸ fs.length, fun e he => ?_⟩
  obtain ⟨d, hd, hde⟩ := exists_of_mem_forall₂ h he
  have halike := Equation.alike_iff_sameContent.2 hde
  have fd := fs.equations d hd
  exact ⟨halike.expression ▸ fd.expression, halike.color ▸ fd.color,
    halike.restriction ▸ fd.restriction⟩

/-- Where an equation leaves a choice, another block compiles to the other one. -/
theorem exists_same_encoding (hs : ∀ e ∈ s.equations, e.Admissible) (fs : s.Fits) {e : Equation}
    (he : e ∈ s.equations) (h : ¬ e.Determined) : ∃ b t, Spec.parse b = .ok t ∧ t.Fits
      ∧ encoding s.equations s.fields = encoding t.equations t.fields ∧ s ≠ t := by
  obtain ⟨d, hd, hcontent, hne⟩ := Equation.exists_ne_of_not_determined (hs e he) h
  obtain ⟨l, r, hlr⟩ := List.append_of_mem he
  have hsame : List.Forall₂ Equation.SameContent s.equations (l ++ d :: r) := by
    rw [hlr]
    have hrefl : ∀ es : List Equation, List.Forall₂ Equation.SameContent es es := fun es =>
      List.forall₂_same.2 fun x _ => .refl x
    exact List.rel_append (hrefl l) (.cons hcontent (hrefl r))
  have hadm : ∀ x ∈ l ++ d :: r, x.Admissible := by
    intro x hx
    rw [hlr] at hs
    rcases List.mem_append.1 hx with hx | hx
    · exact hs x (List.mem_append_left _ hx)
    · rcases List.mem_cons.1 hx with rfl | hx
      · exact hd
      · exact hs x (List.mem_append_right _ (List.mem_cons_of_mem e hx))
  have ft := fs.of_sameContent hsame
  refine ⟨_, ofContent (l ++ d :: r) s.fields, parse_toSource_of_admissible hadm, ft,
    (encoding_eq_iff_sameContent hs hadm fs ft).2 ⟨hsame, rfl⟩, fun heq => ?_⟩
  have hlist : s.equations = l ++ d :: r := congrArg Spec.equations heq
  rw [hlr, List.append_cancel_left_eq, List.cons.injEq] at hlist
  exact hne hlist.1

/-- Specs that compiled have the same canonical bytes exactly if they differ at most in whether a
bar or a seam stands between parts of fragments, so two without seams do only if they are the same.
The bytes of a spec are its own exactly if each of its equations is determined.  Blocks of less
than `2 ^ 63` bytes compile to specs that fit (`fits_of_parse`). -/
theorem encoding_eq_iff_content (ha : Spec.parse a = .ok s) (hsize : Encoding.size a < 2 ^ 63) :
    (∀ b t, Spec.parse b = .ok t → Encoding.size b < 2 ^ 63 →
        ((encoding s.equations s.fields = encoding t.equations t.fields ↔
            List.Forall₂ Equation.SameContent s.equations t.equations ∧ s.fields = t.fields)
          ∧ ((∀ e ∈ s.equations ++ t.equations, e.Seamless) →
            encoding s.equations s.fields = encoding t.equations t.fields → s = t)))
      ∧ ((∀ b t, Spec.parse b = .ok t → t.Fits →
          encoding s.equations s.fields = encoding t.equations t.fields → s = t) ↔
        ∀ e ∈ s.equations, e.Determined) := by
  have hs := admissible_of_mem_equations ha
  have fs := fits_of_parse ha hsize
  refine ⟨fun b t hb hsizeb => ?_, fun h e he => ?_, fun h b t hb ft henc => ?_⟩
  · have hiff := encoding_eq_iff_sameContent hs (admissible_of_mem_equations hb) fs
      (fits_of_parse hb hsizeb)
    refine ⟨hiff, fun hseam henc => ?_⟩
    obtain ⟨hcontent, hf⟩ := hiff.1 henc
    exact ext_content (Equation.eq_of_sameContent hcontent fun x hx y hy hxy =>
      hxy.eq (hseam x (List.mem_append_left _ hx)) (hseam y (List.mem_append_right _ hy))) hf
  · by_contra hno
    obtain ⟨b, t, hb, ft, henc, hne⟩ := exists_same_encoding hs fs he hno
    exact hne (h b t hb ft henc)
  · have ht := admissible_of_mem_equations hb
    obtain ⟨hcontent, hf⟩ := (encoding_eq_iff_sameContent hs ht fs ft).1 henc
    exact ext_content (Equation.eq_of_sameContent hcontent fun x hx y hy hxy =>
      (h x hx).eq (ht y hy) hxy) hf

/-- Two blocks that share their bytes by a seam, two without one that are the same, and one that
shares its bytes with no other. -/
theorem encoding_eq_iff_content_red : ∃ s t u v : Spec,
    Spec.parse "y=x|a\x7d\x7bb|RED" = .ok s ∧ Spec.parse "width=600---y=x|red|a|b" = .ok t
      ∧ Spec.parse "y=x|a|Red|b" = .ok u ∧ Spec.parse "y=x|0<x|red" = .ok v
      ∧ encoding s.equations s.fields = encoding t.equations t.fields ∧ t = u
      ∧ ∀ b w, Spec.parse b = .ok w → w.Fits →
        encoding v.equations v.fields = encoding w.equations w.fields → v = w := by
  let x : Equation := ⟨"y=x", none, some (.named .red), ["a\x7d\x7bb"]⟩
  let y : Equation := ⟨"y=x", none, some (.named .red), ["a", "b"]⟩
  let z : Equation := ⟨"y=x", none, some (.named .red), ["0<x"]⟩
  have hs : Spec.parse "y=x|a\x7d\x7bb|RED" = .ok (ofContent [x] .default) := rfl
  have ht : Spec.parse "width=600---y=x|red|a|b" = .ok (ofContent [y] .default) := rfl
  have hu : Spec.parse "y=x|a|Red|b" = .ok (ofContent [y] .default) := rfl
  have hv : Spec.parse "y=x|0<x|red" = .ok (ofContent [z] .default) := rfl
  have hshare := ((encoding_eq_iff_content hs (by decide)).1 _ _ ht (by decide)).1.2
    ⟨.cons ⟨rfl, rfl, rfl, rfl⟩ .nil, rfl⟩
  have hsame := ((encoding_eq_iff_content ht (by decide)).1 _ _ hu (by decide)).2 (by decide) rfl
  have hz : ∀ e ∈ (ofContent [z] .default).equations, e.Determined := by
    intro e he
    rw [List.mem_singleton.1 he]
    exact Equation.Seamless.determined (by decide) (by decide)
  exact ⟨_, _, _, _, hs, ht, hu, hv, hshare, hsame,
    (encoding_eq_iff_content hv (by decide)).2.2 hz⟩

/-- A seam in a fragment reads like two fragments. -/
theorem distinct_specs_share_encoding : ∃ s t : Spec,
    Spec.parse "y=x|a\x7d\x7bb" = .ok s ∧ Spec.parse "y=x|a|b" = .ok t ∧ s ≠ t
      ∧ encoding s.equations s.fields = encoding t.equations t.fields
      ∧ s.fingerprint = t.fingerprint :=
  ⟨.ofContent [⟨"y=x", none, none, ["a\x7d\x7bb"]⟩] .default,
    .ofContent [⟨"y=x", none, none, ["a", "b"]⟩] .default, rfl, rfl,
    fun h => absurd (congrArg Spec.equations h) (by decide), rfl, rfl⟩

end Spec

end GraphBlock
