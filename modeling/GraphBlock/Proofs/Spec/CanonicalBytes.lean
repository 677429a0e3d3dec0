import GraphBlock.Proofs.Spec.RoundTrip
import GraphBlock.Render.Request
import GraphBlock.Spec.Encoding
import Mathlib.Algebra.Order.Group.Nat

/-!
# What the canonical bytes determine

Each part of the canonical bytes says where it ends, so equal bytes have equal first parts and
equal rests, as long as every length fits its eight bytes (`text_append_inj`,
`optional_append_inj`, `equation_append_inj`).  Specs that compiled have the same bytes exactly if
they agree in everything that is drawn (`encoding_eq_iff_alike`).
-/

namespace GraphBlock

open Text

namespace Encoding

/-- The length of a text in bytes. -/
def size (s : String) : Nat :=
  (Utf8.encode s.toList).length

theorem encode_injective {s t : List Char} (h : Utf8.encode s = Utf8.encode t) : s = t := by
  have hb : (String.ofList s).toByteArray = (String.ofList t).toByteArray := by
    rw [String.toByteArray_ofList, String.toByteArray_ofList, List.utf8Encode, List.utf8Encode]
    exact congrArg List.toByteArray h
  exact String.ofList_inj.1 (String.toByteArray_inj.1 hb)

theorem littleEndian_inj : ∀ {n x y : Nat}, x < 256 ^ n → y < 256 ^ n →
    littleEndian n x = littleEndian n y → x = y
  | 0, x, y, hx, hy, _ => by
    simp only [Nat.pow_zero] at hx hy
    omega
  | n + 1, x, y, hx, hy, h => by
    simp only [littleEndian, List.cons.injEq] at h
    have hlow : x % 256 = y % 256 := by
      simpa using congrArg UInt8.toNat h.1
    rw [Nat.pow_succ] at hx hy
    have hhigh : x / 256 = y / 256 := littleEndian_inj (by omega) (by omega) h.2
    omega

variable {a b : Bytes}

theorem littleEndian_append_inj {n x y : Nat} (hx : x < 256 ^ n) (hy : y < 256 ^ n)
    (h : littleEndian n x ++ a = littleEndian n y ++ b) : x = y ∧ a = b := by
  obtain ⟨h₁, h₂⟩ := List.append_inj h (by simp only [length_littleEndian])
  exact ⟨littleEndian_inj hx hy h₁, h₂⟩

theorem count_append_inj {m n : Nat} (hm : m < 2 ^ 64) (hn : n < 2 ^ 64)
    (h : count m ++ a = count n ++ b) : m = n ∧ a = b :=
  littleEndian_append_inj (by simpa using hm) (by simpa using hn) h

theorem integer_append_inj {i j : Int64} (h : integer i ++ a = integer j ++ b) : i = j ∧ a = b := by
  obtain ⟨hn, hr⟩ := littleEndian_append_inj (by simpa using i.toUInt64.toNat_lt)
    (by simpa using j.toUInt64.toNat_lt) h
  refine ⟨?_, hr⟩
  rw [← i.toInt64_toUInt64, UInt64.toNat_inj.1 hn, j.toInt64_toUInt64]

theorem text_append_inj {s t : String} (hs : size s < 2 ^ 64) (ht : size t < 2 ^ 64)
    (h : text s ++ a = text t ++ b) : s = t ∧ a = b := by
  simp only [text, List.append_assoc] at h
  obtain ⟨hl, h⟩ := count_append_inj hs ht h
  obtain ⟨he, h⟩ := List.append_inj h hl
  exact ⟨String.toList_inj.1 (encode_injective he), h⟩

theorem optional_append_inj {x y : Option String} (hx : ∀ s ∈ x, size s < 2 ^ 64)
    (hy : ∀ s ∈ y, size s < 2 ^ 64) (h : optional x ++ a = optional y ++ b) : x = y ∧ a = b := by
  rcases x with _ | s <;> rcases y with _ | t <;> simp [optional] at h
  · exact ⟨rfl, h⟩
  · obtain ⟨hst, hab⟩ := text_append_inj (hx s rfl) (hy t rfl) h
    exact ⟨congrArg some hst, hab⟩

end Encoding

namespace Equation

/-- Every text that is encoded for an equation has a length of eight bytes. -/
structure Fits (e : Equation) : Prop where
  expression : Encoding.size e.expression < 2 ^ 64
  color : ∀ c ∈ e.color, Encoding.size c.text < 2 ^ 64
  restriction : ∀ r ∈ e.restriction, Encoding.size r < 2 ^ 64

/-- The same is drawn for both. -/
structure Alike (d e : Equation) : Prop where
  expression : d.expression = e.expression
  style : d.style = e.style
  color : d.color = e.color
  restriction : d.restriction = e.restriction

end Equation

/-- Every length in the canonical bytes of a spec fits eight bytes. -/
structure Spec.Fits (s : Spec) : Prop where
  length : s.equations.length < 2 ^ 64
  equations : ∀ e ∈ s.equations, e.Fits

theorem Style.name_injective {s t : Style} (h : s.name = t.name) : s = t := by
  cases s <;> cases t <;> first | rfl | exact absurd h (by decide)

theorem NamedColor.name_injective {c d : NamedColor} (h : c.name = d.name) : c = d := by
  cases c <;> cases d <;> first | rfl | exact absurd h (by decide)

theorem NamedColor.name_ne_of_isHex (c : NamedColor) {t : String}
    (h : Color.isHex t.toList = true) : c.name ≠ t := by
  rintro rfl
  cases c <;> exact absurd h (by decide)

namespace Equation

variable {d e : Equation} {a b : Bytes}

/-- A name never reads like a number sign with letters and digits. -/
theorem color_eq_of_text (hd : d.Admissible) (he : e.Admissible)
    (h : d.color.map Color.text = e.color.map Color.text) : d.color = e.color := by
  rcases hcd : d.color with _ | (c | t) <;> rcases hce : e.color with _ | (c' | t') <;>
    simp only [hcd, hce, Option.map_none, Option.map_some, reduceCtorEq, Option.some.injEq,
      Color.text] at h
  · rfl
  · rw [NamedColor.name_injective h]
  · exact absurd h (c.name_ne_of_isHex (he.hex t' hce))
  · exact absurd h.symm (c'.name_ne_of_isHex (hd.hex t hcd))
  · rw [h]

theorem equation_append_inj (hd : d.Admissible) (he : e.Admissible) (fd : d.Fits) (fe : e.Fits)
    (h : Encoding.equation d ++ a = Encoding.equation e ++ b) : d.Alike e ∧ a = b := by
  have hstyle : ∀ (x : Option Style) (n : String), n ∈ x.map Style.name →
      Encoding.size n < 2 ^ 64 := by
    rintro (_ | s) n hn
    · simp at hn
    · obtain rfl := Option.some.inj hn
      cases s <;> decide
  have hcolor : ∀ {x : Equation}, x.Fits → ∀ n ∈ x.color.map Color.text,
      Encoding.size n < 2 ^ 64 := by
    intro x fx n hn
    obtain ⟨c, hc, rfl⟩ := Option.map_eq_some_iff.1 hn
    exact fx.color c hc
  simp only [Encoding.equation, List.append_assoc] at h
  obtain ⟨h₁, h⟩ := Encoding.text_append_inj fd.expression fe.expression h
  obtain ⟨h₂, h⟩ := Encoding.optional_append_inj (hstyle _) (hstyle _) h
  obtain ⟨h₃, h⟩ := Encoding.optional_append_inj (hcolor fd) (hcolor fe) h
  obtain ⟨h₄, h⟩ := Encoding.optional_append_inj fd.restriction fe.restriction h
  exact ⟨⟨h₁, Option.map_injective (fun _ _ => Style.name_injective) h₂,
    color_eq_of_text hd he h₃, h₄⟩, h⟩

theorem Alike.encoding_eq (h : d.Alike e) : Encoding.equation d = Encoding.equation e := by
  simp only [Encoding.equation, h.expression, h.style, h.color, h.restriction]

theorem Alike.command_eq (h : d.Alike e) : d.command = e.command := by
  simp only [command, h.expression, h.style, h.color, h.restriction]

/-- Rows of equally many equations are told apart one by one. -/
theorem equations_append_inj : ∀ {ds es : List Equation}, ds.length = es.length →
    (∀ x ∈ ds, x.Admissible ∧ x.Fits) → (∀ x ∈ es, x.Admissible ∧ x.Fits) →
    ds.flatMap Encoding.equation ++ a = es.flatMap Encoding.equation ++ b →
      List.Forall₂ Alike ds es ∧ a = b
  | [], [], _, _, _, h => ⟨.nil, h⟩
  | d :: ds, e :: es, hl, hd, he, h => by
    simp only [List.flatMap_cons, List.append_assoc] at h
    obtain ⟨had, fd⟩ := hd d List.mem_cons_self
    obtain ⟨hae, fe⟩ := he e List.mem_cons_self
    obtain ⟨halike, h⟩ := equation_append_inj had hae fd fe h
    obtain ⟨hrest, h⟩ := equations_append_inj (by simpa using hl)
      (fun x hx => hd x (List.mem_cons_of_mem _ hx))
      (fun x hx => he x (List.mem_cons_of_mem _ hx)) h
    exact ⟨.cons halike hrest, h⟩

end Equation

theorem Fields.get_eq_of_encoding {f g : Fields} : ∀ {ks : List FieldKey},
    ks.flatMap (Encoding.field f) = ks.flatMap (Encoding.field g) → ∀ k ∈ ks, f.get k = g.get k
  | [], _ => by simp
  | k :: ks, h => by
    simp only [List.flatMap_cons, Encoding.field, List.append_assoc] at h
    obtain ⟨hk, h⟩ := Encoding.integer_append_inj (List.append_cancel_left h)
    intro l hl
    rcases List.mem_cons.1 hl with rfl | hl
    · exact hk
    · exact get_eq_of_encoding h l hl

namespace Spec

variable {s t : Spec}

/-- Equal bytes are the bytes of equations that are drawn alike on the same surface. -/
theorem alike_of_encoding_eq (hs : ∀ e ∈ s.equations, e.Admissible)
    (ht : ∀ e ∈ t.equations, e.Admissible) (fs : s.Fits) (ft : t.Fits)
    (h : encoding s.equations s.fields = encoding t.equations t.fields) :
    List.Forall₂ Equation.Alike s.equations t.equations ∧ s.fields = t.fields := by
  simp only [encoding, List.append_assoc] at h
  obtain ⟨hl, h⟩ := Encoding.count_append_inj fs.length ft.length (List.append_cancel_left h)
  obtain ⟨halike, h⟩ := Equation.equations_append_inj hl
    (fun e he => ⟨hs e he, fs.equations e he⟩) (fun e he => ⟨ht e he, ft.equations e he⟩) h
  exact ⟨halike, Fields.ext_get fun k => Fields.get_eq_of_encoding h k k.mem_all⟩

theorem encoding_eq_of_alike (h : List.Forall₂ Equation.Alike s.equations t.equations)
    (hf : s.fields = t.fields) :
    encoding s.equations s.fields = encoding t.equations t.fields := by
  have hflat : ∀ {ds es : List Equation}, List.Forall₂ Equation.Alike ds es →
      ds.flatMap Encoding.equation = es.flatMap Encoding.equation := by
    intro ds es h
    induction h with
    | nil => rfl
    | cons hd _ ih => rw [List.flatMap_cons, List.flatMap_cons, hd.encoding_eq, ih]
  rw [encoding, encoding, h.length_eq, hflat h, hf]

theorem request_eq_of_alike (h : List.Forall₂ Equation.Alike s.equations t.equations)
    (hf : s.fields = t.fields) : s.request = t.request := by
  have hcommands : s.equations.map Equation.command = t.equations.map Equation.command := by
    rw [← List.forall₂_eq_eq_eq, List.forall₂_map_left_iff, List.forall₂_map_right_iff]
    exact h.imp fun _ _ => Equation.Alike.command_eq
  have hprint : s.fingerprint = t.fingerprint := by
    rw [s.fingerprint_eq, t.fingerprint_eq, fingerprintOf, fingerprintOf, encoding_eq_of_alike h hf]
  simp only [request, hcommands, hprint, hf]

/-- Specs that compiled have the same canonical bytes exactly if they have equally many equations,
one by one drawn alike, and the same settings, and then the renderer is asked for the same. -/
theorem encoding_eq_iff_alike {a b : String} (ha : Spec.parse a = .ok s) (hb : Spec.parse b = .ok t)
    (fs : s.Fits) (ft : t.Fits) :
    (encoding s.equations s.fields = encoding t.equations t.fields ↔
        s.equations.length = t.equations.length
          ∧ List.Forall₂ Equation.Alike s.equations t.equations
          ∧ ∀ k, s.fields.get k = t.fields.get k)
      ∧ (encoding s.equations s.fields = encoding t.equations t.fields →
          s.request = t.request) := by
  have halike := alike_of_encoding_eq (admissible_of_mem_equations ha)
    (admissible_of_mem_equations hb) fs ft
  refine ⟨⟨fun h => ?_, fun ⟨_, h, hf⟩ => encoding_eq_of_alike h (Fields.ext_get hf)⟩, fun h => ?_⟩
  · obtain ⟨hal, hf⟩ := halike h
    exact ⟨hal.length_eq, hal, fun k => by rw [hf]⟩
  · obtain ⟨hal, hf⟩ := halike h
    exact request_eq_of_alike hal hf

/-- Two blocks that are drawn alike, and so share their bytes and ask for the same. -/
theorem encoding_eq_iff_alike_red : ∃ s t : Spec,
    Spec.parse "y=x|a\x7d\x7bb|RED" = .ok s ∧ Spec.parse "width=600---y=x|red|a|b" = .ok t
      ∧ s.Fits ∧ t.Fits
      ∧ encoding s.equations s.fields = encoding t.equations t.fields ∧ s.request = t.request := by
  have fits : ∀ e : Equation, e.Fits → (ofContent [e] .default).Fits := fun e he =>
    ⟨by simp [ofContent], by simpa [ofContent] using he⟩
  let x : Equation := ⟨"y=x", none, some (.named .red), ["a\x7d\x7bb"]⟩
  let y : Equation := ⟨"y=x", none, some (.named .red), ["a", "b"]⟩
  have hx : x.Fits := ⟨by decide, by decide, by decide⟩
  have hy : y.Fits := ⟨by decide, by decide, by decide⟩
  have h := encoding_eq_iff_alike (s := ofContent [x] .default) (t := ofContent [y] .default)
    (a := "y=x|a\x7d\x7bb|RED") (b := "width=600---y=x|red|a|b") rfl rfl (fits x hx) (fits y hy)
  have henc := h.1.2 ⟨rfl, .cons ⟨rfl, rfl, rfl, rfl⟩ .nil, fun _ => rfl⟩
  exact ⟨_, _, rfl, rfl, fits x hx, fits y hy, henc, h.2 henc⟩

end Spec

end GraphBlock
