import GraphBlock.Files.Disk
import GraphBlock.Proofs.Text.Cut

/-!
# Places and paths

What a path leads to, and where a file or a directory may be made by it, are taken apart once
(`Disk.resolve_eq_ok_iff`, `Disk.writable_eq_ok_iff`, `Disk.vacant_eq_ok_iff`).  The place ends in
the last name of the path, unless that name is a step (`Disk.getLast?_of_resolve`,
`Disk.getLast?_of_writable`), and to join a path to another does not change its last name
(`Path.getLast?_names_join`).  A file that is on a disk after something was put there or removed was
there before, or it was put (`Disk.file_put`, `Disk.file_remove`).
-/

namespace GraphBlock

open Text

namespace Path

theorem getLast?_filter_of_ne_nil {ps : List (List Char)} {n : List Char} (hn : n ≠ [])
    (h : ps.getLast? = some n) : (ps.filter (· ≠ [])).getLast? = some n := by
  obtain ⟨front, rfl⟩ := List.getLast?_eq_some_iff.1 h
  rw [List.filter_append, List.filter_cons_of_pos (by simpa using hn), List.filter_nil,
    List.getLast?_concat]

/-- The names of a text that goes on without a slash, whatever goes on. -/
theorem exists_pieces (s : List Char) : ∃ (front : List (List Char)) (w : List Char),
    ∀ t, '/' ∉ t → pieces (· == '/') (s ++ t) = front ++ [w ++ t] := by
  have hone : ∀ t : List Char, '/' ∉ t → pieces (· == '/') t = [t] := fun t ht =>
    pieces_of_forall fun c hc => by
      have hne : c ≠ '/' := fun he => ht (he ▸ hc)
      simpa using hne
  induction s using List.reverseRecOn with
  | nil => exact ⟨[], [], fun t ht => by rw [List.nil_append, hone t ht]; rfl⟩
  | append_singleton s c ih =>
    obtain ⟨front, w, hw⟩ := ih
    by_cases hc : c = '/'
    · refine ⟨pieces (· == '/') s, [], fun t ht => ?_⟩
      rw [List.append_assoc, List.singleton_append, pieces_append_cons (by simpa using hc),
        hone t ht, List.nil_append]
    · refine ⟨front, w ++ [c], fun t ht => ?_⟩
      rw [List.append_assoc, List.append_assoc, List.singleton_append]
      exact hw (c :: t) (by simpa [Ne.symm hc] using ht)

theorem exists_getLast?_pieces (s : List Char) : ∃ w : List Char, ∀ t, '/' ∉ t →
    (pieces (· == '/') (s ++ t)).getLast? = some (w ++ t) := by
  obtain ⟨front, w, hw⟩ := exists_pieces s
  exact ⟨w, fun t ht => by rw [hw t ht, List.getLast?_concat]⟩

theorem getLast?_names_join (p q : Path) (hq : q.names ≠ []) :
    (p.join q).names.getLast? = q.names.getLast? := by
  have hcut : ∀ (a : List Char) (r : Path), r.text.toList = a ++ '/' :: q.text.toList →
      r.names.getLast? = q.names.getLast? := fun a r hr => by
    have hnames : r.names = ((pieces (· == '/') a).filter (· ≠ [])) ++ q.names := by
      simp only [names, rawNames]
      rw [hr, pieces_append_cons (by simp), List.filter_append]
    obtain ⟨front, n, hf⟩ := List.eq_nil_or_concat' q.names |>.resolve_left hq
    rw [hnames, hf, ← List.append_assoc, List.getLast?_concat, List.getLast?_concat]
  simp only [join]
  split
  · rfl
  · split
    · rename_i hl
      obtain ⟨a, ha⟩ := List.getLast?_eq_some_iff.1 (by simpa using hl)
      exact hcut a _ (by simp [ha])
    · exact hcut p.text.toList _ (by simp)

end Path

namespace Disk

variable {d : Disk} {p : Path} {q parent : Place} {e x : Entry} {n : List Char} {b : Bytes}

theorem entryAt?_set_of_ne {q r : Place} (h : q ≠ r) (e : Entry) :
    (d.set r e).entryAt? q = d.entryAt? q := by
  by_cases hq : q = []
  · simp [entryAt?, hq]
  · simp only [entryAt?, if_neg hq, set, find?_setIn, if_neg h]

/-- What a step up or nowhere leads to does not end in the name of the step. -/
theorem step_ok {place : Place} (h : d.step place n = .ok q) (hdot : n ≠ ['.'])
    (hup : n ≠ ['.', '.']) : q = place ++ [n] := by
  simp only [step] at h
  split at h
  · simp at h
  · simp at h
  · simp only [if_neg hdot, if_neg hup] at h
    split_ifs at h
    exact (Except.ok.inj h).symm

theorem walk_concat (start : Place) (ns : List (List Char)) :
    d.walk start (ns ++ [n]) = (d.walk start ns).bind fun place => d.step place n := by
  simp only [walk, List.foldlM_append, List.foldlM_cons, List.foldlM_nil]
  rcases List.foldlM d.step start ns with err | place
  · rfl
  · show (d.step place n >>= pure) = d.step place n
    exact bind_pure _

theorem resolve_eq_ok_iff : d.resolve p = .ok (q, x) ↔ checkPath p = .ok ()
    ∧ d.walk (d.start p) p.names = .ok q ∧ d.entryAt? q = some x
    ∧ (x ≠ .directory → p.endsInSlash = false) := by
  rw [resolve]
  rcases hc : checkPath p with err | u
  · simp [bind, Except.bind]
  · rcases hw : d.walk (d.start p) p.names with err | place
    · simp [bind, Except.bind]
    · simp only [bind, Except.bind, Except.ok.injEq, true_and]
      constructor
      · intro h
        split at h
        · cases h
        · rename_i he
          split_ifs at h with hs
          cases h
          exact ⟨rfl, he, fun _ => by simpa using hs⟩
        · rename_i he
          cases h
          exact ⟨rfl, he, fun h => absurd rfl h⟩
      · rintro ⟨rfl, he, hs⟩
        rcases x with b | _
        · simp [he, hs]
        · simp [he]

theorem read_eq_ok_iff : d.read p = .ok b ↔ ∃ q, d.resolve p = .ok (q, .file b) := by
  rw [read]
  rcases d.resolve p with err | ⟨q, b' | _⟩ <;> simp [bind, Except.bind]

/-- The last name of the path, and the directory that the other names lead to. -/
theorem slot_eq_ok_iff {occupied : IoError} : d.slot p occupied = .ok (parent, n) ↔
    checkPath p = .ok () ∧ p.names.getLast? = some n
      ∧ d.walk (d.start p) p.names.dropLast = .ok parent ∧ d.entryAt? parent = some .directory
      ∧ n ≠ ['.'] ∧ n ≠ ['.', '.'] := by
  rw [slot]
  rcases hc : checkPath p with err | u
  · simp [bind, Except.bind]
  · rcases hl : p.names.getLast? with _ | name
    · simp [bind, Except.bind]
    · rcases hw : d.walk (d.start p) p.names.dropLast with err | place
      · simp [bind, Except.bind]
      · simp only [bind, Except.bind, Except.ok.injEq, Option.some.injEq, true_and]
        constructor
        · intro h
          split at h
          · cases h
          · cases h
          · rename_i hp
            split_ifs at h with hdot
            cases h
            simp only [Bool.or_eq_true, decide_eq_true_eq, not_or] at hdot
            exact ⟨rfl, rfl, hp, hdot⟩
        · rintro ⟨rfl, rfl, hp, hdot, hup⟩
          simp [hp, hdot, hup]

/-- A write goes to the last name of the path, below the directory that the other names lead to. -/
theorem writable_eq_ok_iff : d.writable p = .ok q ↔ ∃ parent name,
    d.slot p .isADirectory = .ok (parent, name) ∧ p.endsInSlash = false
      ∧ (Utf8.encode name).length ≤ maxNameLength
      ∧ d.entryAt? (parent ++ [name]) ≠ some .directory ∧ q = parent ++ [name] := by
  rw [writable]
  rcases hslot : d.slot p .isADirectory with err | ⟨parent, name⟩
  · simp [bind, Except.bind]
  · simp only [bind, Except.bind, Except.ok.injEq, Prod.mk.injEq, ↓existsAndEq, true_and]
    constructor
    · intro h
      split_ifs at h with hs hlen
      split at h
      · cases h
      · rename_i hfree
        cases h
        exact ⟨by simpa using hs, Nat.not_lt.1 hlen, hfree, rfl⟩
    · rintro ⟨hs, hlen, hfree, rfl⟩
      simp only [hs, Nat.not_lt.2 hlen, Bool.false_eq_true, if_false]

/-- A directory is made at the last name of the path, if nothing is there. -/
theorem vacant_eq_ok_iff : d.vacant p = .ok q ↔ ∃ parent name,
    d.slot p .alreadyExists = .ok (parent, name) ∧ (Utf8.encode name).length ≤ maxNameLength
      ∧ d.entryAt? (parent ++ [name]) = none ∧ q = parent ++ [name] := by
  rw [vacant]
  rcases hslot : d.slot p .alreadyExists with err | ⟨parent, name⟩
  · simp [bind, Except.bind]
  · simp only [bind, Except.bind, Except.ok.injEq, Prod.mk.injEq, ↓existsAndEq, true_and]
    constructor
    · intro h
      split_ifs at h with hlen
      split at h
      · cases h
      · rename_i hfree
        cases h
        exact ⟨Nat.not_lt.1 hlen, hfree, rfl⟩
    · rintro ⟨hlen, hfree, rfl⟩
      simp only [Nat.not_lt.2 hlen, hfree, if_false]

theorem not_directory_of_writable (h : d.writable p = .ok q) :
    d.entryAt? q ≠ some .directory := by
  obtain ⟨parent, name, -, -, -, hfree, rfl⟩ := writable_eq_ok_iff.1 h
  exact hfree

theorem resolve_ok (h : d.resolve p = .ok (q, e)) :
    d.walk (d.start p) p.names = .ok q ∧ d.entryAt? q = some e := by
  obtain ⟨-, hw, he, -⟩ := resolve_eq_ok_iff.1 h
  exact ⟨hw, he⟩

theorem getLast?_of_resolve (h : d.resolve p = .ok (q, e)) (hn : p.names.getLast? = some n)
    (hdot : n ≠ ['.']) (hup : n ≠ ['.', '.']) : q.getLast? = some n := by
  obtain ⟨ns, hns⟩ := List.getLast?_eq_some_iff.1 hn
  have hw := (resolve_ok h).1
  rw [hns, walk_concat] at hw
  rcases hf : d.walk (d.start p) ns with err | place
  · simp [hf, Except.bind] at hw
  · rw [hf] at hw
    rw [step_ok hw hdot hup, List.getLast?_concat]

theorem getLast?_of_writable (h : d.writable p = .ok q) : q.getLast? = p.names.getLast? := by
  obtain ⟨parent, name, hslot, -, -, -, rfl⟩ := writable_eq_ok_iff.1 h
  obtain ⟨-, hl, -⟩ := slot_eq_ok_iff.1 hslot
  rw [hl, List.getLast?_concat]

theorem file_set {r : Place} (h : (d.set r e).entryAt? q = some (.file b)) :
    d.entryAt? q = some (.file b) ∨ q = r ∧ e = .file b := by
  by_cases hq : q = r
  · subst hq
    by_cases hroot : q = []
    · simp [entryAt?, hroot] at h
    · rw [entryAt?_set d hroot, if_pos rfl] at h
      exact .inr ⟨rfl, Option.some.inj h⟩
  · rw [entryAt?_set_of_ne hq] at h
    exact .inl h

/-- The directories that a path lacks are made first. -/
theorem put_eq (d : Disk) (p : Path) (e : Entry) : ∃ d' : Disk,
    d'.workingDirectory = d.workingDirectory
      ∧ (∀ q b, d'.entryAt? q = some (.file b) → d.entryAt? q = some (.file b))
      ∧ (d.put p e = d' ∨ d.put p e = d'.set (d.placeOf p) e) := by
  have hdirs : ∀ (ns : List Nat) (d' : Disk), ∃ d'' : Disk,
      ns.foldl (fun d' n => if (d'.entryAt? ((d.placeOf p).take n)).isSome then d'
        else d'.set ((d.placeOf p).take n) .directory) d' = d''
      ∧ d''.workingDirectory = d'.workingDirectory
      ∧ ∀ q b, d''.entryAt? q = some (.file b) → d'.entryAt? q = some (.file b) := by
    intro ns
    induction ns with
    | nil => exact fun d' => ⟨d', rfl, rfl, fun _ _ h => h⟩
    | cons n ns ih =>
      intro d'
      obtain ⟨d'', he, hw, hf⟩ := ih (if (d'.entryAt? ((d.placeOf p).take n)).isSome then d'
        else d'.set ((d.placeOf p).take n) .directory)
      refine ⟨d'', he, hw.trans ?_, fun q b h => ?_⟩
      · split <;> rfl
      · have h := hf q b h
        split at h
        · exact h
        · exact (file_set h).resolve_right fun hr => by simp at hr
  obtain ⟨d', he, hw, hf⟩ := hdirs (List.range (d.placeOf p).length) d
  refine ⟨d', hw, hf, ?_⟩
  simp only [put, he]
  split
  · exact .inl rfl
  · exact .inr rfl

theorem file_put (h : (d.put p e).entryAt? q = some (.file b)) :
    d.entryAt? q = some (.file b) ∨ d.placeOf p = q ∧ e = .file b := by
  obtain ⟨d', -, hf, he⟩ := put_eq d p e
  rcases he with he | he <;> rw [he] at h
  · exact .inl (hf q b h)
  · rcases file_set h with h | ⟨rfl, rfl⟩
    · exact .inl (hf q b h)
    · exact .inr ⟨rfl, rfl⟩

theorem file_remove {r : Place} (h : (d.remove r).entryAt? q = some (.file b)) :
    d.entryAt? q = some (.file b) := by
  by_cases hq : q = []
  · simp [entryAt?, hq] at h
  · simp only [entryAt?, if_neg hq, remove, List.find?_filter, Option.map_eq_some_iff] at h ⊢
    obtain ⟨x, hx, hb⟩ := h
    refine ⟨x, ?_, hb⟩
    obtain ⟨hp, as, bs, hl, has⟩ := List.find?_eq_some_iff_append.1 hx
    simp only [beq_iff_eq, Bool.not_eq_true', decide_eq_true_eq] at hp
    refine List.find?_eq_some_iff_append.2 ⟨by simpa using hp.2, as, bs, hl, fun y hy => ?_⟩
    have hy' := has y hy
    by_cases hyq : y.1 = q
    · rw [hyq, ← hp.2, hp.1] at hy'
      simp at hy'
    · simpa using hyq

@[simp] theorem workingDirectory_put (d : Disk) (p : Path) (e : Entry) :
    (d.put p e).workingDirectory = d.workingDirectory := by
  obtain ⟨d', hw, -, he | he⟩ := put_eq d p e <;> rw [he]
  · exact hw
  · exact hw

theorem placeOf_congr {d d' : Disk} (h : d.workingDirectory = d'.workingDirectory) (p : Path) :
    d.placeOf p = d'.placeOf p := by
  simp only [placeOf, start, h]

end Disk

end GraphBlock
