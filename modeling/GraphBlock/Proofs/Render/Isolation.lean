import GraphBlock.Proofs.Cache.Nested
import GraphBlock.Proofs.Render.Due
import GraphBlock.Proofs.Render.Outline

/-!
# Renders of different graphs do not interfere

From a run of single steps delete what does not concern a fingerprint: the starts of other specs,
the aborts of their renders, the completions for other fingerprints and those of an untrusted origin
(`Session.about`).  Everything else is answered as before, up to the numbers of the renders, and
after each step as many renders of the fingerprint wait and the same images are found for it
(`Session.renders_do_not_interfere`).  Where files are kept and their prefix has a slash in it, this
is so but for the system's reason beside an image that could not be kept
(`Session.renders_interfere_below_prefix`).

The outline of the run that is left mirrors that of the whole run in what concerns the fingerprint
(`Mirrors`): a deleted step keeps this (`Mirrors.skip`), and so does a step taken in both, with the
same answer (`Mirrors.follow`).
-/

namespace GraphBlock

open Disk

namespace Session

open Stage

namespace Single

/-- Whether a step concerns a fingerprint, after renders of the fingerprints `fs`. -/
def concerns (origin f : String) (fs : List String) : Single → Bool
  | start spec _ => spec.fingerprint = f
  | dispatch c => c.origin = origin ∧ c.fingerprint = f
  | abort i => fs[i]?.all fun g => g = f
  | close => true

/-- The step as it is where there are no renders of other fingerprints. -/
def renumber (f : String) (fs : List String) : Single → Single
  | abort i => .abort (rank f fs i)
  | x => x

/-- The fingerprints of the renders after a step. -/
def started (fs : List String) : Single → List String
  | start spec _ => fs ++ [spec.fingerprint]
  | _ => fs

end Single

/-- The steps of a run that concern a fingerprint. -/
def about (origin f : String) : List String → List Single → List Single
  | _, [] => []
  | fs, x :: xs =>
    if x.concerns origin f fs then x.renumber f fs :: about origin f (x.started fs) xs
    else about origin f (x.started fs) xs

/-- What is to be seen of a fingerprint after a step: the answer to it, how many listeners wait, and
what a look-up finds with each root. -/
structure Report where
  answer : Answer
  pending : Nat
  cached : Path → Option Bytes

def Report.seen (g : RenderResult → RenderResult) (r : Nat → Nat) (x : Report) : Report :=
  { x with answer := x.answer.seen g r }

def report (f : String) (s : Session) (d : Disk) (a : Answer) : Report where
  answer := a
  pending := s.coordinator.router.pending f
  cached root :=
    CacheStore.found? (some (s.coordinator.cache.storeFor root)) s.coordinator.images d f

/-- The reports on a fingerprint after each step of a run. -/
def watch (f : String) (s : Session) (d : Disk) : List Single → List Report
  | [] => []
  | x :: xs =>
    let t := (s.step x.step : StateM Disk _).run d
    report f t.1.1 t.2 t.1.2 :: watch f t.1.1 t.2 xs

/-- The reports on the steps that concern a fingerprint, with the renders numbered as if there were
no others. -/
def pick (origin f : String) : List String → List Single → List Report → List Report
  | fs, x :: xs, r :: rs =>
    if x.concerns origin f fs then r.seen id (rank f fs) :: pick origin f (x.started fs) xs rs
    else pick origin f (x.started fs) xs rs
  | _, _, _ => []

section Simulation

variable {cache : CacheService} {origin f g : String} {o p : Outline}
  {see : RenderResult → RenderResult}

/-- What renders are in flight fills the stores of the cache service. -/
def Stocked (cache : CacheService) (v : Slots) : Prop :=
  ∀ g store, (g, some store) ∈ v → '/' ∉ g.toList ∧ ∃ root, store = cache.store? root

theorem Stocked.step (h : Stocked cache o.slots) (x : Single) :
    Stocked cache (o.step cache origin x).1.slots := by
  intro g store hg
  cases x with
  | start spec root =>
    rcases List.mem_append.1 hg with hg | hg
    · exact h g store hg
    · obtain ⟨rfl, hs⟩ := Prod.mk.inj (List.mem_singleton.1 hg)
      refine ⟨spec.slash_not_mem_fingerprint, root, ?_⟩
      rw [Outline.start] at hs
      split at hs
      · cases hs
      · split_ifs at hs
        exact Option.some.inj hs
  | dispatch c =>
    rw [Outline.step] at hg
    split_ifs at hg
    · exact h g store (Slots.mem_of_mem_vacateAll hg)
    · exact h g store hg
  | abort i => exact h g store (Slots.mem_of_mem_modify _ _ hg)
  | close => exact h g store hg

theorem fingerprints_step (cache : CacheService) (origin : String) (o : Outline) (x : Single) :
    (o.step cache origin x).1.slots.map Prod.fst = x.started (o.slots.map Prod.fst) := by
  cases x with
  | start spec root => exact List.map_append
  | dispatch c =>
    rw [Outline.step]
    split_ifs
    · exact Slots.map_fst_vacateAll _ _
    · rfl
  | abort i => exact Slots.map_fst_modify _ _
  | close => rfl

/-- Renders of the fingerprint end alike wherever what is held for it is the same. -/
theorem endings_alike (hsee : cache.Impartial see) (hf : '/' ∉ f.toList) (outcome : Outcome)
    (r : Nat → Nat) : ∀ (xs : List (Nat × Option CacheStore)) {k l : Holdings},
      (∀ x ∈ xs, ∃ root, x.2 = cache.store? root) → cache.Alike f k l →
        (outcome.endings f (xs.map fun x => (r x.1, x.2)) l).1.map (fun e => (e.1, see e.2))
            = (outcome.endings f xs k).1.map (fun e => (r e.1, see e.2))
          ∧ cache.Alike f (outcome.endings f xs k).2
            (outcome.endings f (xs.map fun x => (r x.1, x.2)) l).2
  | [], k, l, _, h => ⟨rfl, h⟩
  | (i, store) :: xs, k, l, hxs, h => by
    obtain ⟨root, rfl⟩ := hxs _ List.mem_cons_self
    obtain ⟨hends, hheld⟩ := endings_alike hsee hf outcome r xs
      (fun x hx => hxs x (List.mem_cons_of_mem _ hx)) (h.filled root outcome)
    refine ⟨?_, hheld⟩
    have hresult := hsee hf h.directories root outcome
    simp only [List.map_cons, Outcome.endings]
    rw [hresult, hends]

/-- What concerns the fingerprint is the same in both outlines. -/
structure Mirrors (cache : CacheService) (f : String) (o p : Outline) : Prop where
  stocked : Stocked cache o.slots
  slots : p.slots = o.slots.only f
  channelOpen : p.channelOpen = o.channelOpen
  holdings : cache.Alike f o.holdings p.holdings

namespace Mirrors

variable {x : Single}

theorem stocked_held (h : Mirrors cache f o p) (g : String) :
    ∀ x ∈ o.slots.held g, '/' ∉ g.toList ∧ ∃ root, x.2 = cache.store? root := fun x hx =>
  h.stocked g x.2 (Slots.mem_of_mem_held hx)

theorem skip (hf : '/' ∉ f.toList) (h : Mirrors cache f o p)
    (hx : x.concerns origin f (o.slots.map Prod.fst) = false) :
    Mirrors cache f (o.step cache origin x).1 p := by
  have hstocked : Stocked cache (o.step cache origin x).1.slots := h.stocked.step x
  cases x with
  | start spec root =>
    have hne : spec.fingerprint ≠ f := of_decide_eq_false hx
    refine ⟨hstocked, ?_, h.channelOpen, h.holdings⟩
    simp [Outline.step, Slots.only, h.slots, hne]
  | dispatch c =>
    have hne : ¬(c.origin = origin ∧ c.fingerprint = f) := of_decide_eq_false hx
    rw [Outline.step] at hstocked ⊢
    split_ifs with ho
    · have hg : f ≠ c.fingerprint := fun hg => hne ⟨ho, hg.symm⟩
      refine ⟨?_, ?_, h.channelOpen, ?_⟩
      · rwa [if_pos ho] at hstocked
      · rw [Slots.only_vacateAll, if_neg (Ne.symm hg), h.slots]
      · have hends := endDue_alike_of_ne hf hg ((o.slots.held c.fingerprint).map fun x =>
          (x.1, x.2, c.outcome)) o.holdings fun x hx => by
            obtain ⟨y, hy, rfl⟩ := List.mem_map.1 hx
            exact h.stocked_held c.fingerprint y hy
        rw [← c.outcome.endings_eq_endDue] at hends
        exact hends.trans h.holdings
    · exact h
  | abort i =>
    have hother : ∀ y, o.slots[i]? = some y → y.1 ≠ f := fun y hy hyf => by
      simp [Single.concerns, hy, hyf] at hx
    refine ⟨hstocked, ?_, h.channelOpen, h.holdings⟩
    exact h.slots.trans (Slots.modify_only_of_ne f _ i hother).symm
  | close => cases hx

theorem start_eq (hf : '/' ∉ f.toList) (h : Mirrors cache f o p) {spec : Spec} {root : Path}
    (hspec : spec.fingerprint = f) : p.start cache spec root = o.start cache spec root := by
  subst hspec
  simp only [Outline.start, h.channelOpen, h.holdings.found?_eq hf]

theorem follow (hsee : cache.Impartial see) (hf : '/' ∉ f.toList) (h : Mirrors cache f o p)
    (hx : x.concerns origin f (o.slots.map Prod.fst)) :
    Mirrors cache f (o.step cache origin x).1
        (p.step cache origin (x.renumber f (o.slots.map Prod.fst))).1
      ∧ (p.step cache origin (x.renumber f (o.slots.map Prod.fst))).2.seen see id
        = (o.step cache origin x).2.seen see (rank f (o.slots.map Prod.fst)) := by
  have hstocked : Stocked cache (o.step cache origin x).1.slots := h.stocked.step x
  cases x with
  | start spec root =>
    have hspec : spec.fingerprint = f := of_decide_eq_true hx
    have hlen : p.slots.length = rank f (o.slots.map Prod.fst) o.slots.length := by
      rw [h.slots, rank_of_length_le (Nat.le_of_eq (List.length_map _)), Slots.count_fst]
    have hstart : p.start cache spec root = o.start cache spec root := h.start_eq hf hspec
    refine ⟨⟨hstocked, ?_, h.channelOpen, h.holdings⟩, ?_⟩
    · simp [Single.renumber, Outline.step, Slots.only, h.slots, hspec, hstart]
    · simp only [Single.renumber, Outline.step, Answer.seen, hstart, hlen, id]
  | dispatch c =>
    obtain ⟨ho, rfl⟩ : c.origin = origin ∧ c.fingerprint = f := of_decide_eq_true hx
    have hheld : p.slots.held c.fingerprint = (o.slots.held c.fingerprint).map fun x =>
        (rank c.fingerprint (o.slots.map Prod.fst) x.1, x.2) := by
      rw [h.slots, Slots.held_only]
    have hends := endings_alike hsee hf c.outcome (rank c.fingerprint (o.slots.map Prod.fst)) _
      (fun x hx => (h.stocked_held c.fingerprint x hx).2) h.holdings
    rw [← hheld] at hends
    simp only [Single.renumber, Outline.step, if_pos ho] at hstocked ⊢
    refine ⟨⟨hstocked, ?_, h.channelOpen, hends.2⟩, ?_⟩
    · rw [Slots.only_vacateAll, if_pos rfl, h.slots]
    · have hlen : (p.slots.held c.fingerprint).length = (o.slots.held c.fingerprint).length := by
        rw [hheld, List.length_map]
      simp only [Answer.seen, hlen]
      exact congrArg (Answer.dispatched _) hends.1
  | abort i =>
    have hown : ∀ y, o.slots[i]? = some y → y.1 = f := fun y hy => by
      simpa [Single.concerns, hy] using hx
    refine ⟨⟨hstocked, ?_, h.channelOpen, h.holdings⟩, ?_⟩
    · exact (congrArg _ h.slots).trans (Slots.modify_only f _ i hown).symm
    · simp only [Single.renumber, Outline.step, Answer.seen, h.slots,
        Slots.getElem?_only f _ i hown]
  | close => exact ⟨⟨hstocked, h.slots, rfl, h.holdings⟩, rfl⟩

end Mirrors

end Simulation

section Interference

variable {cache : CacheService} {origin f : String} {see : RenderResult → RenderResult}

theorem watch_cons {s s' : Session} {d d' : Disk} {x : Single} {a : Answer}
    (h : (s.step x.step : StateM Disk _).run d = ((s', a), d')) (xs : List Single) :
    watch f s d (x :: xs) = report f s' d' a :: watch f s' d' xs := by
  rw [watch, h]

theorem pick_seen (g : RenderResult → RenderResult) {fs : List String} {x : Single}
    (hx : x.concerns origin f fs) (xs : List Single) (y : Report) (ys : List Report) :
    (pick origin f fs (x :: xs) (y :: ys)).map (Report.seen g id)
      = y.seen g (rank f fs) :: (pick origin f (x.started fs) xs ys).map (Report.seen g id) := by
  rw [pick, if_pos hx, List.map_cons, Report.seen, Report.seen, Answer.seen_seen]
  rfl

theorem report_eq {s t : Session} {d e : Disk} {a b : Answer} {r : Nat → Nat}
    (hf : '/' ∉ f.toList) (hs : Plain cache origin s d) (ht : Plain cache origin t e)
    (h : Mirrors cache f (s.outline d) (t.outline e))
    (hab : b.seen see id = a.seen see r) :
    (report f t e b).seen see id = (report f s d a).seen see r := by
  have hpending : t.coordinator.router.pending f = s.coordinator.router.pending f := by
    rw [ht.unanswered.pending_eq_slots, hs.unanswered.pending_eq_slots, ← held_view, ← held_view]
    have hslots : t.view = s.view.only f := h.slots
    rw [hslots, Slots.held_only, List.length_map]
  have hcached := fun root => (h.holdings.found?_storeFor hf root).symm
  simp only [Report.seen, report, hab, hpending, hs.cache_eq, ht.cache_eq]
  exact congrArg (Report.mk _ _) (funext hcached)

/-- The reports on the run that is left, from states of which one mirrors the other. -/
theorem watch_about (hsee : cache.Impartial see) (hf : '/' ∉ f.toList) :
    ∀ (steps : List Single) {s t : Session} {d e : Disk},
    Plain cache origin s d → Plain cache origin t e → Mirrors cache f (s.outline d) (t.outline e) →
    ∀ fs, fs = (s.outline d).slots.map Prod.fst →
      (watch f t e (about origin f fs steps)).map (Report.seen see id)
        = (pick origin f fs steps (watch f s d steps)).map (Report.seen see id)
  | [], s, t, d, e, _, _, _, fs, _ => rfl
  | x :: xs, s, t, d, e, hs, ht, h, fs, hfs => by
    rcases hx : (s.step x.step : StateM Disk _).run d with ⟨⟨s', a⟩, d'⟩
    obtain ⟨hs', hstep⟩ := hs.step hx
    have hfs' : x.started fs = (s'.outline d').slots.map Prod.fst := by
      have hall := fingerprints_step cache origin (s.outline d) x
      rw [hstep, ← hfs] at hall
      exact hall.symm
    rw [watch_cons hx, about]
    by_cases hc : x.concerns origin f fs
    · rcases hy : (t.step (x.renumber f fs).step : StateM Disk _).run e with ⟨⟨t', b⟩, e'⟩
      obtain ⟨ht', hstep'⟩ := ht.step hy
      obtain ⟨hmirrors, hanswer⟩ := h.follow hsee hf (hfs ▸ hc)
      rw [← hfs, hstep, hstep'] at hmirrors hanswer
      simp only [Answer.seen_seen, Function.comp_id] at hanswer
      rw [if_pos hc, watch_cons hy, pick_seen _ hc, List.map_cons,
        watch_about hsee hf xs hs' ht' hmirrors _ hfs', report_eq hf hs' ht' hmirrors hanswer]
    · have hmirrors := h.skip hf (hfs ▸ eq_false_of_ne_true hc)
      rw [hstep] at hmirrors
      rw [if_neg hc, pick, if_neg hc]
      exact watch_about hsee hf xs hs' ht hmirrors _ hfs'

/-- A run without batches, and what is left of it when all is deleted that does not concern a
fingerprint: each step that is left is answered as in the whole run, and leaves as many listeners
and the same images for the fingerprint.  Where files are kept and their prefix has a slash in it,
the system may give another reason for a failed write.  A fingerprint has no slash in it; a text
with one may name the file of another fingerprint. -/
theorem renders_do_not_interfere (hf : '/' ∉ f.toList) (d : Disk) (steps : List Single) :
    let left := watch f (new cache origin) d (about origin f [] steps)
    let whole := pick origin f [] steps (watch f (new cache origin) d steps)
    left.map (Report.seen (Except.map Rendered.bare) id)
        = whole.map (Report.seen (Except.map Rendered.bare) id)
      ∧ (cache.Flat → left.map (Report.seen id id) = whole.map (Report.seen id id)) := by
  have hplain := plain_new cache origin d
  have hstart : Mirrors cache f ((new cache origin).outline d) ((new cache origin).outline d) :=
    ⟨fun _ _ hg => absurd hg List.not_mem_nil, rfl, rfl, .refl cache f _⟩
  exact ⟨watch_about cache.impartial_bare hf steps hplain hplain hstart [] rfl, fun hp =>
    watch_about (CacheService.impartial_id hp) hf steps hplain hplain hstart [] rfl⟩

/-- A completion from another origin makes no difference. -/
theorem renders_do_not_interfere_untrusted :
    let spec := Spec.ofContent [] .default
    let f := spec.fingerprint
    let cache : CacheService := ⟨⟨true, .memory, none⟩, "", ⟨"/tmp"⟩⟩
    let steps := [.start spec ⟨"/"⟩, .dispatch ⟨"b", f, .success [137]⟩, .abort 0]
    '/' ∉ f.toList ∧ cache.Flat
      ∧ about "a" f [] steps = [.start spec ⟨"/"⟩, .abort 0]
      ∧ (watch f (new cache "a") ⟨[], []⟩ [.start spec ⟨"/"⟩, .abort 0]).map (Report.seen id id)
        = (pick "a" f [] steps (watch f (new cache "a") ⟨[], []⟩ steps)).map
          (Report.seen id id) := by
  intro spec f cache steps
  have hf : '/' ∉ f.toList := spec.slash_not_mem_fingerprint
  have hp : cache.Flat := fun _ _ => by decide
  have habout : about "a" f [] steps = [.start spec ⟨"/"⟩, .abort 0] := by
    simp [steps, f, about, Single.concerns, Single.renumber, Single.started, rank]
  exact ⟨hf, hp, habout, habout ▸ (renders_do_not_interfere hf ⟨[], []⟩ steps).2 hp⟩

theorem Plain.answers : ∀ (xs : List Single) {s : Session} {d : Disk}, Plain cache origin s d →
    (watch f s d xs).map (fun r => r.answer.seen id id)
      = (s.outline d).answers cache origin xs
  | [], _, _, _ => rfl
  | x :: xs, s, d, h => by
    rcases hx : (s.step x.step : StateM Disk _).run d with ⟨⟨s', a⟩, d'⟩
    obtain ⟨h', hstep⟩ := h.step hx
    rw [watch_cons hx, List.map_cons, h'.answers xs, Outline.answers, hstep]
    rfl

/-- A spec that is rendered and kept, in the run before the start of the other. -/
def nestSteps (other spec : Spec) : List Single :=
  [.start other (nest other 0), .dispatch ⟨"a", other.fingerprint, .success [137]⟩,
    .start spec (nest other 1), .dispatch ⟨"a", spec.fingerprint, .success [137]⟩]

/-- The reason of a failed write before and after the other graph's image was kept. -/
theorem warnings_differ (spec other : Spec) :
    let store := (nestCache other).store? (nest other 1)
    let kept := CacheStore.kept ((nestCache other).store? (nest other 0)) other.fingerprint [137]
      (.empty, nestDisk other)
    CacheStore.warning? store spec.fingerprint (nestDisk other)
      ≠ CacheStore.warning? store spec.fingerprint kept.2 := by
  intro store kept h
  have hkept : kept.2 = (nestDisk other).set (nestPlace other 3) (.file [137]) := by
    have hplace := place_nestDisk other
    simp only [kept, store?_nestCache, CacheStore.kept, DirectoryCache.written, Nat.zero_add,
      hplace]
  have hfree : (nestDisk other).entryAt? (nestPlace other 3) = none :=
    entryAt?_nestDisk other (by simp [nestPlace])
  have hsame : SameDirectories (nestDisk other) kept.2 :=
    hkept ▸ (sameDirectories_set (by simp [hfree]) [137]).symm
  have hfile : kept.2.entryAt? (nestPlace other 3) = some (.file [137]) := by
    rw [hkept]
    exact entryAt?_set_concat _ (nestPlace other 2) _ _
  obtain ⟨path, hp⟩ := place_below_nestDisk other spec none (.refl _) hfree
  obtain ⟨path', hp'⟩ := place_below_nestDisk other spec (some [137]) hsame hfile
  simp only [store, store?_nestCache, CacheStore.warning?, hp, hp', Option.some.injEq,
    CacheError.ioFailure.injEq] at h
  exact absurd h.2 (by decide)

theorem watch_about_ne {spec other : Spec} (hne : spec.fingerprint ≠ other.fingerprint) :
    let cache := nestCache other
    let f := spec.fingerprint
    let steps := nestSteps other spec
    (watch f (new cache "a") (nestDisk other) (about "a" f [] steps)).map (Report.seen id id)
      ≠ (pick "a" f [] steps (watch f (new cache "a") (nestDisk other) steps)).map
        (Report.seen id id) := by
  intro cache f steps h
  have habout : about "a" f [] steps
      = [.start spec (nest other 1), .dispatch ⟨"a", f, .success [137]⟩] := by
    simp [steps, nestSteps, f, about, Single.concerns, Single.renumber, Ne.symm hne]
  have hplain := plain_new cache "a" (nestDisk other)
  have hf := spec.slash_not_mem_fingerprint
  have hmiss := cache.found?_of_no_file (not_file_nestDisk other)
  have halike : cache.Alike f (CacheStore.kept (cache.store? (nest other 0)) other.fingerprint [137]
      (.empty, nestDisk other)) (.empty, nestDisk other) :=
    CacheStore.kept_alike hf other.slash_not_mem_fingerprint hne
  have hmiss' := halike.found?_eq hf (nest other 1)
  obtain ⟨st, hleft⟩ := Outline.answers_served "a" spec [137] (v := [])
    (k := (.empty, nestDisk other)) (by simp) (hmiss (nest other 1) f) []
  obtain ⟨st₀, hfirst⟩ := Outline.answers_served "a" other [137] (v := [])
    (k := (.empty, nestDisk other)) (by simp) (hmiss (nest other 0) other.fingerprint)
    [.start spec (nest other 1), .dispatch ⟨"a", f, .success [137]⟩]
  obtain ⟨st₁, hsecond⟩ := Outline.answers_served "a" spec [137]
    (v := [(other.fingerprint, none)]) (by simp) (hmiss'.trans (hmiss _ _)) []
  rw [List.nil_append, hsecond] at hfirst
  rw [habout] at h
  have hl := (hplain.answers (f := f) _).trans hleft
  have hw := (hplain.answers (f := f) _).trans hfirst
  obtain ⟨l₀, ls, hls, hl₀, hl⟩ := List.map_eq_cons_iff.1 hl
  obtain ⟨l₁, ls, rfl, hl₁, hl⟩ := List.map_eq_cons_iff.1 hl
  obtain ⟨r₀, rs, hrs, hr₀, hw⟩ := List.map_eq_cons_iff.1 hw
  obtain ⟨r₁, rs, rfl, hr₁, hw⟩ := List.map_eq_cons_iff.1 hw
  obtain ⟨r₂, rs, rfl, hr₂, hw⟩ := List.map_eq_cons_iff.1 hw
  obtain ⟨r₃, rs, rfl, hr₃, -⟩ := List.map_eq_cons_iff.1 hw
  have hpick : pick "a" f [] steps (r₀ :: r₁ :: r₂ :: r₃ :: rs)
      = [r₂.seen id (rank f [other.fingerprint]), r₃.seen id (rank f [other.fingerprint, f])] := by
    simp [steps, nestSteps, f, pick, Single.concerns, Single.started, Ne.symm hne]
  have hwatch : watch f (new cache "a") (nestDisk other) steps = r₀ :: r₁ :: r₂ :: r₃ :: rs := hrs
  rw [hls, hwatch, hpick] at h
  obtain ⟨-, htail⟩ := List.cons.inj h
  have hlast : l₁.answer.seen id id
      = (r₃.answer.seen id (rank f [other.fingerprint, f])).seen id id :=
    congrArg Report.answer (List.cons.inj htail).1
  have hr₃ := congrArg (Answer.seen id (rank f [other.fingerprint, f])) hr₃
  rw [Answer.seen_seen] at hlast hr₃
  have hends := hl₁.symm.trans (hlast.trans hr₃)
  simp only [Answer.seen, List.map_cons, List.map_nil, id, Answer.dispatched.injEq,
    List.cons.injEq, Prod.mk.injEq, Except.ok.injEq, Rendered.mk.injEq] at hends
  exact warnings_differ spec other hends.2.1.2.2.2

/-- A prefix with a slash in it lets another graph be seen.  The image of `y=2x` comes to a file in
whose place the entry of `y=x` would need a directory.  Without that image there is nothing in this
place, and the warning beside the image of `y=x` gives another reason. -/
theorem renders_interfere_below_prefix :
    let spec := Spec.ofContent [.ofExpression "y=x"] .default
    let other := Spec.ofContent [.ofExpression "y=2x"] .default
    let f := spec.fingerprint
    let name := DirectoryCache.fileName ⟨⟨"/"⟩, "p"⟩ other.fingerprint
    let cache : CacheService :=
      ⟨⟨true, .filesystem, some ⟨name⟩⟩, name ++ "/" ++ "p", ⟨"/tmp"⟩⟩
    let d : Disk := ⟨[([name.toList], .directory), ([name.toList, name.toList], .directory)], []⟩
    let steps := [.start other ⟨"/"⟩, .dispatch ⟨"a", other.fingerprint, .success [137]⟩,
      .start spec (Path.join ⟨"/"⟩ ⟨name⟩), .dispatch ⟨"a", f, .success [137]⟩]
    '/' ∉ f.toList
      ∧ (watch f (new cache "a") d (about "a" f [] steps)).map (Report.seen id id)
        ≠ (pick "a" f [] steps (watch f (new cache "a") d steps)).map (Report.seen id id) := by
  intro spec other f name cache d steps
  have hne : f ≠ other.fingerprint := by decide +kernel
  exact ⟨spec.slash_not_mem_fingerprint, watch_about_ne hne⟩

end Interference

end Session

end GraphBlock
