import GraphBlock.Proofs.Render.Single
import GraphBlock.Proofs.Render.Turns

/-!
# A batch is its specs rendered independently

In whichever turns a batch is rendered, a spec gives the image that was found for it before, or else
its reply (`Served.verdict_eq`), and what the batch leaves depends on the specs only
(`batch_spec`).  Specs of different fingerprints are answered and kept as if they were rendered one
after the other (`inTurn_eq`).
-/

namespace GraphBlock

open Disk

namespace Session

variable {cache : CacheService} {root : Path} {reply : String → Outcome} {k₀ : Holdings}
  {store : Option CacheStore} {specs specs' : List Spec}

/-- What a spec of this fingerprint gives by itself: the image that is found for it, or else its
reply. -/
def expected (store : Option CacheStore) (reply : String → Outcome) (k : Holdings) (f : String) :
    Except RenderError Bytes :=
  match CacheStore.found? store k.1 k.2 f with
  | some b => .ok b
  | none => replied f (reply f)

theorem Served.verdict_eq {fs : List String} {f : String} {r : RenderResult}
    (h : Served store reply k₀ fs f r) : verdict r = expected store reply k₀ f := by
  cases h with
  | found h =>
    rw [expected, h]
    rfl
  | replied h =>
    rw [expected, h]
    cases reply f <;> rfl
  | shared h hr =>
    rw [expected, h, hr]
    rfl

/-- A spec without an equal one is answered as if it were the only one. -/
theorem Served.eq_answer {fs : List String} {f : String} {r : RenderResult}
    (h : Served store reply k₀ fs f r) (hnodup : fs.Nodup) :
    r = (answer store reply k₀ k₀ f).1 := by
  cases h with
  | found h | replied h => rw [answer, h]
  | shared h hr hdup => exact absurd hnodup hdup.not_nodup

theorem Apart.perm (h : Apart cache specs) (hperm : specs.Perm specs') : Apart cache specs' :=
  fun hon hloc => ((hperm.map _).nodup_iff).1 (h hon hloc)

theorem mem_missing_of_perm (h : specs.Perm specs') (f : String) :
    f ∈ missing store k₀ specs ↔ f ∈ missing store k₀ specs' :=
  ((h.map _).filter _).mem_iff

theorem slash_not_mem_missing {f : String} (h : f ∈ missing store k₀ specs) : '/' ∉ f.toList := by
  obtain ⟨spec, -, rfl⟩ := List.mem_map.1 (List.mem_filter.1 h).1
  exact spec.slash_not_mem_fingerprint

/-- Specs whose fingerprints differ from each other and from those that were replied before are
answered in turn as if each were the only one. -/
theorem inTurn_eq (cache : CacheService) (root : Path) (reply : String → Outcome) (k₀ : Holdings) :
    ∀ (specs : List Spec) (ended : List String), (∀ f ∈ ended, '/' ∉ f.toList) →
    (∀ spec ∈ specs, spec.fingerprint ∉ ended) → (specs.map Spec.fingerprint).Nodup →
    inTurn cache reply (specs.map fun spec => (spec, root))
        (fillAll (cache.store? root) reply ended k₀)
      = (specs.map fun spec => (answer (cache.store? root) reply k₀ k₀ spec.fingerprint).1,
        fillAll (cache.store? root) reply (ended ++ missing (cache.store? root) k₀ specs) k₀)
  | [], ended, _, _, _ => by
    rw [show missing (cache.store? root) k₀ [] = [] from rfl, List.append_nil]
    rfl
  | spec :: specs, ended, hslash, hnew, hnodup => by
    rw [List.map_cons, List.nodup_cons] at hnodup
    have hmem : spec.fingerprint ∉ ended := hnew spec List.mem_cons_self
    have hrest : ∀ other ∈ specs, other.fingerprint ∉ ended := fun other hother =>
      hnew other (List.mem_cons_of_mem _ hother)
    have hfound := (alike_fillAll cache root reply (k := k₀) spec.slash_not_mem_fingerprint hslash
      hmem).found?_eq spec.slash_not_mem_fingerprint root
    rw [List.map_cons, List.map_cons, inTurn, answer, hfound, answer]
    rcases hf : CacheStore.found? (cache.store? root) k₀.1 k₀.2 spec.fingerprint with _ | b
    · have hmissing : missing (cache.store? root) k₀ (spec :: specs)
          = spec.fingerprint :: missing (cache.store? root) k₀ specs :=
        List.filter_cons_of_pos (by simp [hf])
      have hslash' : ∀ f ∈ ended ++ [spec.fingerprint], '/' ∉ f.toList := by
        intro f hmem'
        rcases List.mem_append.1 hmem' with hmem' | hmem'
        · exact hslash f hmem'
        · rw [List.mem_singleton.1 hmem']
          exact spec.slash_not_mem_fingerprint
      have hrest' : ∀ other ∈ specs, other.fingerprint ∉ ended ++ [spec.fingerprint] := by
        intro other hother hmem'
        rcases List.mem_append.1 hmem' with hmem' | hmem'
        · exact hrest other hother hmem'
        · exact hnodup.1 (List.mem_singleton.1 hmem' ▸ List.mem_map_of_mem hother)
      have ih := inTurn_eq cache root reply k₀ specs _ hslash' hrest' hnodup.2
      rw [fillAll_concat, List.append_assoc, List.singleton_append, ← hmissing] at ih
      dsimp only
      rw [result_fillAll _ _ spec.slash_not_mem_fingerprint hslash]
      exact congrArg (fun t => (_ :: t.1, t.2)) ih
    · have hmissing : missing (cache.store? root) k₀ (spec :: specs)
          = missing (cache.store? root) k₀ specs :=
        List.filter_cons_of_neg (by simp [hf])
      rw [hmissing]
      have ih := inTurn_eq cache root reply k₀ specs _ hslash hrest hnodup.2
      exact congrArg (fun t => (_ :: t.1, t.2)) ih

/-- The results of a batch that is rendered in these turns and whose requests all get a reply, and
what is held after it. -/
def batch (s : Session) (d : Disk) (root : Path) (reply : String → Outcome) (specs : List Spec)
    (turns : List Turn) : List (Option RenderResult) × Holdings :=
  let r := (s.renderAll specs root (fun f => some (reply f)) turns : StateM Disk _).run d
  (r.1.2.1, r.1.1.coordinator.images, r.2)

/-- The results of the same specs rendered one after the other, and what is held then. -/
def inOrder (s : Session) (d : Disk) (root : Path) (reply : String → Outcome) (specs : List Spec) :
    List (Option RenderResult) × Holdings :=
  let r := (s.serveAll reply (specs.map fun spec => (spec, root)) : StateM Disk _).run d
  (r.1.2, r.1.1.coordinator.images, r.2)

section Idle

variable {s : Session}

theorem batch_spec (h : Idle s) (d : Disk) (root : Path) (reply : String → Outcome)
    (hapart : Apart s.coordinator.cache specs) (turns : List Turn) :
    let store := s.coordinator.store? root
    let k₀ : Holdings := (s.coordinator.images, d)
    ∃ rs : List RenderResult, (batch s d root reply specs turns).1 = rs.map some
      ∧ List.Forall₂ (fun spec => Served store reply k₀ (specs.map Spec.fingerprint)
        spec.fingerprint) specs rs
      ∧ SameHoldings (batch s d root reply specs turns).2
        (fillAll store reply (missing store k₀ specs) k₀) :=
  renderAll_served (Router.serves_nil_iff.2 ⟨h.waiting, h.delivered⟩) h.channelOpen hapart rfl

theorem inOrder_eq (h : Idle s) (d : Disk) (root : Path) (reply : String → Outcome)
    (hnodup : (specs.map Spec.fingerprint).Nodup) :
    let store := s.coordinator.store? root
    let k₀ : Holdings := (s.coordinator.images, d)
    inOrder s d root reply specs
      = (specs.map fun spec => some (answer store reply k₀ k₀ spec.fingerprint).1,
        fillAll store reply (missing store k₀ specs) k₀) := by
  intro store k₀
  have hturns : inOrder s d root reply specs = Prod.map (List.map some) id
      (inTurn s.coordinator.cache reply (specs.map fun spec => (spec, root)) k₀) :=
    serveAll_inTurn h rfl
  have hturn : inTurn s.coordinator.cache reply (specs.map fun spec => (spec, root)) k₀
      = (specs.map fun spec => (answer store reply k₀ k₀ spec.fingerprint).1,
        fillAll store reply (missing store k₀ specs) k₀) :=
    inTurn_eq s.coordinator.cache root reply k₀ specs [] (by simp) (by simp) hnodup
  rw [hturns, hturn]
  exact congrArg (·, fillAll store reply (missing store k₀ specs) k₀) List.map_map

/-- A batch of an idle session, whose requests all get a reply, in whichever turns it is rendered.
Each spec gives the image that was found before the batch, or else its reply.  It comes from there
or from the renderer, or an equal spec kept it in memory meanwhile.  Another order of the specs, in
other turns, gives them the same in that order and leaves the same in the cache.  If no two
fingerprints are equal, all is as if the specs were rendered one after the other. -/
theorem renderAll_answers_independently (h : Idle s) (d : Disk) (root : Path)
    (reply : String → Outcome) (specs : List Spec) (hapart : Apart s.coordinator.cache specs)
    (turns : List Turn) :
    let store := s.coordinator.store? root
    let k₀ : Holdings := (s.coordinator.images, d)
    let verdicts := fun specs turns => (batch s d root reply specs turns).1.map (Option.map verdict)
    verdicts specs turns = specs.map (fun spec => some (expected store reply k₀ spec.fingerprint))
      ∧ List.Forall₂ (fun spec r => ∃ result, r = some result
          ∧ Served store reply k₀ (specs.map Spec.fingerprint) spec.fingerprint result) specs
        (batch s d root reply specs turns).1
      ∧ (∀ specs' turns', specs.Perm specs' →
        (specs.zip (verdicts specs turns)).Perm (specs'.zip (verdicts specs' turns'))
          ∧ SameHoldings (batch s d root reply specs turns).2
            (batch s d root reply specs' turns').2)
      ∧ ((specs.map Spec.fingerprint).Nodup →
        (batch s d root reply specs turns).1 = (inOrder s d root reply specs).1
          ∧ SameHoldings (batch s d root reply specs turns).2
            (inOrder s d root reply specs).2) := by
  intro store k₀ verdicts
  have hverdicts : ∀ {specs} turns, Apart s.coordinator.cache specs → verdicts specs turns
      = specs.map fun spec => some (expected store reply k₀ spec.fingerprint) := by
    intro specs turns hapart
    obtain ⟨rs, hrs, hserved, -⟩ := batch_spec h d root reply hapart turns
    show (batch s d root reply specs turns).1.map (Option.map verdict) = _
    rw [hrs, map_some_map, List.map_map]
    exact (map_eq_map_of_forall₂ (hserved.imp fun spec r hr =>
      congrArg some hr.verdict_eq.symm)).symm
  obtain ⟨rs, hrs, hserved, hheld⟩ := batch_spec h d root reply hapart turns
  refine ⟨hverdicts turns hapart, ?_, fun specs' turns' hperm => ⟨?_, ?_⟩, fun hnodup => ⟨?_, ?_⟩⟩
  · rw [hrs, List.forall₂_map_right_iff]
    exact hserved.imp fun spec r hr => ⟨r, rfl, hr⟩
  · have hzip : ∀ specs : List Spec, specs.zip (specs.map fun spec =>
        some (expected store reply k₀ spec.fingerprint)) = specs.map fun spec =>
          (spec, some (expected store reply k₀ spec.fingerprint)) := fun specs => by
      rw [List.zip, List.zipWith_map_right, List.zipWith_self]
    rw [hverdicts turns hapart, hverdicts turns' (hapart.perm hperm), hzip, hzip]
    exact hperm.map _
  · obtain ⟨-, -, -, hheld'⟩ := batch_spec h d root reply (hapart.perm hperm) turns'
    have hsame : SameHoldings (fillAll store reply (missing store k₀ specs) k₀)
        (fillAll store reply (missing store k₀ specs') k₀) :=
      fillAll_of_mem_iff s.coordinator.cache root reply (fun f hf => slash_not_mem_missing hf)
        (mem_missing_of_perm hperm) k₀
    exact hheld.trans (hsame.trans hheld'.symm)
  · rw [hrs, inOrder_eq h d root reply hnodup]
    exact (map_eq_map_of_forall₂ (hserved.imp fun spec r hr =>
      congrArg some (hr.eq_answer hnodup).symm)).symm
  · rw [inOrder_eq h d root reply hnodup]
    exact hheld

/-- Of two equal specs, the second looks for its image after the first has kept it. -/
theorem renderAll_answers_independently_two :
    let s := new ⟨⟨true, .memory, none⟩, "", ⟨"/tmp"⟩⟩ "a"
    let spec := Spec.ofContent [] .default
    let reply := fun _ => Outcome.success [137]
    Idle s ∧ Apart s.coordinator.cache [spec, spec]
      ∧ (batch s ⟨[], []⟩ ⟨"/"⟩ reply [spec, spec] [.render 0, .render 0, .reply spec.fingerprint,
          .render 0]).1.map (Option.map verdict) = [some (.ok [137]), some (.ok [137])] := by
  intro s spec reply
  have h : Idle s := idle_new _ _
  have hapart : Apart s.coordinator.cache [spec, spec] := fun _ hloc => by simp [s, new] at hloc
  exact ⟨h, hapart, (renderAll_answers_independently h ⟨[], []⟩ ⟨"/"⟩ reply [spec, spec] hapart
    [.render 0, .render 0, .reply spec.fingerprint, .render 0]).1⟩

end Idle

end Session

end GraphBlock
