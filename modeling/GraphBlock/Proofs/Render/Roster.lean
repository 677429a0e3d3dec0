import GraphBlock.Proofs.Render.Running
import Mathlib.Data.List.Sort

/-!
# Who runs after each step

What an event delivers to a render in flight is one expression (`heard`), and what is there for the
render afterwards is what was there before, or that (`Accounted.outcome?_eq`).  From it the running
renders of a fingerprint are told step by step: a start adds the new render if it waits
(`Accounted.running_start`), to abort takes one off (`Accounted.running_abort`), and a batch leaves
none if it gets a reply for the fingerprint (`Accounted.running_renderAll`).  A completion that no
running render waits for changes nothing at all (`Accounted.dispatch_unheard`).
-/

namespace GraphBlock.Session

open Disk Stage

variable {P : String → Outcome → Prop} {s s' : Session} {d d' : Disk} {g : String}
  {e : Event} {a : Option Answer} {p : PendingRender}

/-- What is replied to the requests of a fingerprint that were submitted. -/
def replyTo (reply : String → Option Outcome) (submitted : List String) (g : String) :
    Option Outcome :=
  if g ∈ submitted then reply g else none

/-- What an event delivers to the renders of a fingerprint. -/
def heard (origin g : String) : Event → Option Answer → Option Outcome
  | .step (.dispatch c), _ | .deliver c, _ =>
    if c.origin = origin ∧ c.fingerprint = g then some c.outcome else none
  | .step (.renderAll _ _ reply), some (.rendered _ submitted) => replyTo reply submitted g
  | _, _ => none

theorem heard_of_completion {origin : String} {c : Completion} (he : e.completion? = some c) :
    heard origin g e a
      = if c.origin = origin ∧ c.fingerprint = g then some c.outcome else none := by
  cases e with
  | step x =>
    cases x with
    | dispatch c' =>
      cases he
      rfl
    | start | abort | close | renderAll => cases he
  | deliver c' =>
    cases he
    rfl
  | poll | put | remove => cases he

/-- A render waits if the channel is open and no image is found for it. -/
def Waits (s : Session) (c : Coordinator) (d : Disk) (root : Path) (spec : Spec) (st : Started) :
    Prop :=
  (∀ p, render? st = some p → p.fingerprint = spec.fingerprint ∧ p.store = c.store? root)
    ∧ ((render? st).isSome = true ↔ s.channelOpen = true
      ∧ CacheStore.found? (c.store? root) c.images d spec.fingerprint = none)

theorem coordinator_start_waits {c c' : Coordinator} {spec : Spec} {root : Path} {st : Started}
    (h : (c.start s.submit spec root : StateM Disk _).run d = ((c', st), d')) :
    Waits s c d root spec st := by
  obtain ⟨rfl, ⟨image, hf, -, rfl⟩ | ⟨hf, ⟨hsub, -, rfl⟩ | ⟨err, hsub, -, rfl⟩⟩⟩ :=
    Coordinator.run_start h
  · simp [Waits, render?, hf]
  · have hopen : s.channelOpen = true := by
      by_contra hno
      rw [submit, if_neg hno] at hsub
      cases hsub
    simp [Waits, render?, hf, hopen]
  · have hclosed : s.channelOpen ≠ true := fun hopen => by
      rw [submit, if_pos hopen] at hsub
      cases hsub
    simp [Waits, render?, hclosed]

theorem start_waits {spec : Spec} {root : Path} {st : Started}
    (h : (s.start spec root : StateM Disk _).run d = ((s', st), d')) :
    Waits s s.coordinator d root spec st := by
  obtain ⟨⟨c, st'⟩, d₁, hs, h⟩ := run_bind_eq.1 h
  cases h
  exact coordinator_start_waits hs

theorem startAll_waits {root : Path} : ∀ (specs : List Spec) {c c' : Coordinator} {d d' : Disk}
    {batch : List Started} {asked : List String},
    (s.startAll c root (specs.map .queued) : StateM Disk _).run d = ((c', batch, asked), d') →
      List.Forall₂ (Waits s c d root) specs batch
  | [], c, c', d, d', batch, asked, h => by
    cases h
    exact .nil
  | spec :: specs, c, c', d, d', batch, asked, h => by
    obtain ⟨⟨c₁, st, as⟩, d₁, h₁, h⟩ := run_bind_eq.1 h
    obtain ⟨⟨c₂, rest, bs⟩, d₂, h₂, h⟩ := run_bind_eq.1 h
    cases h
    obtain ⟨⟨c₁', st'⟩, d₁', h₁, h⟩ := run_bind_eq.1 h₁
    cases h
    obtain ⟨-, rfl, hi, hc, -⟩ := start_moves h₁ []
    refine .cons (coordinator_start_waits h₁) ((startAll_waits specs h₂).imp fun spec st hst => ?_)
    rwa [Waits, Coordinator.store?, hi, hc, ← Coordinator.store?] at hst

/-- Only to close the channel closes it. -/
theorem Happens.channelOpen_eq (h : Happens s d e s' a d') (he : e ≠ .step .close) :
    s'.channelOpen = s.channelOpen := by
  cases h with
  | start spec root hs =>
    obtain ⟨⟨c, st⟩, d₁, -, hs⟩ := run_bind_eq.1 hs
    cases hs
    rfl
  | dispatch c hs | deliver c hs =>
    simp only [Session.dispatch] at hs
    split_ifs at hs
    · cases hs
      rfl
    · obtain ⟨⟨c, renders, ended⟩, d₁, -, hs⟩ := run_bind_eq.1 hs
      cases hs
      rfl
  | poll f hs =>
    obtain ⟨⟨c, renders, ended⟩, d₁, -, hs⟩ := run_bind_eq.1 hs
    cases hs
    rfl
  | abort i =>
    rw [Session.abort]
    split <;> rfl
  | close => exact absurd rfl he
  | renderAll specs root reply hs =>
    obtain ⟨b, d₁, -, hs⟩ := run_bind_eq.1 hs
    obtain ⟨⟨c, batch, asked⟩, d₂, -, hs⟩ := run_bind_eq.1 hs
    obtain ⟨⟨c', results⟩, d₃, -, hs⟩ := run_bind_eq.1 hs
    cases hs
    rfl
  | put path entry | remove path => rfl

theorem getElem?_abort (s : Session) (i j : Nat) :
    (s.abort i).1.renders[j]? = if i = j then s.renders[j]?.map (fun x => (x.1, none))
      else s.renders[j]? := by
  rcases hi : s.renders[i]? with _ | ⟨f, _ | p⟩
  · simp only [abort, hi]
    split_ifs with hij
    · rw [← hij, hi]
      rfl
    · rfl
  · simp only [abort, hi]
    split_ifs with hij
    · rw [← hij, hi]
      rfl
    · rfl
  · simp only [abort, hi, List.getElem?_set]
    split_ifs with hij hlt
    · rw [← hij, hi]
      rfl
    · exact absurd (List.getElem?_eq_some_iff.1 hi).1 hlt
    · rfl

theorem images_abort (s : Session) (i : Nat) :
    (s.abort i).1.coordinator.images = s.coordinator.images := by
  rw [abort]
  split <;> rfl

theorem length_abort (s : Session) (i : Nat) :
    (s.abort i).1.renders.length = s.renders.length := by
  rw [abort]
  split
  · exact List.length_set
  · rfl

theorem pairwise_running (s : Session) (g : String) : (s.running g).Pairwise (· < ·) := by
  refine List.Pairwise.sublist (List.filter_sublist.map _) ?_
  rw [List.zipIdx_map_snd]
  exact List.pairwise_lt_range'

/-- The list of the running renders is told by who runs. -/
theorem running_eq {l : List Nat} (hl : l.Pairwise (· < ·)) (h : ∀ i, i ∈ s.running g ↔ i ∈ l) :
    s.running g = l :=
  List.Pairwise.eq_of_mem_iff (pairwise_running s g) hl fun i => h i

theorem lt_of_mem_running {i : Nat} (hi : i ∈ s.running g) : i < s.renders.length := by
  obtain ⟨p, hp, -⟩ := mem_running.1 hi
  exact (List.getElem?_eq_some_iff.1 hp).1

namespace Accounted

/-- A completion that is not trusted, or that no running render waits for, changes nothing. -/
theorem dispatch_unheard (h : Accounted P s d) {c : Completion} {late : Bool}
    (hc : c.origin ≠ s.coordinator.router.origin ∨ s.running c.fingerprint = []) :
    (s.dispatch c late : StateM Disk _).run d = ((s, 0, []), d) := by
  have hr : s.coordinator.router.dispatch c = (s.coordinator.router, 0) := by
    refine h.routed.serves.tidy.dispatch_of_unheard fun ho => ?_
    have hrun := hc.resolve_left (not_not_intro ho)
    refine List.length_eq_zero_iff.1 ((h.pending_eq c.fingerprint).trans ?_)
    rw [hrun, List.length_nil]
  simp only [Session.dispatch, hr]
  rfl

/-- What is there for a render that stays in flight: what was there, or what the event delivers. -/
theorem outcome?_eq (h : Accounted P s d) (he : Happens s d e s' a d')
    (hp : (g, some p) ∈ s.renders) (hp' : (g, some p) ∈ s'.renders) :
    s'.coordinator.router.outcome? p.listener = (s.coordinator.router.outcome? p.listener).or
      (heard s.coordinator.router.origin g e a) := by
  have hs := inFlight_of_mem hp
  have hs' := inFlight_of_mem hp'
  have hkey := h.key g p hp
  cases he with
  | start spec root hstart =>
    have hm := (start_spec hstart).1
    exact (hm.outcome?_eq h.routed hs hs').trans Option.or_none.symm
  | dispatch c hd | deliver c hd =>
    obtain ⟨-, hm, -⟩ := dispatch_spec hd h.routed
    have hout := h.outcome?_dispatch hs c
    rw [hkey] at hout
    exact (hm.outcome?_eq ⟨h.routed.serves.dispatch c, h.routed.key⟩ hs hs').trans hout
  | poll f hp =>
    have hm := (poll_spec hp h.routed).1
    exact (hm.outcome?_eq h.routed hs hs').trans Option.or_none.symm
  | abort j =>
    refine Eq.trans ?_ Option.or_none.symm
    rcases abort_spec s j with hsame | ⟨f, q, as, bs, -, hfl, hfl', -, hc⟩
    · rw [hsame]
    · have hr := h.routed
      rw [stage, hfl] at hr
      rw [hfl'] at hs'
      rw [hc]
      exact hr.outcome?_release hs'
  | renderAll specs root reply hb =>
    obtain ⟨c, batch, hb⟩ := renderAll_spec hb h.routed
    have hmem : p ∈ s.inFlight ++ batch.filterMap render? := List.mem_append_left _ hs
    have hlisten := hb.outcome?_listen h.routed hmem
    rw [hb.began.outcome?_eq h.routed hs hmem, hkey] at hlisten
    exact (hb.ended.outcome?_eq (hb.listened h.routed) hmem hs').trans hlisten
  | close | put path entry | remove path => exact Option.or_none.symm

/-- Nothing is there yet for a render that begins to wait. -/
theorem outcome?_start (h : Accounted P s d) {spec : Spec} {root : Path} {request : PlotRequest}
    (hs : (s.start spec root : StateM Disk _).run d = ((s', .waiting p request), d')) :
    s'.coordinator.router.outcome? p.listener = none := by
  obtain ⟨⟨c, st⟩, d₁, hc, hs⟩ := run_bind_eq.1 hs
  cases hs
  obtain ⟨rfl, ⟨image, -, -, hst⟩ | ⟨-, ⟨-, rfl, hst⟩ | ⟨err, -, -, hst⟩⟩⟩ :=
    Coordinator.run_start hc <;> cases hst
  exact h.routed.serves.outcome?_register spec.fingerprint

theorem running_start (h : Accounted P s d) {spec : Spec} {root : Path} {st : Started}
    (hs : (s.start spec root : StateM Disk _).run d = ((s', st), d')) (g : String) :
    s'.running g = s.running g ++ if spec.fingerprint = g ∧ (render? st).isSome then
      [s.renders.length] else [] := by
  obtain ⟨hm, hrenders, -, -, -⟩ := start_spec hs
  refine running_eq ?_ fun i => ?_
  · split_ifs
    · refine List.pairwise_append.2 ⟨pairwise_running s g, List.pairwise_singleton _ _, ?_⟩
      intro i hi j hj
      exact List.mem_singleton.1 hj ▸ lt_of_mem_running hi
    · rw [List.append_nil]
      exact pairwise_running s g
  rw [List.mem_append, mem_running, mem_running, hrenders]
  rcases Nat.lt_trichotomy i s.renders.length with hlt | rfl | hgt
  · have hnew : i ∉ if spec.fingerprint = g ∧ (render? st).isSome then [s.renders.length]
        else [] := by
      split_ifs
      · simpa using Nat.ne_of_lt hlt
      · exact List.not_mem_nil
    rw [or_iff_left hnew, List.getElem?_append_left hlt]
    refine exists_congr fun p => and_congr_right fun hi => ?_
    have hmem := List.mem_of_getElem? hi
    have hout := h.outcome?_eq (.start spec root hs) hmem
      (hrenders ▸ List.mem_append_left _ hmem)
    rw [hout.trans Option.or_none]
  · rw [List.getElem?_concat_length, List.getElem?_eq_none (Nat.le_refl _)]
    rcases st with r | ⟨p, request⟩
    · simp [render?]
    · have hnone := h.outcome?_start hs
      by_cases hg : spec.fingerprint = g <;> simp [render?, hg, hnone]
  · have hnone : (s.renders ++ [(spec.fingerprint, render? st)])[i]? = none := by
      refine List.getElem?_eq_none ?_
      rw [List.length_append]
      exact hgt
    rw [hnone, List.getElem?_eq_none (Nat.le_of_lt hgt)]
    split_ifs
    · simpa using Nat.ne_of_gt hgt
    · simp

theorem running_abort (h : Accounted P s d) (i : Nat) (g : String) :
    (s.abort i).1.running g = (s.running g).filter (· ≠ i) := by
  refine running_eq (pairwise_running s g |>.filter _) fun j => ?_
  rw [List.mem_filter, mem_running, mem_running, getElem?_abort]
  by_cases hij : i = j
  · simp [hij]
  · rw [if_neg hij, and_iff_left (by simpa using Ne.symm hij)]
    refine exists_congr fun p => and_congr_right fun hj => ?_
    have hj' : (s.abort i).1.renders[j]? = some (g, some p) := by
      rw [getElem?_abort, if_neg hij, hj]
    have hout := h.outcome?_eq (.abort i) (List.mem_of_getElem? hj) (List.mem_of_getElem? hj')
    rw [hout.trans Option.or_none]

theorem length_running_abort (h : Accounted P s d) (i : Nat) (g : String) :
    ((s.abort i).1.running g).length + (if i ∈ s.running g then 1 else 0)
      = (s.running g).length := by
  have hnodup : (s.running g).Nodup := (pairwise_running s g).imp Nat.ne_of_lt
  have herase : (s.abort i).1.running g = (s.running g).erase i := by
    rw [h.running_abort, hnodup.erase_eq_filter]
    exact List.filter_congr fun j _ => by simp [bne, beq_eq_decide]
  rw [herase, List.length_erase]
  split_ifs with hi
  · exact Nat.sub_add_cancel (List.length_pos_of_mem hi)
  · rfl

/-- A batch that gets a reply for a fingerprint leaves none of its renders running, and any other
batch leaves them as they are. -/
theorem running_renderAll (h : Accounted P s d) {specs : List Spec} {root : Path}
    {reply : String → Option Outcome} {results : List (Option RenderResult)}
    {submitted : List String}
    (hs : (s.renderAll specs root reply : StateM Disk _).run d = ((s', results, submitted), d'))
    (g : String) :
    s'.running g = if (replyTo reply submitted g).isSome then [] else s.running g := by
  obtain ⟨c, batch, hb⟩ := renderAll_spec hs h.routed
  have hout : ∀ {i : Nat} {p : PendingRender}, s.renders[i]? = some (g, some p) →
      s'.coordinator.router.outcome? p.listener
        = (s.coordinator.router.outcome? p.listener).or (replyTo reply submitted g) :=
    fun {i p} hi => by
      have hmem := List.mem_of_getElem? hi
      exact h.outcome?_eq (.renderAll specs root reply hs) hmem (hb.renders ▸ hmem)
  rcases hr : replyTo reply submitted g with _ | o
  · show s'.running g = s.running g
    refine running_eq (pairwise_running s g) fun i => ?_
    rw [mem_running, mem_running, hb.renders]
    refine exists_congr fun p => and_congr_right fun hi => ?_
    rw [hout hi, hr, Option.or_none]
  · refine running_eq .nil fun i => iff_of_false ?_ List.not_mem_nil
    rw [mem_running, hb.renders]
    rintro ⟨p, hi, hnone⟩
    rw [hout hi, hr, Option.or_eq_none_iff] at hnone
    cases hnone.2

end Accounted

/-- A batch submits a request for a fingerprint if the channel is open and no image is found. -/
theorem mem_submitted_iff {specs : List Spec} {root : Path} {reply : String → Option Outcome}
    {results : List (Option RenderResult)} {submitted : List String} (hr : (s.stage d).Routed)
    (hs : (s.renderAll specs root reply : StateM Disk _).run d = ((s', results, submitted), d')) :
    g ∈ submitted ↔ s.channelOpen = true ∧ g ∈ specs.map Spec.fingerprint
      ∧ CacheStore.found? (s.coordinator.store? root) s.coordinator.images d g = none := by
  obtain ⟨c, batch, hb, hstart, -⟩ := renderAll_runs hs hr
  have hwaits := startAll_waits specs hstart
  rw [hb.requests, List.mem_map]
  constructor
  · rintro ⟨p, hp, rfl⟩
    obtain ⟨st, hst, hrender⟩ := List.mem_filterMap.1 hp
    obtain ⟨spec, hspec, hkey, hiff⟩ := exists_of_mem_forall₂ hwaits hst
    obtain ⟨hopen, hmiss⟩ := hiff.1 (by rw [hrender]; rfl)
    rw [(hkey p hrender).1]
    exact ⟨hopen, List.mem_map_of_mem hspec, hmiss⟩
  · rintro ⟨hopen, hg, hmiss⟩
    obtain ⟨spec, hspec, rfl⟩ := List.mem_map.1 hg
    obtain ⟨st, hst, hkey, hiff⟩ := exists_of_forall₂_mem hwaits hspec
    obtain ⟨p, hp⟩ := Option.isSome_iff_exists.1 (hiff.2 ⟨hopen, hmiss⟩)
    exact ⟨p, List.mem_filterMap.2 ⟨st, hst, hp⟩, (hkey p hp).1⟩

end GraphBlock.Session
