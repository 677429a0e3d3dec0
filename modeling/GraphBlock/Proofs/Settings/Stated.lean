import GraphBlock.Proofs.Toml.Sheet
import GraphBlock.Settings.Document

/-!
# Documents that state some of the settings

`Settings.sheet` is the document that states the settings under some of the keys.  Whoever reads a
document that states these settings, however it is written, gets their values, and the defaults for
the keys that are left out (`Settings.ofEntries?_of_isStatedBy`).  The sheet of all keys is what
`Settings.toToml` writes (`Settings.toSheet_eq`), so the settings are read back from it by every
library that reads back what it writes (`Settings.ofToml?_toToml`).
-/

namespace GraphBlock

open Toml

/-- The keys that settings have in a document. -/
inductive SettingsKey where
  | filePrefix
  | enabled
  | location
  | directory
  | origin
  deriving DecidableEq, Repr

def SettingsKey.name : SettingsKey → String
  | filePrefix => "file_prefix"
  | enabled => "enabled"
  | location => "location"
  | directory => "directory"
  | origin => "origin"

theorem SettingsKey.name_injective : Function.Injective name := by
  intro k l h
  cases k <;> cases l <;> first | rfl | simp [name] at h

namespace Settings

variable (s : Settings) (ks : SettingsKey → Bool)

/-- The value under a key.  A directory that is not set has none. -/
def value? : SettingsKey → Option Value
  | .filePrefix => some (.string s.filePrefix)
  | .enabled => some (.boolean s.cache.enabled)
  | .location => some (.string s.cache.location.name)
  | .directory => s.cache.directory.map fun p => .string p.text
  | .origin => some (.string s.renderer.origin)

/-- The line of a key that is one of `ks`. -/
def line? (k : SettingsKey) : Option Line :=
  if ks k then (s.value? k).map (k.name, ·) else none

def lines (keys : List SettingsKey) : List Line :=
  keys.filterMap (s.line? ks)

/-- What a document states that has the values under the keys `ks`. -/
def sheet : Sheet :=
  ⟨s.lines ks [.filePrefix],
    [("cache", s.lines ks [.enabled, .location, .directory]), ("renderer", s.lines ks [.origin])]⟩

/-- The values under the keys `ks`, and the defaults for all others. -/
def only : Settings :=
  ⟨if ks .filePrefix then s.filePrefix else Settings.default.filePrefix,
    ⟨if ks .enabled then s.cache.enabled else CacheSettings.default.enabled,
      if ks .location then s.cache.location else CacheSettings.default.location,
      if ks .directory then s.cache.directory else CacheSettings.default.directory⟩,
    ⟨if ks .origin then s.renderer.origin else RendererSettings.default.origin⟩⟩

theorem only_all : s.only (fun _ => true) = s := rfl

section Lines

variable {s ks} {k : SettingsKey} {keys : List SettingsKey} {es : Entries}

theorem name_of_line? {l : Line} (h : s.line? ks k = some l) : l.1 = k.name := by
  rw [line?] at h
  split_ifs at h
  obtain ⟨v, -, rfl⟩ := Option.map_eq_some_iff.1 h
  rfl

theorem lines_cons_none (h : s.line? ks k = none) : s.lines ks (k :: keys) = s.lines ks keys :=
  List.filterMap_cons_none h

theorem lines_cons_some {l : Line} (h : s.line? ks k = some l) :
    s.lines ks (k :: keys) = l :: s.lines ks keys :=
  List.filterMap_cons_some h

theorem sublist_lines : ∀ keys : List SettingsKey,
    ((s.lines ks keys).map Prod.fst).Sublist (keys.map SettingsKey.name)
  | [] => .slnil
  | k :: keys => by
    rcases hl : s.line? ks k with _ | l
    · rw [lines_cons_none hl]
      exact (sublist_lines keys).cons _
    · rw [lines_cons_some hl, List.map_cons, name_of_line? hl]
      exact (sublist_lines keys).cons_cons _

theorem lookup_lines (k : SettingsKey) : ∀ keys : List SettingsKey,
    (entriesOf (s.lines ks keys)).lookup k.name
      = if k ∈ keys then (s.line? ks k).map fun l => l.2.node else none
  | [] => rfl
  | k' :: keys => by
    have ih := lookup_lines k keys
    rcases hl : s.line? ks k' with _ | l
    · rw [lines_cons_none hl, ih]
      by_cases hk : k = k'
      · simp [hk, hl]
      · simp [hk]
    · rw [lines_cons_some hl]
      have hname := name_of_line? hl
      by_cases hk : k = k'
      · simp [entriesOf, hk, hl, hname]
      · have hne : k.name ≠ l.1 := fun h => hk (SettingsKey.name_injective (h.trans hname))
        rw [entriesOf, List.map_cons, ← entriesOf, List.lookup_cons, beq_eq_false_iff_ne.2 hne]
        simp [ih, hk]

theorem lookup_lines_of_not_mem {name : String} (h : name ∉ keys.map SettingsKey.name) :
    (entriesOf (s.lines ks keys)).lookup name = none := by
  refine lookup_of_not_mem fun hm => ?_
  rw [map_fst_entriesOf] at hm
  exact h ((sublist_lines keys).subset hm)

theorem othersReadable_of_lookup {names : List String}
    (h : ∀ name ∉ names, es.lookup name = none) :
    (Members.named es).othersReadable names = true := by
  refine List.all_eq_true.2 fun e he => ?_
  by_cases hn : e.1 ∈ names
  · simp [hn]
  · exact absurd rfl (bne_iff_ne.1 (List.lookup_eq_none_iff.1 (h e.1 hn) e he))

/-- What is read under a key that the table may have a line for. -/
theorem read_line {α : Type} {a default : α} {read : Node → Option α} (hk : k ∈ keys)
    (hes : es.lookup k.name = (entriesOf (s.lines ks keys)).lookup k.name) (place : Nat)
    (hread : (s.value? k).elim (default = a) fun v => read v.node = some a) :
    (Members.named es).read k.name place default read = some (if ks k then a else default) := by
  rw [Members.read, Members.get?, hes, lookup_lines, if_pos hk, line?]
  by_cases hks : ks k = true
  · rcases hv : s.value? k with _ | v
    · rw [hv] at hread
      simpa [hks] using hread
    · rw [hv] at hread
      simpa [hks] using hread
  · simp [hks]

end Lines

section Reading

variable {s ks} {es root : Entries}

theorem ofName?_name (l : CacheLocation) : CacheLocation.ofName? l.name = some l := by
  cases l <;> rfl

theorem cache_ofNode? (kind : TableKind) (hes : ∀ name, es.lookup name
      = (entriesOf (s.lines ks [.enabled, .location, .directory])).lookup name) :
    CacheSettings.ofNode? (.table kind es) = some (s.only ks).cache := by
  have hothers : (Members.named es).othersReadable ["enabled", "location", "directory"] = true :=
    othersReadable_of_lookup fun name hn => (hes name).trans (lookup_lines_of_not_mem hn)
  have henabled : (Members.named es).read "enabled" 0 CacheSettings.default.enabled boolean?
      = some (s.only ks).cache.enabled :=
    read_line (k := .enabled) (by simp) (hes _) 0 rfl
  have hlocation : (Members.named es).read "location" 1 CacheSettings.default.location
      CacheLocation.ofNode? = some (s.only ks).cache.location :=
    read_line (k := .location) (by simp) (hes _) 1 (ofName?_name _)
  have hdirectory : (Members.named es).read "directory" 2 none
      (fun n => (string? n).map fun s => some ⟨s⟩) = some (s.only ks).cache.directory :=
    read_line (k := .directory) (by simp) (hes _) 2
      (by rw [value?]; cases s.cache.directory <;> rfl)
  simp only [CacheSettings.ofNode?, Members.ofNode?, Option.bind_eq_bind, Option.bind_some,
    hothers, guard, if_true, henabled, hlocation, hdirectory]
  rfl

theorem renderer_ofNode? (kind : TableKind)
    (hes : ∀ name, es.lookup name = (entriesOf (s.lines ks [.origin])).lookup name) :
    RendererSettings.ofNode? (.table kind es) = some (s.only ks).renderer := by
  have hothers : (Members.named es).othersReadable ["origin"] = true :=
    othersReadable_of_lookup fun name hn => (hes name).trans (lookup_lines_of_not_mem hn)
  have horigin : (Members.named es).read "origin" 0 RendererSettings.default.origin string?
      = some (s.only ks).renderer.origin :=
    read_line (k := .origin) (by simp) (hes _) 0 rfl
  simp only [RendererSettings.ofNode?, Members.ofNode?, Option.bind_eq_bind, Option.bind_some,
    hothers, guard, if_true, horigin]
  rfl

/-- What is read of a section, which may be missing. -/
theorem read_section {α : Type} {a default : α} {read : Node → Option α} {name : String}
    {ls : List Line} (place : Nat) (h : IsSection ls (root.lookup name))
    (hread : ∀ kind es, (∀ key, es.lookup key = (entriesOf ls).lookup key) →
      read (.table kind es) = some a)
    (hempty : read (.table .header []) = some default) :
    (Members.named root).read name place default read = some a := by
  rw [Members.read, Members.get?]
  rcases h with ⟨kind, es, hn, hes⟩ | ⟨hn, rfl⟩
  · rw [hn]
    exact hread kind es hes
  · rw [hn]
    exact hempty.symm.trans (hread .header [] fun _ => rfl)

/-- Who reads a document gets the values that it states, and the defaults for the rest. -/
theorem ofEntries?_of_isStatedBy (h : (s.sheet ks).IsStatedBy root) :
    ofEntries? root = some (s.only ks) := by
  have hothers : (Members.named root).othersReadable ["file_prefix", "cache", "renderer"]
      = true := by
    refine othersReadable_of_lookup fun name hn => ?_
    simp only [List.mem_cons, List.not_mem_nil, or_false, not_or] at hn
    rw [h.top name (by simpa [sheet] using hn.2)]
    exact lookup_lines_of_not_mem (by simpa [SettingsKey.name] using hn.1)
  have hprefix : (Members.named root).read "file_prefix" 0 Settings.default.filePrefix string?
      = some (s.only ks).filePrefix :=
    read_line (k := .filePrefix) List.mem_cons_self
      (h.top _ (by simp [sheet, SettingsKey.name])) 0 rfl
  have hcache : (Members.named root).read "cache" 1 .default CacheSettings.ofNode?
      = some (s.only ks).cache :=
    read_section 1 (h.sections _ List.mem_cons_self) (fun kind _ => cache_ofNode? kind) rfl
  have hrenderer : (Members.named root).read "renderer" 2 .default RendererSettings.ofNode?
      = some (s.only ks).renderer :=
    read_section 2 (h.sections _ (List.mem_cons_of_mem _ List.mem_cons_self))
      (fun kind _ => renderer_ofNode? kind) rfl
  simp only [ofEntries?, Option.bind_eq_bind, Option.bind_some, hothers, guard, if_true, hprefix,
    hcache, hrenderer]
  rfl

end Reading

section Writing

theorem isBare_name (k : SettingsKey) : IsBare k.name := by
  cases k <;> exact ⟨by decide, List.all_eq_true.1 (by rfl)⟩

variable {s ks}

theorem isBare_of_mem_lines {keys : List SettingsKey} {name : String}
    (h : name ∈ (s.lines ks keys).map Prod.fst) : IsBare name := by
  obtain ⟨k, -, rfl⟩ := List.mem_map.1 ((sublist_lines keys).subset h)
  exact isBare_name k

theorem exists_lines_of_mem_sections {t : String × List Line} (h : t ∈ (s.sheet ks).sections) :
    ∃ keys, t.2 = s.lines ks keys ∧ (keys.map SettingsKey.name).Nodup := by
  have hsections : t = ("cache", s.lines ks [.enabled, .location, .directory])
    ∨ t = ("renderer", s.lines ks [.origin]) := by simpa [sheet] using h
  rcases hsections with rfl | rfl
  · exact ⟨_, rfl, by decide⟩
  · exact ⟨_, rfl, by decide⟩

theorem sheet_proper (s : Settings) (ks : SettingsKey → Bool) : (s.sheet ks).Proper where
  bare := by
    intro k hk
    rcases List.mem_append.1 hk with hk | hk
    · exact isBare_of_mem_lines hk
    · have hsections : k = "cache" ∨ k = "renderer" := by simpa [sheet] using hk
      rcases hsections with rfl | rfl <;> exact ⟨by decide, List.all_eq_true.1 (by rfl)⟩
  distinct := by
    have hsub : ((s.lines ks [.filePrefix]).map Prod.fst ++ ["cache", "renderer"]).Sublist
        ["file_prefix", "cache", "renderer"] := (sublist_lines [.filePrefix]).append (.refl _)
    exact List.Nodup.sublist hsub (by decide)
  bareIn := by
    intro t ht k hk
    obtain ⟨keys, hlines, -⟩ := exists_lines_of_mem_sections ht
    exact isBare_of_mem_lines (hlines ▸ hk)
  distinctIn := by
    intro t ht
    obtain ⟨keys, hlines, hd⟩ := exists_lines_of_mem_sections ht
    exact hlines ▸ hd.sublist (sublist_lines keys)

theorem toSheet_eq (s : Settings) : s.toSheet = s.sheet fun _ => true := by
  rcases s with ⟨filePrefix, ⟨enabled, location, _ | p⟩, origin⟩ <;> rfl

variable {lib : Library} {text : String} {root : Entries}

theorem ofToml?_of_isStatedBy (hread : lib.read text = some root)
    (h : (s.sheet ks).IsStatedBy root) : ofToml? text lib = some (s.only ks) := by
  rw [ofToml?, hread]
  exact ofEntries?_of_isStatedBy h

theorem ofToml?_toToml (hlib : lib.ReadsBack) (s : Settings) :
    ofToml? (s.toToml lib) lib = some s := by
  obtain ⟨root, hread, h⟩ := hlib _ (s.sheet_proper fun _ => true)
  rw [toToml, toSheet_eq, ofToml?_of_isStatedBy hread h, only_all]

end Writing

end Settings

end GraphBlock
