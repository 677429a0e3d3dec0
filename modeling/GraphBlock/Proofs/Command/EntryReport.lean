import GraphBlock.Proofs.Cache.Backends
import GraphBlock.Proofs.Cache.OneFile
import GraphBlock.Proofs.Command.Reading

/-!
# The report on an entry

The report on an entry says that the image is cached if the path of the entry leads somewhere
(`Command.run_showCachePath`), where a lookup has to find a file.  So the report agrees with the
cache exactly if the path does not lead to a directory
(`Command.entryReport_agrees_iff_no_directory`); a directory in the place of the file is reported
as an image (`Command.directory_reported_as_cached`).
-/

namespace GraphBlock

open Disk

theorem CacheStore.run_lookup_eq_some_iff {s : CacheStore} {map : MemoryCache} {f : String}
    {d : Disk} {image : Bytes} : (s.lookup map f : StateM Disk _).run d = (some image, d) ↔
      CacheStore.found? (some s) map d f = some image := by
  have hrun : (s.lookup map f : StateM Disk _).run d = (CacheStore.found? (some s) map d f, d) := by
    rcases s with _ | dir
    · rfl
    · exact dir.run_lookup f d
  rw [hrun]
  exact ⟨fun h => (Prod.mk.inj h).1, fun h => by rw [h]⟩

/-- A render is served from the cache exactly if a lookup finds the image. -/
theorem Coordinator.start_hit_iff {c : Coordinator} {submit : PlotRequest → Except RenderError Unit}
    {spec : Spec} {root : Path} {d : Disk} (henabled : c.cache.settings.enabled = true) :
    (∃ image, (c.start submit spec root : StateM Disk _).run d
        = ((c, .done (.ok ⟨image, .cache, none⟩)), d)) ↔
      ∃ image, CacheStore.found? (some (c.cache.storeFor root)) c.images d spec.fingerprint
        = some image := by
  have hstore : c.store? root = some (c.cache.storeFor root) := if_pos henabled
  constructor
  · rintro ⟨image, hstart⟩
    obtain ⟨-, ⟨image', hfound, -, -⟩ | ⟨-, ⟨-, -, hst⟩ | ⟨e, -, -, hst⟩⟩⟩ := run_start hstart
    · exact ⟨image', hstore ▸ hfound⟩
    · cases hst
    · cases hst
  · rintro ⟨image, himage⟩
    rcases hstart : (c.start submit spec root : StateM Disk _).run d with ⟨⟨c', st⟩, d'⟩
    obtain ⟨rfl, ⟨image', -, rfl, rfl⟩ | ⟨hmiss, -⟩⟩ := run_start hstart
    · exact ⟨image', rfl⟩
    · rw [hstore, himage] at hmiss
      cases hmiss

namespace Command

variable {colors : Bool} {places : Surroundings} {settings : Settings} {input root : Path}
  {stdin : Bytes} {d : Disk} {spec : Spec}

/-- What is printed of an entry that has a file. -/
def entryReport (colors : Bool) (path : Path) (present : Bool) : String :=
  path.text ++ "\n" ++ (if present then paint colors .success "cached"
    else paint colors .warning "not cached") ++ "\n"

theorem entryReport_eq_true_iff {path : Path} {present : Bool} :
    entryReport colors path present = entryReport colors path true ↔ present = true := by
  cases present with
  | true => simp
  | false =>
    refine iff_of_false (fun h => ?_) Bool.false_ne_true
    have hword := congrArg String.toList h
    simp only [entryReport, String.toList_append, List.append_cancel_left_eq,
      List.append_cancel_right_eq] at hword
    cases colors <;> exact absurd hword (by decide)

theorem run_reportTarget (path : Path) : (reportTarget colors (.file path) : OnDisk _).run stdin d
    = (entryReport colors path (d.resolve path).isOk, d) := by
  rw [reportTarget, (OnDisk.reads_present path).run_bind, OnDisk.run_present]
  rfl

/-- The report asks whether the path of the entry leads anywhere. -/
theorem run_showCachePath {path : Path} (henabled : settings.cache.enabled = true)
    (hload : ((loadSpec input : OnDisk _).run stdin d).1 = .ok spec)
    (htarget : (CacheService.storeFor ⟨settings.cache, settings.filePrefix, places.temporary⟩
      root).target spec.fingerprint = .file path) :
    (showCachePath colors places settings input root : OnDisk _).run stdin d
      = (.ok (entryReport colors path (d.resolve path).isOk), d) := by
  rw [showCachePath, (OnDisk.reads_loadSpec input).run_bind, hload]
  simp only [henabled, if_true, htarget]
  rw [OnDisk.run_bind_of (run_reportTarget path), String.empty_append]
  rfl

/-- The arguments ask for the entry of the block `input` below `root`, where the settings file holds
these settings. -/
def AsksEntry (args : List String) (places : Surroundings) (stdin : Bytes) (d : Disk)
    (settings : Settings) (input root : Path) : Prop :=
  ∃ i below path, Invocation.parse args = .ok i ∧ i.action = .cachePath input below
    ∧ below.getD places.workingDirectory = root
    ∧ i.configPath.elim places.settingsPath .ok = .ok path
    ∧ ((Settings.load path : OnDisk _).run stdin d).1 = .ok settings

theorem runOn_of_asksEntry {args : List String} {output : String}
    (h : AsksEntry args places stdin d settings input root)
    (hshow : (showCachePath colors places settings input root : OnDisk _).run stdin d
      = (.ok output, d)) :
    runOn d stdin colors places args = (⟨0, output, ""⟩, d) := by
  obtain ⟨i, below, path, hparse, haction, rfl, hpath, hload⟩ := h
  have hrun : (i.action.run colors places i.configPath : OnDisk _).run stdin d
      = (.ok output, d) := by
    rw [haction, Action.run, hpath]
    simp only []
    rw [(OnDisk.reads_load path _).run_bind, hload]
    exact hshow
  rw [runOn, runProgram, hparse]
  simp only []
  rw [OnDisk.run_bind_of hrun]
  rfl

/-- The report of the command says that an image is cached exactly when a lookup finds one, which
is when a render is served from the cache, as long as the path of the entry does not lead to a
directory; where it does, the report and the cache disagree. -/
theorem entryReport_agrees_iff_no_directory (henabled : settings.cache.enabled = true)
    (hlocation : settings.cache.location = .filesystem)
    (hload : ((loadSpec input : OnDisk _).run stdin d).1 = .ok spec) {c : Coordinator}
    (hc : c.cache = ⟨settings.cache, settings.filePrefix, places.temporary⟩)
    (submit : PlotRequest → Except RenderError Unit) (colors : Bool) (root : Path) :
    ∃ path output, (c.cache.storeFor root).target spec.fingerprint = .file path
      ∧ (showCachePath colors places settings input root : OnDisk _).run stdin d
        = (.ok output, d)
      ∧ (∀ args, AsksEntry args places stdin d settings input root →
        runOn d stdin colors places args = (⟨0, output, ""⟩, d))
      ∧ (output = entryReport colors path true ∨ output = entryReport colors path false)
      ∧ ((∃ image, ((c.cache.storeFor root).lookup c.images spec.fingerprint : StateM Disk _).run d
          = (some image, d)) ↔
        ∃ image, (c.start submit spec root : StateM Disk _).run d
          = ((c, .done (.ok ⟨image, .cache, none⟩)), d))
      ∧ ((output = entryReport colors path true ↔
          ∃ image, ((c.cache.storeFor root).lookup c.images spec.fingerprint : StateM Disk _).run d
            = (some image, d)) ↔
        ∀ q, d.resolve path ≠ .ok (q, .directory)) := by
  have hsettings : c.cache.settings = settings.cache := by rw [hc]
  have hstore : c.cache.storeFor root = .directory ⟨resolveDirectory settings.cache.directory
      places.temporary root, settings.filePrefix⟩ := by
    rw [hc, CacheService.storeFor, hlocation]
  have hon : c.cache.settings.enabled = true := by rw [hsettings, henabled]
  simp only [CacheStore.run_lookup_eq_some_iff, Coordinator.start_hit_iff hon]
  rw [hstore]
  generalize hcache : (⟨resolveDirectory settings.cache.directory places.temporary root,
    settings.filePrefix⟩ : DirectoryCache) = cache
  have htarget : (CacheService.storeFor ⟨settings.cache, settings.filePrefix, places.temporary⟩
      root).target spec.fingerprint = .file (cache.pathFor spec.fingerprint) := by
    rw [← hc, hstore, hcache]
    rfl
  have hshow : (showCachePath colors places settings input root : OnDisk _).run stdin d = _ :=
    run_showCachePath henabled hload htarget
  refine ⟨_, _, rfl, hshow, fun args h => runOn_of_asksEntry h hshow, ?_, trivial, ?_⟩
  · cases (d.resolve (cache.pathFor spec.fingerprint)).isOk
    · exact .inr rfl
    · exact .inl rfl
  · have hfound : ∀ image, CacheStore.found? (some (.directory cache)) c.images d
        spec.fingerprint = some image ↔
          ∃ q, d.resolve (cache.pathFor spec.fingerprint) = .ok (q, .file image) :=
      fun image => DirectoryCache.lookup_eq_some_iff
    simp only [entryReport_eq_true_iff, hfound]
    rcases d.resolve (cache.pathFor spec.fingerprint) with e | ⟨q, b | _⟩ <;>
      simp [Except.isOk, Except.toBool]

section Sample

/-- The block `y=x`. -/
def sampleSpec : Spec :=
  .ofContent [⟨"y=x", none, none, []⟩] .default

def sampleSettings : Settings :=
  ⟨"plotmark", ⟨true, .filesystem, some ⟨"k"⟩⟩, .default⟩

def sampleCache : DirectoryCache :=
  ⟨⟨"r/k"⟩, "plotmark"⟩

/-- A settings file, a block, and something in the place of the block's image. -/
def sampleDisk (x : Entry) : Disk :=
  ⟨[(["config.toml".toList], .file (Text.Utf8.encode
      "[cache]\nlocation = \"filesystem\"\ndirectory = \"k\"\n".toList)),
    (["g.txt".toList], .file (Text.Utf8.encode "y=x".toList)),
    ([['r']], .directory), ([['r'], ['k']], .directory),
    ([['r'], ['k'], (sampleCache.fileName sampleSpec.fingerprint).toList], x)], []⟩

theorem resolve_sampleDisk (x : Entry) :
    (sampleDisk x).resolve (sampleCache.pathFor sampleSpec.fingerprint)
      = .ok ([['r'], ['k'], (sampleCache.fileName sampleSpec.fingerprint).toList], x) := by
  have hdir : (sampleDisk x).resolve sampleCache.directory = .ok ([['r'], ['k']], .directory) := by
    rfl
  have hadmits : sampleCache.Admits := CacheStore.admits_of_length (by decide) (by decide)
    (by decide) (by decide) (by decide)
  exact DirectoryCache.resolve_of_entry hadmits.noSlash sampleSpec.slash_not_mem_fingerprint hdir
    (hadmits.checkPath (resolve_eq_ok_iff.1 hdir).1 sampleSpec) (hadmits.name sampleSpec)
    (by simp [sampleDisk, entryAt?])

theorem readSource_sampleDisk (x : Entry) :
    ((readSource ⟨"g.txt"⟩ : OnDisk _).run [] (sampleDisk x)).1 = .ok "y=x" := by
  rfl

theorem loadSpec_sampleDisk (x : Entry) :
    ((loadSpec ⟨"g.txt"⟩ : OnDisk _).run [] (sampleDisk x)).1 = .ok sampleSpec := by
  rw [loadSpec, (OnDisk.reads_readSource _).run_bind, readSource_sampleDisk]
  rfl

/-- A file in the place of the image: the report says cached, and a render is served from it. -/
theorem entryReport_agrees_iff_no_directory_file :
    let places : Surroundings := ⟨none, none, ⟨"/tmp"⟩, ⟨"/"⟩⟩
    let c : Coordinator := ⟨⟨sampleSettings.cache, "plotmark", ⟨"/tmp"⟩⟩, .empty, .trusting "o"⟩
    let path := sampleCache.pathFor sampleSpec.fingerprint
    sampleSettings.cache.enabled = true ∧ sampleSettings.cache.location = .filesystem
      ∧ ((loadSpec ⟨"g.txt"⟩ : OnDisk _).run [] (sampleDisk (.file [1]))).1 = .ok sampleSpec
      ∧ (showCachePath false places sampleSettings ⟨"g.txt"⟩ ⟨"r"⟩ : OnDisk _).run []
          (sampleDisk (.file [1]))
        = (.ok (entryReport false path true), sampleDisk (.file [1]))
      ∧ ∃ image, (c.start (fun _ => .ok ()) sampleSpec ⟨"r"⟩ : StateM Disk _).run
          (sampleDisk (.file [1]))
        = ((c, .done (.ok ⟨image, .cache, none⟩)), sampleDisk (.file [1])) := by
  intro places c path
  have hload := loadSpec_sampleDisk (.file [1])
  obtain ⟨path', output, htarget, hshow, -, -, hserved, hagree⟩ :=
    @entryReport_agrees_iff_no_directory places sampleSettings _ _ _ _ rfl rfl hload c rfl
      (fun _ => .ok ()) false ⟨"r"⟩
  obtain rfl : path = path' := CacheTarget.file.inj htarget
  have hresolve := resolve_sampleDisk (.file [1])
  have hfound : CacheStore.found? (some (c.cache.storeFor ⟨"r"⟩)) c.images
      (sampleDisk (.file [1])) sampleSpec.fingerprint = some [1] :=
    DirectoryCache.lookup_eq_some_iff.2 ⟨_, hresolve⟩
  have hhit := CacheStore.run_lookup_eq_some_iff.2 hfound
  have hcached := (hagree.2 fun q hq => by cases hresolve.symm.trans hq).2 ⟨_, hhit⟩
  exact ⟨rfl, rfl, hload, hcached ▸ hshow, hserved.1 ⟨_, hhit⟩⟩

/-- A directory in the place of the image is reported as cached, and no lookup finds an image. -/
theorem directory_reported_as_cached :
    let places : Surroundings := ⟨none, none, ⟨"/tmp"⟩, ⟨"/"⟩⟩
    let path := sampleCache.pathFor sampleSpec.fingerprint
    let store := CacheService.storeFor ⟨sampleSettings.cache, "plotmark", ⟨"/tmp"⟩⟩ ⟨"r"⟩
    Spec.parse "y=x" = .ok sampleSpec
      ∧ runOn (sampleDisk .directory) [] false places
          ["-c", "config.toml", "cache", "path", "g.txt", "--root", "r"]
        = (⟨0, path.text ++ "\n" ++ "cached" ++ "\n", ""⟩, sampleDisk .directory)
      ∧ (store.lookup .empty sampleSpec.fingerprint : StateM Disk _).run (sampleDisk .directory)
        = (none, sampleDisk .directory) := by
  intro places path store
  have hasks : AsksEntry ["-c", "config.toml", "cache", "path", "g.txt", "--root", "r"] places []
      (sampleDisk .directory) sampleSettings ⟨"g.txt"⟩ ⟨"r"⟩ :=
    ⟨⟨.cachePath ⟨"g.txt"⟩ (some ⟨"r"⟩), some .info, some ⟨"config.toml"⟩⟩, some ⟨"r"⟩,
      ⟨"config.toml"⟩, rfl, rfl, rfl, rfl, by decide +kernel⟩
  have htarget : store.target sampleSpec.fingerprint = .file path := rfl
  have hshow : (showCachePath false places sampleSettings ⟨"g.txt"⟩ ⟨"r"⟩ : OnDisk _).run []
      (sampleDisk .directory)
      = (.ok (entryReport false path ((sampleDisk .directory).resolve path).isOk),
        sampleDisk .directory) :=
    run_showCachePath rfl (loadSpec_sampleDisk .directory) htarget
  have hresolve : (sampleDisk .directory).resolve path = _ := resolve_sampleDisk .directory
  rw [hresolve] at hshow
  refine ⟨rfl, runOn_of_asksEntry hasks hshow, ?_⟩
  have hfile : sampleCache.file? (sampleDisk .directory) sampleSpec.fingerprint = none := by
    rw [DirectoryCache.file?, hresolve]
    rfl
  exact (sampleCache.run_lookup _ _).trans (by rw [hfile]; rfl)

end Sample

end Command

end GraphBlock
