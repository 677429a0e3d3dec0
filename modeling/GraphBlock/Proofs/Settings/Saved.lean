import GraphBlock.Proofs.Command.Making
import GraphBlock.Proofs.Settings.Stated
import GraphBlock.Proofs.Text.Utf8

/-!
# Settings that are saved and loaded

To save settings makes directories and then fails or writes the document (`Settings.run_save`).
What was saved is loaded again, and what is loaded from a document that states the settings under
some keys are these settings, with the defaults for all other keys
(`Settings.loads_saved_and_stated`).
-/

namespace GraphBlock

open Disk Text

namespace Settings

variable {s : Settings} {path : Path} {stdin : Bytes} {d d' : Disk} {lib : Toml.Library}

/-- The settings as a file. -/
def file (s : Settings) (lib : Toml.Library := .standard) : Bytes :=
  Utf8.encode (s.toToml lib).toList

theorem run_save {r : Except Trouble Unit}
    (h : (s.save path lib : OnDisk _).run stdin d = (r, d')) : ∃ d₁, Made path.lineage.tail d d₁
      ∧ ((∃ t, r = .error t) ∧ d' = d₁
        ∨ r = .ok () ∧ ∃ q, d₁.writable path = .ok q ∧ d' = d₁.set q (.file (s.file lib))) := by
  have hmade := OnDisk.makes_makeParent path stdin d
  rcases hp : (makeParent path : OnDisk _).run stdin d with ⟨r₁, d₁⟩
  rw [hp] at hmade
  refine ⟨d₁, hmade, ?_⟩
  rw [save, ← file, OnDisk.run_bind_of hp] at h
  rcases r₁ with t | u
  · cases h
    exact .inl ⟨⟨t, rfl⟩, rfl⟩
  · have hwrite : (FileSystem.write path (s.file lib) : OnDisk _).run stdin d₁ = _ :=
      run_write path (s.file lib) d₁
    dsimp only at h
    rw [OnDisk.run_bind_of hwrite] at h
    rcases hq : d₁.writable path with e | q
    · rw [hq] at h
      cases h
      exact .inl ⟨⟨_, rfl⟩, rfl⟩
    · rw [hq] at h
      cases h
      exact .inr ⟨rfl, q, rfl, rfl⟩

theorem run_loadFrom {text : String} (hd : d.read path = .ok (Utf8.encode text.toList))
    (hs : ofToml? text lib = some s) :
    (loadFrom path lib : OnDisk _).run stdin d = (.ok s, d) := by
  have htext : (FileSystem.readText path : OnDisk _).run stdin d = (.ok text, d) := by
    have hread : (FileSystem.read path : OnDisk _).run stdin d
        = (.ok (Utf8.encode text.toList), d) := congrArg (·, d) hd
    rw [FileSystem.readText, OnDisk.run_bind_of hread]
    dsimp only
    rw [Utf8.decode_encode]
    dsimp only
    rw [String.ofList_toList]
    rfl
  rw [loadFrom, OnDisk.run_bind_of htext]
  dsimp only
  rw [hs]
  rfl

/-- With a library that reads back what it writes, what was saved is loaded again.  A document that
states settings under some keys is loaded as these settings, with the defaults for all other keys;
there is such a document for any keys, the one that the library writes. -/
theorem loads_saved_and_stated (hlib : lib.ReadsBack) (s : Settings) :
    (∀ path stdin d d', (s.save path lib : OnDisk _).run stdin d = (.ok (), d') →
      (loadFrom path lib : OnDisk _).run stdin d' = (.ok s, d'))
    ∧ ∀ ks : SettingsKey → Bool,
      (∃ root, lib.read (lib.write (s.sheet ks)) = some root ∧ (s.sheet ks).IsStatedBy root)
      ∧ ∀ text root, lib.read text = some root → (s.sheet ks).IsStatedBy root →
        ∀ path stdin d, d.read path = .ok (Utf8.encode text.toList) →
          (loadFrom path lib : OnDisk _).run stdin d = (.ok (s.only ks), d) := by
  refine ⟨fun path stdin d d' h => ?_, fun ks => ⟨hlib _ (s.sheet_proper ks),
    fun text root hread hroot path stdin d hd =>
      run_loadFrom hd (ofToml?_of_isStatedBy hread hroot)⟩⟩
  obtain ⟨d₁, -, ⟨⟨t, ht⟩, -⟩ | ⟨-, q, hq, rfl⟩⟩ := run_save h
  · cases ht
  · exact run_loadFrom (read_eq_ok_iff.2 ⟨q, resolve_set hq _⟩) (ofToml?_toToml hlib s)

/-- A dotted key states the location, and settings full of quotes and escapes are saved. -/
theorem loads_saved_and_stated_odd :
    let s : Settings := ⟨"é\"\"\"\\\n\x00", ⟨false, .filesystem, some ⟨""⟩⟩, ⟨"'\t\r"⟩⟩
    let saved := (s.save ⟨"c/config.toml"⟩ : OnDisk _).run [] ⟨[], []⟩
    let text := "cache.location = 'filesystem'"
    let given : Disk := ⟨[([['p']], .file (Utf8.encode text.toList))], []⟩
    saved.1 = .ok () ∧ (loadFrom ⟨"c/config.toml"⟩ : OnDisk _).run [] saved.2 = (.ok s, saved.2)
    ∧ (loadFrom ⟨"p"⟩ : OnDisk _).run [] given
      = (.ok ⟨"plotmark", ⟨true, .filesystem, none⟩, .default⟩, given) := by
  intro s saved text given
  obtain ⟨hsaved, hstated⟩ := loads_saved_and_stated Toml.Library.standard_readsBack s
  have hok : saved.1 = .ok () := by rfl
  have hparse : Toml.Library.standard.read "cache.location = 'filesystem'"
      = some [("cache", .table .dotted [("location", .string "filesystem")])] := by rfl
  have hroot : (s.sheet fun k => k = .location).IsStatedBy
      [("cache", .table .dotted [("location", .string "filesystem")])] := by
    refine ⟨fun k hk => ?_, fun t ht => ?_⟩
    · have hne : k ≠ "cache" := fun h => hk (h ▸ List.mem_cons_self)
      rw [List.lookup_cons, beq_eq_false_iff_ne.2 hne]
      rfl
    · rcases List.mem_cons.1 ht with rfl | ht
      · exact .inl ⟨_, _, rfl, fun _ => rfl⟩
      · obtain rfl := List.mem_singleton.1 ht
        exact .inr ⟨rfl, rfl⟩
  exact ⟨hok, hsaved _ _ _ _ (Prod.ext hok rfl),
    (hstated _).2 _ _ hparse hroot _ _ _ (by rfl)⟩

end Settings

end GraphBlock
