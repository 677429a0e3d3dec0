import GraphBlock.Proofs.Render.Alike

/-!
# What replies leave that are kept one after the other

Within one cache, what is kept for one fingerprint changes neither where the image of another comes
nor why it cannot be kept (`Outcome.result_filled`), and images can be kept in either order
(`Outcome.filled_comm`) and more than once (`Outcome.filled_self`).  So what a row of replies leaves
(`fillAll`) depends on the fingerprints that are in it only (`fillAll_of_mem_iff`), and each image
that is found then was found before or was replied (`found?_fillAll`).
-/

namespace GraphBlock

open Disk

/-- Every lookup and every read gives the same. -/
structure SameHoldings (k l : Holdings) : Prop where
  images : ∀ f, k.1.lookup f = l.1.lookup f
  entries : ∀ q, k.2.entryAt? q = l.2.entryAt? q
  workingDirectory : k.2.workingDirectory = l.2.workingDirectory

namespace SameHoldings

variable {k l m : Holdings}

theorem refl (k : Holdings) : SameHoldings k k :=
  ⟨fun _ => rfl, fun _ => rfl, rfl⟩

theorem symm (h : SameHoldings k l) : SameHoldings l k :=
  ⟨fun f => (h.images f).symm, fun q => (h.entries q).symm, h.workingDirectory.symm⟩

theorem trans (h : SameHoldings k l) (h' : SameHoldings l m) : SameHoldings k m :=
  ⟨fun f => (h.images f).trans (h'.images f), fun q => (h.entries q).trans (h'.entries q),
    h.workingDirectory.trans h'.workingDirectory⟩

theorem directories (h : SameHoldings k l) : SameDirectories k.2 l.2 :=
  ⟨fun q => by rw [h.entries q], h.workingDirectory⟩

end SameHoldings

namespace CacheStore

variable {k l : Holdings} {s : CacheService} {root : Path} {f g : String} {b b' : Bytes}

theorem workingDirectory_kept (store : Option CacheStore) (f : String) (b : Bytes) (k : Holdings) :
    (kept store f b k).2.workingDirectory = k.2.workingDirectory :=
  (sameDirectories_kept store f b k).workingDirectory

theorem kept_congr (store : Option CacheStore) (f : String) (b : Bytes) (h : SameHoldings k l) :
    SameHoldings (kept store f b k) (kept store f b l) := by
  refine ⟨fun g => ?_, fun q => ?_, ?_⟩
  · rcases store with _ | (_ | c)
    · exact h.images g
    · simp only [kept, MemoryCache.lookup_insert, h.images g]
    · exact h.images g
  · rcases store with _ | (_ | c)
    · exact h.entries q
    · exact h.entries q
    · simp only [kept, DirectoryCache.entryAt?_written,
        DirectoryCache.place_eq_ok_iff h.directories, h.entries q]
  · rw [workingDirectory_kept, workingDirectory_kept, h.workingDirectory]

/-- Images of different fingerprints can be kept in either order. -/
theorem kept_comm (hf : '/' ∉ f.toList) (hg : '/' ∉ g.toList) (hne : f ≠ g) (k : Holdings) :
    SameHoldings (kept (s.store? root) g b' (kept (s.store? root) f b k))
      (kept (s.store? root) f b (kept (s.store? root) g b' k)) := by
  refine ⟨fun x => ?_, fun q => ?_, ?_⟩
  · rcases s.store?_cases with hs | hs | hs
    · rw [hs]
      rfl
    · simp only [hs, kept, MemoryCache.lookup_insert]
      split_ifs with hxg hxf
      · exact absurd (hxf.symm.trans hxg) hne
      · rfl
      · rfl
      · rfl
    · obtain ⟨dir, hdir⟩ := hs root
      rw [hdir]
      rfl
  · rcases s.store?_cases with hs | hs | hs
    · rw [hs]
      rfl
    · rw [hs]
      rfl
    · obtain ⟨dir, hdir⟩ := hs root
      simp only [hdir, kept, DirectoryCache.entryAt?_written,
        DirectoryCache.place_eq_ok_iff DirectoryCache.sameDirectories_written]
      split_ifs with hqg hqf
      · have hnf := CacheService.names_of_writable hf (DirectoryCache.place_eq_ok hqf).2
        have hng := CacheService.names_of_writable hg (DirectoryCache.place_eq_ok hqg).2
        exact absurd (hnf.unique hng hf hg) hne
      · rfl
      · rfl
      · rfl
  · simp only [workingDirectory_kept]

theorem kept_self (store : Option CacheStore) (f : String) (b : Bytes) (k : Holdings) :
    SameHoldings (kept store f b (kept store f b k)) (kept store f b k) := by
  refine ⟨fun x => ?_, fun q => ?_, ?_⟩
  · rcases store with _ | (_ | c)
    · rfl
    · simp only [kept, MemoryCache.lookup_insert]
      split_ifs <;> rfl
    · rfl
  · rcases store with _ | (_ | c)
    · rfl
    · rfl
    · simp only [kept, DirectoryCache.entryAt?_written,
        DirectoryCache.place_eq_ok_iff DirectoryCache.sameDirectories_written]
      split_ifs <;> rfl
  · simp only [workingDirectory_kept]

/-- Whether an image can be kept, and why not, is the same after another was kept. -/
theorem warning?_kept (store : Option CacheStore) (hf : '/' ∉ f.toList) (hg : '/' ∉ g.toList)
    (b : Bytes) (k : Holdings) : warning? store f (kept store g b k).2 = warning? store f k.2 := by
  rcases store with _ | (_ | c)
  · rfl
  · rfl
  · simp only [warning?, kept, DirectoryCache.place_written hf hg]

end CacheStore

namespace Outcome

variable {k l : Holdings} {s : CacheService} {root : Path} {f g : String}

theorem filled_congr (o : Outcome) (f : String) (store : Option CacheStore)
    (h : SameHoldings k l) : SameHoldings (o.filled f store k) (o.filled f store l) := by
  rcases o with b | message
  · exact CacheStore.kept_congr store f b h
  · exact h

theorem filled_comm (o o' : Outcome) (hf : '/' ∉ f.toList) (hg : '/' ∉ g.toList) (hne : f ≠ g)
    (k : Holdings) : SameHoldings (o'.filled g (s.store? root) (o.filled f (s.store? root) k))
      (o.filled f (s.store? root) (o'.filled g (s.store? root) k)) := by
  rcases o with b | message
  · rcases o' with b' | message'
    · exact CacheStore.kept_comm hf hg hne k
    · exact .refl _
  · exact .refl _

theorem filled_self (o : Outcome) (f : String) (store : Option CacheStore) (k : Holdings) :
    SameHoldings (o.filled f store (o.filled f store k)) (o.filled f store k) := by
  rcases o with b | message
  · exact CacheStore.kept_self store f b k
  · exact .refl k

/-- A render ends with the same result before and after another of its cache ends. -/
theorem result_filled (o o' : Outcome) (store : Option CacheStore) (hf : '/' ∉ f.toList)
    (hg : '/' ∉ g.toList) (k : Holdings) :
    o.result f store (o'.filled g store k).2 = o.result f store k.2 := by
  rcases o' with b' | message'
  · rcases o with b | message
    · simp only [result, filled, CacheStore.warning?_kept store hf hg]
    · rfl
  · rfl

end Outcome

section FillAll

variable {cache : CacheService} {root : Path} {reply : String → Outcome} {fs gs : List String}
  {f : String} {k : Holdings}

/-- What is held after the replies to these fingerprints were kept. -/
def fillAll (store : Option CacheStore) (reply : String → Outcome) (fs : List String)
    (k : Holdings) : Holdings :=
  fs.foldl (fun k f => (reply f).filled f store k) k

theorem fillAll_concat (store : Option CacheStore) (reply : String → Outcome) (fs : List String)
    (f : String) (k : Holdings) :
    fillAll store reply (fs ++ [f]) k = (reply f).filled f store (fillAll store reply fs k) :=
  List.foldl_concat _ _ _ _

/-- Within one cache, it makes no difference in which order and how often replies are kept. -/
theorem unordered_filled (cache : CacheService) (root : Path) (reply : String → Outcome) :
    Unordered SameHoldings (fun k f => (reply f).filled f (cache.store? root) k)
      fun f => '/' ∉ f.toList where
  refl := .refl
  symm := .symm
  trans := .trans
  congr f h := Outcome.filled_congr _ f _ h
  comm k f g hf hg := by
    by_cases hne : f = g
    · rw [hne]
      exact .refl _
    · exact Outcome.filled_comm _ _ hf hg hne k
  again k f := Outcome.filled_self _ f _ k

theorem fillAll_of_mem_iff (cache : CacheService) (root : Path) (reply : String → Outcome)
    (hfs : ∀ f ∈ fs, '/' ∉ f.toList) (h : ∀ f, f ∈ fs ↔ f ∈ gs) (k : Holdings) :
    SameHoldings (fillAll (cache.store? root) reply fs k)
      (fillAll (cache.store? root) reply gs k) :=
  (unordered_filled cache root reply).foldl_of_mem_iff h hfs k

/-- An image that is found then was found before, or it was replied. -/
theorem found?_fillAll (hf : '/' ∉ f.toList) {b : Bytes} :
    ∀ {fs : List String} {k : Holdings}, (∀ g ∈ fs, '/' ∉ g.toList) →
      CacheStore.found? (cache.store? root) (fillAll (cache.store? root) reply fs k).1
        (fillAll (cache.store? root) reply fs k).2 f = some b →
      CacheStore.found? (cache.store? root) k.1 k.2 f = some b ∨ f ∈ fs ∧ reply f = .success b
  | [], _, _, h => .inl h
  | g :: fs, k, hfs, h => by
    have hg : '/' ∉ g.toList := hfs g List.mem_cons_self
    rcases found?_fillAll hf (fun g hg => hfs g (List.mem_cons_of_mem _ hg)) h with h | ⟨hmem, hr⟩
    · rcases Outcome.found?_of_filled hf hg h with h | ⟨rfl, ho⟩
      · exact .inl h
      · exact .inr ⟨List.mem_cons_self, ho⟩
    · exact .inr ⟨List.mem_cons_of_mem _ hmem, hr⟩

/-- Replies to other fingerprints make no difference. -/
theorem alike_fillAll (cache : CacheService) (root : Path) (reply : String → Outcome)
    (hf : '/' ∉ f.toList) : ∀ {fs : List String} {k : Holdings},
    (∀ g ∈ fs, '/' ∉ g.toList) → f ∉ fs →
      cache.Alike f (fillAll (cache.store? root) reply fs k) k
  | [], k, _, _ => .refl cache f k
  | g :: fs, k, hfs, hmem => by
    rw [List.mem_cons, not_or] at hmem
    have ih := alike_fillAll cache root reply (k := (reply g).filled g (cache.store? root) k) hf
      (fun g hg => hfs g (List.mem_cons_of_mem _ hg)) hmem.2
    exact ih.trans (Outcome.filled_alike hf (hfs g List.mem_cons_self) hmem.1)

/-- A render ends with the same result before and after the replies. -/
theorem result_fillAll (o : Outcome) (store : Option CacheStore) (hf : '/' ∉ f.toList) :
    ∀ {fs : List String} {k : Holdings}, (∀ g ∈ fs, '/' ∉ g.toList) →
      o.result f store (fillAll store reply fs k).2 = o.result f store k.2
  | [], _, _ => rfl
  | g :: fs, k, hfs => by
    have ih := result_fillAll (k := (reply g).filled g store k) o store hf
      fun g hg => hfs g (List.mem_cons_of_mem _ hg)
    exact ih.trans (o.result_filled (reply g) store hf (hfs g List.mem_cons_self) k)

end FillAll

end GraphBlock
