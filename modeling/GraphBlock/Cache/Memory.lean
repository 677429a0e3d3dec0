import GraphBlock.Text.Utf8

/-!
# Images in memory

A map from fingerprints to images, as a list of pairs in the order of first insertion.  Nothing is
ever dropped.  Two laws pin it down: what `insert` does to `lookup`, and that `size` counts the
fingerprints that are present.
-/

namespace GraphBlock

structure MemoryCache where
  entries : List (String × Bytes)
  deriving DecidableEq, Repr

namespace MemoryCache

def empty : MemoryCache :=
  ⟨[]⟩

def lookup (c : MemoryCache) (fingerprint : String) : Option Bytes :=
  c.entries.lookup fingerprint

def contains (c : MemoryCache) (fingerprint : String) : Bool :=
  (c.lookup fingerprint).isSome

def size (c : MemoryCache) : Nat :=
  c.entries.length

def isEmpty (c : MemoryCache) : Bool :=
  c.entries.isEmpty

/-- Replaces the image of a key in its place, or adds the pair at the end. -/
def insertIn (key : String) (image : Bytes) : List (String × Bytes) → List (String × Bytes)
  | [] => [(key, image)]
  | x :: xs => if x.1 = key then (key, image) :: xs else x :: insertIn key image xs

/-- The last image of a fingerprint stays. -/
def insert (c : MemoryCache) (fingerprint : String) (image : Bytes) : MemoryCache :=
  ⟨insertIn fingerprint image c.entries⟩

@[simp] theorem lookup_empty (k : String) : empty.lookup k = none := rfl

theorem lookup_insertIn (k l : String) (image : Bytes) : ∀ xs : List (String × Bytes),
    (insertIn k image xs).lookup l = if l = k then some image else xs.lookup l
  | [] => by
    by_cases h : l = k
    · simp [insertIn, h]
    · have h' : (l == k) = false := by simpa using h
      simp [insertIn, List.lookup_cons, h, h']
  | (k', i) :: xs => by
    have ih := lookup_insertIn k l image xs
    simp only [insertIn]
    by_cases hk : k' = k
    · subst hk
      by_cases hl : l = k'
      · simp [hl]
      · have hl' : (l == k') = false := by simpa using hl
        simp [List.lookup_cons, hl, hl']
    · simp only [hk, if_false, List.lookup_cons, ih]
      by_cases hl : l = k'
      · have hlk : l ≠ k := fun e => hk (hl.symm.trans e)
        simp [hl, hk]
      · have hl' : (l == k') = false := by simpa using hl
        simp [hl']

@[simp] theorem lookup_insert (c : MemoryCache) (k l : String) (image : Bytes) :
    (c.insert k image).lookup l = if l = k then some image else c.lookup l :=
  lookup_insertIn k l image c.entries

theorem length_insertIn (k : String) (image : Bytes) : ∀ xs : List (String × Bytes),
    (insertIn k image xs).length = if (xs.lookup k).isSome then xs.length else xs.length + 1
  | [] => rfl
  | (k', i) :: xs => by
    have ih := length_insertIn k image xs
    simp only [insertIn, List.lookup_cons]
    by_cases hk : k' = k
    · simp [hk]
    · have hk' : (k == k') = false := by simpa using fun e => hk e.symm
      simp only [hk, if_false, List.length_cons, ih, hk']
      split <;> rfl

theorem size_insert (c : MemoryCache) (k : String) (image : Bytes) :
    (c.insert k image).size = if c.contains k then c.size else c.size + 1 :=
  length_insertIn k image c.entries

end MemoryCache

end GraphBlock
