import Harvest.Media
import Harvest.Text.LowerCase

/-!
# Remembered resolutions

While a crawl runs, it remembers which title each name was linked to, and which names were linked to
none.

## Main definitions

* `ResolutionKey` — what has to agree for two names to be linked alike
* `ResolutionCache` — the links, with `ResolutionCache.get?` and `ResolutionCache.insert`

## Main results

* `ResolutionCache.get?_insert` — what is remembered after an insertion
-/

namespace Harvest

/-- What has to agree for two names to be linked alike: the title in lower case, the year and the
kind. -/
structure ResolutionKey where
  title : String
  year : Option Int
  mediaType : MediaType
  deriving DecidableEq, Repr

/-- The key of a title. -/
def ResolutionKey.ofTitle (title : String) (year : Option Int) (m : MediaType) : ResolutionKey :=
  ⟨Text.lowerString title, year, m⟩

/-- The links that are remembered; `none` stands for no title. -/
structure ResolutionCache where
  entries : List (ResolutionKey × Option String) := []
  deriving DecidableEq, Repr

namespace ResolutionCache

/-- What is remembered for a key, if anything. -/
def get? (c : ResolutionCache) (k : ResolutionKey) : Option (Option String) := c.entries.lookup k

/-- Whether anything is remembered for a key. -/
def contains (c : ResolutionCache) (k : ResolutionKey) : Bool := (c.get? k).isSome

/-- The external id that is remembered for a key, if the key was linked to a title. -/
def linked? (c : ResolutionCache) (k : ResolutionKey) : Option String := (c.get? k).join

/-- The cache with a link in place of what was remembered for its key. -/
def insert (c : ResolutionCache) (k : ResolutionKey) (id : Option String) : ResolutionCache :=
  ⟨(k, id) :: c.entries.filter fun e => e.1 != k⟩

/-- For how many keys something is remembered. -/
def size (c : ResolutionCache) : Nat := c.entries.length

/-- Whether nothing is remembered. -/
def isEmpty (c : ResolutionCache) : Bool := c.entries.isEmpty

theorem lookup_filter_ne {k k' : ResolutionKey} (h : k' ≠ k)
    (es : List (ResolutionKey × Option String)) :
    (es.filter fun e => e.1 != k).lookup k' = es.lookup k' := by
  induction es with
  | nil => rfl
  | cons e es ih =>
    obtain ⟨k'', v⟩ := e
    by_cases hk : k'' = k
    · subst hk
      have hne : (k' == k'') = false := by simpa using h
      simp [List.lookup_cons, hne, ih]
    · simp [hk, List.lookup_cons, ih]

/-- After an insertion the new link is remembered for its key, and all else is as before. -/
theorem get?_insert (c : ResolutionCache) (k k' : ResolutionKey) (id : Option String) :
    (c.insert k id).get? k' = if k' = k then some id else c.get? k' := by
  unfold get? insert
  by_cases h : k' = k
  · simp [h]
  · have hne : (k' == k) = false := by simpa using h
    simp [List.lookup_cons, hne, h, lookup_filter_ne h]

end ResolutionCache

end Harvest
