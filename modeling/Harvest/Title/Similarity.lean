import Harvest.Number.Binary
import Harvest.Text.Category
import Harvest.Text.LowerCase

/-!
# Similarity of titles

Titles are compared by their words: letters and numbers in lower case, with single spaces for
everything between them. The similarity of two titles is the share of characters of the longer
normal form that the edit distance leaves alone, in whole percent. The share is computed in double
precision: the quotient of distance and length is rounded, subtracted from one, and a hundred times
the difference is rounded to a whole number, a half going up.

The edit distance is the least number of insertions, deletions and replacements of single characters
that turn one text into another. It is computed row by row: the row of a text holds its distances to
all suffixes of the other one.

## Main definitions

* `Title.words` — the maximal runs of letters and numbers of a text
* `Title.normal` — the normal form
* `Title.stripArticle` — a normal form without an article in front
* `Title.distances` — the distances from a text to all suffixes of another, the longest first
* `Title.editDistance` — the distance of two texts
* `Title.percentKept` — the share for a distance and a length
* `Title.similarity` — the similarity of two titles
* `Title.bestSimilarity` — the better of the similarities with and without articles in front

## Main results

* `Title.words_append_space` — a space ends a word
* `Title.editDistance_nil_left`, `Title.editDistance_nil_right`, `Title.editDistance_cons_cons` —
  the recursion that the distance satisfies
-/

namespace Harvest.Title

/-! ### Normal forms -/

/-- The maximal runs of letters and numbers of a text, where `run` (latest first) precedes it. -/
def wordsFrom (run : List Char) : List Char → List (List Char)
  | [] => if run.isEmpty then [] else [run.reverse]
  | c :: rest =>
    if Text.isTitleChar c then wordsFrom (c :: run) rest
    else if run.isEmpty then wordsFrom [] rest
    else run.reverse :: wordsFrom [] rest

/-- The maximal runs of letters and numbers of a text. -/
def words (s : List Char) : List (List Char) := wordsFrom [] s

/-- The normal form of a title: its lower-case words with single spaces between them. -/
def normal (s : List Char) : List Char := [' '].intercalate (words (Text.lower s))

/-- The words that are dropped in front of a title. -/
def articles : List (List Char) := [['t', 'h', 'e'], ['a'], ['a', 'n']]

/-- A normal form without the article in front, if one is followed by a space. -/
def stripArticle (s : List Char) : List Char :=
  let first := s.takeWhile (· ≠ ' ')
  let rest := s.dropWhile (· ≠ ' ')
  if articles.contains first && !rest.isEmpty then rest.dropWhile (· == ' ') else s

theorem wordsFrom_append_space (run s t : List Char) :
    wordsFrom run (s ++ ' ' :: t) = wordsFrom run s ++ words t := by
  have hspace : Text.isTitleChar ' ' = false := by decide
  induction s generalizing run with
  | nil =>
    simp only [List.nil_append, wordsFrom, hspace, words]
    by_cases h : run = [] <;> simp [h]
  | cons c s ih =>
    simp only [List.cons_append, wordsFrom]
    by_cases hc : Text.isTitleChar c = true
    · simp [hc, ih]
    · by_cases h : run = [] <;> simp [hc, h, ih]

/-- A space ends a word. -/
theorem words_append_space (s t : List Char) : words (s ++ ' ' :: t) = words s ++ words t :=
  wordsFrom_append_space [] s t

/-! ### Edit distance -/

/-- The row of `c :: s` from the row of `s`. -/
def extendRow (c : Char) : List Char → List Nat → List Nat
  | [], row => [row.headD 0 + 1]
  | d :: t, row =>
    let right := extendRow c t row.tail
    let replaced := row.tail.headD 0 + if c = d then 0 else 1
    min (min (row.headD 0 + 1) (right.headD 0 + 1)) replaced :: right

/-- The distances from a text to all suffixes of `t`, the longest suffix first. -/
def distances (t : List Char) : List Char → List Nat
  | [] => (List.range (t.length + 1)).reverse
  | c :: s => extendRow c t (distances t s)

/-- The distance of two texts. -/
def editDistance (s t : List Char) : Nat := (distances t s).headD 0

theorem tail_extendRow (c d : Char) (t : List Char) (row : List Nat) :
    (extendRow c (d :: t) row).tail = extendRow c t row.tail := rfl

theorem tail_distances (s : List Char) (d : Char) (t : List Char) :
    (distances (d :: t) s).tail = distances t s := by
  induction s with
  | nil => simp [distances, List.range_succ]
  | cons c s ih => rw [distances, tail_extendRow, ih, distances]

theorem editDistance_nil_left (t : List Char) : editDistance [] t = t.length := by
  simp [editDistance, distances, List.range_succ]

theorem editDistance_nil_right (s : List Char) : editDistance s [] = s.length := by
  induction s with
  | nil => rfl
  | cons c s ih =>
    rw [editDistance] at ih ⊢
    simp [distances, extendRow] at ih ⊢
    exact ih

theorem editDistance_cons_cons (c d : Char) (s t : List Char) :
    editDistance (c :: s) (d :: t) =
      min (min (editDistance s (d :: t) + 1) (editDistance (c :: s) t + 1))
        (editDistance s t + if c = d then 0 else 1) := by
  simp only [editDistance, distances, extendRow, List.headD_cons, tail_distances]

/-! ### Similarity -/

/-- One minus a number that is at most one, rounded. -/
def complement (x : Binary64) : Option Binary64 := Binary64.round (x.den - x.num) x.den

/-- The whole number nearest to a number, a half going up. -/
def nearest (x : Binary64) : Nat := (2 * x.num + x.den) / (2 * x.den)

/-- How many percent of `length` are left after taking away `distance`. -/
def percentKept (distance length : Nat) : Nat :=
  if length = 0 then 100
  else
    let share := do
      let lost ← Binary64.round distance length
      let kept ← complement lost
      kept.mul (← Binary64.ofNat? 100)
    (share.map nearest).getD 0

/-- The similarity of two normal forms, in percent. -/
def similarityOfNormal (l r : List Char) : Nat :=
  percentKept (editDistance l r) (max l.length r.length)

/-- The similarity of two titles, in percent. -/
def similarity (l r : List Char) : Nat := similarityOfNormal (normal l) (normal r)

/-- The better of the similarities of two titles with and without articles in front. -/
def bestSimilarity (l r : List Char) : Nat :=
  let l := normal l
  let r := normal r
  max (similarity l r) (similarity (stripArticle l) (stripArticle r))

theorem similarity_le_bestSimilarity_normal (l r : List Char) :
    similarity (normal l) (normal r) ≤ bestSimilarity l r := Nat.le_max_left ..

end Harvest.Title
