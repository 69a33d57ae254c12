import Harvest.Proofs.Number.Rounding
import Harvest.Proofs.Text.Lowered
import Harvest.Title.Similarity

/-!
# Laws of similarity

The similarity of two titles is a percentage that does not depend on their order: the edit distance
is symmetric, and rounding never leads out of the range. It depends on the normal forms of the
titles only, and is full where they are equal. A normal form is its own normal form, so the better
of the similarities with and without articles is at least the one with them, although it is taken
between normal forms.

## Main definitions

* `Title.IsWord` — a word of a normal form

## Main results

* `Title.words_intercalate` — words with spaces between them are found again
* `Title.normal_normal` — a normal form is its own normal form
* `Title.editDistance_comm`, `Title.editDistance_self`, `Title.editDistance_le_max` — the distance is
  symmetric, nought between equal texts, and no more than the longer one has characters
* `Title.exists_share` — the arithmetic of percentages stays in range
* `Title.percentKept_le`, `Title.percentKept_zero` — no more than everything is kept, and everything
  if nothing is lost
* `Title.similarity_laws` — similarity is a symmetric percentage of normal forms
-/

namespace Harvest.Title

/-! ### Words -/

/-- A word of a normal form: one or more letters and numbers. -/
structure IsWord (w : List Char) : Prop where
  nonempty : w ≠ []
  chars : ∀ c ∈ w, Text.isTitleChar c = true

variable {s w : List Char} {ws : List (List Char)} {c : Char}

theorem wordsFrom_of_chars {run : List Char} (hw : ∀ c ∈ w, Text.isTitleChar c = true)
    (h : run ≠ [] ∨ w ≠ []) : wordsFrom run w = [run.reverse ++ w] := by
  induction w generalizing run with
  | nil =>
    have hrun : run ≠ [] := h.resolve_right fun hne => hne rfl
    simp [wordsFrom, hrun]
  | cons c w ih =>
    obtain ⟨hc, hw⟩ := List.forall_mem_cons.mp hw
    rw [wordsFrom, if_pos hc, ih hw (.inl (List.cons_ne_nil c run)), List.reverse_cons,
      List.append_assoc, List.singleton_append]

theorem IsWord.words (h : IsWord w) : words w = [w] :=
  wordsFrom_of_chars h.chars (.inr h.nonempty)

theorem spec_of_mem_wordsFrom {run : List Char} (hrun : ∀ c ∈ run, Text.isTitleChar c = true)
    (h : w ∈ wordsFrom run s) : IsWord w ∧ ∀ c ∈ w, c ∈ run ∨ c ∈ s := by
  have hhere : run ≠ [] → IsWord run.reverse ∧ ∀ c ∈ run.reverse, c ∈ run ∨ c ∈ s := by
    intro hne
    refine ⟨⟨by simpa using hne, fun c hc => hrun c (List.mem_reverse.mp hc)⟩, fun c hc => ?_⟩
    exact .inl (List.mem_reverse.mp hc)
  induction s generalizing run with
  | nil =>
    unfold wordsFrom at h
    split at h
    · cases h
    next hne =>
      rw [List.mem_singleton.mp h]
      exact hhere (by simpa using hne)
  | cons c s ih =>
    -- what is found behind the character is made of characters behind it
    have hbehind : w ∈ wordsFrom [] s → IsWord w ∧ ∀ d ∈ w, d ∈ run ∨ d ∈ c :: s := by
      intro hmem
      obtain ⟨hword, hchars⟩ := ih (List.forall_mem_nil _) hmem fun hne => absurd rfl hne
      refine ⟨hword, fun d hd => .inr (List.mem_cons_of_mem c ?_)⟩
      exact (hchars d hd).resolve_left List.not_mem_nil
    unfold wordsFrom at h
    split at h
    next hc =>
      have hrun' : ∀ d ∈ c :: run, Text.isTitleChar d = true := List.forall_mem_cons.mpr ⟨hc, hrun⟩
      obtain ⟨hword, hchars⟩ := ih hrun' h fun _ =>
        ⟨⟨by simp, fun d hd => hrun' d (List.mem_reverse.mp hd)⟩,
          fun d hd => .inl (List.mem_reverse.mp hd)⟩
      refine ⟨hword, fun d hd => ?_⟩
      rcases hchars d hd with hmem | hmem
      · rcases List.mem_cons.mp hmem with rfl | hmem
        · exact .inr List.mem_cons_self
        · exact .inl hmem
      · exact .inr (List.mem_cons_of_mem c hmem)
    · split at h
      · exact hbehind h
      next hne =>
        rcases List.mem_cons.mp h with rfl | h
        · exact hhere (by simpa using hne)
        · exact hbehind h

theorem isWord_of_mem_words (h : w ∈ words s) : IsWord w :=
  (spec_of_mem_wordsFrom (List.forall_mem_nil _) h).1

theorem mem_of_mem_words (h : w ∈ words s) (hc : c ∈ w) : c ∈ s :=
  ((spec_of_mem_wordsFrom (List.forall_mem_nil _) h).2 c hc).resolve_left List.not_mem_nil

/-- Words with spaces between them are found again. -/
theorem words_intercalate (h : ∀ w ∈ ws, IsWord w) : words ([' '].intercalate ws) = ws := by
  induction ws with
  | nil => rfl
  | cons w ws ih =>
    obtain ⟨hw, hws⟩ := List.forall_mem_cons.mp h
    cases ws with
    | nil => rw [List.intercalate_singleton, hw.words]
    | cons w' ws =>
      rw [List.intercalate_cons_cons, List.append_assoc, List.singleton_append, words_append_space,
        hw.words, ih hws, List.singleton_append]

theorem mem_intercalate (h : c ∈ [' '].intercalate ws) : c = ' ' ∨ ∃ w ∈ ws, c ∈ w := by
  induction ws with
  | nil => cases h
  | cons w ws ih =>
    cases ws with
    | nil =>
      rw [List.intercalate_singleton] at h
      exact .inr ⟨w, List.mem_cons_self, h⟩
    | cons w' ws =>
      rw [List.intercalate_cons_cons, List.append_assoc] at h
      rcases List.mem_append.mp h with h | h
      · exact .inr ⟨w, List.mem_cons_self, h⟩
      · rcases List.mem_append.mp h with h | h
        · exact .inl (List.mem_singleton.mp h)
        · obtain hspace | ⟨v, hv, hc⟩ := ih h
          · exact .inl hspace
          · exact .inr ⟨v, List.mem_cons_of_mem w hv, hc⟩

/-! ### Normal forms -/

/-- A normal form is in lower case. -/
theorem lower_normal (s : List Char) : Text.lower (normal s) = normal s := by
  refine Text.lower_of_isLowered fun c hc => ?_
  obtain rfl | ⟨w, hw, hc⟩ := mem_intercalate hc
  · decide
  · exact Text.isLowered_of_mem_lower (mem_of_mem_words hw hc)

/-- A normal form is its own normal form. -/
@[simp] theorem normal_normal (s : List Char) : normal (normal s) = normal s := by
  have hwords : words (normal s) = words (Text.lower s) :=
    words_intercalate fun _ => isWord_of_mem_words
  rw [normal, lower_normal, hwords, normal]

/-! ### Distances -/

theorem editDistance_comm (s t : List Char) : editDistance s t = editDistance t s := by
  induction s generalizing t with
  | nil => rw [editDistance_nil_left, editDistance_nil_right]
  | cons c s ihs =>
    induction t with
    | nil => rw [editDistance_nil_left, editDistance_nil_right]
    | cons d t iht =>
      -- an insertion on one side is a deletion on the other
      have hcost : (if c = d then 0 else 1) = if d = c then 0 else 1 := by simp only [eq_comm]
      rw [editDistance_cons_cons, editDistance_cons_cons, ihs, iht, ihs, hcost,
        Nat.min_comm (editDistance (d :: t) s + 1)]

@[simp] theorem editDistance_self (s : List Char) : editDistance s s = 0 := by
  induction s with
  | nil => rfl
  | cons c s ih => simp [editDistance_cons_cons, ih]

/-- No more changes are needed than the longer text has characters. -/
theorem editDistance_le_max (s t : List Char) : editDistance s t ≤ max s.length t.length := by
  induction s generalizing t with
  | nil => simp [editDistance_nil_left]
  | cons c s ih =>
    cases t with
    | nil => simp [editDistance_nil_right]
    | cons d t =>
      have hrest := ih t
      have hcost : (if c = d then 0 else 1) ≤ 1 := by split <;> omega
      rw [editDistance_cons_cons, List.length_cons, List.length_cons]
      omega

/-! ### Percentages -/

/-- A number that is not above a whole number is not rounded up beyond it. -/
theorem nearest_le {x : Binary64} {n : Nat} (h : x.AtMost n) : nearest x ≤ n := by
  have hden := x.den_pos
  have hnum : x.num ≤ n * x.den := h
  refine Nat.lt_succ_iff.mp ((Nat.div_lt_iff_lt_mul (Nat.mul_pos Nat.two_pos hden)).mpr ?_)
  calc 2 * x.num + x.den ≤ 2 * (n * x.den) + x.den := by omega
    _ < 2 * (n * x.den) + 2 * x.den := by omega
    _ = (n + 1) * (2 * x.den) := by ring

theorem exists_complement (x : Binary64) : ∃ y, complement x = some y ∧ y.AtMost 1 :=
  Binary64.exists_round x.den_pos (by rw [Nat.one_mul]; exact Nat.sub_le ..) (by decide)

/-- No step towards a percentage is out of range if no more is lost than there is. The share that is
kept is not above a hundred, and the percentage is the whole number nearest to it. -/
theorem exists_share {distance length : Nat} (h : distance ≤ length) (hlength : length ≠ 0) :
    ∃ lost kept hundred share, Binary64.round distance length = some lost ∧
      complement lost = some kept ∧ Binary64.ofNat? 100 = some hundred ∧
      kept.mul hundred = some share ∧ share.AtMost 100 ∧
      percentKept distance length = nearest share := by
  have hle : distance ≤ 1 * length := by rwa [Nat.one_mul]
  obtain ⟨lost, hlost, -⟩ :=
    Binary64.exists_round (Nat.pos_of_ne_zero hlength) hle (by decide)
  obtain ⟨kept, hkept, hone⟩ := exists_complement lost
  obtain ⟨hundred, hhundred, hall⟩ := Binary64.exists_ofNat? (n := 100) (by decide)
  obtain ⟨share, hshare, hmost⟩ := Binary64.exists_mul hone hall (by decide)
  refine ⟨lost, kept, hundred, share, hlost, hkept, hhundred, hshare, hmost, ?_⟩
  simp [percentKept, hlength, hlost, hkept, hhundred, hshare]

/-- No more than everything is kept. -/
theorem percentKept_le {distance length : Nat} (h : distance ≤ length) :
    percentKept distance length ≤ 100 := by
  by_cases hlength : length = 0
  · rw [percentKept, if_pos hlength]
  · obtain ⟨_, _, _, share, -, -, -, -, hmost, hpercent⟩ := exists_share h hlength
    exact hpercent ▸ nearest_le hmost

/-- Everything is kept if nothing is lost. -/
theorem percentKept_zero (length : Nat) : percentKept 0 length = 100 := by
  by_cases hlength : length = 0
  · rw [percentKept, if_pos hlength]
  · have hlost : Binary64.round 0 length = some .zero := if_pos rfl
    have hkept : ((do
        let lost ← some Binary64.zero
        let kept ← complement lost
        kept.mul (← Binary64.ofNat? 100)).map nearest).getD 0 = 100 := by decide +kernel
    rw [percentKept, if_neg hlength, hlost]
    exact hkept

/-! ### Similarity -/

theorem similarity_comm (l r : List Char) : similarity l r = similarity r l := by
  rw [similarity, similarityOfNormal, editDistance_comm, Nat.max_comm, similarity,
    similarityOfNormal]

theorem similarity_le (l r : List Char) : similarity l r ≤ 100 :=
  percentKept_le (editDistance_le_max ..)

theorem similarity_of_normal_eq {l r : List Char} (h : normal l = normal r) :
    similarity l r = 100 := by
  rw [similarity, h, similarityOfNormal, editDistance_self, percentKept_zero]

/-- The similarity of two titles is that of their normal forms. -/
theorem similarity_normal (l r : List Char) : similarity (normal l) (normal r) = similarity l r := by
  rw [similarity, normal_normal, normal_normal, similarity]

theorem bestSimilarity_comm (l r : List Char) : bestSimilarity l r = bestSimilarity r l := by
  unfold bestSimilarity
  dsimp only
  rw [similarity_comm (normal l), similarity_comm (stripArticle (normal l))]

theorem bestSimilarity_le (l r : List Char) : bestSimilarity l r ≤ 100 :=
  Nat.max_le.mpr ⟨similarity_le .., similarity_le ..⟩

/-- Taking articles away can only improve the similarity. -/
theorem similarity_le_bestSimilarity (l r : List Char) : similarity l r ≤ bestSimilarity l r := by
  rw [← similarity_normal]
  exact similarity_le_bestSimilarity_normal l r

/-- Similarity is a symmetric percentage: what is lost is no more than there is, both kinds of
similarity do not depend on the order of the titles and do not exceed a hundred, and the one with
articles taken away is the better one. Both depend on the normal forms only, and titles with the same
normal form are fully similar. -/
theorem similarity_laws (l r : List Char) :
    editDistance (normal l) (normal r) ≤ max (normal l).length (normal r).length ∧
      similarity l r = similarity r l ∧ bestSimilarity l r = bestSimilarity r l ∧
      similarity l r ≤ bestSimilarity l r ∧ bestSimilarity l r ≤ 100 ∧
      (normal l = normal r → similarity l r = 100) ∧
      ∀ l' r', normal l' = normal l → normal r' = normal r →
        similarity l' r' = similarity l r ∧ bestSimilarity l' r' = bestSimilarity l r := by
  refine ⟨editDistance_le_max .., similarity_comm l r, bestSimilarity_comm l r,
    similarity_le_bestSimilarity l r, bestSimilarity_le l r, similarity_of_normal_eq, ?_⟩
  intro l' r' hl hr
  constructor
  · rw [similarity, hl, hr, similarity]
  · rw [bestSimilarity, hl, hr, bestSimilarity]

/-- Punctuation, spacing and the case of letters of any script make no difference. -/
theorem similarity_laws_sigma :
    normal "ΟΔΟΣ-66".toList = normal "  οδος 66!".toList ∧
      similarity "ΟΔΟΣ-66".toList "  οδος 66!".toList = 100 ∧
      bestSimilarity "ΟΔΟΣ-66".toList "The Οδός 66".toList =
        bestSimilarity "  οδος 66!".toList "the ΟΔΌΣ 66".toList :=
  ⟨by decide +kernel, (similarity_laws _ _).2.2.2.2.2.1 (by decide +kernel),
    ((similarity_laws _ _).2.2.2.2.2.2 _ _ (by decide +kernel) (by decide +kernel)).2⟩

end Harvest.Title
