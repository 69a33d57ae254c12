import Harvest.Proofs.Number.Monotone
import Harvest.Proofs.Text.Kept
import Harvest.Proofs.Title.Similarity
import Mathlib.Data.List.TakeWhile

/-!
# Articles in front of titles

Two titles are compared as they are, and once more with the articles in front of both taken away. A
title with an article of its own is thus never compared with one that has a further article in
front: of `The A-Team` and `A-Team`, the one loses `The` and the other `A`. The articles that are
not the same then count as lost characters. They weigh nothing only if the title is so long that
they are no more than a two-hundredth of it.

## Main definitions

* `Title.leadingArticle?` — the article in front of a title

## Main results

* `Title.editDistance_append_self` — what stands in front is what has to be taken away
* `Title.percentKept_anti` — of a larger share that is lost, less is kept
* `Title.percentKept_eq_iff` — when the loss of a few characters weighs nothing
* `Title.bestSimilarity_the_iff` — which titles are fully similar to themselves with an article in
  front
* `Title.team_dissimilar` — one that is not
-/

namespace Harvest.Title

variable {s t a : List Char}

/-! ### Words and articles -/

theorem wordsFrom_ne_nil {run : List Char} (h : run ≠ [] ∨ ∃ c ∈ s, Text.isTitleChar c = true) :
    wordsFrom run s ≠ [] := by
  induction s generalizing run with
  | nil =>
    have hrun : run ≠ [] := h.resolve_right fun ⟨c, hc, _⟩ => by cases hc
    simp [wordsFrom, hrun]
  | cons c s ih =>
    unfold wordsFrom
    split
    · exact ih (.inl (List.cons_ne_nil c run))
    next hc =>
      split
      next hrun =>
        refine ih (.inr ?_)
        obtain hne | ⟨d, hd, hkept⟩ := h
        · exact absurd (List.isEmpty_iff.mp hrun) hne
        · refine ⟨d, (List.mem_cons.mp hd).resolve_left ?_, hkept⟩
          rintro rfl
          exact hc hkept
      · exact List.cons_ne_nil _ _

/-- A title with letters or numbers has words. -/
theorem words_lower_ne_nil (h : ∃ c ∈ t, Text.isTitleChar c = true) : words (Text.lower t) ≠ [] :=
  wordsFrom_ne_nil (.inr (Text.exists_isTitleChar_lower h))

/-- Words of a text in lower case are in normal form. -/
theorem normal_intercalate {ws : List (List Char)} (h : ∀ w ∈ ws, w ∈ words (Text.lower t)) :
    normal ([' '].intercalate ws) = [' '].intercalate ws := by
  have hlower : Text.lower ([' '].intercalate ws) = [' '].intercalate ws := by
    refine Text.lower_of_isLowered fun c hc => ?_
    obtain rfl | ⟨w, hw, hc⟩ := mem_intercalate hc
    · decide
    · exact Text.isLowered_of_mem_lower (mem_of_mem_words (h w hw) hc)
  rw [normal, hlower, words_intercalate fun w hw => isWord_of_mem_words (h w hw)]

theorem IsWord.ne_space {w : List Char} (h : IsWord w) {c : Char} (hc : c ∈ w) : c ≠ ' ' := by
  rintro rfl
  exact absurd (h.chars ' ' hc) (by decide)

/-- The first of several words is taken away if it is an article. -/
theorem stripArticle_intercalate {w v : List Char} {ws : List (List Char)} (hw : IsWord w)
    (hv : IsWord v) : stripArticle ([' '].intercalate (w :: v :: ws)) =
      if w ∈ articles then [' '].intercalate (v :: ws) else [' '].intercalate (w :: v :: ws) := by
  have hspaceless : ∀ c ∈ w, decide (c ≠ ' ') = true := fun c hc => by simpa using hw.ne_space hc
  -- what follows the first word begins with a letter or number
  obtain ⟨d, rest, hd, hrest⟩ : ∃ d rest, d ≠ ' ' ∧ [' '].intercalate (v :: ws) = d :: rest := by
    obtain ⟨d, v', rfl⟩ := List.exists_cons_of_ne_nil hv.nonempty
    refine ⟨d, ?_⟩
    cases ws with
    | nil => exact ⟨v', hv.ne_space List.mem_cons_self, List.intercalate_singleton⟩
    | cons u ws =>
      refine ⟨v' ++ ' ' :: [' '].intercalate (u :: ws), hv.ne_space List.mem_cons_self, ?_⟩
      rw [List.intercalate_cons_cons, List.append_assoc, List.singleton_append, List.cons_append]
  -- so the first word ends at the space, and no further space follows that
  have htake : (w ++ ' ' :: d :: rest).takeWhile (· ≠ ' ') = w := by
    rw [List.takeWhile_append_of_pos hspaceless]
    simp
  have hdrop : (w ++ ' ' :: d :: rest).dropWhile (· ≠ ' ') = ' ' :: d :: rest := by
    rw [List.dropWhile_append_of_pos hspaceless]
    simp
  rw [List.intercalate_cons_cons, List.append_assoc, List.singleton_append, hrest, stripArticle,
    htake, hdrop]
  simp [hd]

theorem stripArticle_of_isWord {w : List Char} (hw : IsWord w) : stripArticle w = w := by
  have hspaceless : ∀ c ∈ w, decide (c ≠ ' ') = true := fun c hc => by simpa using hw.ne_space hc
  have hdrop : w.dropWhile (· ≠ ' ') = [] := List.dropWhile_eq_nil_iff.mpr hspaceless
  rw [stripArticle, hdrop, List.isEmpty_nil, Bool.not_true, Bool.and_false]
  rfl

/-- The article in front of a title, if another word follows. -/
def leadingArticle? (t : List Char) : Option (List Char) :=
  match words (Text.lower t) with
  | a :: _ :: _ => if a ∈ articles then some a else none
  | _ => none

/-- A title without an article in front keeps its words. -/
theorem stripArticle_of_none (h : leadingArticle? t = none) :
    stripArticle (normal t) = normal t := by
  unfold leadingArticle? at h
  unfold normal
  cases hws : words (Text.lower t) with
  | nil => rfl
  | cons w ws =>
    have hw : IsWord w := isWord_of_mem_words (hws ▸ List.mem_cons_self)
    cases ws with
    | nil => rw [List.intercalate_singleton, stripArticle_of_isWord hw]
    | cons v ws =>
      have hv : IsWord v := isWord_of_mem_words (s := Text.lower t) (hws ▸ by simp)
      have hno : w ∉ articles := by
        rw [hws] at h
        simpa using h
      rw [stripArticle_intercalate hw hv, if_neg hno]

/-- A title with an article in front loses the article and the space behind it. -/
theorem stripArticle_of_some (h : leadingArticle? t = some a) :
    a ∈ articles ∧ normal t = (a ++ [' ']) ++ stripArticle (normal t) ∧
      normal (stripArticle (normal t)) = stripArticle (normal t) := by
  unfold leadingArticle? at h
  split at h
  next w v ws hws =>
    obtain ⟨harticle, heq⟩ := Option.ite_none_right_eq_some.mp h
    obtain rfl := Option.some.inj heq
    have hw : IsWord w := isWord_of_mem_words (hws ▸ List.mem_cons_self)
    have hv : IsWord v := isWord_of_mem_words (s := Text.lower t) (hws ▸ by simp)
    have hstrip : stripArticle (normal t) = [' '].intercalate (v :: ws) := by
      rw [normal, hws, stripArticle_intercalate hw hv, if_pos harticle]
    refine ⟨harticle, ?_, ?_⟩
    · rw [hstrip, normal, hws, List.intercalate_cons_cons]
    · rw [hstrip]
      exact normal_intercalate fun u hu => hws ▸ List.mem_cons_of_mem w hu
  · cases h

/-- An article put in front of a title is a word of its own. -/
theorem words_lower_the (t : List Char) :
    words (Text.lower ("The ".toList ++ t)) = "the".toList :: words (Text.lower t) := by
  have hlower : Text.lower ("The ".toList ++ t) = "the".toList ++ ' ' :: Text.lower t :=
    Text.lower_append_space "The".toList t
  have hthe : words "the".toList = ["the".toList] := by decide
  rw [hlower, words_append_space, hthe, List.singleton_append]

theorem leadingArticle_the (h : words (Text.lower t) ≠ []) :
    leadingArticle? ("The ".toList ++ t) = some "the".toList := by
  obtain ⟨w, ws, hws⟩ := List.exists_cons_of_ne_nil h
  rw [leadingArticle?, words_lower_the, hws]
  rfl

theorem normal_the (h : words (Text.lower t) ≠ []) :
    normal ("The ".toList ++ t) = "the ".toList ++ normal t := by
  obtain ⟨w, ws, hws⟩ := List.exists_cons_of_ne_nil h
  rw [normal, words_lower_the, normal, hws, List.intercalate_cons_cons]
  rfl

/-- It is what is taken away. -/
theorem stripArticle_the (h : words (Text.lower t) ≠ []) :
    stripArticle (normal ("The ".toList ++ t)) = normal t := by
  obtain ⟨-, hparts, -⟩ := stripArticle_of_some (leadingArticle_the h)
  exact (List.append_cancel_left ((normal_the h).symm.trans hparts)).symm

/-! ### Distances -/

theorem editDistance_cons_le (c : Char) (s t : List Char) :
    editDistance (c :: s) t ≤ editDistance s t + 1 := by
  cases t with
  | nil => rw [editDistance_nil_right, editDistance_nil_right, List.length_cons]
  | cons d t =>
    rw [editDistance_cons_cons]
    exact (Nat.min_le_left ..).trans (Nat.min_le_left ..)

/-- At least as many changes are needed as one text is longer than the other. -/
theorem length_le_add_editDistance (s t : List Char) :
    s.length ≤ t.length + editDistance s t := by
  induction s generalizing t with
  | nil => exact Nat.zero_le _
  | cons c s ihs =>
    induction t with
    | nil => rw [editDistance_nil_right]; omega
    | cons d t iht =>
      have hdeleted := ihs (d :: t)
      have hreplaced := ihs t
      rw [editDistance_cons_cons]
      simp only [List.length_cons] at hdeleted iht ⊢
      omega

/-- What stands in front is what has to be taken away. -/
theorem editDistance_append_self (a s : List Char) : editDistance (a ++ s) s = a.length := by
  refine Nat.le_antisymm ?_ ?_
  · induction a with
    | nil => simp
    | cons c a ih => exact (editDistance_cons_le c (a ++ s) s).trans (Nat.succ_le_succ ih)
  · have hle := length_le_add_editDistance (a ++ s) s
    rw [List.length_append] at hle
    omega

/-! ### Percentages -/

/-- Whole numbers nearest to numbers keep their order. -/
theorem nearest_mono {x y : Binary64} (h : x.value ≤ y.value) : nearest x ≤ nearest y := by
  have hx : (0 : ℚ) < x.den := by exact_mod_cast x.den_pos
  have hy : (0 : ℚ) < y.den := by exact_mod_cast y.den_pos
  rw [Binary64.value_eq, Binary64.value_eq, div_le_div_iff₀ hx hy] at h
  have hcross : x.num * y.den ≤ y.num * x.den := by exact_mod_cast h
  refine div_mono (Nat.mul_pos Nat.two_pos x.den_pos) (Nat.mul_pos Nat.two_pos y.den_pos) ?_
  calc (2 * x.num + x.den) * (2 * y.den) = 4 * (x.num * y.den) + 2 * (x.den * y.den) := by ring
    _ ≤ 4 * (y.num * x.den) + 2 * (x.den * y.den) := by omega
    _ = (2 * y.num + y.den) * (2 * x.den) := by ring

/-- Less than one is left by more. -/
theorem complement_anti {x y x' y' : Binary64} (hx : complement x = some x')
    (hy : complement y = some y') (h : x.value ≤ y.value) : y'.value ≤ x'.value := by
  have hshare : ∀ z : Binary64, ((z.den - z.num : ℕ) / z.den : ℚ) = max (1 - z.value) 0 := by
    intro z
    have hz : (0 : ℚ) < z.den := by exact_mod_cast z.den_pos
    rw [Binary64.value_eq]
    rcases Nat.le_total z.num z.den with hle | hle
    · have hone : (z.num / z.den : ℚ) ≤ 1 := (div_le_one₀ hz).mpr (by exact_mod_cast hle)
      rw [max_eq_left (sub_nonneg.mpr hone), Nat.cast_sub hle, sub_div, div_self hz.ne']
    · have hone : (1 : ℚ) ≤ z.num / z.den := (one_le_div₀ hz).mpr (by exact_mod_cast hle)
      rw [max_eq_right (sub_nonpos.mpr hone), Nat.sub_eq_zero_of_le hle, Nat.cast_zero, zero_div]
  refine Binary64.round_mono hy hx y.den_pos x.den_pos ?_
  rw [hshare, hshare]
  exact max_le_max_right 0 (sub_le_sub_left h 1)

/-- Of a larger share that is lost, less is kept. -/
theorem percentKept_anti {d d' n n' : Nat} (hn : n ≠ 0) (hn' : n' ≠ 0) (hd : d ≤ n) (hd' : d' ≤ n')
    (h : d * n' ≤ d' * n) : percentKept d' n' ≤ percentKept d n := by
  obtain ⟨lost, kept, hundred, share, hlost, hkept, hhundred, hshare, -, hpercent⟩ :=
    exists_share hd hn
  obtain ⟨lost', kept', hundred', share', hlost', hkept', hhundred', hshare', -, hpercent'⟩ :=
    exists_share hd' hn'
  obtain rfl := Option.some.inj (hhundred.symm.trans hhundred')
  have hlosses : lost.value ≤ lost'.value := by
    refine Binary64.round_mono hlost hlost' (Nat.pos_of_ne_zero hn) (Nat.pos_of_ne_zero hn') ?_
    rw [div_le_div_iff₀ (by exact_mod_cast Nat.pos_of_ne_zero hn)
      (by exact_mod_cast Nat.pos_of_ne_zero hn')]
    exact_mod_cast h
  rw [hpercent, hpercent']
  exact nearest_mono (Binary64.mul_mono hshare' hshare (complement_anti hkept hkept' hlosses))

/-- The loss of up to four characters weighs nothing if they are no more than a two-hundredth. -/
theorem percentKept_eq_iff {d n : Nat} (hd : d ≤ 4) (hle : d ≤ n) :
    percentKept d n = 100 ↔ 200 * d ≤ n := by
  rcases Nat.eq_zero_or_pos n with rfl | hn
  · obtain rfl : d = 0 := by omega
    simp [percentKept]
  constructor
  · intro h
    by_contra hlarge
    -- four of 799 are the smallest share that is larger
    have hmore : percentKept d n ≤ percentKept 4 799 :=
      percentKept_anti (by decide) hn.ne' (by decide) hle (by omega)
    have hvalue : percentKept 4 799 = 99 := by decide +kernel
    omega
  · intro h
    have hless : percentKept 1 200 ≤ percentKept d n :=
      percentKept_anti hn.ne' (by decide) hle (by decide) (by omega)
    have hvalue : percentKept 1 200 = 100 := by decide +kernel
    have hall := percentKept_le hle
    omega

/-! ### Articles on one side -/

/-- The similarity of a normal form with one that has more in front. -/
theorem similarity_of_append {l r : List Char} (h : normal l = a ++ normal r) :
    similarity l r = percentKept a.length (a.length + (normal r).length) := by
  have hlength : max (a.length + (normal r).length) (normal r).length =
      a.length + (normal r).length := by omega
  rw [similarity, similarityOfNormal, h, editDistance_append_self, List.length_append, hlength]

/-- A title is fully similar to itself with an article in front exactly if it has no article of its
own in front of other words, or one of the articles is no more than a two-hundredth of what is
compared. -/
theorem bestSimilarity_the_iff (h : ∃ c ∈ t, Text.isTitleChar c = true) :
    bestSimilarity ("The ".toList ++ t) t = 100 ↔
      ∀ a, leadingArticle? t = some a →
        200 * (a.length + 1) ≤ (normal t).length ∨ 796 ≤ (normal t).length := by
  have hwords := words_lower_ne_nil h
  -- with both articles, the one in front is lost
  have hwith : similarity (normal ("The ".toList ++ t)) (normal t) =
      percentKept 4 (4 + (normal t).length) := by
    rw [similarity_normal]
    exact similarity_of_append (normal_the hwords)
  have hwith_le : similarity (normal ("The ".toList ++ t)) (normal t) ≤ 100 := similarity_le ..
  unfold bestSimilarity
  dsimp only
  rw [stripArticle_the hwords]
  cases harticle : leadingArticle? t with
  | none =>
    have hself : similarity (normal t) (normal t) = 100 := similarity_of_normal_eq rfl
    rw [stripArticle_of_none harticle, hself, Nat.max_eq_right hwith_le]
    simp
  | some a =>
    obtain ⟨hmem, hparts, hnormal⟩ := stripArticle_of_some harticle
    have hlength : (normal t).length = a.length + 1 + (stripArticle (normal t)).length := by
      conv_lhs => rw [hparts]
      rw [List.length_append, List.length_append, List.length_singleton]
    -- without, the title loses its own article and keeps nothing for it
    have hwithout : similarity (normal t) (stripArticle (normal t)) =
        percentKept (a.length + 1) (normal t).length := by
      rw [similarity_of_append (a := a ++ [' ']) (by rw [normal_normal, hnormal]; exact hparts),
        hnormal, hlength, List.length_append, List.length_singleton]
    have hshort : a.length + 1 ≤ 4 := by
      have hall : ∀ a ∈ articles, a.length + 1 ≤ 4 := by decide
      exact hall a hmem
    have hfirst := percentKept_eq_iff (d := 4) (n := 4 + (normal t).length) le_rfl (by omega)
    have hsecond := percentKept_eq_iff (n := (normal t).length) hshort (by omega)
    have hle := similarity_le (normal t) (stripArticle (normal t))
    rw [hwith] at hwith_le ⊢
    rw [hwithout] at hle ⊢
    simp only [Option.some.injEq, forall_eq']
    rw [← hsecond]
    omega

/-- `Batman` loses nothing by an article, and `A-Team` does. -/
theorem bestSimilarity_the_team :
    (∃ c ∈ "Batman".toList, Text.isTitleChar c = true) ∧
      leadingArticle? "Batman".toList = none ∧
      bestSimilarity ("The ".toList ++ "Batman".toList) "Batman".toList = 100 ∧
      (∃ c ∈ "A-Team".toList, Text.isTitleChar c = true) ∧
      leadingArticle? "A-Team".toList = some ['a'] ∧ (normal "A-Team".toList).length = 6 ∧
      bestSimilarity ("The ".toList ++ "A-Team".toList) "A-Team".toList ≠ 100 := by
  have hbatman : leadingArticle? "Batman".toList = none := by decide +kernel
  have hteam : leadingArticle? "A-Team".toList = some ['a'] := by decide +kernel
  have hlength : (normal "A-Team".toList).length = 6 := by decide +kernel
  have hletters : ∃ c ∈ "Batman".toList, Text.isTitleChar c = true := ⟨'B', by decide, by decide⟩
  have hletters' : ∃ c ∈ "A-Team".toList, Text.isTitleChar c = true := ⟨'A', by decide, by decide⟩
  refine ⟨hletters, hbatman, (bestSimilarity_the_iff hletters).mpr ?_, hletters', hteam, hlength,
    fun hfull => ?_⟩
  · intro a ha
    exact nomatch hbatman.symm.trans ha
  · have hlong := (bestSimilarity_the_iff hletters').mp hfull ['a'] hteam
    rw [hlength] at hlong
    exact absurd hlong (by decide)

/-- The title of a series is hardly similar to itself with an article in front. -/
theorem team_dissimilar :
    bestSimilarity ("The ".toList ++ "A-Team".toList) "A-Team".toList = 67 := by
  decide +kernel

end Harvest.Title
