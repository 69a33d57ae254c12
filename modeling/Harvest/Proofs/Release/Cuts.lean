import Harvest.Proofs.Release.Year
import Mathlib.Data.List.Perm.Subperm

/-!
# Cutting release names

A release name is cut at places that matches give: behind a leading group, and where the title ends.
Parts of matches are taken by the numbers of their groups, and ranges of seasons and of episodes are
written out. Whatever a name is, the places are places in it, the groups are there, and the numbers
have four digits at most, so that no range is long.

## Main definitions

* `Cursor.LeadsTo` — a position comes after another one of the same text
* `Pattern.IsMatch` — a match of a pattern in a text
* `Pattern.binds`, `Pattern.groupFits`, `Pattern.anchored` — what a pattern tells about its matches
* `Release.takenGroups` — the groups that are taken
* `Release.Name.IsSound` — what reading a name relies on

## Main results

* `Pattern.exists_group_of_binds`, `Pattern.length_le_of_groupFits` — the groups of a match
* `Release.isSound_ofChars` — every name can be read
-/

namespace Harvest

/-! ### Places in a text -/

namespace Cursor

/-- A position comes after another one of the same text. -/
def LeadsTo (q p : Cursor) : Prop := ∃ t, q.rest = t ++ p.rest ∧ p.seen = t.reverse ++ q.seen

variable {p q r : Cursor}

@[refl] theorem LeadsTo.refl (p : Cursor) : p.LeadsTo p := ⟨[], rfl, rfl⟩

theorem LeadsTo.trans (hpq : p.LeadsTo q) (hqr : q.LeadsTo r) : p.LeadsTo r := by
  obtain ⟨s, hs, hs'⟩ := hpq
  obtain ⟨t, ht, ht'⟩ := hqr
  exact ⟨s ++ t, by rw [hs, ht, List.append_assoc],
    by rw [ht', hs', List.reverse_append, List.append_assoc]⟩

/-- One character more. -/
theorem LeadsTo.next (seen rest : List Char) (ch : Char) :
    LeadsTo ⟨seen, ch :: rest⟩ ⟨ch :: seen, rest⟩ := ⟨[ch], rfl, rfl⟩

/-- What follows a position is the text up to a later one and what follows that. -/
theorem LeadsTo.rest_eq (h : q.LeadsTo p) : q.rest = p.since q ++ p.rest := by
  obtain ⟨t, hrest, hseen⟩ := h
  have hsince : p.since q = t := by
    rw [← since_append q.seen t p.rest q.rest, ← hseen]
  rw [hsince, hrest]

/-- No position lies behind the end of the text. -/
theorem LeadsTo.offset_le {s : List Char} (h : (ofList s).LeadsTo p) : p.offset ≤ s.length := by
  obtain ⟨t, hrest, hseen⟩ := h
  have hs : s = t ++ p.rest := hrest
  rw [offset, hseen, hs]
  simp [ofList]

end Cursor

/-! ### What a pattern tells about its matches -/

namespace Pattern

variable {p : Pattern} {v w : Way} {k m : Nat}

/-- A pattern matches what follows. -/
theorem leadsTo_of_mem_ways (h : v ∈ p.ways w) : w.cursor.LeadsTo v.cursor := by
  obtain ⟨t, -, hplaces⟩ := exists_spelled h
  exact ⟨t, hplaces⟩

/-- Whether the pattern has no parts, and so no groups. -/
def isPlain : Pattern → Bool
  | empty | one _ | run _ _ _ | wordEdge | start | stop => true
  | seq _ _ | either _ _ | group _ _ => false

theorem groups_of_isPlain (hp : p.isPlain = true) (h : v ∈ p.ways w) : v.groups = w.groups := by
  cases p with
  | empty => rw [List.mem_singleton.mp h]
  | run c least most =>
    obtain ⟨q, -, rfl⟩ := List.mem_map.mp h
    rfl
  | one c =>
    unfold ways at h
    split at h
    · cases h
    · split at h
      · rw [List.mem_singleton.mp h]
      · cases h
  | wordEdge | start | stop =>
    unfold ways at h
    split at h
    · rw [List.mem_singleton.mp h]
    · cases h
  | seq _ _ | either _ _ | group _ _ => cases hp

/-- Groups are only added. -/
theorem groups_of_mem_ways (h : v ∈ p.ways w) : ∃ new, v.groups = new ++ w.groups := by
  induction p generalizing v w with
  | seq p q ihp ihq =>
    obtain ⟨u, hu, hv⟩ := List.mem_flatMap.mp h
    obtain ⟨first, hfirst⟩ := ihp hu
    obtain ⟨second, hsecond⟩ := ihq hv
    exact ⟨second ++ first, by rw [hsecond, hfirst, List.append_assoc]⟩
  | either p q ihp ihq => exact (List.mem_append.mp h).elim ihp ihq
  | group n p ih =>
    obtain ⟨u, hu, rfl⟩ := List.mem_map.mp h
    obtain ⟨inner, hinner⟩ := ih hu
    exact ⟨(n, u.cursor.since w.cursor) :: inner, by rw [hinner, List.cons_append]⟩
  | empty | one _ | run _ _ _ | wordEdge | start | stop => exact ⟨[], groups_of_isPlain rfl h⟩

/-- Whether every way to match goes through the group `k`. -/
def binds (k : Nat) : Pattern → Bool
  | seq p q => p.binds k || q.binds k
  | either p q => p.binds k && q.binds k
  | group n p => n == k || p.binds k
  | empty | one _ | run _ _ _ | wordEdge | start | stop => false

/-- A group through which every way goes has a text. -/
theorem exists_group_of_binds (hk : p.binds k = true) (h : v ∈ p.ways w) :
    ∃ t, (k, t) ∈ v.groups := by
  induction p generalizing v w with
  | seq p q ihp ihq =>
    obtain ⟨u, hu, hv⟩ := List.mem_flatMap.mp h
    rcases Bool.or_eq_true_iff.mp hk with hk | hk
    · -- the second part keeps the groups of the first
      obtain ⟨t, ht⟩ := ihp hk hu
      obtain ⟨new, hnew⟩ := groups_of_mem_ways hv
      exact ⟨t, hnew ▸ List.mem_append_right new ht⟩
    · exact ihq hk hv
  | either p q ihp ihq =>
    obtain ⟨hp, hq⟩ := Bool.and_eq_true_iff.mp hk
    exact (List.mem_append.mp h).elim (ihp hp) (ihq hq)
  | group n p ih =>
    obtain ⟨u, hu, rfl⟩ := List.mem_map.mp h
    rcases Bool.or_eq_true_iff.mp hk with hk | hk
    · cases beq_iff_eq.mp hk
      exact ⟨_, List.mem_cons_self⟩
    · obtain ⟨t, ht⟩ := ih hk hu
      exact ⟨t, List.mem_cons_of_mem _ ht⟩
  | empty | one _ | run _ _ _ | wordEdge | start | stop => cases hk

/-- Whether the group `k`, wherever it stands, takes at most `m` characters. -/
def groupFits (k m : Nat) : Pattern → Bool
  | seq p q | either p q => p.groupFits k m && q.groupFits k m
  | group n p => (n != k || p.width.any (· ≤ m)) && p.groupFits k m
  | empty | one _ | run _ _ _ | wordEdge | start | stop => true

/-- A group that takes at most `m` characters has a text of at most `m` characters. -/
theorem length_le_of_groupFits {t : List Char} (hk : p.groupFits k m = true)
    (h : v ∈ p.ways w) (ht : (k, t) ∈ v.groups) : (k, t) ∈ w.groups ∨ t.length ≤ m := by
  induction p generalizing v w with
  | seq p q ihp ihq =>
    obtain ⟨hp, hq⟩ := Bool.and_eq_true_iff.mp hk
    obtain ⟨u, hu, hv⟩ := List.mem_flatMap.mp h
    exact (ihq hq hv ht).elim (ihp hp hu) .inr
  | either p q ihp ihq =>
    obtain ⟨hp, hq⟩ := Bool.and_eq_true_iff.mp hk
    exact (List.mem_append.mp h).elim (ihp hp · ht) (ihq hq · ht)
  | group n p ih =>
    obtain ⟨hhere, hp⟩ := Bool.and_eq_true_iff.mp hk
    obtain ⟨u, hu, rfl⟩ := List.mem_map.mp h
    -- the group that is closed here is the latest one
    rcases List.mem_cons.mp ht with heq | ht
    · cases heq
      rcases Bool.or_eq_true_iff.mp hhere with hne | hwidth
      · simp at hne
      · obtain ⟨n', hn', hle⟩ := (Option.any_eq_true _ _).mp hwidth
        have hlength := length_le_of_spells hn' (spells_since hu)
        exact .inr (Nat.le_trans hlength (of_decide_eq_true hle))
    · exact ih hp hu ht
  | empty | one _ | run _ _ _ | wordEdge | start | stop => exact .inl (groups_of_isPlain rfl h ▸ ht)

/-- Whether the pattern matches at the beginning of a text only. -/
def anchored : Pattern → Bool
  | start => true
  | seq p _ => p.anchored
  | either p q => p.anchored && q.anchored
  | group _ p => p.anchored
  | empty | one _ | run _ _ _ | wordEdge | stop => false

theorem seen_eq_nil_of_anchored (hp : p.anchored = true) (h : v ∈ p.ways w) :
    w.cursor.seen = [] := by
  induction p generalizing v w with
  | start =>
    unfold ways at h
    split at h
    next hseen => exact List.isEmpty_iff.mp hseen
    · cases h
  | seq p q ihp _ =>
    obtain ⟨u, hu, -⟩ := List.mem_flatMap.mp h
    exact ihp hp hu
  | either p q ihp ihq =>
    obtain ⟨hp, hq⟩ := Bool.and_eq_true_iff.mp hp
    exact (List.mem_append.mp h).elim (ihp hp) (ihq hq)
  | group n p ih =>
    obtain ⟨u, hu, -⟩ := List.mem_map.mp h
    exact ih hp hu
  | empty | one _ | run _ _ _ | wordEdge | stop => cases hp

/-! ### Matches -/

/-- A match of a pattern in a text. -/
structure IsMatch (p : Pattern) (s : List Char) (f : Found) : Prop where
  /-- The match was made where it begins. -/
  way : f.way ∈ p.ways ⟨f.start, []⟩
  /-- It begins in the text. -/
  start : (Cursor.ofList s).LeadsTo f.start

variable {s seen rest : List Char} {f : Found}

theorem isMatch_of_findFrom (hs : (Cursor.ofList s).LeadsTo ⟨seen, rest⟩)
    (h : p.findFrom seen rest = some f) : p.IsMatch s f := by
  induction rest generalizing seen with
  | nil =>
    obtain ⟨w, hw, rfl⟩ := Option.map_eq_some_iff.mp h
    exact ⟨List.mem_of_head? hw, hs⟩
  | cons ch rest ih =>
    unfold findFrom at h
    split at h
    next w hw =>
      cases h
      exact ⟨List.mem_of_head? hw, hs⟩
    next => exact ih (hs.trans (.next seen rest ch)) h

theorem isMatch_of_find (h : p.find s = some f) : p.IsMatch s f :=
  isMatch_of_findFrom (.refl _) h

theorem start_of_mem_findAllFrom {skip : Nat} (h : f ∈ p.findAllFrom seen skip rest) :
    Cursor.LeadsTo ⟨seen, rest⟩ f.start := by
  induction rest generalizing seen skip with
  | nil =>
    cases skip with
    | succ skip => cases h
    | zero =>
      unfold findAllFrom at h
      obtain ⟨w, -, rfl⟩ := Option.map_eq_some_iff.mp (Option.mem_toList.mp h)
      exact .refl _
  | cons ch rest ih =>
    have hnext := Cursor.LeadsTo.next seen rest ch
    cases skip with
    | succ skip => exact hnext.trans (ih h)
    | zero =>
      unfold findAllFrom at h
      split at h
      next w hw =>
        rcases List.mem_cons.mp h with rfl | h
        · exact .refl _
        · exact hnext.trans (ih h)
      next => exact hnext.trans (ih h)

theorem isMatch_of_mem_findAll (h : f ∈ p.findAll s) : p.IsMatch s f :=
  ⟨mem_ways_of_mem_findAllFrom h, start_of_mem_findAllFrom h⟩

namespace IsMatch

theorem offset_le (h : p.IsMatch s f) : f.offset ≤ s.length := h.start.offset_le

/-- A match at the beginning of the text divides it. -/
theorem eq_append (h : p.IsMatch s f) (hp : p.anchored = true) :
    s = f.text ++ f.way.cursor.rest := by
  have hseen : f.start.seen = [] := seen_eq_nil_of_anchored hp h.way
  obtain ⟨t, hrest, hstart⟩ := h.start
  rw [hseen] at hstart
  obtain ⟨ht, -⟩ := List.append_eq_nil_iff.mp hstart.symm
  rw [List.reverse_eq_nil_iff.mp ht] at hrest
  exact hrest.trans (leadsTo_of_mem_ways h.way).rest_eq

/-- A group through which every way goes is there. -/
theorem isSome_group? (h : p.IsMatch s f) (hk : p.binds k = true) :
    (f.group? k).isSome = true := by
  obtain ⟨t, ht⟩ := exists_group_of_binds hk h.way
  cases hlookup : f.group? k with
  | some t' => rfl
  | none => exact absurd (beq_self_eq_true k) (by simpa using List.lookup_eq_none_iff.mp hlookup _ ht)

theorem length_group_le (h : p.IsMatch s f) (hk : p.groupFits k m = true) :
    (f.group k).length ≤ m := by
  unfold Found.group
  cases hlookup : f.group? k with
  | none => exact Nat.zero_le m
  | some t =>
    obtain ⟨before, after, hgroups, -⟩ := List.lookup_eq_some_iff.mp hlookup
    have ht : (k, t) ∈ f.way.groups := hgroups ▸ List.mem_append_right _ List.mem_cons_self
    rcases length_le_of_groupFits hk h.way ht with ht | ht
    · cases ht
    · exact ht

end IsMatch

end Pattern

/-! ### Reading a name -/

namespace Release

open Pattern

/-- The groups that reading a name takes out of matches. -/
def takenGroups : List (Pattern × Nat) :=
  [(leadingGroup, 1), (trailingGroup, 1), (seasonRange, 1), (seasonRange, 2), (season, 1),
    (seasonWord, 1), (crossEpisode, 1), (crossEpisode, 2), (episode, 1), (absoluteEpisode, 1),
    (resolution, 1), (bitDepth, 1), (channels, 1), (channels, 2)]

theorem binds_takenGroups : ∀ g ∈ takenGroups, g.1.binds g.2 = true := by
  decide

/-- What reading a name, given with its spaces for separators, relies on. -/
structure Name.IsSound (n : Name) : Prop where
  /-- Behind a leading group, there is the rest of the name. -/
  leading : ∀ f, Release.leadingGroup.find (spaceSeparators n.raw) = some f →
    spaceSeparators n.raw = f.text ++ n.normalized
  /-- The groups that are taken are there. -/
  groups : ∀ g ∈ takenGroups, ∀ s f, g.1.IsMatch s f → (f.group? g.2).isSome = true
  /-- The title ends in the name. -/
  titleEnd : n.titleEnd ≤ n.normalized.length
  /-- There are not more seasons than two digits can count. -/
  seasons : n.parse.seasons.length ≤ 100 ∧ ∀ k ∈ n.parse.seasons, k < 100
  /-- There are not more episodes than four digits can count. -/
  episodes : n.parse.episodes.length ≤ 10000 ∧ ∀ k ∈ n.parse.episodes, k < 10000

variable {p : Pattern} {s : List Char} {f : Found} {k m n : Nat}

/-- The number of a group that takes at most `m` characters has at most `m` digits. -/
theorem number_group_lt (h : p.IsMatch s f) (hk : p.groupFits k m = true)
    (hn : number? (f.group k) = some n) : n < 10 ^ m :=
  Nat.lt_of_lt_of_le (number_lt hn) (Nat.pow_le_pow_right (by decide) (h.length_group_le hk))

theorem number_getD_group_lt (h : p.IsMatch s f) (hk : p.groupFits k m = true) :
    (number? (f.group k)).getD 0 < 10 ^ m := by
  cases hn : number? (f.group k) with
  | none => exact Nat.pow_pos (by decide)
  | some n => exact number_group_lt h hk hn

/-- A span below a bound is no longer than the bound. -/
theorem span_lt {first last bound : Nat} (h : last < bound) :
    (span first last).length ≤ bound ∧ ∀ k ∈ span first last, k < bound := by
  refine ⟨?_, fun k hk => ?_⟩
  · rw [span, List.length_range']
    omega
  · have hbounds := List.mem_range'_1.mp hk
    omega

/-- Different numbers below a bound are not more than the bound. -/
theorem length_le_of_nodup {ns : List Nat} {bound : Nat} (hns : ns.Nodup)
    (h : ∀ k ∈ ns, k < bound) : ns.length ≤ bound := by
  have hsub : ns ⊆ List.range bound := fun k hk => List.mem_range.mpr (h k hk)
  have hlength := (List.subperm_of_subset hns hsub).length_le
  rwa [List.length_range] at hlength

theorem mem_of_mem_unique {α : Type} [DecidableEq α] {items : List α} {a : α}
    (h : a ∈ unique items) : a ∈ items := by
  have hfold : ∀ xs known : List α, a ∈ xs.foldl pushUnique known → a ∈ known ∨ a ∈ xs := by
    intro xs
    induction xs with
    | nil => exact fun known h => .inl h
    | cons x xs ih =>
      intro known h
      rcases ih _ h with h | h
      · unfold pushUnique at h
        split at h
        · exact .inl h
        · rcases List.mem_append.mp h with h | h
          · exact .inl h
          · exact .inr (List.mem_singleton.mp h ▸ List.mem_cons_self)
      · exact .inr (List.mem_cons_of_mem x h)
  exact (hfold items [] h).resolve_left List.not_mem_nil

theorem groupFits_seasons : seasonRange.groupFits 2 2 = true ∧ season.groupFits 1 2 = true ∧
    seasonWord.groupFits 1 2 = true ∧ crossEpisode.groupFits 1 2 = true := by
  decide

theorem groupFits_episodes : episode.groupFits 1 4 = true ∧ episode.groupFits 2 4 = true ∧
    crossEpisode.groupFits 2 3 = true ∧ absoluteEpisode.groupFits 1 4 = true := by
  decide

theorem singleSeasons_lt (s : List Char) :
    (singleSeasons s).length ≤ 100 ∧ ∀ k ∈ singleSeasons s, k < 100 := by
  obtain ⟨-, hseason, hword, hcross⟩ := groupFits_seasons
  have hlt : ∀ k ∈ singleSeasons s, k < 100 := by
    intro k hk
    obtain ⟨f, hf, hn⟩ :=
      List.mem_filterMap.mp (mem_of_mem_unique ((List.mergeSort_perm _ _).mem_iff.mp hk))
    rcases List.mem_append.mp hf with hf | hf
    · rcases List.mem_append.mp hf with hf | hf
      · exact number_group_lt (isMatch_of_mem_findAll hf) hseason hn
      · exact number_group_lt (isMatch_of_mem_findAll hf) hword hn
    · exact number_group_lt (isMatch_of_mem_findAll hf) hcross hn
  have hnodup : (singleSeasons s).Nodup :=
    (List.mergeSort_perm _ _).nodup_iff.mpr (nodup_unique _)
  exact ⟨length_le_of_nodup hnodup hlt, hlt⟩

theorem seasons_lt (s : List Char) :
    (seasons s).length ≤ 100 ∧ ∀ k ∈ seasons s, k < 100 := by
  unfold seasons seasonsOfRange
  split
  next f hf =>
    dsimp only
    split
    · exact span_lt (number_getD_group_lt (isMatch_of_find hf) groupFits_seasons.1)
    · exact singleSeasons_lt s
  next => exact singleSeasons_lt s

/-- At most one number, below a bound. -/
theorem toList_lt {o : Option Nat} {bound : Nat} (hbound : 0 < bound)
    (h : ∀ k, o = some k → k < bound) : o.toList.length ≤ bound ∧ ∀ k ∈ o.toList, k < bound := by
  cases o with
  | none => exact ⟨Nat.zero_le _, fun k hk => nomatch hk⟩
  | some n => exact ⟨hbound, fun k hk => List.mem_singleton.mp hk ▸ h n rfl⟩

theorem episodes_lt (s : List Char) :
    (episodes s).length ≤ 10000 ∧ ∀ k ∈ episodes s, k < 10000 := by
  obtain ⟨hfirst, hlast, hcross, habsolute⟩ := groupFits_episodes
  unfold episodes
  split
  next f hf =>
    have hmatch := isMatch_of_find hf
    have hone : (number? (f.group 1)).getD 0 < 10000 := number_getD_group_lt hmatch hfirst
    have hsingle := toList_lt (o := some ((number? (f.group 1)).getD 0)) (by decide)
      fun k hk => Option.some.inj hk ▸ hone
    dsimp only
    split
    next last hn =>
      obtain ⟨t, ht, hnumber⟩ := Option.bind_eq_some_iff.mp hn
      have hgroup : f.group 2 = t := by rw [Found.group, ht, Option.getD_some]
      have hbound : last < 10000 := number_group_lt hmatch hlast (hgroup ▸ hnumber)
      split
      · exact span_lt hbound
      · exact hsingle
    next => exact hsingle
  next =>
    split
    next f hf =>
      refine toList_lt (by decide) fun k hk => ?_
      have hbound : k < 1000 := number_group_lt (isMatch_of_find hf) hcross hk
      omega
    next =>
      refine toList_lt (by decide) fun k hk => ?_
      obtain ⟨f, hf, hn⟩ := Option.bind_eq_some_iff.mp hk
      exact number_group_lt (isMatch_of_find hf) habsolute hn

theorem titleEnd_le (n : Name) : n.titleEnd ≤ n.normalized.length := by
  unfold Name.titleEnd
  cases hmin : (n.boundaryOffsets.filter (0 < ·)).min? with
  | none => exact Nat.le_refl _
  | some i =>
    have hi := List.mem_of_mem_filter (List.min?_mem hmin)
    rcases List.mem_append.mp hi with hi | hi
    · rcases List.mem_append.mp hi with hi | hi
      · -- the year is one of all matches
        obtain ⟨f, hf, rfl⟩ := Option.map_eq_some_iff.mp (Option.mem_toList.mp hi)
        exact (isMatch_of_mem_findAll (List.mem_of_find?_eq_some hf)).offset_le
      · obtain ⟨p, -, hp⟩ := List.mem_filterMap.mp hi
        obtain ⟨f, hf, rfl⟩ := Option.map_eq_some_iff.mp hp
        exact (isMatch_of_find hf).offset_le
    · obtain ⟨hlt, -⟩ := List.findIdx?_eq_some_iff_getElem.mp (Option.mem_toList.mp hi)
      exact Nat.le_of_lt hlt

theorem Name.raw_ofChars (s : List Char) :
    (Name.ofChars s).raw = videoExtension.eraseFirst (Text.trim s) := by
  unfold Name.ofChars
  dsimp only
  split <;> rfl

/-- Every name can be read. -/
theorem isSound_ofChars (s : List Char) : (Name.ofChars s).IsSound where
  leading f hf := by
    rw [Name.raw_ofChars] at hf ⊢
    -- the pattern is anchored, so nothing stands in front of the leading group
    have hrest : (Name.ofChars s).normalized = f.way.cursor.rest := by
      unfold Name.ofChars
      dsimp only
      rw [hf]
    exact hrest ▸ (isMatch_of_find hf).eq_append (by decide)
  groups g hg _ _ hf := hf.isSome_group? (binds_takenGroups g hg)
  titleEnd := titleEnd_le _
  seasons := seasons_lt _
  episodes := episodes_lt _

end Release

end Harvest
