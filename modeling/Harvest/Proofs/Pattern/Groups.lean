import Harvest.Proofs.Pattern.Places

/-!
# The texts of groups

What a group holds is a text of the part of the pattern that it stands around. The groups that were
there before play no role for where a pattern matches, so the same places are reached with and
without them.

## Main definitions

* `Pattern.parts` — the parts of a pattern that stand in a group

## Main results

* `Cursor.after_offset` — a position in a text is told by its offset
* `Pattern.IsMatch.exists_part` — the text of a group
* `Pattern.exists_ways_with` — other groups in front
* `Pattern.mem_findAll_of_find` — the leftmost match is among all matches
-/

namespace Harvest

/-! ### Places in a text -/

namespace Cursor

variable {s t rest : List Char} {c : Cursor} {i : Nat}

theorem leadsTo_after (hi : i ≤ s.length) :
    (ofList s).LeadsTo (after s i) ∧ (after s i).offset = i := by
  refine ⟨⟨s.take i, (List.take_append_drop i s).symm, (List.append_nil _).symm⟩, ?_⟩
  rw [offset, after, List.length_reverse, List.length_take_of_le hi]

/-- A position is told by its offset. -/
theorem after_offset (h : (ofList s).LeadsTo c) : after s c.offset = c := by
  obtain ⟨seen, rest⟩ := c
  obtain ⟨t, hs, hseen⟩ := h
  obtain rfl : s = t ++ rest := hs
  obtain rfl : seen = t.reverse := hseen.trans (List.append_nil _)
  have hplace := after_length t.reverse rest
  rwa [List.reverse_reverse] at hplace

/-- Behind some more characters. -/
theorem after_offset_add (h : (ofList s).LeadsTo c) (hc : c.rest = t ++ rest) :
    after s (c.offset + t.length) = ⟨t.reverse ++ c.seen, rest⟩ := by
  have hnext : c.LeadsTo ⟨t.reverse ++ c.seen, rest⟩ := ⟨t, hc, rfl⟩
  have hplace := after_offset (h.trans hnext)
  rwa [offset, List.length_append, List.length_reverse, Nat.add_comm] at hplace

end Cursor

/-! ### Ways to match -/

namespace Pattern

variable {p q : Pattern} {v w : Way} {k : Nat} {s t : List Char} {f : Found}

/-- The parts of a pattern that stand in the group `k`. -/
def parts (k : Nat) : Pattern → List Pattern
  | seq p q | either p q => p.parts k ++ q.parts k
  | group n p => if n = k then p :: p.parts k else p.parts k
  | empty | one _ | run _ _ _ | wordEdge | start | stop => []

theorem rest_subset_of_mem_ways (h : v ∈ p.ways w) : v.cursor.rest ⊆ w.cursor.rest := by
  rw [(leadsTo_of_mem_ways h).rest_eq]
  exact List.subset_append_right _ _

/-- A group holds a text of one of its parts, taken from what follows. -/
theorem exists_part_of_mem_groups (h : v ∈ p.ways w) (ht : (k, t) ∈ v.groups) :
    (k, t) ∈ w.groups ∨ ∃ q ∈ p.parts k, q.Spells t ∧ t ⊆ w.cursor.rest := by
  induction p generalizing v w with
  | seq p q ihp ihq =>
    obtain ⟨u, hu, hv⟩ := List.mem_flatMap.mp h
    rcases ihq hv ht with ht | ⟨r, hr, hspells, hsub⟩
    · refine (ihp hu ht).imp_right ?_
      rintro ⟨r, hr, hspells, hsub⟩
      exact ⟨r, List.mem_append_left _ hr, hspells, hsub⟩
    · exact .inr ⟨r, List.mem_append_right _ hr, hspells,
        List.Subset.trans hsub (rest_subset_of_mem_ways hu)⟩
  | either p q ihp ihq =>
    rcases List.mem_append.mp h with h | h
    · refine (ihp h ht).imp_right ?_
      rintro ⟨r, hr, hspells, hsub⟩
      exact ⟨r, List.mem_append_left _ hr, hspells, hsub⟩
    · refine (ihq h ht).imp_right ?_
      rintro ⟨r, hr, hspells, hsub⟩
      exact ⟨r, List.mem_append_right _ hr, hspells, hsub⟩
  | group n p ih =>
    obtain ⟨u, hu, rfl⟩ := List.mem_map.mp h
    -- the group that is closed here is the latest one
    rcases List.mem_cons.mp ht with heq | ht
    · cases heq
      refine .inr ⟨p, ?_, spells_since hu, ?_⟩
      · rw [parts, if_pos rfl]
        exact List.mem_cons_self
      · rw [(leadsTo_of_mem_ways hu).rest_eq]
        exact List.subset_append_left _ _
    · refine (ih hu ht).imp_right ?_
      rintro ⟨r, hr, hspells, hsub⟩
      refine ⟨r, ?_, hspells, hsub⟩
      rw [parts]
      split
      · exact List.mem_cons_of_mem _ hr
      · exact hr
  | empty | one _ | run _ _ _ | wordEdge | start | stop => exact .inl (groups_of_isPlain rfl h ▸ ht)

/-- The text of a group through which every way goes is one of its parts, taken from the text. -/
theorem IsMatch.exists_part (h : p.IsMatch s f) (hk : p.binds k = true) :
    ∃ q ∈ p.parts k, q.Spells (f.group k) ∧ f.group k ⊆ s := by
  obtain ⟨t, ht⟩ := Option.isSome_iff_exists.mp (h.isSome_group? hk)
  have hgroup : f.group k = t := by rw [Found.group, ht, Option.getD_some]
  obtain ⟨before, after, hgroups, -⟩ := List.lookup_eq_some_iff.mp ht
  have hmem : (k, t) ∈ f.way.groups := hgroups ▸ List.mem_append_right _ List.mem_cons_self
  obtain ⟨q, hq, hspells, hsub⟩ :=
    (exists_part_of_mem_groups h.way hmem).resolve_left List.not_mem_nil
  have hrest : f.start.rest ⊆ s := by
    rw [show s = (Cursor.ofList s).rest from rfl, h.start.rest_eq]
    exact List.subset_append_right _ _
  exact ⟨q, hq, hgroup ▸ hspells, hgroup ▸ List.Subset.trans hsub hrest⟩

theorem mem_ways_one_iff {k : CharClass} : v ∈ (one k).ways w ↔ ∃ ch rest,
    w.cursor.rest = ch :: rest ∧ k.contains ch = true ∧
      v = ⟨⟨ch :: w.cursor.seen, rest⟩, w.groups⟩ := by
  obtain ⟨⟨seen, rest⟩, groups⟩ := w
  cases rest with
  | nil => simp [ways]
  | cons ch rest =>
    by_cases hch : k.contains ch = true
    · simp [ways, hch]
    · simp [ways, hch]

/-- The same place is reached with other groups in front. -/
theorem exists_ways_with (gs : List (Nat × List Char)) (h : v ∈ p.ways w) :
    ∃ u ∈ p.ways ⟨w.cursor, gs⟩, u.cursor = v.cursor := by
  induction p generalizing v w gs with
  | empty => exact ⟨_, List.mem_singleton_self _, by rw [List.mem_singleton.mp h]⟩
  | one k =>
    obtain ⟨ch, rest, hrest, hch, rfl⟩ := mem_ways_one_iff.mp h
    exact ⟨_, mem_ways_one_iff.mpr ⟨ch, rest, hrest, hch, rfl⟩, rfl⟩
  | run k least most =>
    obtain ⟨c, hc, rfl⟩ := List.mem_map.mp h
    exact ⟨⟨c, gs⟩, List.mem_map_of_mem hc, rfl⟩
  | seq p q ihp ihq =>
    obtain ⟨u, hu, hv⟩ := List.mem_flatMap.mp h
    obtain ⟨u', hu', hplace⟩ := ihp gs hu
    obtain ⟨v', hv', hend⟩ := ihq u'.groups hv
    rw [← hplace] at hv'
    exact ⟨v', List.mem_flatMap_of_mem hu' hv', hend⟩
  | either p q ihp ihq =>
    rcases List.mem_append.mp h with h | h
    · obtain ⟨u, hu, hplace⟩ := ihp gs h
      exact ⟨u, List.mem_append_left _ hu, hplace⟩
    · obtain ⟨u, hu, hplace⟩ := ihq gs h
      exact ⟨u, List.mem_append_right _ hu, hplace⟩
  | group n p ih =>
    obtain ⟨u, hu, rfl⟩ := List.mem_map.mp h
    obtain ⟨u', hu', hplace⟩ := ih gs hu
    exact ⟨_, List.mem_map_of_mem hu', hplace⟩
  | wordEdge | start | stop =>
    unfold ways at h
    split at h
    next hhere =>
      obtain rfl := List.mem_singleton.mp h
      exact ⟨⟨v.cursor, gs⟩, by simp [ways, hhere], rfl⟩
    · cases h

theorem mem_ways_append_iff : v ∈ (p ++ q).ways w ↔ ∃ u ∈ p.ways w, v ∈ q.ways u := by
  rw [ways_seq, List.mem_flatMap]

theorem mem_ways_either_iff : v ∈ (either p q).ways w ↔ v ∈ p.ways w ∨ v ∈ q.ways w := by
  rw [ways_either, List.mem_append]

/-- A pattern in front of a word edge. -/
theorem mem_ways_append_wordEdge_iff :
    v ∈ (p ++ wordEdge).ways w ↔ v ∈ p.ways w ∧ v.cursor.atWordEdge = true := by
  simp only [mem_ways_append_iff, mem_ways_wordEdge_iff]
  constructor
  · rintro ⟨_, hu, rfl, hedge⟩
    exact ⟨hu, hedge⟩
  · rintro ⟨hv, hedge⟩
    exact ⟨v, hv, rfl, hedge⟩

/-- A pattern occurs in a text exactly if there is a way to match somewhere. -/
theorem occursIn_iff_exists_ways :
    p.occursIn s = true ↔ ∃ c, (Cursor.ofList s).LeadsTo c ∧ ∃ v, v ∈ p.ways ⟨c, []⟩ := by
  simp only [occursIn_iff, isSome_first_iff]
  constructor
  · rintro ⟨a, b, rfl, h⟩
    exact ⟨⟨a.reverse, b⟩, ⟨a, rfl, (List.append_nil _).symm⟩, h⟩
  · rintro ⟨⟨seen, rest⟩, ⟨a, hs, hseen⟩, h⟩
    obtain rfl : seen = a.reverse := hseen.trans (List.append_nil _)
    exact ⟨a, rest, hs, h⟩

/-- A pattern that matches occurs. -/
theorem IsMatch.occursIn (h : p.IsMatch s f) : p.occursIn s = true :=
  occursIn_iff_exists_ways.mpr ⟨f.start, h.start, f.way, h.way⟩

/-- A pattern occurs in a text exactly if it matches at some place. -/
theorem occursIn_iff_exists_matchesAt :
    p.occursIn s = true ↔ ∃ i, p.matchesAt s i = true := by
  rw [occursIn, ← Option.isSome_map (f := Found.offset), map_offset_find, List.find?_isSome]
  constructor
  · rintro ⟨i, -, hi⟩
    exact ⟨i, hi⟩
  · rintro ⟨i, hi⟩
    exact ⟨i, List.mem_range.mpr (Nat.lt_succ_of_le (le_length_of_matchesAt hi)), hi⟩

theorem mem_findAllFrom_of_findFrom {seen rest : List Char} (h : p.findFrom seen rest = some f) :
    f ∈ p.findAllFrom seen 0 rest := by
  induction rest generalizing seen with
  | nil =>
    rw [findAllFrom, ← findFrom, h]
    exact List.mem_singleton_self f
  | cons ch rest ih =>
    unfold findFrom at h
    unfold findAllFrom
    split at h
    · cases h
      exact List.mem_cons_self
    · exact ih h

/-- The leftmost match is among all matches. -/
theorem mem_findAll_of_find (h : p.find s = some f) : f ∈ p.findAll s :=
  mem_findAllFrom_of_findFrom h

end Pattern

end Harvest
