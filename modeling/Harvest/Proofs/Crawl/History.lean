import Harvest.Crawl.Archive
import Harvest.Proofs.Crawl.Backfill
import Mathlib.Data.List.Nodup
import Mathlib.Data.List.TakeWhile

/-!
# Linear histories

In a linear history every commit has the one before it as its only parent. The commits are numbered
from the oldest one, so a page of the listing, the commits that are pending in a pass and the way
back along first parents are all stretches of the list of names.

## Main definitions

* `Archive.names` — the names of the commits, the oldest first
* `Archive.IsLinear` — the history is linear and its commits have proper names of their own
* `Archive.after`, `Archive.since` — the commits newer than a commit, without and with the commit
* `Remote.Follows` — whatever a remote answers about commits agrees with an archive
* `Archive.Ahead` — how many commits are still ahead of a position on the way back

## Main results

* `Archive.IsLinear.push` — a linear history may grow at its head
* `Archive.IsLinear.reverse_newer` — the pending commits of a page, the oldest first
* `Crawler.WayBack.names` — the commits on the way back
-/

namespace Harvest

namespace Archive

/-- The names of the commits, the oldest first. -/
def names (a : Archive) : List String := a.commits.map CommitDetail.sha

/-- Every commit has the one before it as its only parent, and a name that belongs to no other
commit and can be told from the texts that stand for no commit. -/
structure IsLinear (a : Archive) : Prop where
  root : ∀ d, a.commits[0]? = some d → d.parents = []
  parent : ∀ k d e, a.commits[k]? = some d → a.commits[k + 1]? = some e → e.parents = [d.sha]
  nodup : a.names.Nodup
  proper : ∀ sha ∈ a.names, sha ≠ "" ∧ sha ≠ BackfillCursor.doneMark

/-- The commits newer than a commit, the oldest first. -/
def after (a : Archive) (sha : String) : List String := a.names.drop (a.names.idxOf sha + 1)

/-- The commit and all newer ones, the oldest first. -/
def since (a : Archive) (sha : String) : List String := a.names.drop (a.names.idxOf sha)

variable {a : Archive} {d : CommitDetail} {sha : String} {k : Nat}

theorem getElem?_names (a : Archive) (k : Nat) : a.names[k]? = a.commits[k]?.map CommitDetail.sha :=
  List.getElem?_map

theorem names_push (a : Archive) (d : CommitDetail) : (a.push d).names = a.names ++ [d.sha] := by
  simp [names, push]

theorem lt_of_names (h : a.names[k]? = some sha) : k < a.names.length :=
  (List.getElem?_eq_some_iff.mp h).1

theorem mem_of_names (h : a.names[k]? = some sha) : sha ∈ a.names := List.mem_of_getElem? h

theorem exists_commit (h : a.names[k]? = some sha) : ∃ d, a.commits[k]? = some d ∧ d.sha = sha := by
  rw [getElem?_names] at h
  exact Option.map_eq_some_iff.mp h

namespace IsLinear

theorem names_inj (ha : a.IsLinear) {i j : Nat} (hi : a.names[i]? = some sha)
    (hj : a.names[j]? = some sha) : i = j :=
  (List.getElem?_inj (lt_of_names hi) ha.nodup).mp (hi.trans hj.symm)

theorem idxOf_eq (ha : a.IsLinear) (h : a.names[k]? = some sha) : a.names.idxOf sha = k := by
  obtain ⟨hk, rfl⟩ := List.getElem?_eq_some_iff.mp h
  exact ha.nodup.idxOf_getElem k hk

theorem after_eq (ha : a.IsLinear) (h : a.names[k]? = some sha) :
    a.after sha = a.names.drop (k + 1) := by
  rw [after, ha.idxOf_eq h]

theorem since_eq (ha : a.IsLinear) (h : a.names[k]? = some sha) : a.since sha = a.names.drop k := by
  rw [since, ha.idxOf_eq h]

/-- A name belongs to the commit with its number. -/
theorem find?_eq (ha : a.IsLinear) (h : a.names[k]? = some sha) (hd : a.find? sha = some d) :
    a.commits[k]? = some d := by
  have hmem : d ∈ a.commits := List.mem_of_find?_eq_some hd
  have hsha : d.sha = sha := by simpa using List.find?_some hd
  obtain ⟨i, hi⟩ := List.mem_iff_getElem?.mp hmem
  have hname : a.names[i]? = some sha := by rw [getElem?_names, hi, ← hsha]; rfl
  rw [← ha.names_inj hname h, hi]

theorem isSome_find? (h : a.names[k]? = some sha) : ∃ d, a.find? sha = some d := by
  obtain ⟨d, hd, hsha⟩ := exists_commit h
  refine Option.isSome_iff_exists.mp (List.find?_isSome.mpr ⟨d, List.mem_of_getElem? hd, ?_⟩)
  simpa using hsha

/-- The first parent of a commit is the commit before it. -/
theorem firstParent?_eq (ha : a.IsLinear) (hd : a.commits[k]? = some d) :
    d.firstParent? = if k = 0 then none else a.names[k - 1]? := by
  cases k with
  | zero => simp [CommitDetail.firstParent?, ha.root d hd]
  | succ k =>
    have hk : k < a.commits.length := Nat.lt_of_succ_lt (List.getElem?_eq_some_iff.mp hd).1
    have hbefore := List.getElem?_eq_getElem hk
    simp [CommitDetail.firstParent?, ha.parent k _ d hbefore hd, getElem?_names, hbefore]

/-- Commits with the same name are the same. -/
theorem eq_of_sha (ha : a.IsLinear) {e : CommitDetail} (hd : d ∈ a.commits) (he : e ∈ a.commits)
    (h : d.sha = e.sha) : d = e :=
  List.inj_on_of_nodup_map ha.nodup hd he h

/-- A linear history stays linear when a commit on top of its head is pushed. -/
theorem push (ha : a.IsLinear) (hparents : d.parents = a.head?.toList) (hnew : d.sha ∉ a.names)
    (hproper : d.sha ≠ "" ∧ d.sha ≠ BackfillCursor.doneMark) : (a.push d).IsLinear where
  root e he := by
    rcases Nat.eq_zero_or_pos a.commits.length with hlen | hpos
    · -- the commit that is pushed is the first of all
      rw [Archive.push, List.getElem?_append_right (Nat.le_of_eq hlen), hlen] at he
      cases he
      rw [hparents, head?, List.eq_nil_of_length_eq_zero hlen]
      rfl
    · rw [Archive.push, List.getElem?_append_left hpos] at he
      exact ha.root e he
  parent k e f he hf := by
    rcases Nat.lt_or_ge (k + 1) a.commits.length with hlt | hge
    · rw [Archive.push, List.getElem?_append_left (by omega)] at he
      rw [Archive.push, List.getElem?_append_left hlt] at hf
      exact ha.parent k e f he hf
    · -- the later commit is the one that is pushed, and the earlier one was the head
      have hlen : (a.push d).commits.length = a.commits.length + 1 := List.length_append
      have hk := (List.getElem?_eq_some_iff.mp hf).1
      obtain rfl : k = a.commits.length - 1 := by omega
      rw [Archive.push, List.getElem?_append_right hge,
        show a.commits.length - 1 + 1 - a.commits.length = 0 by omega] at hf
      cases hf
      rw [Archive.push, List.getElem?_append_left (by omega), ← List.getLast?_eq_getElem?] at he
      rw [hparents, head?, he]
      rfl
  nodup := by
    rw [names_push, List.nodup_append]
    exact ⟨ha.nodup, List.nodup_singleton _, fun x hx y hy => by
      rintro rfl
      exact hnew (List.mem_singleton.mp hy ▸ hx)⟩
  proper sha hsha := by
    rw [names_push, List.mem_append, List.mem_singleton] at hsha
    rcases hsha with hsha | rfl
    · exact ha.proper sha hsha
    · exact hproper

end IsLinear

/-! ### Pages -/

theorem names_page (a : Archive) (n : Nat) :
    (a.page n 1).map CommitSummary.sha = a.names.reverse.take n := by
  simp [page, names, List.map_take, List.map_reverse, Function.comp_def]

theorem page_eq_nil_iff {n : Nat} (hn : n ≠ 0) : a.page n 1 = [] ↔ a.names = [] := by
  simp [page, names, hn]

/-- The head of a page is the newest commit. -/
theorem names_of_head {n : Nat} {head : CommitSummary} {page : List CommitSummary}
    (h : a.page n 1 = head :: page) : a.names[a.names.length - 1]? = some head.sha := by
  have hnames : head.sha :: page.map CommitSummary.sha = a.names.reverse.take n := by
    rw [← names_page, h]
    rfl
  have hhead : (a.names.reverse.take n).head? = some head.sha := by rw [← hnames]; rfl
  rw [← List.getLast?_eq_getElem?]
  rw [List.head?_take] at hhead
  split at hhead
  · cases hhead
  · rwa [List.head?_reverse] at hhead

theorem names_page_eq (a : Archive) (n : Nat) :
    (a.page n 1).map CommitSummary.sha = (a.names.drop (a.names.length - n)).reverse := by
  rw [names_page, List.take_reverse]

/-- Without a mark all commits of a page are pending. -/
theorem reverse_newer_none (a : Archive) (n : Nat) :
    (Crawler.newer none (a.page n 1)).reverse = a.names.drop (a.names.length - n) := by
  have hall : ∀ x ∈ (a.names.drop (a.names.length - n)).reverse, (some x != none) = true :=
    fun _ _ => rfl
  rw [Crawler.newer, names_page_eq, List.takeWhile_eq_self_iff.mpr hall, List.reverse_reverse]

theorem reverse_takeWhile_reverse {xs : List String} {x : String} {k : Nat} (hxs : xs.Nodup)
    (h : xs[k]? = some x) :
    (xs.reverse.takeWhile fun y => some y != some x).reverse = xs.drop (k + 1) := by
  obtain ⟨hk, rfl⟩ := List.getElem?_eq_some_iff.mp h
  have hsplit : xs.reverse = (xs.drop (k + 1)).reverse ++ xs[k] :: (xs.take k).reverse :=
    calc xs.reverse = (xs.take k ++ xs[k] :: xs.drop (k + 1)).reverse := by simp
      _ = (xs.drop (k + 1)).reverse ++ xs[k] :: (xs.take k).reverse := by
        rw [List.reverse_append, List.reverse_cons, List.append_assoc, List.singleton_append]
  have hnot : ∀ y ∈ (xs.drop (k + 1)).reverse, (some y != some xs[k]) = true := by
    intro y hy
    have hy' : y ∈ xs.drop (k + 1) := List.mem_reverse.mp hy
    obtain ⟨i, hi⟩ := List.mem_iff_getElem?.mp hy'
    rw [List.getElem?_drop] at hi
    have hne : xs[k]? ≠ some y := fun heq => by
      have hki := (List.getElem?_inj hk hxs).mp (heq.trans hi.symm)
      omega
    rw [List.getElem?_eq_getElem hk] at hne
    exact bne_iff_ne.mpr hne.symm
  rw [hsplit, List.takeWhile_append_of_pos hnot, List.takeWhile_cons_of_neg (by simp)]
  simp

/-- The pending commits of a page are those newer than the mark, as far as they are listed. -/
theorem IsLinear.reverse_newer (ha : a.IsLinear) {n : Nat} (h : a.names[k]? = some sha) :
    (Crawler.newer (some sha) (a.page n 1)).reverse =
      a.names.drop (max (k + 1) (a.names.length - n)) := by
  have hnodup : (a.names.drop (a.names.length - n)).Nodup := ha.nodup.sublist (List.drop_sublist _ _)
  rw [Crawler.newer, names_page_eq]
  rcases Nat.lt_or_ge k (a.names.length - n) with hk | hk
  · -- the mark is not on the page, so the whole page is newer
    have hnot : ∀ y ∈ (a.names.drop (a.names.length - n)).reverse, (some y != some sha) = true := by
      intro y hy
      obtain ⟨i, hi⟩ := List.mem_iff_getElem?.mp (List.mem_reverse.mp hy)
      rw [List.getElem?_drop] at hi
      have hne : y ≠ sha := fun heq => by
        have := ha.names_inj (heq ▸ hi) h
        omega
      simpa using hne
    rw [List.takeWhile_eq_self_iff.mpr hnot, List.reverse_reverse, Nat.max_eq_right hk]
  · -- the page reaches down to the mark
    have hsome : (a.names.drop (a.names.length - n))[k - (a.names.length - n)]? = some sha := by
      rw [List.getElem?_drop, Nat.add_sub_cancel' hk, h]
    rw [reverse_takeWhile_reverse hnodup hsome, List.drop_drop]
    congr 1
    omega

end Archive

/-- Whatever the remote answers about commits agrees with the archive; any request may fail. -/
structure Remote.Follows (r : Remote) (a : Archive) : Prop where
  list : ∀ {past n page ls}, r.list past n page = .ok ls → ls = a.page n page
  commit : ∀ {past sha d}, r.commit past sha = .ok d → a.find? sha = some d

/-- An archive follows itself, whatever is out of order. -/
theorem Archive.remote_follows (a : Archive) (outages : List Outage) :
    { a with outages := outages }.remote.Follows a where
  list h := by
    unfold Archive.remote Archive.answer at h
    simp only at h
    split at h
    · cases h
    · cases h
      rfl
  commit h := by
    unfold Archive.remote Archive.answer at h
    simp only at h
    split at h
    · cases h
    · split at h
      · cases h
        assumption
      · cases h

/-! ### The way back -/

/-- So many commits, the oldest ones, are still ahead of a position on the way back. -/
inductive Archive.Ahead (a : Archive) : BackfillCursor → Nat → Prop
  | at {k : Nat} {sha : String} (h : a.names[k]? = some sha) : a.Ahead (.at sha) (k + 1)
  | done : a.Ahead .done 0

namespace Crawler

variable {c : Crawler} {a : Archive} {sha : String} {k : Nat}

theorem firstParent?_of_commit (hc : c.remote.Follows a) (ha : a.IsLinear)
    (hk : a.names[k]? = some sha) {past : List RemoteCall} {d : CommitDetail}
    (hd : c.remote.commit past sha = .ok d) :
    d.firstParent? = if k = 0 then none else a.names[k - 1]? :=
  ha.firstParent?_eq (ha.find?_eq hk (hc.commit hd))

/-- A commit without a parent is the oldest one. -/
theorem eq_zero_of_root (hc : c.remote.Follows a) (ha : a.IsLinear)
    (hk : a.names[k]? = some sha) {past : List RemoteCall} {d : CommitDetail}
    (hd : c.remote.commit past sha = .ok d) (hparent : d.firstParent? = none) : k = 0 := by
  have hfirst := firstParent?_of_commit hc ha hk hd
  by_contra hne
  have hlt : k - 1 < a.names.length := Nat.lt_of_le_of_lt (Nat.sub_le k 1) (Archive.lt_of_names hk)
  rw [hparent, if_neg hne, List.getElem?_eq_getElem hlt] at hfirst
  cases hfirst

/-- The first parent of a commit comes right before it. -/
theorem exists_parent (hc : c.remote.Follows a) (ha : a.IsLinear) (hk : a.names[k]? = some sha)
    {parent : String} {past : List RemoteCall} {d : CommitDetail}
    (hd : c.remote.commit past sha = .ok d) (hparent : d.firstParent? = some parent) :
    ∃ j, k = j + 1 ∧ a.names[j]? = some parent := by
  have hfirst := firstParent?_of_commit hc ha hk hd
  cases k with
  | zero => rw [hparent, if_pos rfl] at hfirst; cases hfirst
  | succ j =>
    rw [hparent, if_neg (Nat.succ_ne_zero j), Nat.add_sub_cancel] at hfirst
    exact ⟨j, rfl, hfirst.symm⟩

/-- The commits on the way back from a commit are those down to the ones that are still ahead. -/
theorem WayBack.names {shas : List String} {next : BackfillCursor} (h : WayBack c sha shas next)
    (hc : c.remote.Follows a) (ha : a.IsLinear) (hk : a.names[k]? = some sha) :
    ∃ n, a.Ahead next n ∧ n ≤ k + 1 ∧
      ∀ name, name ∈ shas ↔ ∃ i, n ≤ i ∧ i ≤ k ∧ a.names[i]? = some name := by
  induction h generalizing k with
  | here sha =>
    -- nothing has been processed, and the commit itself is still ahead
    refine ⟨k + 1, .at hk, Nat.le_refl _, fun name => ?_⟩
    simp only [List.not_mem_nil, false_iff, not_exists, not_and]
    intro i hi hik
    omega
  | @root sha past d hd hparent =>
    obtain rfl := eq_zero_of_root hc ha hk hd hparent
    refine ⟨0, .done, Nat.zero_le _, fun name => ?_⟩
    rw [List.mem_singleton]
    constructor
    · rintro rfl
      exact ⟨0, Nat.le_refl _, Nat.le_refl _, hk⟩
    · rintro ⟨i, -, hi, hname⟩
      obtain rfl : i = 0 := Nat.le_zero.mp hi
      exact Option.some.inj (hname.symm.trans hk)
  | @step sha parent past d shas next hd hparent rest ih =>
    obtain ⟨j, rfl, hj⟩ := exists_parent hc ha hk hd hparent
    obtain ⟨n, hahead, hn, hshas⟩ := ih hj
    refine ⟨n, hahead, by omega, fun name => ?_⟩
    rw [List.mem_cons, hshas]
    constructor
    · rintro (rfl | ⟨i, hni, hij, hname⟩)
      · exact ⟨j + 1, by omega, Nat.le_refl _, hk⟩
      · exact ⟨i, hni, by omega, hname⟩
    · rintro ⟨i, hni, hij, hname⟩
      rcases Nat.lt_or_ge j i with hlt | hle
      · obtain rfl : i = j + 1 := by omega
        exact .inl (Option.some.inj (hname.symm.trans hk))
      · exact .inr ⟨i, hni, hle, hname⟩

end Crawler

end Harvest
