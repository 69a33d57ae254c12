import Harvest.Proofs.Pattern.Meaning
import Harvest.Snapshot.Fragment

/-!
# Frames of snapshots

The fragment of a snapshot is that of the first frame on the page that shows the viewer of a host.
The page is searched for frames that are written in a certain way; text that only begins like such
a frame is passed over, and a page without such a frame has no fragment.

## Main definitions

* `Snapshot.Opens` — a text begins with a frame that shows the viewer of a host
* `Snapshot.FrameAt` — such a frame stands behind the beginning of a page

## Main results

* `Snapshot.takes_frame_iff` — the texts that the pattern of a frame takes
* `Snapshot.Opens.unique` — a frame has one fragment
* `Snapshot.fragment_found_iff` — which fragment is found, and when there is none
-/

namespace Harvest.Snapshot

open Pattern

/-! ### How a frame is written -/

/-- A text begins with a frame that shows the viewer of a host, with the given fragment in its
link. -/
def Opens (host : String) (fragment text : List Char) : Prop :=
  ∃ blanks after : List Char,
    text = "<iframe".toList ++ blanks ++ "src=\"https://".toList ++ host.toList ++
      "/hashlist#".toList ++ fragment ++ "\"".toList ++ after ∧
    blanks ≠ [] ∧ (∀ c ∈ blanks, Text.isBlank c = true) ∧ fragment ≠ [] ∧ '"' ∉ fragment

/-- Behind the beginning of a page, there is a frame that shows the viewer of a host. -/
def FrameAt (host page : String) (before fragment : List Char) : Prop :=
  ∃ rest, page.toList = before ++ rest ∧ Opens host fragment rest

variable {host page : String} {fragment text : List Char}

theorem isFree_frame (host : String) : (frame host).isFree = true := by
  have hseq (p q : Pattern) : (p ++ q).isFree = (p.isFree && q.isFree) := rfl
  simp only [frame, hseq, isFree_literal, Bool.true_and, Bool.and_true]
  rfl

/-- The pattern of a frame takes what a frame looks like, and its group is the fragment. -/
theorem takes_frame_iff {gs : List (Nat × List Char)} : (frame host).Takes text gs ↔
    ∃ blanks fragment : List Char,
      text = "<iframe".toList ++ blanks ++ "src=\"https://".toList ++ host.toList ++
        "/hashlist#".toList ++ fragment ++ "\"".toList ∧
      (blanks ≠ [] ∧ (∀ c ∈ blanks, Text.isBlank c = true) ∧ fragment ≠ [] ∧ '"' ∉ fragment) ∧
      gs = [(1, fragment)] := by
  unfold frame
  constructor
  · intro h
    obtain ⟨link, rfl, hlink⟩ := takes_append_literal_iff.mp h
    obtain ⟨address, _, fragment, _, rfl, rfl, haddress, _, rfl, ⟨⟨hlength, hinside⟩, rfl⟩⟩ := hlink
    obtain ⟨site, rfl, hsite⟩ := takes_append_literal_iff.mp haddress
    obtain ⟨scheme, rfl, hscheme⟩ := takes_append_literal_iff.mp hsite
    obtain ⟨start, rfl, hstart⟩ := takes_append_literal_iff.mp hscheme
    obtain ⟨tag, _, blanks, _, rfl, rfl, htag, ⟨⟨hspace, hblanks⟩, rfl⟩⟩ := hstart
    obtain ⟨rfl, rfl⟩ := takes_literal_iff.mp htag
    refine ⟨blanks, fragment, rfl, ⟨List.ne_nil_of_length_pos hspace, hblanks,
      List.ne_nil_of_length_pos hlength, fun hquote => ?_⟩, rfl⟩
    exact CharClass.contains_outside.mp (hinside _ hquote) List.mem_cons_self
  · rintro ⟨blanks, fragment, rfl, ⟨hspace, hblanks, hlength, hquote⟩, rfl⟩
    have hinside : ∀ c ∈ fragment, (CharClass.outside ['"']).contains c = true := by
      intro c hc
      exact CharClass.contains_outside.mpr fun hmem =>
        hquote (List.mem_singleton.mp hmem ▸ hc)
    refine takes_append_literal_iff.mpr ⟨_, rfl, _, [], fragment, [(1, fragment)], rfl, rfl, ?_,
      [], rfl, ⟨List.length_pos_of_ne_nil hlength, hinside⟩, rfl⟩
    refine takes_append_literal_iff.mpr ⟨_, rfl, takes_append_literal_iff.mpr ⟨_, rfl, ?_⟩⟩
    refine takes_append_literal_iff.mpr ⟨_, rfl, _, [], blanks, [], rfl, rfl, ?_, ?_⟩
    · exact takes_literal_iff.mpr ⟨rfl, rfl⟩
    · exact ⟨⟨List.length_pos_of_ne_nil hspace, hblanks⟩, rfl⟩

/-! ### The fragment of a frame -/

/-- The first character without a property is at one place of a text only. -/
theorem eq_of_append_cons_eq {P : Char → Prop} {a a' b b' : List Char} {x x' : Char}
    (ha : ∀ c ∈ a, P c) (ha' : ∀ c ∈ a', P c) (hx : ¬P x) (hx' : ¬P x')
    (h : a ++ x :: b = a' ++ x' :: b') : a = a' ∧ x = x' ∧ b = b' := by
  induction a generalizing a' with
  | nil =>
    cases a' with
    | nil => exact ⟨rfl, List.cons.inj h⟩
    | cons d a' =>
      obtain ⟨rfl, -⟩ := List.cons.inj h
      exact absurd (ha' x List.mem_cons_self) hx
  | cons c a ih =>
    cases a' with
    | nil =>
      obtain ⟨rfl, -⟩ := List.cons.inj h
      exact absurd (ha c List.mem_cons_self) hx'
    | cons d a' =>
      obtain ⟨rfl, htail⟩ := List.cons.inj h
      obtain ⟨rfl, hrest⟩ :=
        ih (List.forall_mem_cons.mp ha).2 (List.forall_mem_cons.mp ha').2 htail
      exact ⟨rfl, hrest⟩

/-- A frame has one fragment. -/
theorem Opens.unique {fragment' : List Char} (h : Opens host fragment text)
    (h' : Opens host fragment' text) : fragment = fragment' := by
  obtain ⟨blanks, after, rfl, -, hblanks, -, hquote⟩ := h
  obtain ⟨blanks', after', heq, -, hblanks', -, hquote'⟩ := h'
  simp only [List.append_assoc] at heq
  have hs : ¬Text.isBlank 's' = true := by decide
  -- the white space ends at the first letter, and the fragment at the first quote
  obtain ⟨-, -, hrest⟩ :=
    eq_of_append_cons_eq hblanks hblanks' hs hs (List.append_cancel_left heq)
  have hhost := @List.append_cancel_left _ "rc=\"https://".toList _ _ hrest
  have hlink := List.append_cancel_left (List.append_cancel_left hhost)
  exact (eq_of_append_cons_eq (P := (· ≠ '"')) (fun c hc => ne_of_mem_of_not_mem hc hquote)
    (fun c hc => ne_of_mem_of_not_mem hc hquote') (not_not_intro rfl) (not_not_intro rfl) hlink).1

/-! ### The first frame -/

/-- Where the pattern of a frame matches, a frame begins, and the group is its fragment. -/
theorem opens_of_first {c : Cursor} {v : Way} (h : (frame host).first c = some v) :
    ∃ fragment, Opens host fragment c.rest ∧ v.groups = [(1, fragment)] := by
  obtain ⟨t, gs, after, htakes, hrest, rfl⟩ :=
    (mem_ways_iff (isFree_frame host)).mp (List.mem_of_head? h)
  obtain ⟨blanks, fragment, rfl, hparts, rfl⟩ := takes_frame_iff.mp htakes
  exact ⟨fragment, ⟨blanks, after, hrest, hparts⟩, rfl⟩

/-- Where the pattern of a frame does not match, no frame begins. -/
theorem not_opens_of_first {c : Cursor} (h : (frame host).first c = none) :
    ¬Opens host fragment c.rest := by
  rintro ⟨blanks, after, hrest, hparts⟩
  have hway := (mem_ways_iff (w := ⟨c, []⟩) (isFree_frame host)).mpr
    ⟨_, _, after, takes_frame_iff.mpr ⟨blanks, fragment, rfl, hparts, rfl⟩, hrest, rfl⟩
  rw [first_eq_none_iff.mp h] at hway
  cases hway

/-- A fragment that is found is that of a frame with none before it. -/
theorem frameAt_of_fragment? {f : String} (h : fragment? host page = some f) :
    ∃ before, FrameAt host page before f.toList ∧
      ∀ before' fragment', FrameAt host page before' fragment' →
        before.length ≤ before'.length := by
  obtain ⟨found, hfind, rfl⟩ := Option.map_eq_some_iff.mp h
  obtain ⟨before, rest, hpage, hstart, hfirst, hnone⟩ := findFrom_eq_some_iff.mp hfind
  obtain ⟨fragment, hopens, hgroups⟩ := opens_of_first hfirst
  have hgroup : found.group 1 = fragment := by
    rw [Found.group, Found.group?, hgroups]
    rfl
  refine ⟨before, ⟨rest, hpage, ?_⟩, fun before' fragment' hframe => ?_⟩
  · rw [String.toList_ofList, hgroup]
    rw [hstart] at hopens
    exact hopens
  · obtain ⟨rest', hpage', hopens'⟩ := hframe
    by_contra hlt
    exact not_opens_of_first (hnone before' rest' hpage' (Nat.lt_of_not_le hlt)) hopens'

theorem fragment?_eq_none_iff : fragment? host page = none ↔
    ∀ before fragment, ¬FrameAt host page before fragment := by
  constructor
  · rintro h before fragment ⟨rest, hpage, hopens⟩
    have hoccurs : ¬(frame host).occursIn page.toList = true := by
      rw [occursIn, Option.map_eq_none_iff.mp h]
      exact Bool.false_ne_true
    refine hoccurs ((occursIn_iff _ _).mpr ⟨before, rest, hpage, ?_⟩)
    exact Option.isSome_iff_ne_none.mpr fun hnone => not_opens_of_first hnone hopens
  · intro h
    by_contra hsome
    obtain ⟨f, hf⟩ := Option.ne_none_iff_exists'.mp hsome
    obtain ⟨before, hframe, -⟩ := frameAt_of_fragment? hf
    exact h before _ hframe

/-- A fragment is found exactly if it is that of the first frame on the page that shows the viewer
of the host, and none is found exactly if there is no such frame. -/
theorem fragment_found_iff (host page f : String) :
    (fragment? host page = some f ↔ ∃ before, FrameAt host page before f.toList ∧
      ∀ before' fragment', FrameAt host page before' fragment' →
        before.length ≤ before'.length) ∧
    (fragment? host page = none ↔ ∀ before fragment, ¬FrameAt host page before fragment) := by
  refine ⟨⟨frameAt_of_fragment?, ?_⟩, fragment?_eq_none_iff⟩
  rintro ⟨before, hframe, hmin⟩
  cases hfound : fragment? host page with
  | none => exact absurd hframe (fragment?_eq_none_iff.mp hfound before f.toList)
  | some f' =>
    obtain ⟨before', hframe', hmin'⟩ := frameAt_of_fragment? hfound
    have hlength : before.length = before'.length :=
      Nat.le_antisymm (hmin _ _ hframe') (hmin' _ _ hframe)
    obtain ⟨rest, hpage, hopens⟩ := hframe
    obtain ⟨rest', hpage', hopens'⟩ := hframe'
    -- both frames are at the same place, so they are one
    obtain ⟨-, rfl⟩ := List.append_inj (hpage.symm.trans hpage') hlength
    rw [String.toList_inj.mp (hopens'.unique hopens)]

-- a frame without a fragment does not hide the next one
example : fragment? "h.org" ("<iframe src=\"https://h.org/hashlist#\"></iframe>" ++
    "<iframe  src=\"https://h.org/hashlist#ab\"></iframe>") = some "ab" := by
  decide +kernel

end Harvest.Snapshot
