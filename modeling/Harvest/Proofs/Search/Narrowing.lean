import Harvest.Proofs.Store.Catalog
import Harvest.Proofs.Text.Capitals
import Mathlib.Data.List.TakeWhile

/-!
# Titles that are looked for under their own name

A search for the very title of a row ought to find the row. But the word that narrows the search is
put in full lower case, while the titles of the table are compared with only ASCII letters having
case. So a title is hidden from itself when its longest word has another capital, unless the
lower-case form of that word stands in it as well. A title of one word is hidden by any such capital.

## Main definitions

* `Catalog.visible`, `Catalog.ShowsItself` — a title contains its own search word
* `MediaTable.Finds` — the search for the title of a row finds the row

## Main results

* `Catalog.showsItself_iff` — a row is ranked if its title contains the search word
* `Catalog.longest_infix` — the longest word is a part of the title
* `Catalog.showsItself_of_longest` — a longest word without other capitals is found
* `Catalog.showsItself_iff_of_word` — a title of one word
* `MediaTable.finds_iff` — when a row is found under its own title
-/

namespace Harvest

open Text (asciiLower isAlphanumeric IsForeignCapital)

/-! ### Words -/

namespace Catalog

variable {title : List Char}

/-- The part of a title that a search looks at. -/
def visible (title : List Char) : List Char := title.takeWhile fun c => c.toNat != 0

/-- A title has a part that is its own search word, where only ASCII letters have case. -/
def ShowsItself (title : List Char) : Prop :=
  ∃ before part after, visible title = before ++ part ++ after ∧
    asciiLower part = searchToken title

theorem containsToken_iff {token : List Char} (htoken : asciiLower token = token) :
    containsToken title token = true ↔
      ∃ before part after, visible title = before ++ part ++ after ∧ asciiLower part = token := by
  have hholds : containsToken title token = true ↔
      ∃ a b, asciiLower (visible title) = a ++ token ++ b := by
    conv => rhs; rw [← htoken]
    exact Text.holds_iff (asciiLower token) (asciiLower (visible title))
  rw [hholds]
  constructor
  · rintro ⟨a, b, h⟩
    obtain ⟨left, after, hsplit, hleft, -⟩ := List.map_eq_append_iff.mp h
    obtain ⟨before, part, rfl, -, hpart⟩ := List.map_eq_append_iff.mp hleft
    exact ⟨before, part, after, hsplit, hpart⟩
  · rintro ⟨before, part, after, hsplit, rfl⟩
    refine ⟨asciiLower before, asciiLower after, ?_⟩
    rw [hsplit, Text.asciiLower_append, Text.asciiLower_append]

/-- A title contains its own search word exactly if the table shows it. -/
theorem showsItself_iff : ShowsItself title ↔ containsToken title (searchToken title) = true :=
  (containsToken_iff (Text.asciiLower_lower _)).symm

/-- The first piece of a text that is split is a prefix of it, and all pieces are parts of it. -/
theorem infix_of_splitOnP {p : Char → Bool} (s : List Char) :
    (∀ w, (s.splitOnP p).head? = some w → w <+: s) ∧ ∀ w ∈ s.splitOnP p, w <:+: s := by
  -- the first piece may grow by one more character in front of it, so it has to be a prefix
  induction s with
  | nil =>
    rw [List.splitOnP_nil]
    refine ⟨fun w hw => ?_, fun w hw => ?_⟩
    · cases hw
      exact List.prefix_rfl
    · obtain rfl := List.mem_singleton.mp hw
      exact List.infix_rfl
  | cons c s ih =>
    obtain ⟨hhead, hall⟩ := ih
    rw [List.splitOnP_cons_eq_if_modifyHead]
    by_cases hc : p c = true
    · rw [if_pos hc]
      refine ⟨fun w hw => ?_, List.forall_mem_cons.mpr ⟨List.nil_infix, fun w hw => ?_⟩⟩
      · cases hw
        exact List.nil_prefix
      · exact List.infix_cons (hall w hw)
    · rw [if_neg hc]
      cases hpieces : s.splitOnP p with
      | nil => exact ⟨fun w hw => (by cases hw), fun w hw => (by cases hw)⟩
      | cons u pieces =>
        rw [hpieces] at hhead hall
        -- the character belongs to the first piece
        have hfirst : c :: u <+: c :: s := List.cons_prefix_cons.mpr ⟨rfl, hhead u rfl⟩
        refine ⟨fun w hw => ?_, List.forall_mem_cons.mpr ⟨hfirst.isInfix, fun w hw => ?_⟩⟩
        · cases hw
          exact hfirst
        · exact List.infix_cons (hall w (List.mem_cons_of_mem u hw))

/-- The longest of some words is one of them, unless there are none. -/
theorem longest_eq_nil_or_mem (ws : List (List Char)) : longest ws = [] ∨ longest ws ∈ ws := by
  have hfold : ∀ (ws : List (List Char)) (best : List Char),
      ws.foldl (fun best w => if best.length ≤ w.length then w else best) best ∈ best :: ws := by
    intro ws
    induction ws with
    | nil => exact fun best => List.mem_cons_self
    | cons w ws ih =>
      intro best
      rw [List.foldl_cons]
      rcases List.mem_cons.mp (ih (if best.length ≤ w.length then w else best)) with h | h
      · rw [h]
        split
        · exact List.mem_cons_of_mem best List.mem_cons_self
        · exact List.mem_cons_self
      · exact List.mem_cons_of_mem best (List.mem_cons_of_mem w h)
  exact List.mem_cons.mp (hfold ws [])

/-- The longest word is a part of the title. -/
theorem longest_infix (title : List Char) : longest (searchWords title) <:+: title := by
  rcases longest_eq_nil_or_mem (searchWords title) with h | h
  · rw [h]
    exact List.nil_infix
  · exact (infix_of_splitOnP title).2 _ h

theorem visible_of_notMem (h : '\x00' ∉ title) : visible title = title := by
  refine List.takeWhile_eq_self_iff.mpr fun c hc => bne_iff_ne.mpr fun hzero => h ?_
  have hnul : c = '\x00' := Char.toNat_inj.mp hzero
  exact hnul ▸ hc

/-- A title whose longest word has no capitals but ASCII ones contains its search word. -/
theorem showsItself_of_longest (hnul : '\x00' ∉ title)
    (hword : ∀ c ∈ longest (searchWords title), ¬IsForeignCapital c) : ShowsItself title := by
  obtain ⟨before, after, hsplit⟩ := longest_infix title
  refine ⟨before, longest (searchWords title), after, ?_, ?_⟩
  · rw [visible_of_notMem hnul, hsplit]
  · exact ((Text.lower_eq_asciiLower_iff _).mpr hword).symm

/-- A title of one word contains its search word exactly if it has no capitals but ASCII ones. -/
theorem showsItself_iff_of_word (hword : ∀ c ∈ title, isAlphanumeric c = true) :
    ShowsItself title ↔ ∀ c ∈ title, ¬IsForeignCapital c := by
  have hwords : searchWords title = [title] := by
    refine List.splitOnP_eq_singleton fun c hc => ?_
    rw [hword c hc]
    rfl
  have hlongest : longest (searchWords title) = title := by
    rw [hwords]
    rfl
  have hnul : '\x00' ∉ title := by
    intro hmem
    exact absurd (hword _ hmem) (by decide)
  constructor
  · rintro ⟨before, part, after, hsplit, hpart⟩
    rw [visible_of_notMem hnul] at hsplit
    rw [searchToken, hlongest] at hpart
    -- the search word is at least as long as the title, so the part is all of it
    have hlength := Text.length_le_length_lower title
    rw [← hpart, Text.length_asciiLower] at hlength
    have hall := congrArg List.length hsplit
    rw [List.length_append, List.length_append] at hall
    obtain rfl : before = [] := List.eq_nil_of_length_eq_zero (by omega)
    obtain rfl : after = [] := List.eq_nil_of_length_eq_zero (by omega)
    rw [List.nil_append, List.append_nil] at hsplit
    exact (Text.lower_eq_asciiLower_iff title).mp (hsplit ▸ hpart.symm)
  · intro hcapitals
    exact showsItself_of_longest hnul (hlongest.symm ▸ hcapitals)

end Catalog

/-! ### Finding a row under its own title -/

namespace MediaTable

/-- The search for the title of a row, among the titles of a kind, finds the row. -/
def Finds (t : MediaTable) (row : MediaRow) (m : MediaType) (limit : Nat) : Prop :=
  ∃ found x, t.search row.title m limit = .ok found ∧ row.read = .ok x ∧ x ∈ found

variable {t : MediaTable} {row : MediaRow} {m : MediaType} {limit : Nat}

/-- There are no more rows of a kind that contain a word than there are rows of that kind. -/
theorem length_filter_token_le (t : MediaTable) (m : MediaType) (token : List Char) :
    (t.rows.filter fun r =>
      r.kind == m.name && Catalog.containsToken r.title.toList token).length ≤
      (t.rows.filter (·.kind == m.name)).length := by
  rw [← List.countP_eq_length_filter, ← List.countP_eq_length_filter]
  exact List.countP_mono_left fun r _ h => (Bool.and_eq_true_iff.mp h).1

/-- As long as there are not too many rows of a kind, all those that contain the word are ranked. -/
theorem mem_scan_iff {r : MediaRow} {token : List Char}
    (hscan : (t.rows.filter (·.kind == m.name)).length ≤ Catalog.scanLimit) :
    r ∈ t.scan m token ↔
      r ∈ t.rows ∧ r.kind = m.name ∧ Catalog.containsToken r.title.toList token = true := by
  have hlength := t.length_filter_token_le m token
  rw [scan, List.take_of_length_le (Nat.le_trans hlength hscan), List.mem_filter,
    Bool.and_eq_true, beq_iff_eq]

theorem length_scan_le (t : MediaTable) (m : MediaType) (token : List Char) :
    (t.scan m token).length ≤ (t.rows.filter (·.kind == m.name)).length := by
  rw [scan, List.length_take]
  exact Nat.le_trans (Nat.min_le_right _ _) (t.length_filter_token_le m token)

/-- A row is found under its own title exactly if the title contains its search word, unless that word
is too long or some row with the word cannot be read. It always does when its longest word has no
capitals but ASCII ones, and a title of one word does in no other case. -/
theorem finds_iff (hrow : row ∈ t.rows) (hkind : row.kind = m.name)
    (hscan : (t.rows.filter (·.kind == m.name)).length ≤ Catalog.scanLimit)
    (hlimit : (t.rows.filter (·.kind == m.name)).length ≤ limit) :
    (t.Finds row m limit ↔
      Catalog.isTooLong (Catalog.searchToken row.title.toList) = false ∧
      (∀ r ∈ t.rows, r.kind = m.name →
        Catalog.containsToken r.title.toList (Catalog.searchToken row.title.toList) = true →
          r.IsReadable) ∧
      Catalog.ShowsItself row.title.toList) ∧
    ('\x00' ∉ row.title.toList →
      (∀ c ∈ Catalog.longest (Catalog.searchWords row.title.toList), ¬IsForeignCapital c) →
        Catalog.ShowsItself row.title.toList) ∧
    ((∀ c ∈ row.title.toList, isAlphanumeric c = true) →
      (Catalog.ShowsItself row.title.toList ↔ ∀ c ∈ row.title.toList, ¬IsForeignCapital c)) := by
  refine ⟨?_, Catalog.showsItself_of_longest, Catalog.showsItself_iff_of_word⟩
  rw [Catalog.showsItself_iff]
  constructor
  · rintro ⟨found, x, hsearch, hread, hx⟩
    obtain ⟨hlong, hall, rfl⟩ := search_ok_iff.mp hsearch
    obtain ⟨-, rfl⟩ := MediaRow.read_ok_iff.mp hread
    refine ⟨?_, fun r hr hr' htoken => hall r ((mem_scan_iff hscan).mpr ⟨hr, hr', htoken⟩), ?_⟩
    · have hany : t.rows.any (·.kind == m.name) = true :=
        List.any_eq_true.mpr ⟨row, hrow, beq_iff_eq.mpr hkind⟩
      rw [hany, Bool.and_true] at hlong
      exact hlong
    · -- what is found may be another row, but it has the same title
      have hranked := (rank_perm _ _).mem_iff.mp (List.mem_of_mem_take hx)
      obtain ⟨r, hr, heq⟩ := List.mem_map.mp hranked
      have htitle : r.title = row.title := congrArg CatalogTitle.title heq
      obtain ⟨-, -, htoken⟩ := (mem_scan_iff hscan).mp hr
      rw [htitle] at htoken
      exact htoken
  · rintro ⟨hlong, hall, hshows⟩
    have hscanned := (mem_scan_iff hscan).mpr ⟨hrow, hkind, hshows⟩
    have hreadable : row.IsReadable := hall row hrow hkind hshows
    refine ⟨_, row.asRead, search_ok_iff.mpr ⟨by rw [hlong]; rfl, fun r hr => ?_, rfl⟩,
      MediaRow.read_ok_iff.mpr ⟨hreadable, rfl⟩, ?_⟩
    · obtain ⟨hr, hr', htoken⟩ := (mem_scan_iff hscan).mp hr
      exact hall r hr hr' htoken
    · -- the limit cuts nothing off
      rw [List.take_of_length_le]
      · exact (rank_perm _ _).mem_iff.mpr (List.mem_map_of_mem hscanned)
      · rw [(rank_perm _ _).length_eq, List.length_map]
        exact Nat.le_trans (t.length_scan_le m _) hlimit

/-! ### A small example -/

/-- A series under a title. -/
def series (id : Nat) (title : String) : MediaRow where
  id := id
  externalId := none
  title := title
  year := none
  endYear := none
  kind := MediaType.series.name
  adult := false

/-- A table with two series. The title of one of them begins with a capital that is no ASCII letter;
the other title has such a letter in lower case. -/
def accented : MediaTable := ⟨[series 1 "Élite", series 2 "Amélie"], 2⟩

/-- The first series is in the table, and a search for its title finds nothing. -/
theorem hidden_accented : series 1 "Élite" ∈ accented.rows ∧
    (∃ c ∈ (series 1 "Élite").title.toList, isAlphanumeric c = true) ∧
    (accented.rows.filter (·.kind == MediaType.series.name)).length ≤ Catalog.scanLimit ∧
    accented.search "Élite" .series 200 = .ok [] ∧
    ¬accented.Finds (series 1 "Élite") .series 200 := by
  have hsearch : accented.search "Élite" .series 200 = .ok [] := by decide +kernel
  refine ⟨List.mem_cons_self, ⟨'l', by decide, by decide⟩, by decide, hsearch, ?_⟩
  rintro ⟨found, x, h, -, hx⟩
  cases hsearch.symm.trans h
  cases hx

/-- The second series is found under its title, unlike the first one. -/
theorem finds_iff_accented :
    (accented.rows.filter (·.kind == MediaType.series.name)).length ≤ 200 ∧
    accented.Finds (series 2 "Amélie") .series 200 ∧
    ¬accented.Finds (series 1 "Élite") .series 200 := by
  have hmany : (accented.rows.filter (·.kind == MediaType.series.name)).length ≤ 200 := by decide
  have hreadable : ∀ r ∈ accented.rows, r.IsReadable := by
    intro r hr
    obtain rfl | rfl : r = series 1 "Élite" ∨ r = series 2 "Amélie" := by simpa [accented] using hr
    · exact ⟨yearFits_none, yearFits_none⟩
    · exact ⟨yearFits_none, yearFits_none⟩
  refine ⟨hmany, ?_, ?_⟩
  · have hrow : series 2 "Amélie" ∈ accented.rows := List.mem_cons_of_mem _ List.mem_cons_self
    obtain ⟨hfinds, -, hword⟩ := finds_iff hrow rfl hmany hmany
    refine hfinds.mpr ⟨by decide, fun r hr _ _ => hreadable r hr, (hword ?_).mpr ?_⟩
    · exact List.all_eq_true.mp (by decide)
    · have hall : "Amélie".toList.all (fun c => decide ¬IsForeignCapital c) = true := by decide
      exact fun c hc => of_decide_eq_true (List.all_eq_true.mp hall c hc)
  · have hrow : series 1 "Élite" ∈ accented.rows := List.mem_cons_self
    obtain ⟨hfinds, -, hword⟩ := finds_iff hrow rfl hmany hmany
    intro h
    have hcapitals := (hword (List.all_eq_true.mp (by decide))).mp (hfinds.mp h).2.2
    exact hcapitals 'É' List.mem_cons_self (by decide)

end MediaTable

end Harvest
