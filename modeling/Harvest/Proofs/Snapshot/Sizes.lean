import Harvest.Proofs.Json.Integers
import Harvest.Proofs.Snapshot.Rows
import Harvest.Proofs.Store.Rows
import Harvest.Store.Schema

/-!
# Sizes of entries

The size of an entry is that of its row, cut to the numbers from 0 to 2^63 - 1. A whole number is
cut as it is written, whether it is kept as a number of 64 bits or has become a floating-point
number on the way, because the latter lies on the same side of the bounds. The table of streams has
the same upper bound, so it stores the sizes of entries as they are.

## Main definitions

* `Snapshot.ListsRows` — the rows of a list as they are written
* `Snapshot.entryOfWritten?` — the entry of such a row
* `Snapshot.sizeMember?` — the member of a row that its size is read from
* `Snapshot.SizeOf` — what the size of a row is

## Main results

* `Snapshot.sizeOfValue_of_isWhole`, `Snapshot.sizeOfValue_string` — sizes of whole numbers and of
  texts
* `Snapshot.sizeOf_of_entryOfWritten?` — sizes of rows
* `Snapshot.sizes_clamped` — sizes of the entries of a list, and of the streams made from them
-/

namespace Harvest

namespace Snapshot

open Json (Value Written NumberText IsWhole)

variable {text : String} {w row : Written} {rows : List Written} {v : Value} {e : Entry}

/-! ### Sizes of values -/

theorem clampSize_eq (n : Int) : (clampSize n : Int) = max 0 (min n (2 ^ 63 - 1)) := by
  have hmax : maxSize = 2 ^ 63 - 1 := rfl
  unfold clampSize
  omega

theorem clampSize_le (n : Int) : clampSize n ≤ 2 ^ 63 - 1 := Nat.min_le_right ..

theorem sizeOfValue_le (v : Value) : sizeOfValue v ≤ 2 ^ 63 - 1 := by
  cases v with
  | number x =>
    cases x with
    | int n => exact clampSize_le n
    | float negative x =>
      cases negative with
      | true => exact Nat.zero_le _
      | false => exact clampSize_le _
  | string s => exact clampSize_le _
  | bool b => cases b <;> decide
  | null | array | object => exact Nat.zero_le _

/-- The size given by a whole number of any length. -/
theorem sizeOfValue_of_isWhole {t : NumberText} {s : List Char} {n : Int} {x : Json.Number}
    (ht : NumberText.ofChars? s = some t) (hn : IsWhole s n) (hx : t.value? = some x) :
    (sizeOfValue (.number x) : Int) = max 0 (min n (2 ^ 63 - 1)) := by
  rcases NumberText.value?_of_isWhole ht hn hx with rfl | ⟨hneg, m, rfl⟩ | ⟨hlarge, m, rfl, hm⟩
  · exact clampSize_eq n
  · have hzero : sizeOfValue (.number (.float true m)) = 0 := rfl
    rw [hzero]
    omega
  · -- the number has become a floating-point number, and both are above the largest size
    have hfloor := hm.le_floor
    have hclamp : sizeOfValue (.number (.float false m)) = clampSize m.floor := rfl
    rw [hclamp, clampSize_eq]
    omega

theorem digits_eq_some_iff {r : List Char} {m : Nat} :
    (if !r.isEmpty && r.all Char.isDigit then some (Json.ofDigits (r.map Json.digitValue))
      else none) = some m ↔ r ≠ [] ∧ (∀ c ∈ r, c.isDigit = true) ∧ Json.decimal r = m := by
  simp [Json.decimal, and_assoc]

theorem map_digits_eq_some_iff {r : List Char} {n : Int} :
    (if !r.isEmpty && r.all Char.isDigit then some (Json.ofDigits (r.map Json.digitValue))
      else none).map Int.ofNat = some n ↔
      r ≠ [] ∧ (∀ c ∈ r, c.isDigit = true) ∧ (Json.decimal r : Int) = n := by
  rw [Option.map_eq_some_iff]
  constructor
  · rintro ⟨m, hm, rfl⟩
    obtain ⟨hne, hdigits, rfl⟩ := digits_eq_some_iff.mp hm
    exact ⟨hne, hdigits, rfl⟩
  · rintro ⟨hne, hdigits, rfl⟩
    exact ⟨_, digits_eq_some_iff.mpr ⟨hne, hdigits, rfl⟩, rfl⟩

/-- The number that a text stands for is a whole one of 64 bits. -/
theorem wholeNumber?_eq_some_iff {s : List Char} {n : Int} : wholeNumber? s = some n ↔
    IsWhole s n ∧ -2 ^ 63 ≤ n ∧ n < 2 ^ 63 := by
  have hrange : Bits.holdsSigned 64 n = true ↔ -2 ^ 63 ≤ n ∧ n < 2 ^ 63 := Bits.holdsSigned_iff 64 n
  unfold wholeNumber?
  dsimp only
  rw [Option.filter_eq_some_iff, hrange]
  refine and_congr_left fun _ => ?_
  split
  next r =>
    constructor
    · intro h
      obtain ⟨m, hm, rfl⟩ := Option.map_eq_some_iff.mp h
      obtain ⟨k, hk, hkm⟩ := Option.bind_eq_some_iff.mp hm
      obtain ⟨hne, hdigits, rfl⟩ := digits_eq_some_iff.mp hk
      obtain rfl := Option.some.inj hkm
      exact .minus hne hdigits
    · intro h
      cases h with
      | plain hne hdigits => exact absurd (hdigits '-' List.mem_cons_self) (by decide)
      | minus hne hdigits =>
        rw [digits_eq_some_iff.mpr ⟨hne, hdigits, rfl⟩]
        rfl
  next r =>
    rw [map_digits_eq_some_iff]
    constructor
    · rintro ⟨hne, hdigits, rfl⟩
      exact .plus hne hdigits
    · intro h
      cases h with
      | plain hne hdigits => exact absurd (hdigits '+' List.mem_cons_self) (by decide)
      | plus hne hdigits => exact ⟨hne, hdigits, rfl⟩
  next hminus hplus =>
    rw [map_digits_eq_some_iff]
    constructor
    · rintro ⟨hne, hdigits, rfl⟩
      exact .plain hne hdigits
    · intro h
      cases h with
      | plain hne hdigits => exact ⟨hne, hdigits, rfl⟩
      | plus => exact (hplus _ rfl).elim
      | minus => exact (hminus _ rfl).elim

theorem sizeOfValue_string (s : String) :
    (∀ n, IsWhole (Text.trim s.toList) n → -2 ^ 63 ≤ n → n < 2 ^ 63 →
      (sizeOfValue (.string s) : Int) = max 0 n) ∧
    ((∀ n, IsWhole (Text.trim s.toList) n → ¬(-2 ^ 63 ≤ n ∧ n < 2 ^ 63)) →
      sizeOfValue (.string s) = 0) := by
  have hsize : sizeOfValue (.string s) =
    clampSize ((wholeNumber? (Text.trim s.toList)).getD 0) := rfl
  refine ⟨fun n hn hlow hhigh => ?_, fun hnone => ?_⟩
  · rw [hsize, wholeNumber?_eq_some_iff.mpr ⟨hn, hlow, hhigh⟩, Option.getD_some, clampSize_eq]
    omega
  · have hno : wholeNumber? (Text.trim s.toList) = none := by
      rw [Option.eq_none_iff_forall_ne_some]
      intro n hn
      obtain ⟨hwhole, hrange⟩ := wholeNumber?_eq_some_iff.mp hn
      exact hnone n hwhole hrange
    rw [hsize, hno]
    rfl

/-! ### Sizes of rows -/

/-- The member of a row that its size is read from. -/
def sizeMember? (row : Written) : Option Written := (row.field? "bytes").or (row.field? "size")

/-- The size of a row: a whole number is cut to the bounds of sizes, a text that stands for a whole
number of 64 bits is such a number and any other text is zero, and no size is out of bounds. -/
structure SizeOf (row : Written) (size : Nat) : Prop where
  number : ∀ t, sizeMember? row = some (.number t) → (∃ s, NumberText.ofChars? s = some t) ∧
    ∀ s n, NumberText.ofChars? s = some t → IsWhole s n → (size : Int) = max 0 (min n (2 ^ 63 - 1))
  string : ∀ t, sizeMember? row = some (.string t) → ∃ s, Json.StringText.value? t = some s ∧
    (∀ n, IsWhole (Text.trim s.toList) n → -2 ^ 63 ≤ n → n < 2 ^ 63 → (size : Int) = max 0 n) ∧
    ((∀ n, IsWhole (Text.trim s.toList) n → ¬(-2 ^ 63 ≤ n ∧ n < 2 ^ 63)) → size = 0)
  bounded : size ≤ 2 ^ 63 - 1

/-- The entry of a row as it is written. -/
def entryOfWritten? (row : Written) : Option Entry := (row.value? Json.maxDepth).bind entryOfRow?

theorem rel_or {α β : Type} {r : α → β → Prop} {a c : Option α} {b d : Option β}
    (h : Option.Rel r a b) (h' : Option.Rel r c d) : Option.Rel r (a.or c) (b.or d) := by
  cases h with
  | some hab => exact .some hab
  | none => exact h'

theorem sizeMember?_rel {depth : Nat} (h : row.value? depth = some v) :
    Option.Rel (fun w v => w.value? depth = some v) (sizeMember? row)
      ((v.field? "bytes").or (v.field? "size")) :=
  rel_or (Written.field?_rel h "bytes") (Written.field?_rel h "size")

theorem spelled_of_sizeMember? (h : row.Spelled) (hw : sizeMember? row = some w) : w.Spelled := by
  rcases Option.or_eq_some_iff.mp hw with hbytes | ⟨-, hsize⟩
  · exact h.field? hbytes
  · exact h.field? hsize

/-- The size of an entry is that of the row that it is read from. -/
theorem sizeOf_of_entryOfWritten? (hrow : row.Spelled) (h : entryOfWritten? row = some e) :
    SizeOf row e.size := by
  obtain ⟨v, hv, he⟩ := Option.bind_eq_some_iff.mp h
  obtain ⟨-, -, hsize⟩ := entryOfRow?_eq_some_iff.mp he
  have hrel := sizeMember?_rel hv
  -- the size of the entry is that of the value of the member
  have hmember {w : Written} (hw : sizeMember? row = some w) :
      ∃ v, w.value? Json.maxDepth = some v ∧ sizeOfValue v = e.size := by
    rw [hw] at hrel
    generalize (v.field? "bytes").or (v.field? "size") = member at hrel hsize
    cases hrel with
    | @some _ v hv => exact ⟨v, hv, hsize⟩
  refine ⟨fun t ht => ⟨(spelled_of_sizeMember? hrow ht).number, fun s n hs hn => ?_⟩,
    fun t ht => ?_, ?_⟩
  · obtain ⟨v, hv, hsize⟩ := hmember ht
    obtain ⟨x, hx, rfl⟩ := Option.map_eq_some_iff.mp hv
    rw [← hsize]
    exact sizeOfValue_of_isWhole hs hn hx
  · obtain ⟨v, hv, hsize⟩ := hmember ht
    obtain ⟨s, hs, rfl⟩ := Option.map_eq_some_iff.mp hv
    rw [← hsize]
    exact ⟨s, hs, sizeOfValue_string s⟩
  · rw [← hsize]
    cases (v.field? "bytes").or (v.field? "size") with
    | none => exact Nat.zero_le _
    | some v => exact sizeOfValue_le v

/-! ### Lists of rows -/

/-- A text is a list of rows: an array of them, or an object whose last member under the key of the
rows is such an array. -/
inductive ListsRows : Written → List Written → Prop
  | bare (rows : List Written) : ListsRows (.array rows) rows
  | wrapped {w : Written} {rows : List Written} :
    w.field? "torrents" = some (.array rows) → ListsRows w rows

/-- The value of a list holds the values of its rows. -/
theorem ListsRows.holdsRows (h : ListsRows w rows) (hvalue : w.value? Json.maxDepth = some v) :
    ∃ vs, HoldsRows v vs ∧ List.Forall₂ (fun w v => w.value? Json.maxDepth = some v) rows vs := by
  have harray {v : Value} (hv : (Written.array rows).value? Json.maxDepth = some v) : ∃ vs,
      v = .array vs ∧ List.Forall₂ (fun w v => w.value? Json.maxDepth = some v) rows vs := by
    obtain ⟨-, vs, hvs, rfl⟩ := Written.value?_array_iff.mp hv
    exact ⟨vs, rfl, hvs.imp fun w v hv => Written.value?_mono hv (Nat.sub_le _ _)⟩
  cases h with
  | bare =>
    obtain ⟨vs, rfl, hvs⟩ := harray hvalue
    exact ⟨vs, .bare vs, hvs⟩
  | wrapped hfield =>
    have hrel := Written.field?_rel hvalue "torrents"
    rw [hfield] at hrel
    generalize hmember : v.field? "torrents" = member at hrel
    cases hrel with
    | some hv =>
      obtain ⟨vs, rfl, hvs⟩ := harray hv
      exact ⟨vs, .wrapped (Value.field?_eq_some_iff.mp hmember), hvs⟩

theorem ListsRows.spelled (h : ListsRows w rows) (hw : w.Spelled) (hrow : row ∈ rows) :
    row.Spelled := by
  cases h with
  | bare => exact hw.item hrow
  | wrapped hfield => exact (hw.field? hfield).item hrow

theorem filterMap_entryOfWritten? {vs : List Value}
    (h : List.Forall₂ (fun w v => w.value? Json.maxDepth = some v) rows vs) :
    vs.filterMap entryOfRow? = rows.filterMap entryOfWritten? := by
  induction h with
  | nil => rfl
  | cons hv _ ih =>
    rw [List.filterMap_cons, List.filterMap_cons, entryOfWritten?, hv, ih]
    rfl

/-- The entries of a list are those of its rows as they are written. -/
theorem ListsRows.entriesOfJson (h : ListsRows w rows) (hparse : Written.parse? text = some w)
    (hvalue : w.value? Json.maxDepth = some v) :
    entriesOfJson text = .ok (rows.filterMap entryOfWritten?) := by
  obtain ⟨vs, hholds, hvs⟩ := h.holdsRows hvalue
  have hparse' : Value.parse? text = some v := by
    rw [Value.parse?, hparse, Option.bind_some, hvalue]
  rw [hholds.entriesOfJson hparse', entriesOfRows, filterMap_entryOfWritten? hvs]

/-! ### Sizes of streams -/

/-- A record whose size is within the bounds of sizes is stored with that size. -/
theorem stored_of_le {r : StreamRecord} (h : r.size ≤ 2 ^ 63 - 1) :
    Stream.stored r = { r with files := [] } := by
  have hsize : min r.size maxSize = r.size := Nat.min_eq_left h
  rw [Stream.stored, hsize]

/-- Sizes are cut to their bounds when a list is read, and never changed afterwards: the streams
that are made from the entries of a list are stored with the sizes of the entries. -/
theorem sizes_clamped (hparse : Written.parse? text = some w)
    (hvalue : (w.value? Json.maxDepth).isSome) (hrows : ListsRows w rows) :
    entriesOfJson text = .ok (rows.filterMap entryOfWritten?) ∧
    (∀ row ∈ rows, ∀ e, entryOfWritten? row = some e → SizeOf row e.size) ∧
    ∀ (d d' : Database) (rs : List StreamRecord) (n : Nat),
      (∀ r ∈ rs, ∃ row ∈ rows, ∃ e p metaId createdAt m, entryOfWritten? row = some e ∧
        Stream.record e p metaId createdAt m = r) →
      d.storeStreams rs = (.ok n, d') →
      ∃ new : List StreamRecord, new.Sublist rs ∧
        d'.rows = d.rows ++ new.map fun r => { r with files := [] } := by
  obtain ⟨v, hv⟩ := Option.isSome_iff_exists.mp hvalue
  have hsizes : ∀ row ∈ rows, ∀ e, entryOfWritten? row = some e → SizeOf row e.size :=
    fun row hrow e he =>
      sizeOf_of_entryOfWritten? (hrows.spelled (Written.spelled_of_parse? hparse) hrow) he
  refine ⟨hrows.entriesOfJson hparse hv, hsizes, fun d d' rs n hrs hstore => ?_⟩
  have hsublist := firstOfEachAfter_sublist (·.infoHash) (Stream.hashes d.rows) rs
  refine ⟨_, hsublist, ?_⟩
  rw [Database.storeStreams_firsts hstore]
  refine congrArg (d.rows ++ ·) (List.map_congr_left fun r hr => stored_of_le ?_)
  obtain ⟨row, hrow, e, p, metaId, createdAt, m, he, rfl⟩ := hrs r (hsublist.subset hr)
  exact (hsizes row hrow e he).bounded

/-- A row whose size has more digits than fit 64 bits. -/
def largeText : Written := .object [(.plain "filename", .string (.plain "Heat")),
  (.plain "hash", .string (.plain "aaaaaaaaaaaaaaaaaaaaaaaaaaaaaaaaaaaaaaaa")),
  (.plain "bytes", .number ⟨false, List.replicate 21 9, [], none⟩)]

/-- A list with this row. -/
def largeList : String := "[\x7b\"filename\":\"Heat\"," ++
  "\"hash\":\"aaaaaaaaaaaaaaaaaaaaaaaaaaaaaaaaaaaaaaaa\",\"bytes\":999999999999999999999\x7d]"

/-- The entry of the row. -/
def largeEntry : Entry := ⟨"Heat", "aaaaaaaaaaaaaaaaaaaaaaaaaaaaaaaaaaaaaaaa", 2 ^ 63 - 1⟩

/-- The size of a row that does not fit 64 bits is the largest size, and it is stored. -/
theorem sizes_clamped_large : entriesOfJson largeList = .ok [largeEntry] ∧
    (largeEntry.size : Int) = max 0 (min (10 ^ 21 - 1) (2 ^ 63 - 1)) ∧
    ∃ d', Database.fresh.storeStreams [Stream.record largeEntry {} "tt1" .reference .movie] =
      (.ok 1, d') ∧ ∀ r ∈ d'.rows, r.size = largeEntry.size := by
  have hparse : Written.parse? largeList = some (.array [largeText]) :=
    Written.parse?_eq_some_iff.mpr (by decide +kernel)
  have hentry : entryOfWritten? largeText = some largeEntry := by decide +kernel
  have hmem : largeText ∈ [largeText] := List.mem_singleton_self _
  obtain ⟨hentries, hsizes, hstored⟩ := sizes_clamped hparse (by decide +kernel) (.bare _)
  have hsize := hsizes largeText hmem largeEntry hentry
  have hwhole : IsWhole (List.replicate 21 '9') (10 ^ 21 - 1) :=
    .plain (List.cons_ne_nil _ _) fun c hc => by rw [List.eq_of_mem_replicate hc]; rfl
  refine ⟨?_, (hsize.number _ rfl).2 (List.replicate 21 '9') _ (by decide) hwhole, _,
    Prod.ext (by decide) rfl, fun r hr => ?_⟩
  · rw [hentries, List.filterMap_cons_some hentry]
    rfl
  · obtain ⟨new, hsub, hrows⟩ := hstored Database.fresh _
      [Stream.record largeEntry {} "tt1" .reference .movie] 1
      (List.forall_mem_singleton.mpr ⟨_, hmem, _, _, _, _, _, hentry, rfl⟩)
      (Prod.ext (by decide) rfl)
    rw [hrows] at hr
    obtain ⟨r', hr', rfl⟩ := List.mem_map.mp (show r ∈ new.map _ from hr)
    rw [List.mem_singleton.mp (hsub.subset hr')]
    rfl

end Snapshot

end Harvest
