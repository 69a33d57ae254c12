import Harvest.Proofs.Json.Fields
import Harvest.Proofs.Json.Nesting
import Harvest.Proofs.Search.Years

/-!
# Loose fields in an answer of the external search

Of a result of the external search, the two years and the kind are read leniently. What stands there
changes nothing else, neither the other fields nor the other results. But a year has to be a value
that can be read, and a kind has to be a text or `null`: else the whole answer is lost.

## Main definitions

* `SearchResult.looseNames` — the fields that are read leniently
* `SearchResult.IsPlain` — what the other fields are
* `SearchResult.IsCandidate` — an object that is a result if its loose fields are left out
* `SearchResult.HasReadableLoose` — an object whose loose fields do not spoil the answer
* `SearchResult.IsReadAs` — what is made of an object

## Main results

* `SearchResult.ofWritten?_of_isCandidate` — the loose fields are read beside the others
* `SearchResult.isSome_ofWritten?_iff` — which results are read
* `SearchResult.answer_of_candidates` — which answers are read, and what is made of them
* `SearchResult.answer_spoiled` — one number spoils an answer, another one becomes another year
-/

namespace Harvest.SearchResult

open Json (Fields StringText Written)

variable {f f' : Fields} {w : Written} {r r' : SearchResult}

/-- The fields that are read leniently. -/
def looseNames : List String := ["year", "end_year", "type"]

/-! ### Fields -/

/-- The fields of a result, but for the loose ones, are read from those of an object. -/
structure IsPlain (f : Fields) (r : SearchResult) : Prop where
  id : f.optionalString? "id" = some r.id
  title : f.optionalString? "title" = some r.title
  adult : f.flag? "adult" = some r.adult
  poster : f.optionalString? "poster" = some r.poster
  background : f.optionalString? "background" = some r.background
  description : f.optionalString? "description" = some r.description
  genres : f.list? "genres" Written.string? = some r.genres
  imdbId : f.optionalString? "imdb_id" = some r.imdbId
  tmdbId : f.optionalString? "tmdb_id" = some r.tmdbId
  tvdbId : f.optionalString? "tvdb_id" = some r.tvdbId

/-- The loose fields are read beside the others. -/
theorem ofWritten?_eq_some_iff : ofWritten? w = some r ↔
    ∃ f, w.fields? fieldNames 0 = some f ∧ IsPlain f r ∧ f.read? "year" none year? = some r.year ∧
      f.read? "end_year" none year? = some r.endYear ∧
      f.read? "type" none kind? = some r.mediaType := by
  constructor
  · -- the loose fields stand between the others, in the order in which all are read
    intro h
    obtain ⟨f, hf, h⟩ := Option.bind_eq_some_iff.mp h
    obtain ⟨id, hid, h⟩ := Option.bind_eq_some_iff.mp h
    obtain ⟨title, htitle, h⟩ := Option.bind_eq_some_iff.mp h
    obtain ⟨year, hyear, h⟩ := Option.bind_eq_some_iff.mp h
    obtain ⟨endYear, hend, h⟩ := Option.bind_eq_some_iff.mp h
    obtain ⟨kind, hkind, h⟩ := Option.bind_eq_some_iff.mp h
    obtain ⟨adult, hadult, h⟩ := Option.bind_eq_some_iff.mp h
    obtain ⟨poster, hposter, h⟩ := Option.bind_eq_some_iff.mp h
    obtain ⟨background, hbackground, h⟩ := Option.bind_eq_some_iff.mp h
    obtain ⟨description, hdescription, h⟩ := Option.bind_eq_some_iff.mp h
    obtain ⟨genres, hgenres, h⟩ := Option.bind_eq_some_iff.mp h
    obtain ⟨imdbId, himdb, h⟩ := Option.bind_eq_some_iff.mp h
    obtain ⟨tmdbId, htmdb, h⟩ := Option.bind_eq_some_iff.mp h
    obtain ⟨tvdbId, htvdb, h⟩ := Option.bind_eq_some_iff.mp h
    cases h
    exact ⟨f, hf, ⟨hid, htitle, hadult, hposter, hbackground, hdescription, hgenres, himdb, htmdb,
      htvdb⟩, hyear, hend, hkind⟩
  · rintro ⟨f, hf, h, hyear, hend, hkind⟩
    rw [ofWritten?, hf, Option.bind_eq_bind, Option.bind_some, h.id, h.title, hyear, hend, hkind,
      h.adult, h.poster, h.background, h.description, h.genres, h.imdbId, h.tmdbId, h.tvdbId]
    rfl

/-- Only the loose fields are left open. -/
theorem IsPlain.eq (h : IsPlain f r) (h' : IsPlain f r') :
    r = { r' with year := r.year, endYear := r.endYear, mediaType := r.mediaType } := by
  obtain ⟨id, title, _, _, _, adult, poster, background, description, genres, imdbId, tmdbId,
    tvdbId⟩ := r
  cases h.id.symm.trans h'.id
  cases h.title.symm.trans h'.title
  cases h.adult.symm.trans h'.adult
  cases h.poster.symm.trans h'.poster
  cases h.background.symm.trans h'.background
  cases h.description.symm.trans h'.description
  cases h.genres.symm.trans h'.genres
  cases h.imdbId.symm.trans h'.imdbId
  cases h.tmdbId.symm.trans h'.tmdbId
  cases h.tvdbId.symm.trans h'.tvdbId
  rfl

/-- They may be any. -/
theorem IsPlain.withLoose (h : IsPlain f r) (year endYear : Option Int) (kind : Option MediaType) :
    IsPlain f { r with year := year, endYear := endYear, mediaType := kind } :=
  ⟨h.id, h.title, h.adult, h.poster, h.background, h.description, h.genres, h.imdbId, h.tmdbId,
    h.tvdbId⟩

/-- The other fields are the same wherever they have the same members. -/
theorem IsPlain.congr (h : IsPlain f r)
    (hget : ∀ name ∈ fieldNames, name ∉ looseNames → f.get? name = f'.get? name) :
    IsPlain f' r := by
  have hread {α : Type} {name : String} (hname : name ∈ fieldNames ∧ name ∉ looseNames)
      (missing : α) (read : Written → Option α) :
      f'.read? name missing read = f.read? name missing read := by
    rw [Fields.read?, Fields.read?, hget name hname.1 hname.2]
  exact {
    id := (hread (by decide) _ _).trans h.id
    title := (hread (by decide) _ _).trans h.title
    adult := (hread (by decide) _ _).trans h.adult
    poster := (hread (by decide) _ _).trans h.poster
    background := (hread (by decide) _ _).trans h.background
    description := (hread (by decide) _ _).trans h.description
    genres := (hread (by decide) _ _).trans h.genres
    imdbId := (hread (by decide) _ _).trans h.imdbId
    tmdbId := (hread (by decide) _ _).trans h.tmdbId
    tvdbId := (hread (by decide) _ _).trans h.tvdbId }

/-! ### Candidates -/

/-- An object that is a result if its loose fields, of which there is no more than one each, are
left out. -/
def IsCandidate (w : Written) : Prop :=
  ∃ members, w = .object members ∧
    (∀ name ∈ looseNames, (Json.membersWith name members).length ≤ 1) ∧
    (ofWritten? (w.without looseNames)).isSome = true

/-- A loose year, if there is one. -/
def looseYear? (w : Written) (name : String) : Option (Option Int) :=
  (w.field? name).elim (some none) year?

/-- The loose kind, if there is one. -/
def looseKind? (w : Written) : Option (Option MediaType) :=
  (w.field? "type").elim (some none) kind?

/-- The loose fields of a candidate are read beside what it is without them. -/
theorem ofWritten?_of_isCandidate (h : IsCandidate w) :
    ∃ base, ofWritten? (w.without looseNames) = some base ∧ ∀ r, ofWritten? w = some r ↔
      r = { base with year := r.year, endYear := r.endYear, mediaType := r.mediaType } ∧
        looseYear? w "year" = some r.year ∧ looseYear? w "end_year" = some r.endYear ∧
        looseKind? w = some r.mediaType := by
  obtain ⟨members, rfl, honce, hsome⟩ := h
  obtain ⟨base, hbase⟩ := Option.isSome_iff_exists.mp hsome
  refine ⟨base, hbase, fun r => ?_⟩
  -- the fields of the object, and those without the loose ones
  obtain ⟨f', hf', hplain', -⟩ := ofWritten?_eq_some_iff.mp hbase
  obtain ⟨f, hf⟩ : ∃ f, (Written.object members).fields? fieldNames 0 = some f :=
    Option.isSome_iff_exists.mp (Written.isSome_fields?_of_without (by rw [hf']; rfl) honce)
  have hget {name : String} (hname : name ∈ fieldNames) :
      f.get? name = (Written.object members).field? name := Written.get?_of_fields? hf hname
  have hplain : IsPlain f base := hplain'.congr fun name hname hloose => by
    rw [hget hname, ← Written.field?_without hloose]
    exact Written.get?_of_fields? hf' hname
  have hread {α : Type} (name : String) (hname : name ∈ fieldNames)
      (read : Written → Option (Option α)) :
      f.read? name none read = ((Written.object members).field? name).elim (some none) read := by
    rw [Fields.read?, hget hname]
    cases (Written.object members).field? name <;> rfl
  -- a loose field is read from the member with its name, wherever that stands
  rw [ofWritten?_eq_some_iff, hf]
  simp only [Option.some.injEq, exists_eq_left', hread "year" (by decide),
    hread "end_year" (by decide), hread "type" (by decide)]
  refine and_congr_left' ⟨fun h => h.eq hplain, fun h => ?_⟩
  rw [h]
  exact hplain.withLoose _ _ _

/-! ### Objects -/

/-- An object whose loose fields do not spoil the answer. -/
structure HasReadableLoose (w : Written) : Prop where
  /-- A year may be any value that is not nested too deeply, without numbers that are too large and
  halves of pairs of surrogates. -/
  years : ∀ name ∈ ["year", "end_year"], ∀ v, w.field? name = some v →
    v.nesting ≤ fieldDepth ∧ ∀ t ∈ v.tokens, t.IsReadable
  /-- A kind may only be a text or `null`. -/
  kind : ∀ v, w.field? "type" = some v →
    v = .null ∨ ∃ t, v = .string t ∧ (StringText.value? t).isSome = true

/-- What is made of an object in an answer. -/
structure IsReadAs (w : Written) (r : SearchResult) : Prop where
  /-- The other fields are those of the object without its loose fields. -/
  plain : ∃ base, ofWritten? (w.without looseNames) = some base ∧
    r = { base with year := r.year, endYear := r.endYear, mediaType := r.mediaType }
  year : IsYearOf w "year" r.year
  endYear : IsYearOf w "end_year" r.endYear
  /-- The kind is the one that a text names. -/
  kind : ∀ m, r.mediaType = some m ↔ ∃ t s, w.field? "type" = some (.string t) ∧
    StringText.value? t = some s ∧ MediaType.ofName? s = some m
  /-- The object can stand in an answer of its own, -/
  standsAlone : ∃ text, Written.parse? text = some (.array [w])
  /-- and the same is made of it there. -/
  alone : ∀ text, Written.parse? text = some (.array [w]) → listOfJson? text = some [r]

theorem isSome_looseYear?_iff {name : String} : (looseYear? w name).isSome = true ↔
    ∀ v, w.field? name = some v → v.nesting ≤ fieldDepth ∧ ∀ t ∈ v.tokens, t.IsReadable := by
  unfold looseYear?
  cases w.field? name with
  | none => simp
  | some v => simp [year?, Written.isSome_value?_iff]

theorem isSome_looseKind?_iff : (looseKind? w).isSome = true ↔ ∀ v, w.field? "type" = some v →
    v = .null ∨ ∃ t, v = .string t ∧ (StringText.value? t).isSome = true := by
  unfold looseKind?
  cases w.field? "type" with
  | none => simp
  | some v => cases v <;> simp [kind?, Written.optionalString?, Written.string?]

/-- A candidate is read unless its loose fields spoil it. -/
theorem isSome_ofWritten?_iff (h : IsCandidate w) :
    (ofWritten? w).isSome = true ↔ HasReadableLoose w := by
  obtain ⟨base, -, hread⟩ := ofWritten?_of_isCandidate h
  constructor
  · intro hsome
    obtain ⟨r, hr⟩ := Option.isSome_iff_exists.mp hsome
    obtain ⟨-, hyear, hend, hkind⟩ := (hread r).mp hr
    have hyears : ∀ name ∈ ["year", "end_year"], (looseYear? w name).isSome = true :=
      List.forall_mem_cons.mpr
        ⟨by rw [hyear]; rfl, List.forall_mem_singleton.mpr (by rw [hend]; rfl)⟩
    exact ⟨fun name hname => isSome_looseYear?_iff.mp (hyears name hname),
      isSome_looseKind?_iff.mp (by rw [hkind]; rfl)⟩
  · intro hloose
    have hyears := fun name hname => isSome_looseYear?_iff.mpr (hloose.years name hname)
    obtain ⟨year, hyear⟩ := Option.isSome_iff_exists.mp (hyears "year" (by simp))
    obtain ⟨endYear, hend⟩ := Option.isSome_iff_exists.mp (hyears "end_year" (by simp))
    obtain ⟨kind, hkind⟩ := Option.isSome_iff_exists.mp (isSome_looseKind?_iff.mpr hloose.kind)
    rw [(hread { base with year := year, endYear := endYear, mediaType := kind }).mpr
      ⟨rfl, hyear, hend, hkind⟩]
    rfl

theorem kind_of_looseKind? {kind : Option MediaType} (h : looseKind? w = some kind)
    (m : MediaType) : kind = some m ↔ ∃ t s, w.field? "type" = some (.string t) ∧
      StringText.value? t = some s ∧ MediaType.ofName? s = some m := by
  unfold looseKind? at h
  cases hv : w.field? "type" with
  | none =>
    rw [hv] at h
    cases h
    simp
  | some v =>
    rw [hv] at h
    obtain ⟨s, hs, rfl⟩ := Option.map_eq_some_iff.mp h
    cases v with
    | null =>
      cases hs
      simp
    | string t =>
      obtain ⟨s, hvalue, rfl⟩ := Option.map_eq_some_iff.mp hs
      change StringText.value? t = some s at hvalue
      simp [hvalue]
    | _ => cases hs

theorem listOfJson?_array {text : String} {items : List Written}
    (h : Written.parse? text = some (.array items)) :
    listOfJson? text = (Written.array items).list? ofWritten? := by
  rw [listOfJson?, h, Option.bind_some]

/-- What is made of a candidate of an answer. -/
theorem isReadAs_of_ofWritten? (h : IsCandidate w) (hspelled : w.Spelled)
    (hr : ofWritten? w = some r) : IsReadAs w r := by
  obtain ⟨base, hbase, hread⟩ := ofWritten?_of_isCandidate h
  obtain ⟨hplain, hyear, hend, hkind⟩ := (hread r).mp hr
  refine ⟨⟨base, hbase, hplain⟩, isYearOf_of_year? hyear, isYearOf_of_year? hend,
    kind_of_looseKind? hkind, hspelled.exists_parse?, fun text htext => ?_⟩
  rw [listOfJson?_array htext]
  exact Written.list?_array_iff.mpr (.cons hr .nil)

/-- An answer that lists candidates is read exactly if no loose field of any of them spoils it. Then
each candidate is read by itself: its loose fields change none of its other fields and no other
candidate, its kind is the one that is named, and its years are none or the numbers that are given,
except those that do not fit. -/
theorem answer_of_candidates {text : String} {items : List Written}
    (hparse : Written.parse? text = some (.array items)) (hitems : ∀ w ∈ items, IsCandidate w) :
    ((listOfJson? text).isSome = true ↔ ∀ w ∈ items, HasReadableLoose w) ∧
      ∀ results, listOfJson? text = some results → List.Forall₂ IsReadAs items results := by
  have hspelled : (Written.array items).Spelled := Written.spelled_of_parse? hparse
  rw [listOfJson?_array hparse]
  constructor
  · rw [Written.isSome_list?_array_iff]
    exact forall₂_congr fun w hw => isSome_ofWritten?_iff (hitems w hw)
  · intro results hresults
    have hall := Written.list?_array_iff.mp hresults
    -- an item of a text that has been read can also stand in a list of its own
    have hknown : ∀ w ∈ items, IsCandidate w ∧ w.Spelled := fun w hw =>
      ⟨hitems w hw, hspelled.item hw⟩
    exact ((List.forall₂_and_left ..).mpr ⟨hknown, hall⟩).imp fun w r ⟨⟨hw, hs⟩, hr⟩ =>
      isReadAs_of_ofWritten? hw hs hr

/-! ### Small examples -/

/-- A film whose year is the beginning of a date. -/
def dune : Written := .object [(.plain "title", .string (.plain "Dune")),
  (.plain "year", .string (.plain "2021-10-22")), (.plain "type", .string (.plain "Movie"))]

/-- A film whose year is too wide. -/
def heat : Written := .object [(.plain "title", .string (.plain "Heat")),
  (.plain "year", .number ⟨false, [4, 2, 9, 4, 9, 6, 9, 3, 1, 7], [], none⟩)]

/-- A title whose kind is a number. -/
def numbered : Written := .object [(.plain "title", .string (.plain "Arco")),
  (.plain "type", .number ⟨false, [5], [], none⟩)]

/-- An answer with the two films. -/
def filmAnswer : String :=
  "[\x7b\"title\":\"Dune\",\"year\":\"2021-10-22\",\"type\":\"Movie\"\x7d," ++
    "\x7b\"title\":\"Heat\",\"year\":4294969317\x7d]"

/-- An answer with a film and the title whose kind is a number. -/
def numberedAnswer : String :=
  "[\x7b\"title\":\"Dune\",\"year\":\"2021-10-22\",\"type\":\"Movie\"\x7d," ++
    "\x7b\"title\":\"Arco\",\"type\":5\x7d]"

theorem parse?_filmAnswer : Written.parse? filmAnswer = some (.array [dune, heat]) :=
  Written.parse?_eq_some_iff.mpr (by decide +kernel)

theorem parse?_numberedAnswer : Written.parse? numberedAnswer = some (.array [dune, numbered]) :=
  Written.parse?_eq_some_iff.mpr (by decide +kernel)

theorem isCandidate_dune : IsCandidate dune := ⟨_, rfl, by decide +kernel, by decide +kernel⟩

/-- The films are read, each by itself. -/
theorem answer_of_candidates_films :
    Written.parse? filmAnswer = some (.array [dune, heat]) ∧
      (∀ w ∈ [dune, heat], IsCandidate w) ∧
      (∀ w ∈ [dune, heat], HasReadableLoose w) ∧
      ∃ results, listOfJson? filmAnswer = some results ∧
        List.Forall₂ IsReadAs [dune, heat] results ∧
        results.map (fun r => (r.year, r.mediaType)) =
          [(some 2021, some .movie), (some 2021, none)] := by
  have hcandidates : ∀ w ∈ [dune, heat], IsCandidate w :=
    List.forall_mem_cons.mpr ⟨isCandidate_dune,
      List.forall_mem_singleton.mpr ⟨_, rfl, by decide +kernel, by decide +kernel⟩⟩
  have hvalue : (listOfJson? filmAnswer).map (List.map fun r => (r.year, r.mediaType)) =
      some [(some 2021, some .movie), (some 2021, none)] := by
    rw [listOfJson?_array parse?_filmAnswer]
    decide +kernel
  obtain ⟨results, hresults, hfields⟩ := Option.map_eq_some_iff.mp hvalue
  obtain ⟨hread, heach⟩ := answer_of_candidates parse?_filmAnswer hcandidates
  exact ⟨parse?_filmAnswer, hcandidates, hread.mp (by rw [hresults]; rfl), results, hresults,
    heach results hresults, hfields⟩

/-- A kind that is a number spoils the whole answer, and a year that is too wide becomes another
one. -/
theorem answer_spoiled :
    Written.parse? numberedAnswer = some (.array [dune, numbered]) ∧
      (∀ w ∈ [dune, numbered], IsCandidate w) ∧ listOfJson? numberedAnswer = none ∧
      Written.parse? filmAnswer = some (.array [dune, heat]) ∧
      heat.GivesAt "year" 4294969317 ∧
      (listOfJson? filmAnswer).map (List.map (·.year)) = some [some 2021, some 2021] := by
  refine ⟨parse?_numberedAnswer, List.forall_mem_cons.mpr ⟨isCandidate_dune,
    List.forall_mem_singleton.mpr ⟨_, rfl, by decide +kernel, by decide +kernel⟩⟩,
    ?_, parse?_filmAnswer, ⟨_, rfl, .integer ⟨rfl, rfl, by decide, nofun⟩⟩, ?_⟩
  · rw [listOfJson?_array parse?_numberedAnswer]
    decide +kernel
  · rw [listOfJson?_array parse?_filmAnswer]
    decide +kernel

end Harvest.SearchResult
