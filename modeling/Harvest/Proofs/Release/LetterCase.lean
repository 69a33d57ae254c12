import Harvest.Crawl.Storing
import Harvest.Proofs.Pattern.LetterCase

/-!
# Release names in another letter case

Reading a release name commutes with putting its ASCII letters in lower case. All patterns ask for
letters in either case, the name is cut where they match, and what is copied from it — the title and
the group — is copied as it stands. So two names that differ in the case of ASCII letters only are
judged alike, tell the same, and are linked by the same key.

## Main definitions

* `ParsedRelease.lower` — what a name tells, with title and group in lower case
* `ParsedRelease.AgreesUpToCase` — equal attributes, with title and group up to case
* `Release.Name.lower` — the forms of a name in lower case

## Main results

* `Release.Name.ofChars_asciiLower`, `Release.Name.parse_lower` — reading in lower case
* `Release.parse_asciiLowerString` — reading a name commutes with lower case
* `Release.reading_of_eqUpToCase` — names that are equal up to case are read alike
-/

namespace Harvest

open Text (asciiLower asciiLowerString EqUpToCase)

/-! ### What names tell -/

/-- What a name tells, with the title and the group in lower case. -/
def ParsedRelease.lower (p : ParsedRelease) : ParsedRelease :=
  { p with title := asciiLowerString p.title, group := p.group.map asciiLowerString }

/-- Two names tell the same, up to the case of ASCII letters in the title and in the group. -/
structure ParsedRelease.AgreesUpToCase (p q : ParsedRelease) : Prop where
  title : EqUpToCase p.title q.title
  year : p.year = q.year
  seasons : p.seasons = q.seasons
  episodes : p.episodes = q.episodes
  resolution : p.resolution = q.resolution
  codec : p.codec = q.codec
  quality : p.quality = q.quality
  bitDepth : p.bitDepth = q.bitDepth
  /-- There is no group, or there are two that are equal up to case. -/
  group : Option.Rel EqUpToCase p.group q.group
  audio : p.audio = q.audio
  channels : p.channels = q.channels
  hdr : p.hdr = q.hdr
  languages : p.languages = q.languages
  flags : p.flags = q.flags

theorem ParsedRelease.agreesUpToCase_of_lower_eq {p q : ParsedRelease} (h : p.lower = q.lower) :
    p.AgreesUpToCase q := by
  have hfields := ParsedRelease.mk.inj h
  obtain ⟨title, year, seasons, episodes, resolution, codec, quality, bitDepth, group, audio,
    channels, hdr, languages, flags⟩ := hfields
  refine ⟨title, year, seasons, episodes, resolution, codec, quality, bitDepth, ?_, audio,
    channels, hdr, languages, flags⟩
  cases hp : p.group with
  | none =>
    cases hq : q.group with
    | none => exact .none
    | some b => simp [hp, hq] at group
  | some a =>
    cases hq : q.group with
    | none => simp [hp, hq] at group
    | some b =>
      have hgroups : asciiLowerString a = asciiLowerString b := by simpa [hp, hq] using group
      exact .some hgroups

namespace Release

open Pattern

/-! ### Keywords -/

section Keywords

variable (name : String)

theorem toList_asciiLowerString : (asciiLowerString name).toList = asciiLower name.toList :=
  String.toList_ofList

theorem isAdult_asciiLowerString : isAdult (asciiLowerString name) = isAdult name := by
  rw [isAdult, toList_asciiLowerString, occursIn_lower (by decide), isAdult]

theorem isSportsBroadcast_asciiLowerString :
    isSportsBroadcast (asciiLowerString name) = isSportsBroadcast name := by
  unfold isSportsBroadcast
  dsimp only
  rw [toList_asciiLowerString, occursIn_lower (p := sportsChannel) (by decide),
    occursIn_lower (p := sportsLeague) (by decide),
    occursIn_lower (p := sportsEvent) (by decide),
    occursIn_lower (p := dateStamp) (by decide)]

/-- A number has no case. -/
theorem number?_asciiLower (s : List Char) : number? (asciiLower s) = number? s := by
  by_cases hs : s.all Char.isDigit = true
  · have hnot : ∀ ch ∈ s, ch.isAlpha = false := fun ch hch =>
      Text.not_isAlpha_of_isDigit (List.all_eq_true.mp hs ch hch)
    rw [Text.asciiLower_of_not_isAlpha hnot]
  · have hlower : ¬(asciiLower s).all Char.isDigit = true := by
      rwa [asciiLower, List.all_map, show Char.isDigit ∘ Char.toLower = Char.isDigit from
        funext Text.isDigit_toLower]
    simp [number?, hs, hlower]

theorem isAnime_asciiLowerString (m : Option MediaType) :
    isAnime (asciiLowerString name) m = isAnime name m := by
  unfold isAnime
  dsimp only
  rw [toList_asciiLowerString, occursIn_lower (p := animeGroup) (by decide),
    occursIn_lower (p := animeKeyword) (by decide),
    occursIn_lower (p := seasonEpisode) (by decide),
    findAll_lower (p := episodeNumber) (by decide), List.filterMap_map]
  simp only [Function.comp_def, Found.text_lower, number?_asciiLower]

end Keywords

/-! ### Labels -/

/-- Whether no pattern of a table tells the cases of a letter apart. -/
def LabelTable.ignoresCase (table : LabelTable) : Bool := table.all fun row => row.1.ignoresCase

section Labels

variable (table : LabelTable)

theorem filter_occursIn_asciiLower (h : LabelTable.ignoresCase table = true) (s : List Char) :
    table.filter (fun row => row.1.occursIn (asciiLower s)) =
      table.filter fun row => row.1.occursIn s :=
  List.filter_congr fun row hrow => occursIn_lower (List.all_eq_true.mp h row hrow) s

theorem firstLabel_asciiLower (h : LabelTable.ignoresCase table = true) (s : List Char) :
    firstLabel table (asciiLower s) = firstLabel table s := by
  rw [firstLabel, ← List.head?_filter, filter_occursIn_asciiLower table h, List.head?_filter,
    firstLabel]

theorem allLabels_asciiLower (h : LabelTable.ignoresCase table = true) (s : List Char) :
    allLabels table (asciiLower s) = allLabels table s := by
  rw [allLabels, filter_occursIn_asciiLower table h, allLabels]

end Labels

/-! ### The forms of a name -/

/-- The forms of the name in lower case. -/
def Name.lower (n : Name) : Name :=
  ⟨asciiLower n.raw, n.leadingGroup.map asciiLower, asciiLower n.normalized⟩

theorem spaceSeparators_asciiLower (s : List Char) :
    spaceSeparators (asciiLower s) = asciiLower (spaceSeparators s) := by
  simp only [spaceSeparators, asciiLower, List.map_map]
  refine List.map_congr_left fun ch _ => ?_
  have hdot : (ch.toLower == '.') = (ch == '.') := Text.toLower_beq (by decide) ch
  have hline : (ch.toLower == '_') = (ch == '_') := Text.toLower_beq (by decide) ch
  simp only [Function.comp, hdot, hline]
  split <;> rfl

/-- The forms of a name in lower case are those of the name, in lower case. -/
theorem Name.ofChars_asciiLower (s : List Char) :
    Name.ofChars (asciiLower s) = (Name.ofChars s).lower := by
  unfold Name.ofChars
  dsimp only
  rw [Text.trim_asciiLower, eraseFirst_lower (by decide), spaceSeparators_asciiLower,
    find_lower (p := Release.leadingGroup) (by decide)]
  cases Release.leadingGroup.find (spaceSeparators (videoExtension.eraseFirst (Text.trim s))) with
  | none => rfl
  | some f =>
    simp only [Option.map_some, Found.group_lower, Text.trim_asciiLower]
    rfl

namespace Name

variable (n : Name)

theorem yearMatch_lower : n.lower.yearMatch = n.yearMatch.map Found.lower := by
  unfold yearMatch lower
  dsimp only
  rw [findAll_lower (by decide), List.find?_map]
  simp only [Function.comp_def, Found.offset_lower]

theorem bracket_lower : n.lower.bracket = n.bracket := by
  have hsquare (ch : Char) : (ch.toLower == '[') = (ch == '[') := Text.toLower_beq (by decide) ch
  have hround (ch : Char) : (ch.toLower == '(') = (ch == '(') := Text.toLower_beq (by decide) ch
  unfold bracket lower asciiLower
  dsimp only
  rw [List.findIdx?_map]
  simp only [Function.comp_def, hsquare, hround]

theorem boundaryOffsets_lower : n.lower.boundaryOffsets = n.boundaryOffsets := by
  have hall : ∀ p ∈ boundaries, p.ignoresCase = true := by decide
  have hfirst : boundaries.filterMap (fun p => (p.find n.lower.normalized).map Found.offset) =
      boundaries.filterMap fun p => (p.find n.normalized).map Found.offset := by
    refine List.filterMap_congr fun p hp => ?_
    rw [lower, find_lower (hall p hp), Option.map_map]
    simp only [Function.comp_def, Found.offset_lower]
  rw [boundaryOffsets, yearMatch_lower, hfirst, bracket_lower, Option.map_map, boundaryOffsets]
  simp only [Function.comp_def, Found.offset_lower]

theorem titleEnd_lower : n.lower.titleEnd = n.titleEnd := by
  have hlength : n.lower.normalized.length = n.normalized.length := Text.length_asciiLower _
  rw [titleEnd, boundaryOffsets_lower, hlength, titleEnd]

theorem group_lower : n.lower.group = n.group.map asciiLowerString := by
  have hstring (g : List Char) :
      String.ofList (asciiLower g) = asciiLowerString (String.ofList g) := by
    rw [asciiLowerString, String.toList_ofList]
  unfold group lower
  cases n.leadingGroup with
  | some g => exact congrArg some (hstring g)
  | none =>
    dsimp only [Option.map_none]
    rw [find_lower (by decide), Option.map_map]
    cases trailingGroup.find n.raw with
    | none => rfl
    | some f =>
      -- the last part of a hyphenated quality is recognized in lower case
      simp only [Option.map_some, Function.comp, Found.group_lower, Text.lower_asciiLower]
      split
      · rfl
      · exact congrArg some (hstring (f.group 1))

theorem title_lower : n.lower.title = asciiLower n.title := by
  have htidy (s : List Char) : tidy (asciiLower s) = asciiLower (tidy s) := by
    have hends (ch : Char) : (ch.toLower == '-' || ch.toLower == ' ') = (ch == '-' || ch == ' ') :=
      congrArg₂ (· || ·) (Text.toLower_beq (by decide) ch) (Text.toLower_beq (by decide) ch)
    rw [tidy, Text.trim_asciiLower, Text.dropEndWhile_asciiLower hends, Text.trim_asciiLower, tidy]
  unfold title
  dsimp only
  rw [titleEnd_lower, lower, ← Text.asciiLower_take, htidy, Text.isEmpty_asciiLower,
    Text.trim_asciiLower]
  split <;> rfl

end Name

/-! ### Numbers and other attributes -/

section Attributes

variable (s : List Char)

theorem seasonsOfRange_asciiLower : seasonsOfRange (asciiLower s) = seasonsOfRange s := by
  unfold seasonsOfRange
  rw [find_lower (by decide)]
  cases seasonRange.find s with
  | none => rfl
  | some f => simp only [Option.map_some, Found.group_lower, number?_asciiLower]

theorem singleSeasons_asciiLower : singleSeasons (asciiLower s) = singleSeasons s := by
  unfold singleSeasons
  dsimp only
  rw [findAll_lower (p := season) (by decide),
    findAll_lower (p := seasonWord) (by decide),
    findAll_lower (p := crossEpisode) (by decide), ← List.map_append, ← List.map_append,
    List.filterMap_map]
  simp only [Function.comp_def, Found.group_lower, number?_asciiLower]

theorem seasons_asciiLower : seasons (asciiLower s) = seasons s := by
  rw [seasons, seasonsOfRange_asciiLower, singleSeasons_asciiLower, seasons]

theorem bind_number?_asciiLower (o : Option (List Char)) :
    (o.map asciiLower).bind number? = o.bind number? := by
  cases o with
  | none => rfl
  | some t => exact number?_asciiLower t

theorem episodes_asciiLower : episodes (asciiLower s) = episodes s := by
  unfold episodes
  rw [find_lower (p := episode) (by decide),
    find_lower (p := crossEpisode) (by decide),
    find_lower (p := absoluteEpisode) (by decide)]
  cases episode.find s with
  | some f =>
    simp only [Option.map_some, Found.group_lower, Found.group?_lower, number?_asciiLower,
      bind_number?_asciiLower]
  | none =>
    cases crossEpisode.find s with
    | some f => simp only [Option.map_some, Option.map_none, Found.group_lower, number?_asciiLower]
    | none =>
      cases absoluteEpisode.find s with
      | none => rfl
      | some f =>
        simp only [Option.map_some, Option.map_none, Option.bind_some, Found.group_lower,
          number?_asciiLower]

theorem resolutionOf_asciiLower : resolutionOf (asciiLower s) = resolutionOf s := by
  unfold resolutionOf
  rw [find_lower (by decide), Option.map_map]
  simp only [Function.comp_def, Found.group_lower, Text.lower_asciiLower]

theorem hdrOf_asciiLower : hdrOf (asciiLower s) = hdrOf s := by
  rw [hdrOf, allLabels_asciiLower hdr (by decide), hdrOf]

theorem bitDepth_asciiLower :
    (bitDepth.find (asciiLower s)).map (fun f => String.ofList (f.group 1) ++ "bit") =
      (bitDepth.find s).map fun f => String.ofList (f.group 1) ++ "bit" := by
  rw [find_lower (by decide), Option.map_map]
  refine Option.map_congr fun f hf => ?_
  have hgroup : asciiLower (f.group 1) = f.group 1 :=
    (isMatch_of_find hf).asciiLower_group (by decide)
  rw [Function.comp_apply, Found.group_lower, hgroup]

theorem channelsOf_asciiLower : channelsOf (asciiLower s) = channelsOf s := by
  unfold channelsOf
  rw [findAll_lower (by decide), List.map_map]
  refine congrArg unique (List.map_congr_left fun f hf => ?_)
  have hmatch := isMatch_of_mem_findAll hf
  have hfront : asciiLower (f.group 1) = f.group 1 := hmatch.asciiLower_group (by decide)
  have hbass : asciiLower (f.group 2) = f.group 2 := hmatch.asciiLower_group (by decide)
  rw [Function.comp_apply, Found.group_lower, Found.group_lower, hfront, hbass]

theorem flagsOf_asciiLower : flagsOf (asciiLower s) = flagsOf s := by
  unfold flagsOf
  rw [occursIn_lower (p := remastered) (by decide),
    occursIn_lower (p := upscaled) (by decide),
    occursIn_lower (p := anyWord ["proper"]) (by decide),
    occursIn_lower (p := anyWord ["repack"]) (by decide),
    occursIn_lower (p := anyWord ["extended"]) (by decide),
    occursIn_lower (p := anyWord ["complete"]) (by decide),
    occursIn_lower (p := anyWord ["dubbed", "dub"]) (by decide),
    occursIn_lower (p := subbed) (by decide)]

end Attributes

/-! ### The whole name -/

theorem Name.parse_lower (n : Name) : n.lower.parse = n.parse.lower := by
  have htitle : String.ofList (asciiLower n.title) = asciiLowerString (String.ofList n.title) := by
    rw [asciiLowerString, String.toList_ofList]
  have hyear : ((n.yearMatch.map Found.lower).bind fun f => number? f.text) =
      n.yearMatch.bind fun f => number? f.text := by
    rw [Option.bind_map]
    simp only [Function.comp_def, Found.text_lower, number?_asciiLower]
  unfold Name.parse ParsedRelease.lower
  rw [n.title_lower, htitle, n.yearMatch_lower, hyear, n.group_lower]
  unfold Name.lower
  dsimp only
  rw [seasons_asciiLower, episodes_asciiLower, resolutionOf_asciiLower,
    firstLabel_asciiLower codecs (by decide),
    firstLabel_asciiLower qualities (by decide), bitDepth_asciiLower,
    allLabels_asciiLower audio (by decide), channelsOf_asciiLower,
    hdrOf_asciiLower, allLabels_asciiLower languages (by decide),
    flagsOf_asciiLower]

/-- Reading a name commutes with lower case. -/
theorem parse_asciiLowerString (name : String) :
    parse (asciiLowerString name) = (parse name).lower := by
  rw [parse, toList_asciiLowerString, Name.ofChars_asciiLower, Name.parse_lower, parse]

variable {a b : String}

theorem key_eq_of_eqUpToCase (h : EqUpToCase (parse a).title (parse b).title)
    (hyear : (parse a).year = (parse b).year) (hkind : (parse a).mediaType = (parse b).mediaType) :
    ResolutionKey.ofTitle (parse a).title (parse a).year (parse a).mediaType =
      ResolutionKey.ofTitle (parse b).title (parse b).year (parse b).mediaType := by
  have hlower : Text.lowerString (parse a).title = Text.lowerString (parse b).title := by
    rw [← Text.lowerString_asciiLowerString, h, Text.lowerString_asciiLowerString]
  rw [ResolutionKey.ofTitle, hlower, hyear, hkind, ResolutionKey.ofTitle]

/-- The letter case of a release name does not matter: two names that are equal up to the case of
ASCII letters are judged alike, tell the same, and belong to entries with equal keys. -/
theorem reading_of_eqUpToCase (h : EqUpToCase a b) :
    isAdult a = isAdult b ∧ isSportsBroadcast a = isSportsBroadcast b ∧
      (∀ m : Option MediaType, isAnime a m = isAnime b m) ∧
      (parse a).AgreesUpToCase (parse b) ∧
      ∀ d e : Entry, d.filename = a → e.filename = b →
        Prospect.key ⟨d, parse d.filename⟩ = Prospect.key ⟨e, parse e.filename⟩ := by
  have hparsed : (parse a).AgreesUpToCase (parse b) :=
    ParsedRelease.agreesUpToCase_of_lower_eq (by
      rw [← parse_asciiLowerString, h, parse_asciiLowerString])
  refine ⟨?_, ?_, fun m => ?_, hparsed, ?_⟩
  · rw [← isAdult_asciiLowerString, h, isAdult_asciiLowerString]
  · rw [← isSportsBroadcast_asciiLowerString, h, isSportsBroadcast_asciiLowerString]
  · rw [← isAnime_asciiLowerString, h, isAnime_asciiLowerString]
  · rintro d e rfl rfl
    have hkind : (parse d.filename).mediaType = (parse e.filename).mediaType := by
      rw [ParsedRelease.mediaType, hparsed.seasons, hparsed.episodes, ParsedRelease.mediaType]
    exact key_eq_of_eqUpToCase hparsed.title hparsed.year hkind

/-! ### A small example -/

/-- A name in another letter case tells the same, with its group in that case. -/
theorem reading_heat : EqUpToCase "Heat.1995.1080p.x265-GRP" "heat.1995.1080P.X265-grp" ∧
    (parse "Heat.1995.1080p.x265-GRP").AgreesUpToCase (parse "heat.1995.1080P.X265-grp") ∧
    (parse "Heat.1995.1080p.x265-GRP").group = some "GRP" :=
  ⟨by decide, (reading_of_eqUpToCase (by decide)).2.2.2.1, by decide⟩

end Release

end Harvest
