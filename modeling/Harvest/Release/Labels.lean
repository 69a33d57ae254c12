import Harvest.Release.Tokens

/-!
# Labels of release names

Attributes that are recognised by keywords: each table pairs a pattern with the label that stands
for it.

## Main definitions

* `Release.firstLabel` — the label of the first pattern that occurs
* `Release.allLabels` — the labels of all patterns that occur
* `Release.codecs`, `Release.qualities`, `Release.audio`, `Release.hdr`, `Release.languages` — the
  tables

## Main results

* `Release.nodup_allLabels` — no label is given twice
-/

namespace Harvest.Release

open Pattern

/-- Patterns and the labels that stand for them. -/
abbrev LabelTable := List (Pattern × String)

/-- Appends an item unless it is there already. -/
def pushUnique {α : Type} [DecidableEq α] (items : List α) (x : α) : List α :=
  if x ∈ items then items else items ++ [x]

/-- The items of a list without repetition, in the order of their first occurrence. -/
def unique {α : Type} [DecidableEq α] (items : List α) : List α := items.foldl pushUnique []

/-- The label of the first pattern of a table that occurs in a text. -/
def firstLabel (table : LabelTable) (s : List Char) : Option String :=
  (table.find? fun row => row.1.occursIn s).map (·.2)

/-- The labels of all patterns of a table that occur in a text. -/
def allLabels (table : LabelTable) (s : List Char) : List String :=
  unique ((table.filter fun row => row.1.occursIn s).map (·.2))

theorem nodup_pushUnique {α : Type} [DecidableEq α] {items : List α} (x : α)
    (h : items.Nodup) : (pushUnique items x).Nodup := by
  unfold pushUnique
  split
  · exact h
  · next hx =>
    rw [List.nodup_append]
    exact ⟨h, by simp, fun a ha b hb => by simp at hb; exact fun hab => hx (hb ▸ hab ▸ ha)⟩

theorem nodup_foldl_pushUnique {α : Type} [DecidableEq α] (xs : List α) {items : List α}
    (h : items.Nodup) : (xs.foldl pushUnique items).Nodup := by
  induction xs generalizing items with
  | nil => exact h
  | cons x xs ih => exact ih (nodup_pushUnique x h)

theorem nodup_unique {α : Type} [DecidableEq α] (items : List α) : (unique items).Nodup :=
  nodup_foldl_pushUnique items List.nodup_nil

/-- No label is given twice. -/
theorem nodup_allLabels (table : LabelTable) (s : List Char) : (allLabels table s).Nodup :=
  nodup_unique _

/-- Video codings. -/
def codecs : LabelTable := [
  (word (oneOf [dotted ["x", "265"], dotted ["h", "265"], caseless "hevc"]), "hevc"),
  (word (oneOf [dotted ["x", "264"], dotted ["h", "264"], caseless "avc"]), "avc"),
  (anyWord ["av1"], "av1"),
  (anyWord ["xvid"], "xvid")]

/-- Sources of a recording. -/
def qualities : LabelTable := [
  (anyWord ["remux"], "BluRay REMUX"),
  (word (dashed ["web", "dl"]), "WEB-DL"),
  (anyWord ["webrip"], "WEBRip"),
  (word (dashed ["blu", "ray"]), "BluRay"),
  (anyWord ["bdrip"], "BDRip"),
  (anyWord ["brrip"], "BRRip"),
  (anyWord ["hdtv"], "HDTV"),
  (anyWord ["dvdrip"], "DVDRip"),
  (anyWord ["hdrip"], "HDRip"),
  (anyWord ["web"], "WEB"),
  (anyWord ["cam", "hdcam", "telesync"], "CAM")]

/-- A digit or the end of a word. -/
def digitOrEdge : Pattern := either digit wordEdge

/-- Audio codings. -/
def audio : LabelTable := [
  (wordEdge ++ oneOf [caseless "ddp", caseless "dd" ++ literal "+", dashed ["e", "ac", "3"]],
    "Dolby Digital Plus"),
  (wordEdge ++ oneOf [caseless "dd", dashed ["ac", "3"]] ++ digitOrEdge, "Dolby Digital"),
  (word (dashed ["dts", "hd"] ++ optional (blanks ++ caseless "ma")), "DTS Lossless"),
  (wordEdge ++ caseless "dts" ++ digitOrEdge, "DTS"),
  (anyWord ["truehd"], "TrueHD"),
  (anyWord ["atmos"], "Atmos"),
  (wordEdge ++ caseless "aac" ++ digitOrEdge, "AAC"),
  (anyWord ["flac"], "FLAC"),
  (anyWord ["opus"], "OPUS")]

/-- Kinds of extended brightness range. -/
def hdr : LabelTable := [
  (word (oneOf [caseless "dv", caseless "dovi", spaced ["dolby", "vision"]]), "DV"),
  (wordEdge ++ caseless "hdr10" ++ either (literal "+") (caseless "plus"), "HDR10+"),
  (anyWord ["hdr10"], "HDR10"),
  (anyWord ["hdr"], "HDR")]

/-- Languages. -/
def languages : LabelTable := [
  (anyWord ["english", "eng"], "en"),
  (anyWord ["french", "truefrench", "vff", "vostfr"], "fr"),
  (anyWord ["german", "ger"], "de"),
  (anyWord ["spanish", "castellano", "esp"], "es"),
  (anyWord ["latino"], "la"),
  (anyWord ["italian", "ita"], "it"),
  (anyWord ["japanese", "jpn"], "ja"),
  (anyWord ["korean", "kor"], "ko"),
  (anyWord ["hindi"], "hi"),
  (anyWord ["russian", "rus"], "ru"),
  (anyWord ["portuguese", "por"], "pt"),
  (anyWord ["multi"], "multi")]

/-- A mention of remastering. -/
def remastered : Pattern := word (caseless "remaster" ++ optional (caseless "ed"))

/-- A mention of upscaling. -/
def upscaled : Pattern :=
  word (oneOf [caseless "upscale" ++ optional (caseless "d"), spaced ["ai", "upscale"]])

/-- A mention of subtitles. -/
def subbed : Pattern :=
  word (oneOf [caseless "subbed", spaced ["multi", "sub"] ++ optional (caseless "s"),
    caseless "vostfr"])

end Harvest.Release
