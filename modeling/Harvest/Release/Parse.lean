import Harvest.Release.Labels
import Harvest.Release.Parsed
import Harvest.Text.LowerCase

/-!
# Reading release names

A release name is a title followed by tokens, separated by dots, underscores or spaces, possibly
with a group name in brackets in front or behind a hyphen at the end. The title ends where the first
token begins.

## Main definitions

* `Release.Name` — a name without its extension, and its separator-normalized form
* `Release.Name.titleEnd` — where the title ends
* `Release.seasons`, `Release.episodes` — the numbers that are mentioned
* `Release.parse` — everything that a name tells
-/

namespace Harvest.Release

open Pattern

/-- The numbers from `first` to `last`. -/
def span (first last : Nat) : List Nat := List.range' first (last + 1 - first)

/-- A release name in the forms in which its parts are searched. -/
structure Name where
  /-- The name without white space around it and without the extension. -/
  raw : List Char
  /-- The group name in brackets at the beginning. -/
  leadingGroup : Option (List Char)
  /-- The raw form with spaces for dots and underscores, after the leading group. -/
  normalized : List Char
  deriving DecidableEq

/-- Spaces for dots and underscores. -/
def spaceSeparators (s : List Char) : List Char :=
  s.map fun c => if c == '.' || c == '_' then ' ' else c

/-- The forms of a name. -/
def Name.ofChars (s : List Char) : Name :=
  let raw := videoExtension.eraseFirst (Text.trim s)
  let spaced := spaceSeparators raw
  match Release.leadingGroup.find spaced with
  | some f => ⟨raw, some (Text.trim (f.group 1)), f.way.cursor.rest⟩
  | none => ⟨raw, none, spaced⟩

/-- The last part of a hyphenated quality, which is no group name. -/
def notAGroup : List (List Char) := [['d', 'l'], ['r', 'i', 'p'], ['r', 'a', 'y']]

/-- The group name: the leading one, else the one at the end. -/
def Name.group (n : Name) : Option String :=
  match n.leadingGroup with
  | some g => some (String.ofList g)
  | none =>
    match (trailingGroup.find n.raw).map (·.group 1) with
    | some g => if notAGroup.contains (Text.lower g) then none else some (String.ofList g)
    | none => none

/-- The first year that does not begin the name. -/
def Name.yearMatch (n : Name) : Option Found := (year.findAll n.normalized).find? (0 < ·.offset)

/-- The offset of the first opening bracket. -/
def Name.bracket (n : Name) : Option Nat :=
  n.normalized.findIdx? fun c => c == '[' || c == '('

/-- Where the first match of each boundary begins. -/
def Name.boundaryOffsets (n : Name) : List Nat :=
  (n.yearMatch.map Found.offset).toList ++
    boundaries.filterMap (fun p => (p.find n.normalized).map Found.offset) ++ n.bracket.toList

/-- Where the title ends: at the first boundary behind the beginning, else at the end. -/
def Name.titleEnd (n : Name) : Nat :=
  ((n.boundaryOffsets.filter (0 < ·)).min?).getD n.normalized.length

/-- A title without white space at its ends and without hyphens and spaces behind it. -/
def tidy (s : List Char) : List Char :=
  Text.trim (Text.dropEndWhile (fun c => c == '-' || c == ' ') (Text.trim s))

/-- The title: the text up to its end, or the whole name if nothing is left of that. -/
def Name.title (n : Name) : List Char :=
  let t := tidy (n.normalized.take n.titleEnd)
  if t.isEmpty then Text.trim n.normalized else t

/-- The seasons of a range, if it runs upwards. -/
def seasonsOfRange (s : List Char) : Option (List Nat) :=
  match seasonRange.find s with
  | some f =>
    let first := (number? (f.group 1)).getD 0
    let last := (number? (f.group 2)).getD 0
    if first ≤ last then some (span first last) else none
  | none => none

/-- The seasons that are mentioned one by one, in increasing order. -/
def singleSeasons (s : List Char) : List Nat :=
  let found := season.findAll s ++ seasonWord.findAll s ++ crossEpisode.findAll s
  (unique (found.filterMap fun f => number? (f.group 1))).mergeSort (· ≤ ·)

/-- The seasons. -/
def seasons (s : List Char) : List Nat := (seasonsOfRange s).getD (singleSeasons s)

/-- The episodes. -/
def episodes (s : List Char) : List Nat :=
  match episode.find s with
  | some f =>
    let first := (number? (f.group 1)).getD 0
    match (f.group? 2).bind number? with
    | some last => if first ≤ last then span first last else [first]
    | none => [first]
  | none =>
    match crossEpisode.find s with
    | some f => (number? (f.group 2)).toList
    | none => ((absoluteEpisode.find s).bind fun f => number? (f.group 1)).toList

/-- The picture height, with other names of the same height replaced. -/
def resolutionOf (s : List Char) : Option String :=
  (resolution.find s).map fun f =>
    let name := String.ofList (Text.lower (f.group 1))
    if name = "4k" ∨ name = "uhd" then "2160p"
    else if name = "1080i" then "1080p"
    else name

/-- The kinds of brightness range; the extended kind takes the place of the plain one. -/
def hdrOf (s : List Char) : List String :=
  let labels := allLabels hdr s
  if "HDR10+" ∈ labels then labels.filter (· ≠ "HDR10") else labels

/-- The audio channel layouts. -/
def channelsOf (s : List Char) : List String :=
  unique ((channels.findAll s).map fun f => String.ofList (f.group 1 ++ '.' :: f.group 2))

/-- The flags. -/
def flagsOf (s : List Char) : ReleaseFlags where
  remastered := remastered.occursIn s
  upscaled := upscaled.occursIn s
  proper := (anyWord ["proper"]).occursIn s
  repack := (anyWord ["repack"]).occursIn s
  extended := (anyWord ["extended"]).occursIn s
  complete := (anyWord ["complete"]).occursIn s
  dubbed := (anyWord ["dubbed", "dub"]).occursIn s
  subbed := subbed.occursIn s

/-- Everything that the forms of a name tell. -/
def Name.parse (n : Name) : ParsedRelease where
  title := String.ofList n.title
  year := (n.yearMatch.bind fun f => number? f.text).map Int.ofNat
  seasons := seasons n.normalized
  episodes := episodes n.normalized
  resolution := resolutionOf n.normalized
  codec := firstLabel codecs n.raw
  quality := firstLabel qualities n.normalized
  bitDepth := (bitDepth.find n.normalized).map fun f => String.ofList (f.group 1) ++ "bit"
  group := n.group
  audio := allLabels audio n.raw
  channels := channelsOf n.raw
  hdr := hdrOf n.normalized
  languages := allLabels languages n.normalized
  flags := flagsOf n.normalized

/-- Everything that a release name tells. -/
def parse (name : String) : ParsedRelease := (Name.ofChars name.toList).parse

end Harvest.Release
