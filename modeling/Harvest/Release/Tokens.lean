import Harvest.Pattern.Search

/-!
# Recognised tokens of release names

The patterns by which the parts of a release name are found.

## Main definitions

* `Release.boundaries` — the tokens at which a title ends
* the single tokens: extensions, groups, years, seasons, episodes and picture attributes
-/

namespace Harvest.Release

open Pattern

/-- The number written by ASCII digits. -/
def number? (s : List Char) : Option Nat :=
  if !s.isEmpty && s.all Char.isDigit then
    some (s.foldl (fun n c => n * 10 + (c.toNat - '0'.toNat)) 0)
  else none

/-- The texts one after the other, with or without a hyphen between them. -/
def dashed : List String → Pattern
  | [] => empty
  | [s] => caseless s
  | s :: ss => caseless s ++ optional (literal "-") ++ dashed ss

/-- The texts one after the other, with or without a dot between them. -/
def dotted : List String → Pattern
  | [] => empty
  | [s] => caseless s
  | s :: ss => caseless s ++ optional (literal ".") ++ dotted ss

/-- The texts one after the other, with any amount of white space between them. -/
def spaced : List String → Pattern
  | [] => empty
  | [s] => caseless s
  | s :: ss => caseless s ++ blanks ++ spaced ss

/-- The extension of a video file at the end of a name. -/
def videoExtension : Pattern :=
  literal "." ++ oneOf (["mkv", "mp4", "avi", "m4v", "wmv", "ts"].map caseless) ++ stop

/-- A group name in brackets at the beginning of a name. -/
def leadingGroup : Pattern :=
  start ++ literal "[" ++ group 1 (run (.outside [']']) 1 none) ++ literal "]" ++ blanks

/-- A group name behind a hyphen at the end of a name. -/
def trailingGroup : Pattern := literal "-" ++ group 1 (run .plainAlphanumeric 1 none) ++ stop

/-- A year of the twentieth or twenty-first century. -/
def year : Pattern :=
  word (group 1 (oneOf [literal "19" ++ digits 2 2, literal "20" ++ digits 2 2]))

/-- A range of seasons, such as `S01-S03`. -/
def seasonRange : Pattern :=
  wordEdge ++ caseless "s" ++ group 1 (digits 1 2) ++ literal "-" ++ optional (caseless "s") ++
    group 2 (digits 1 2) ++ wordEdge

/-- A season, alone or in front of an episode. -/
def season : Pattern :=
  wordEdge ++ caseless "s" ++ group 1 (digits 1 2) ++ either (caseless "e" ++ digit) wordEdge

/-- A season written out. -/
def seasonWord : Pattern :=
  wordEdge ++ caseless "season" ++ blanks ++ group 1 (digits 1 2) ++ wordEdge

/-- A season with an episode or a range of episodes. -/
def episode : Pattern :=
  wordEdge ++ caseless "s" ++ digits 1 2 ++ caseless "e" ++ group 1 (digits 1 4) ++
    optional (optional (literal "-") ++ optional (caseless "e") ++ group 2 (digits 1 4)) ++
    wordEdge

/-- A season and an episode with an x between them. -/
def crossEpisode : Pattern :=
  word (group 1 (digits 1 2) ++ caseless "x" ++ group 2 (digits 1 3))

/-- An episode number behind a dash that stands alone. -/
def absoluteEpisode : Pattern :=
  one .blank ++ literal "-" ++ one .blank ++ group 1 (digits 1 4) ++ wordEdge

/-- The names of picture heights. -/
def resolutionNames : List String :=
  ["2160p", "4k", "uhd", "1440p", "1080p", "1080i", "720p", "576p", "480p"]

/-- A picture height. -/
def resolution : Pattern := word (group 1 (oneOf (resolutionNames.map caseless)))

/-- A picture height, a source or a coding: the first of them ends the title. -/
def qualityToken : Pattern :=
  word (group 1 (oneOf (resolutionNames.map caseless ++
    [dashed ["web", "dl"], caseless "webrip", caseless "web", dashed ["blu", "ray"]] ++
    ["bdrip", "brrip", "hdtv", "dvdrip", "hdrip", "remux", "x264", "x265", "h264", "h265", "hevc",
      "avc", "proper", "repack"].map caseless)))

/-- The depth of a color channel. -/
def bitDepth : Pattern :=
  word (group 1 (oneOf (["8", "10", "12"].map literal)) ++ optional (one (.among [' ', '-'])) ++
    caseless "bit")

/-- An audio channel layout that is not part of a longer number. -/
def channels : Pattern :=
  either start (one .nonDigit) ++ group 1 (one (.among ['2', '5', '7'])) ++ literal "." ++
    group 2 (one (.among ['0', '1'])) ++ either (one .nonDigit) stop

/-- The tokens at which a title ends, besides the year and an opening bracket. -/
def boundaries : List Pattern :=
  [seasonRange, season, seasonWord, crossEpisode, absoluteEpisode, qualityToken]

end Harvest.Release
