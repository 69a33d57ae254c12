import Harvest.Media
import Harvest.Release.Tokens

/-!
# Kinds of releases by keywords

Release names give away some kinds of recordings: adult content, broadcasts of sports, and
Japanese animation with its running episode numbers.

## Main definitions

* `Release.isAdult` — whether a name holds a word of adult content
* `Release.isSportsBroadcast` — whether a name looks like a broadcast of sports
* `Release.isAnime` — whether a name looks like Japanese animation
-/

namespace Harvest.Release

open Pattern

/-- Words of adult content. -/
def adultKeyword : Pattern :=
  word (oneOf [caseless "xxx", caseless "porn", caseless "porno", caseless "pornhub",
    caseless "hentai", caseless "brazzers", caseless "bangbros", spaced ["naughty", "america"],
    caseless "realitykings", caseless "onlyfans", caseless "blacked", caseless "tushy",
    caseless "vixen.com", caseless "milf", caseless "jav", caseless "nsfw", caseless "erotica",
    caseless "camgirl"])

/-- Whether a name holds a word of adult content. -/
def isAdult (name : String) : Bool := adultKeyword.occursIn name.toList

/-- Names of sports channels. -/
def sportsChannel : Pattern :=
  oneOf [spaced ["sky", "f1"] ++ optional (oneOf [caseless "uhd", caseless "hd"]),
    spaced ["sky", "sports"], caseless "f1tv", spaced ["v", "sport"],
    spaced ["motogp", "videopass"]]

/-- Names of sports leagues. -/
def sportsLeague : Pattern :=
  word (oneOf (["ufc", "wwe", "aew", "nba", "nfl", "mlb", "nhl", "f1"].map caseless ++
    [spaced ["formula", "1"], caseless "motogp", caseless "wrc", spaced ["premier", "league"],
      spaced ["la", "liga"], caseless "bundesliga", spaced ["serie", "a"]]))

/-- Words for sports events. -/
def sportsEvent : Pattern :=
  word (oneOf [spaced ["grand", "prix"], caseless "prelims", spaced ["main", "card"],
    caseless "qualifying", spaced ["race", "day"], caseless "vs" ++ optional (literal "."),
    caseless "playoff" ++ optional (caseless "s"), caseless "r" ++ digits 1 2, caseless "raw",
    caseless "smackdown"])

/-- One of the characters that separate the parts of a date. -/
def dateSeparator : Pattern := one (.among ['.', '-', '_', ' '])

/-- A date of this century. -/
def dateStamp : Pattern :=
  word (literal "20" ++ digits 2 2 ++ dateSeparator ++ digits 2 2 ++ dateSeparator ++ digits 2 2)

/-- Whether a name looks like a broadcast of sports: the name of a channel is enough, that of a
league needs an event or a date beside it. -/
def isSportsBroadcast (name : String) : Bool :=
  let s := name.toList
  sportsChannel.occursIn s ||
    (sportsLeague.occursIn s && (sportsEvent.occursIn s || dateStamp.occursIn s))

/-- Groups that release Japanese animation. -/
def animeGroup : Pattern :=
  literal "[" ++ oneOf (["subsplease", "erai-raws", "horriblesubs", "judas", "ember", "anime-time",
    "nyaa"].map caseless) ++ literal "]"

/-- Words for Japanese animation. -/
def animeKeyword : Pattern :=
  word (oneOf [caseless "anime", caseless "ova", caseless "ona", caseless "vostfr",
    caseless "dual" ++ optional (one .blank) ++ caseless "audio"])

/-- A season with an episode. -/
def seasonEpisode : Pattern :=
  word (caseless "s" ++ digits 1 2 ++ caseless "e" ++ digits 1 3)

/-- A number that may be a running episode number. -/
def episodeNumber : Pattern := word (digits 3 4)

/-- Picture heights, which are no episode numbers. -/
def pictureHeights : List Nat := [480, 540, 576, 720, 1080, 1440, 2160]

/-- Whether a number can be a running episode number: it is neither a picture height nor a year. -/
def isRunningNumber (n : Nat) : Bool :=
  !pictureHeights.contains n && !(1900 ≤ n && n ≤ 2099) && 100 ≤ n

/-- Whether a name looks like Japanese animation: by its group or a keyword, or, unless it is known
to be a movie or has a season, by a running episode number. -/
def isAnime (name : String) (m : Option MediaType) : Bool :=
  let s := name.toList
  animeGroup.occursIn s || animeKeyword.occursIn s ||
    (m != some .movie && !seasonEpisode.occursIn s &&
      ((episodeNumber.findAll s).filterMap fun f => number? f.text).any isRunningNumber)

end Harvest.Release
