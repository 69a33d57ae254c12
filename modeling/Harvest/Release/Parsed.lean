import Harvest.Media

/-!
# What a release name tells

## Main definitions

* `ParsedRelease` — the title and the attributes that are read off a release name
* `ParsedRelease.mediaType` — a release with season or episode numbers belongs to a series
-/

namespace Harvest

/-- Properties of a release that are either mentioned or not. -/
structure ReleaseFlags where
  remastered : Bool := false
  upscaled : Bool := false
  proper : Bool := false
  repack : Bool := false
  extended : Bool := false
  complete : Bool := false
  dubbed : Bool := false
  subbed : Bool := false
  deriving DecidableEq, Repr

/-- What a release name tells. -/
structure ParsedRelease where
  /-- The title, with spaces between its words. -/
  title : String := ""
  /-- The year of release. -/
  year : Option Int := none
  /-- The seasons, in increasing order. -/
  seasons : List Nat := []
  /-- The episodes, in increasing order. -/
  episodes : List Nat := []
  /-- The height of the picture. -/
  resolution : Option String := none
  /-- The video coding. -/
  codec : Option String := none
  /-- Where the recording was taken from. -/
  quality : Option String := none
  /-- The depth of a color channel. -/
  bitDepth : Option String := none
  /-- Who made the release. -/
  group : Option String := none
  /-- The audio codings. -/
  audio : List String := []
  /-- The audio channel layouts. -/
  channels : List String := []
  /-- The kinds of extended brightness range. -/
  hdr : List String := []
  /-- The languages. -/
  languages : List String := []
  /-- The flags. -/
  flags : ReleaseFlags := {}
  deriving DecidableEq, Repr

/-- A release with season or episode numbers belongs to a series. -/
def ParsedRelease.mediaType (p : ParsedRelease) : MediaType :=
  if p.seasons.isEmpty && p.episodes.isEmpty then .movie else .series

end Harvest
