import Harvest.Date
import Harvest.Release.Parsed
import Harvest.Snapshot.Entry

/-!
# Stream records

A stream is one entry of a list that has been linked to a title. Its record carries what the release
name tells, and for a series one file per episode.

## Main definitions

* `StreamFile`, `StreamRecord` — what is stored for a stream
* `Stream.files` — the files of a release
* `Stream.record` — the record of an entry

## Main results

* `Stream.files_movie`, `Stream.files_of_no_season` — when there are no files
-/

namespace Harvest

/-- One playable file of a stream. -/
structure StreamFile where
  /-- The place of the file within the stream. -/
  index : Nat
  /-- The name of the file. -/
  filename : String
  /-- What the file holds. -/
  kind : String
  /-- The season. -/
  season : Option Nat
  /-- The episode. -/
  episode : Option Nat
  deriving DecidableEq, Repr

/-- What is stored for a stream. -/
structure StreamRecord where
  /-- The hash of the contents. -/
  infoHash : String
  /-- The external id of the title. -/
  metaId : String
  /-- The release name. -/
  name : String
  /-- The size in bytes. -/
  size : Nat
  /-- Where the stream comes from. -/
  source : String
  resolution : Option String
  codec : Option String
  quality : Option String
  bitDepth : Option String
  group : Option String
  audio : List String
  channels : List String
  hdr : List String
  languages : List String
  flags : ReleaseFlags
  /-- The files. -/
  files : List StreamFile
  /-- When the list was published. -/
  createdAt : Moment
  deriving DecidableEq, Repr

namespace Stream

/-- The name under which streams of these lists are stored. -/
def sourceName : String := "DMM Hashlist"

/-- The file of an episode. -/
def video (filename : String) (season episode : Nat) : StreamFile :=
  ⟨0, filename, "video", some season, some episode⟩

/-- The files of a release: for a series with a season, one for every episode of the first season,
or, if no episode is known, one for every season. -/
def files (filename : String) (p : ParsedRelease) (m : MediaType) : List StreamFile :=
  match p.seasons, m with
  | first :: _, .series =>
    if p.episodes.isEmpty then p.seasons.map fun s => video filename s 1
    else p.episodes.map (video filename first)
  | _, _ => []

@[simp] theorem files_movie (filename : String) (p : ParsedRelease) :
    files filename p .movie = [] := by
  unfold files
  split <;> simp_all

theorem files_of_no_season (filename : String) {p : ParsedRelease} (m : MediaType)
    (h : p.seasons = []) : files filename p m = [] := by
  simp [files, h]

/-- The record of an entry that is linked to a title. -/
def record (e : Entry) (p : ParsedRelease) (metaId : String) (createdAt : Moment)
    (m : MediaType) : StreamRecord where
  infoHash := e.infoHash
  metaId := metaId
  name := e.filename
  size := e.size
  source := sourceName
  resolution := p.resolution
  codec := p.codec
  quality := p.quality
  bitDepth := p.bitDepth
  group := p.group
  audio := p.audio
  channels := p.channels
  hdr := p.hdr
  languages := p.languages
  flags := p.flags
  files := files e.filename p m
  createdAt := createdAt

end Stream

end Harvest
