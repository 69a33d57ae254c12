import Harvest.Proofs.Crawl.History
import Harvest.Store.Schema

/-!
# A crawl beside a growing history

A world is an archive together with the crawl that follows it. The archive grows at its head, and
passes and runs change the crawl; each of them has a remote of its own, which may fail wherever it
likes but tells nothing wrong. Two records are kept that nothing reads but statements about worlds:
the head at which the way back began without a mark, and the commits that an incremental pass ought
to have listed and has not.

## Main definitions

* `World` — an archive, a crawl, and the two records
* `World.due` — the commits that an incremental pass ought to list
* `World.push`, `World.incremental`, `World.backfill`, `World.run` — what can happen
* `World.Reachable` — what can become of a crawl that starts from nothing

## Main results

* `World.crawl_run` — a run in a world is a run of the crawl
* `World.incrementalRun`, `World.backfillRun` — the ways in which a pass in a world ends with a value
* `World.Reachable.run` — a run is made of what can happen
-/

namespace Harvest

open CrawlStep

/-- An archive and the crawl that follows it. -/
structure World where
  archive : Archive
  crawl : Crawl
  /-- The newest commit when a backfill pass last began with nothing stored. -/
  anchor : Option String := none
  /-- The commits that were due and did not stand on the page of an incremental pass. -/
  leftOut : List String := []

/-- Nothing has been crawled: the positions and the set of blobs are empty. -/
structure Crawl.IsFresh (s : Crawl) : Prop where
  positions : s.db.positions = some {}
  blobs : s.db.blobs = some []
  calls : s.calls = []
  events : s.events = []

namespace World

variable {σ : CrawlSettings}

/-- Where the crawl stands. -/
def checkpoint (w : World) : Checkpoint := w.crawl.db.load.toOption.getD {}

theorem checkpoint_of_positions {w : World} {p : Positions} (hp : w.crawl.db.positions = some p) :
    w.checkpoint = p.checkpoint := by
  simp only [checkpoint, Database.load, hp]
  rfl

/-- The commits that an incremental pass ought to list: those newer than the mark; without a mark,
but with a position on the way back, those from the anchor of the way back on upward. -/
def due (w : World) : List String :=
  match w.checkpoint.latest, w.checkpoint.next, w.anchor with
  | some mark, _, _ => w.archive.after mark
  | none, .unset, _ => []
  | none, _, some anchor => w.archive.since anchor
  | none, _, none => []

/-- The commits that are due and do not stand on the page of an incremental pass. A pass that gets
no page leaves out nothing. -/
def leaves (w : World) (c : Crawler) (limit : Nat) : List String :=
  if limit = 0 then []
  else
    match c.remote.list w.crawl.calls (c.perPage limit) 1 with
    | .error _ => []
    | .ok page => w.due.filter fun sha => sha ∉ page.map CommitSummary.sha

/-- A commit is pushed. -/
def push (w : World) (d : CommitDetail) : World := { w with archive := w.archive.push d }

/-- The crawl goes on with other remembered resolutions. -/
def withCache (w : World) (cache : ResolutionCache) : World :=
  { w with crawl := { w.crawl with cache := cache } }

/-- An incremental pass is made. -/
def incremental (w : World) (c : Crawler) (limit : Nat) : World :=
  { w with
    crawl := (c.incremental limit w.crawl).2
    leftOut := w.leftOut ++ w.leaves c limit }

/-- A backfill pass is made. -/
def backfill (w : World) (c : Crawler) (limit : Nat) : World :=
  { w with
    crawl := (c.backfill limit w.crawl).2
    anchor := if w.checkpoint = {} then w.archive.head? else w.anchor }

/-- A run is made; its second pass is made only if the first has not failed. -/
def run (w : World) (c : Crawler) (limits : PassLimits) : World :=
  let w' := w.withCache {}
  let caughtUp := w'.incremental c limits.incremental
  match (c.incremental limits.incremental w'.crawl).1 with
  | .ok _ => (caughtUp.backfill c limits.backfill).withCache w.crawl.cache
  | .error _ => caughtUp.withCache w.crawl.cache

/-- A run in a world is a run of the crawl. -/
theorem crawl_run (w : World) (c : Crawler) (limits : PassLimits) :
    (w.run c limits).crawl = (c.run limits w.crawl).2 := by
  unfold run Crawler.run CrawlStep.withFreshCache
  simp only [bind_run, CrawlStep.during]
  cases h : c.incremental limits.incremental (w.withCache {}).crawl with
  | mk r t =>
    have h' : c.incremental limits.incremental { w.crawl with cache := {} } = (r, t) := h
    cases r with
    | error e => simp [h', withCache, incremental]
    | ok stats =>
      cases hb : c.backfill limits.backfill t with
      | mk r u => cases r <;> simp [h', hb, withCache, incremental, backfill]

/-! ### How a pass ends -/

section Passes

variable {w : World} {c : Crawler} {limit : Nat} {stats : PassStats} {e : CrawlError}

/-- An incremental pass that ends with a value does so in one of its ways. -/
theorem incrementalRun (h : (c.incremental limit w.crawl).1 = .ok stats) :
    Crawler.IncrementalRun c limit w.crawl stats (w.incremental c limit).crawl :=
  Crawler.incrementalRun_of_incremental (Prod.ext h rfl)

theorem extends_incremental (h : (c.incremental limit w.crawl).1 = .error e) :
    Crawl.Extends w.crawl (w.incremental c limit).crawl :=
  Crawler.incremental_error (Prod.ext h rfl)

/-- A backfill pass that ends with a value does so in one of its ways. -/
theorem backfillRun (h : (c.backfill limit w.crawl).1 = .ok stats) :
    Crawler.BackfillRun c limit w.crawl stats (w.backfill c limit).crawl :=
  Crawler.backfillRun_of_backfill (Prod.ext h rfl)

theorem extends_backfill (h : (c.backfill limit w.crawl).1 = .error e) :
    Crawl.Extends w.crawl (w.backfill c limit).crawl :=
  Crawler.backfill_error (Prod.ext h rfl)

end Passes

/-- What can become of a crawl that starts from nothing while its history grows at the head. The
passes may have any limits, remotes and searches, but all have the same settings. -/
inductive Reachable (σ : CrawlSettings) : World → Prop
  | start {a : Archive} {s : Crawl} (ha : a.IsLinear) (hs : s.IsFresh) : Reachable σ ⟨a, s, none, []⟩
  | push {w : World} {d : CommitDetail} (hw : Reachable σ w) (hd : (w.archive.push d).IsLinear) :
      Reachable σ (w.push d)
  | withCache {w : World} (hw : Reachable σ w) (cache : ResolutionCache) :
      Reachable σ (w.withCache cache)
  | incremental {w : World} {c : Crawler} (hw : Reachable σ w) (hσ : c.settings = σ)
      (hc : c.remote.Follows w.archive) (limit : Nat) : Reachable σ (w.incremental c limit)
  | backfill {w : World} {c : Crawler} (hw : Reachable σ w) (hσ : c.settings = σ)
      (hc : c.remote.Follows w.archive) (limit : Nat) : Reachable σ (w.backfill c limit)

/-- A run is made of what can happen. -/
theorem Reachable.run {w : World} {c : Crawler} {limits : PassLimits} (hw : Reachable σ w)
    (hσ : c.settings = σ) (hc : c.remote.Follows w.archive) : Reachable σ (w.run c limits) := by
  have hcaughtUp := (hw.withCache {}).incremental hσ hc limits.incremental
  unfold World.run
  simp only
  split
  · exact (hcaughtUp.backfill hσ hc limits.backfill).withCache w.crawl.cache
  · exact hcaughtUp.withCache w.crawl.cache

/-! ### Small worlds -/

/-- A crawl from nothing, beside an archive. -/
def fresh (a : Archive) : World := ⟨a, { db := { positions := some {}, blobs := some [] } }, none, []⟩

theorem reachable_fresh {a : Archive} (ha : a.IsLinear) : Reachable σ (fresh a) :=
  .start ha ⟨rfl, rfl, rfl, rfl⟩

end World

/-- A commit that changes one snapshot. -/
def CommitDetail.small (sha : String) (parents : List String) : CommitDetail :=
  ⟨sha, .reference, parents, [⟨"list.html", some (sha ++ "-blob"), "raw/" ++ sha⟩]⟩

/-- A crawler that asks an archive, and finds no titles. -/
def Crawler.small (a : Archive) : Crawler where
  remote := a.remote
  search _ _ := .found []

theorem Crawler.follows_small (a : Archive) : (small a).remote.Follows a :=
  a.remote_follows a.outages

/-- A history of one commit, and the texts of all snapshots to come. -/
def Archive.root : Archive where
  commits := [.small "a" []]
  texts := ["a", "b", "c", "d"].map fun sha => ("raw/" ++ sha, "")

theorem Archive.isLinear_root : Archive.root.IsLinear where
  root d hd := by cases hd; rfl
  parent k d e _ he := by cases he
  nodup := List.nodup_singleton _
  proper sha hsha := by
    rw [List.mem_singleton.mp hsha]
    decide

/-- A linear history of three commits. -/
def Archive.small : Archive := (root.push (.small "b" ["a"])).push (.small "c" ["b"])

theorem Archive.isLinear_small : Archive.small.IsLinear :=
  (isLinear_root.push (d := .small "b" ["a"]) rfl (by decide) (by decide)).push
    (d := .small "c" ["b"]) rfl (by decide) (by decide)

/-- A packed list of one entry. -/
def Snapshot.smallPayload : String :=
  "NobwRAZglgNgpgOwIYFs5gFxgBJyQFzABowALJAZ1MzCTvocaeZYbAF8BdIA"

/-- A page with that list. -/
def Snapshot.smallPage : String :=
  "<iframe src=\"https://debridmediamanager.com/hashlist#" ++ smallPayload ++ "\"></iframe>"

/-- Two commits that change snapshots with the same list. -/
def Archive.listed : Archive where
  commits := [.small "a" [], .small "b" ["a"]]
  texts := [("raw/a", Snapshot.smallPage), ("raw/b", Snapshot.smallPage)]

/-- The title in the list. -/
def MediaTable.small : MediaTable where
  rows := [⟨1, some "tt1", "Heat", none, none, "movie", false, none, none, "[]", none, none, none⟩]
  lastId := 1

/-- A crawl that begins with a new database and that title. -/
def Crawl.titled : Crawl where
  db := { Database.fresh with media := some .small }

/-- A crawler that asks for the two commits. -/
def Crawler.listed : Crawler := small .listed

end Harvest
