import Harvest.Crawl.Remote

/-!
# Archives

An archive is a history of commits together with the texts of its files. It answers the requests of
a crawl; some requests may be out of order and fail.

## Main definitions

* `Archive` — a history with its files and outages
* `Archive.push`, `Archive.setText`, `Archive.fail`, `Archive.mend` — changes of an archive
* `Archive.remote` — the archive as a remote

## Main results

* `Archive.remote_isSteady` — an archive that is not changed gives steady answers
-/

namespace Harvest

/-- What may be out of order. -/
inductive Outage where
  /-- The listing of commits. -/
  | listing
  /-- The details of a commit. -/
  | commit (sha : String)
  /-- The text of a file. -/
  | raw (url : String)
  deriving DecidableEq, Repr

/-- A history with its files and outages. -/
structure Archive where
  /-- The commits, the oldest first. -/
  commits : List CommitDetail := []
  /-- The texts of the files by address; the first one with an address counts. -/
  texts : List (String × String) := []
  /-- What is out of order. -/
  outages : List Outage := []
  deriving DecidableEq, Repr

namespace Archive

/-- The archive with one more commit, the newest. -/
def push (a : Archive) (d : CommitDetail) : Archive := { a with commits := a.commits ++ [d] }

/-- The name of the newest commit. -/
def head? (a : Archive) : Option String := a.commits.getLast?.map CommitDetail.sha

/-- The archive with a text at an address. -/
def setText (a : Archive) (url text : String) : Archive :=
  { a with texts := (url, text) :: a.texts }

/-- The archive with something out of order. -/
def fail (a : Archive) (o : Outage) : Archive := { a with outages := a.outages.insert o }

/-- The archive with something in order again. -/
def mend (a : Archive) (o : Outage) : Archive := { a with outages := a.outages.filter (· != o) }

/-- An answer that fails during an outage, and if there is nothing to give. -/
def answer {α : Type} (a : Archive) (o : Outage) (what : String) (found : Option α) :
    Except FetchError α :=
  if o ∈ a.outages then .error (.status what 503)
  else
    match found with
    | some x => .ok x
    | none => .error (.status what 404)

/-- The lines of a page of the listing, the newest commit first. -/
def page (a : Archive) (perPage page : Nat) : List CommitSummary :=
  ((a.commits.reverse.drop ((page - 1) * perPage)).take perPage).map fun d => ⟨d.sha, some d.date⟩

/-- The details of the first commit with a name. -/
def find? (a : Archive) (sha : String) : Option CommitDetail := a.commits.find? (·.sha == sha)

/-- The archive as a remote. -/
def remote (a : Archive) : Remote where
  list _ perPage page := a.answer .listing "commits" (some (a.page perPage page))
  commit _ sha := a.answer (.commit sha) sha (a.find? sha)
  raw _ url := a.answer (.raw url) url (a.texts.lookup url)

/-- An archive that is not changed gives steady answers. -/
theorem remote_isSteady (a : Archive) : a.remote.IsSteady := fun _ _ => ⟨rfl, rfl, rfl⟩

end Archive

end Harvest
