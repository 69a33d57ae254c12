import Harvest.Date

/-!
# The remote side of a crawl

A remote keeps a history of commits. It lists the commits of the followed branch, gives the details
of a commit, and hands out files. Every request may fail, and the same request may be answered
differently later: an answer may depend on all requests that were made before it.

## Main definitions

* `FetchError` — why a request fails, with `FetchError.message`
* `CommitSummary`, `ChangedFile`, `CommitDetail` — what is known about commits
* `RemoteCall` — a request
* `Remote` — the answers to requests
* `Remote.IsSteady` — the same request always has the same answer
-/

namespace Harvest

/-- Why a request fails. -/
inductive FetchError where
  /-- The request cannot be made, or its answer cannot be read. -/
  | request (cause : String)
  /-- The answer has another status than is needed. -/
  | status (url : String) (code : Nat)
  /-- The settings do not make a valid request. -/
  | invalid (cause : String)
  deriving DecidableEq, Repr

/-- The wording of an error. -/
def FetchError.message : FetchError → String
  | request cause => "Request error: " ++ cause
  | status url code => "HTTP " ++ toString code ++ " from " ++ url
  | invalid cause => "Invalid response: " ++ cause

/-- One line of a listing. -/
structure CommitSummary where
  /-- The name of the commit. -/
  sha : String
  /-- When the commit was made, if that is known. -/
  date : Option Moment
  deriving DecidableEq, Repr

/-- A file that a commit changes. -/
structure ChangedFile where
  /-- The path of the file. -/
  path : String
  /-- The name of the contents of the file, if that is known. -/
  blob : Option String
  /-- The address at which the file is handed out. -/
  url : String
  deriving DecidableEq, Repr

/-- The details of a commit. -/
structure CommitDetail where
  /-- The name of the commit. -/
  sha : String
  /-- When the commit was made. -/
  date : Moment
  /-- The commits before it; the first one is on the same branch. -/
  parents : List String
  /-- The files that the commit changes. -/
  files : List ChangedFile
  deriving DecidableEq, Repr

/-- The commit before a commit on the same branch. -/
def CommitDetail.firstParent? (d : CommitDetail) : Option String := d.parents.head?

/-- A request. -/
inductive RemoteCall where
  /-- One page of the commits of the branch, the newest first. -/
  | list (perPage page : Nat)
  /-- The details of a commit. -/
  | commit (sha : String)
  /-- The text of a file. -/
  | raw (url : String)
  deriving DecidableEq, Repr

/-- The answers of a remote, which may depend on the requests made before. -/
structure Remote where
  /-- One page of the commits of the branch, the newest first. -/
  list : List RemoteCall → Nat → Nat → Except FetchError (List CommitSummary)
  /-- The details of a commit. -/
  commit : List RemoteCall → String → Except FetchError CommitDetail
  /-- The text of a file. -/
  raw : List RemoteCall → String → Except FetchError String

/-- The same request always has the same answer. -/
def Remote.IsSteady (r : Remote) : Prop :=
  ∀ past past', r.list past = r.list past' ∧ r.commit past = r.commit past' ∧
    r.raw past = r.raw past'

end Harvest
