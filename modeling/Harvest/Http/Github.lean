import Harvest.Config.Settings
import Harvest.Http.Exchange

/-!
# A history at GitHub

The history of a branch is asked for through the programming interface of GitHub. Of its replies
only the fields that matter are read; they may be missing.

## Main definitions

* `GithubSettings` — the repository, and how to ask for it
* `GithubClient`, `GithubSettings.client?` — a client with valid settings
* `GithubClient.listCommits`, `GithubClient.getCommit`, `GithubClient.fetchRaw` — requests
* `GithubClient.remote` — the repository as the remote side of a crawl
-/

namespace Harvest

open Http

/-- The repository, and how to ask for it. -/
structure GithubSettings where
  /-- The address of the interface, without slashes at its end. -/
  apiBase : String
  /-- The address of the files, without slashes at its end. -/
  rawBase : String
  owner : String
  repo : String
  branch : String
  userAgent : String
  token : Option String
  deriving DecidableEq, Repr

namespace GithubSettings

/-- A text without slashes at its end. -/
def withoutSlashes (s : String) : String :=
  String.ofList (s.toList.reverse.dropWhile (· == '/')).reverse

/-- The repository of the settings of the program. An empty token counts as none. -/
def ofSource (s : SourceSettings) : GithubSettings where
  apiBase := withoutSlashes s.apiBaseUrl
  rawBase := withoutSlashes s.rawBaseUrl
  owner := s.owner
  repo := s.repo
  branch := s.branch
  userAgent := s.userAgent
  token := s.apiToken.filter (!·.isEmpty)

/-- The address of the list of commits. -/
def commitsUrl (s : GithubSettings) : String :=
  s.apiBase ++ "/repos/" ++ s.owner ++ "/" ++ s.repo ++ "/commits"

/-- The address of a file on the branch. -/
def rawUrl (s : GithubSettings) (path : String) : String :=
  s.rawBase ++ "/" ++ s.owner ++ "/" ++ s.repo ++ "/" ++ s.branch ++ "/" ++ path

end GithubSettings

/-- A client for a repository. -/
structure GithubClient where
  settings : GithubSettings
  transport : Transport

/-- A client, if the settings can stand in the head of a request. -/
def GithubSettings.client? (s : GithubSettings) (transport : Transport) :
    Except FetchError GithubClient :=
  if !(s.token.all isHeaderValue) then
    .error (.invalid "invalid api token: failed to parse header value")
  else if !isHeaderValue s.userAgent then .error (.request "builder error")
  else .ok ⟨s, transport⟩

/-! ### Replies -/

namespace GithubReply

/-- The date of a commit, three levels below the commit. -/
def date? (w : Json.Written) : Option (Option Moment) :=
  let inside {α : Type} (name : String) (read : Json.Written → Option (Option α))
      (w : Json.Written) : Option (Option α) :=
    match w with
    | .null => some none
    | w => do (← w.fields? [name] 1).read? name none read
  inside "author" (inside "date" fun w =>
    w.optionalString?.map fun d => d.bind Moment.parse?) w

/-- A text that is not empty. -/
def name? (f : Json.Fields) (key : String) : Option (Option String) :=
  (f.optionalString? key).map (·.filter (!·.isEmpty))

/-- The fields of a commit. -/
def commitFields : List String := ["sha", "commit", "parents", "files"]

/-- A commit with its fields: its name, its date, its parents and its files, the latter as they are
written. -/
structure Commit where
  sha : Option String
  date : Option Moment
  parents : List String
  files : List (String × Option String × Option String)

/-- A parent of a commit. -/
def parent? (w : Json.Written) : Option (Option String) := do name? (← w.fields? ["sha"] 1) "sha"

/-- A file of a commit: its path, the name of its contents, and its address. -/
def file? (w : Json.Written) : Option (Option (String × Option String × Option String)) := do
  let f ← w.fields? ["filename", "sha", "raw_url"] 3
  let path ← f.optionalString? "filename"
  let blob ← name? f "sha"
  let url ← name? f "raw_url"
  return path.map fun path => (path, blob, url)

/-- A commit. -/
def commit? (w : Json.Written) : Option Commit := do
  let f ← w.fields? commitFields 1
  return {
    sha := ← f.optionalString? "sha"
    date := ← f.read? "commit" none date?
    parents := (← f.list? "parents" parent?).filterMap id
    files := (← f.list? "files" file?).filterMap id }

end GithubReply

/-! ### Requests -/

namespace GithubClient

variable (c : GithubClient)

/-- The reply to a request, if its status is the one for success. -/
def checked (url : String) (query : List (String × String)) : Except FetchError Reply := do
  let r ← get c.transport url query fun a => {
    address := a
    accept := "application/vnd.github+json"
    authorization := c.settings.token.map ("Bearer " ++ ·)
    userAgent := c.settings.userAgent }
  if r.status = 200 then return r else throw (.status url r.status)

/-- One page of the commits of the branch. Commits without a name are left out. -/
def listCommits (perPage page : Nat) : Except FetchError (List CommitSummary) := do
  let r ← c.checked c.settings.commitsUrl
    [("sha", c.settings.branch), ("per_page", toString perPage), ("page", toString page)]
  let commits ← r.read (Json.Written.list? GithubReply.commit?)
  return commits.filterMap fun d => (d.sha.filter (!·.isEmpty)).map fun sha => ⟨sha, d.date⟩

/-- The details of a commit; a missing date is replaced by `now`. -/
def getCommit (now : Moment) (sha : String) : Except FetchError CommitDetail := do
  let r ← c.checked (c.settings.commitsUrl ++ "/" ++ sha) []
  let d ← r.read GithubReply.commit?
  return {
    sha := d.sha.getD sha
    date := d.date.getD now
    parents := d.parents
    files := d.files.map fun (path, blob, url) =>
      ⟨path, blob, url.getD (c.settings.rawUrl path)⟩ }

/-- The text at an address, without a mark of the byte order at its beginning. -/
def fetchRaw (url : String) : Except FetchError String := do
  let r ← c.checked url []
  match r.body.toList with
  | '\ufeff' :: s => return String.ofList s
  | _ => return r.body

/-- The repository as the remote side of a crawl. -/
def remote (now : Moment) : Remote where
  list _ perPage page := c.listCommits perPage page
  commit _ sha := c.getCommit now sha
  raw _ url := c.fetchRaw url

/-- A repository whose replies do not change gives steady answers. -/
theorem remote_isSteady (now : Moment) : (c.remote now).IsSteady := fun _ _ => ⟨rfl, rfl, rfl⟩

end GithubClient

end Harvest
