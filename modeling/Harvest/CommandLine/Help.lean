import Harvest.CommandLine.Command

/-!
# Help

## Main definitions

* `CommandLine.version` — the name and the version of the program
* `HelpTopic.text` — what help says about a topic
-/

namespace Harvest

namespace CommandLine

/-- The name of the program. -/
def programName : String := "hashlist-ingest"

/-- The name and the version of the program. -/
def version : String := programName ++ " 1.0.0\n"

/-- Lines with an end of line behind each. -/
def lines (ls : List String) : String := String.join (ls.map (· ++ "\n"))

end CommandLine

namespace HelpTopic

open CommandLine

/-- What help says about the program. -/
def programText (folder : Option String) : String :=
  lines [
    "Harvests torrent hashlists from a Git-hosted feed into a local stream store",
    "",
    "Usage: hashlist-ingest [OPTIONS] <COMMAND>",
    "",
    "Commands:",
    "  run     One incremental pass followed by one backfill pass",
    "  full    Repeat runs until backfill completes or progress stops",
    "  status  Print the crawl state and processed blob count",
    "  reset   Clear cursors and processed blobs",
    "  help    Print this message or the help of the given subcommand(s)",
    "",
    "Options:",
    "      --config-dir <CONFIG_DIR>  Directory holding config.toml [env: HASHLIST_CONFIG_DIR=" ++
      folder.getD "" ++ "] [default: ./config]",
    "  -h, --help                     Print help",
    "  -V, --version                  Print version"]

/-- What help says about a command without options. -/
def plainText (name about : String) : String :=
  lines [about, "", "Usage: hashlist-ingest " ++ name, "", "Options:", "  -h, --help  Print help"]

/-- What help says about a full ingestion. -/
def fullText : String :=
  lines [
    "Repeat runs until backfill completes or progress stops",
    "",
    "Usage: hashlist-ingest full [OPTIONS]",
    "",
    "Options:",
    "      --max-iterations <MAX_ITERATIONS>",
    "          ",
    "      --incremental-commits <INCREMENTAL_COMMITS>",
    "          ",
    "      --backfill-commits <BACKFILL_COMMITS>",
    "          ",
    "      --reset-checkpoints",
    "          Clear cursors and processed blobs before starting",
    "  -h, --help",
    "          Print help"]

/-- What help says about itself. -/
def helpText : String :=
  lines [
    "Print this message or the help of the given subcommand(s)",
    "",
    "Usage: hashlist-ingest help [COMMAND]...",
    "",
    "Arguments:",
    "  [COMMAND]...  Print help for the subcommand(s)"]

/-- What help says about a topic. -/
def text : HelpTopic → String
  | program folder => programText folder
  | run => plainText "run" "One incremental pass followed by one backfill pass"
  | full => fullText
  | status => plainText "status" "Print the crawl state and processed blob count"
  | reset => plainText "reset" "Clear cursors and processed blobs"
  | help => helpText

end HelpTopic

end Harvest
