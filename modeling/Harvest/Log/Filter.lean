import Harvest.Text.Category
import Harvest.Text.LowerCase

/-!
# Log filters

A log filter is a list of directives with commas between them. A directive is a level, or it names a
part of the program, or a span of its work in square brackets, possibly with a level behind an equals
sign.

## Main definitions

* `Log.isLevel` — the names and numbers of levels
* `Log.isDirective` — the texts of directives
* `Log.isFilter` — the texts of filters
-/

namespace Harvest.Log

/-- The names of levels. -/
def levelNames : List String := ["trace", "debug", "info", "warn", "error", "off"]

/-- Whether a text is the number of a level, from zero to five. -/
def isLevelNumber (s : List Char) : Bool :=
  let digits := match s with
    | '+' :: digits => digits
    | _ => s
  match digits.reverse with
  | [] => false
  | last :: zeros => '0' ≤ last && last ≤ '5' && zeros.all (· == '0')

/-- Whether a text is a level. -/
def isLevel (s : List Char) : Bool :=
  levelNames.contains (String.ofList (Text.asciiLower s)) || isLevelNumber s

/-- Whether a text may stand behind a name or a span: nothing, or an equals sign and possibly a
level. -/
def isEnd : List Char → Bool
  | [] => true
  | '=' :: level => level.isEmpty || isLevel level
  | _ => false

/-- Whether a text may stand behind the opening bracket of a span, which may have fields in
braces. -/
def isSpan (s : List Char) : Bool :=
  match s.dropWhile fun c => c != ']' && c != '{' with
  | ']' :: rest => isEnd rest
  | '{' :: rest =>
    match rest.dropWhile (· != '}') with
    | '}' :: ']' :: rest => isEnd rest
    | _ => false
  | _ => false

/-- Whether a name may begin with a character. -/
def startsName (c : Char) : Bool :=
  c == '-' || c == ':' || c == '_' || Text.isAlphanumeric c

/-- Whether a text is a directive. -/
def isDirective (s : List Char) : Bool :=
  match Text.trim s with
  | [] => false
  | '[' :: rest => isSpan rest
  | c :: rest =>
    startsName c &&
      match rest.dropWhile fun c => c != '=' && c != '[' with
      | '[' :: rest => isSpan rest
      | rest => isEnd rest

/-- Whether a text is a filter. -/
def isFilter (s : String) : Bool :=
  ((s.toList.splitOnP (· == ',')).filter (!·.isEmpty)).all isDirective

end Harvest.Log
