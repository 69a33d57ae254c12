import Harvest.Text.LowerCase
import Harvest.Text.Substring

/-!
# Web addresses

An address has a scheme, a host, a path and possibly a query. Characters that may not stand in a
path or a query are written as the bytes of their UTF-8 form, two hexadecimal digits each behind a
percent sign.

## Main definitions

* `Http.percent` — a byte behind a percent sign
* `Http.formEncode`, `Http.formQuery` — names and values of a query
* `Http.Address`, `Http.Address.ofString?` — addresses
* `Http.Address.withQuery` — an address with more in its query
-/

namespace Harvest.Http

/-- A hexadecimal digit in upper case. -/
def hexDigit (n : Nat) : Char := (Nat.digitChar n).toUpper

/-- A byte behind a percent sign. -/
def percent (b : UInt8) : List Char := ['%', hexDigit (b.toNat / 16), hexDigit (b.toNat % 16)]

/-- The bytes of a character behind percent signs. -/
def percentChar (c : Char) : List Char := (String.utf8EncodeChar c).flatMap percent

/-- A character of a name or value of a query. -/
def formChar (c : Char) : List Char :=
  if c == ' ' then ['+']
  else if c.isAlphanum || c == '*' || c == '-' || c == '.' || c == '_' then [c]
  else percentChar c

/-- A name or value of a query. -/
def formEncode (s : String) : String := String.ofList (s.toList.flatMap formChar)

/-- Names and values as a query. -/
def formQuery (parts : List (String × String)) : String :=
  "&".intercalate (parts.map fun (k, v) => formEncode k ++ "=" ++ formEncode v)

/-- Whether a character is a visible ASCII character, but none of those that are special. -/
def isVisible (special : List Char) (c : Char) : Bool :=
  0x20 < c.toNat && c.toNat < 0x7f && !special.contains c

/-- Whether a character may stand in a query as itself. -/
def isQueryChar : Char → Bool := isVisible ['"', '#', '<', '>', '\'']

/-- Whether a character may stand in a path as itself. -/
def isPathChar : Char → Bool := isVisible ['"', '#', '<', '>', '?', '`', '{', '}']

/-- The characters of a part of an address. -/
def encode (isFree : Char → Bool) (s : List Char) : List Char :=
  s.flatMap fun c => if isFree c then [c] else percentChar c

/-- An address. -/
structure Address where
  /-- How the host is spoken to. -/
  scheme : String
  /-- The host, possibly with a port. -/
  host : String
  /-- The path, with a slash in front. -/
  path : String
  /-- The query. -/
  query : Option String
  deriving DecidableEq, Repr

namespace Address

/-- The steps of a path: a dot is no step, and two dots undo the last step, except that the last
step of a path may be empty. -/
def steps (done : List (List Char)) : List (List Char) → List (List Char)
  | [] => done.reverse
  | part :: rest =>
    let plain := Text.asciiLower part
    let isDot (s : List Char) : Bool := s == ['.'] || s == ['%', '2', 'e']
    let isUp := plain == ['.', '.'] || plain == ['.', '%', '2', 'e'] ||
      plain == ['%', '2', 'e', '.'] || plain == ['%', '2', 'e', '%', '2', 'e']
    if isUp then
      if rest.isEmpty then ([] :: done.tail).reverse else steps done.tail rest
    else if isDot plain then
      if rest.isEmpty then ([] :: done).reverse else steps done rest
    else steps (encode isPathChar part :: done) rest

/-- A path in its plain form. -/
def normalPath (s : List Char) : String :=
  let parts := (s.splitOnP fun c => c == '/' || c == '\\').tail
  String.ofList ((steps [] parts).flatMap fun part => '/' :: part)

/-- The visible ASCII characters that may not stand in a host. -/
def hostSpecials : List Char := ['<', '>', '^', '|', '%', '@', '"', '`', '{', '}']

/-- Whether a character may stand in a host with a port. -/
def isHostChar (c : Char) : Bool :=
  0x20 < c.toNat && c.toNat != 0x7f && !hostSpecials.contains c

/-- The text after a scheme, which has letters of either case and a colon behind it. -/
def afterScheme? (scheme : String) (s : List Char) : Option (List Char) :=
  let start := scheme.toList ++ [':']
  if start.isPrefixOf (Text.asciiLower s) then some (s.drop start.length) else none

/-- Whether a character ends the host. -/
def endsHost (c : Char) : Bool := c == '/' || c == '\\' || c == '?' || c == '#'

/-- The address after a scheme. -/
def ofRest? (scheme : String) (s : List Char) : Option Address :=
  let s := s.dropWhile fun c => c == '/' || c == '\\'
  let host := s.takeWhile (!endsHost ·)
  let rest := (s.dropWhile (!endsHost ·)).takeWhile (· != '#')
  let path := rest.takeWhile (· != '?')
  if host.isEmpty || !host.all isHostChar then none
  else some {
    scheme := scheme
    host := String.ofList (Text.asciiLower host)
    path := if path.isEmpty then "/" else normalPath path
    query :=
      match rest.dropWhile (· != '?') with
      | _ :: q => some (String.ofList (encode isQueryChar q))
      | [] => none }

/-- The address that a text stands for; blanks around it and ends of lines within it do not
count. -/
def ofString? (text : String) : Option Address :=
  let isEdge (c : Char) : Bool := c.toNat ≤ 0x20
  let s := ((text.toList.dropWhile isEdge).reverse.dropWhile isEdge).reverse
  let s := s.filter fun c => c != '\t' && c != '\n' && c != '\r'
  match afterScheme? "http" s, afterScheme? "https" s with
  | some rest, _ => ofRest? "http" rest
  | none, some rest => ofRest? "https" rest
  | none, none => none

/-- An address with more in its query. -/
def withQuery (a : Address) (parts : List (String × String)) : Address :=
  if parts.isEmpty then { a with query := a.query.filter (!·.isEmpty) }
  else
    match a.query.filter (!·.isEmpty) with
    | some q => { a with query := some (q ++ "&" ++ formQuery parts) }
    | none => { a with query := some (formQuery parts) }

end Address

end Harvest.Http
