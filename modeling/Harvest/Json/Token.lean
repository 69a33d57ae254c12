import Harvest.Json.Written

/-!
# Tokens of JSON texts

The characters of a JSON text fall into tokens: brackets, separators, words, numbers and strings,
with blanks between them. The reader below takes one character at a time.

## Main definitions

* `Json.Token` — the tokens
* `Json.Lexer` — the tokens read so far and the unfinished one
* `Json.tokens?` — all tokens of a text
-/

namespace Harvest.Json

/-- A token of a JSON text. -/
inductive Token where
  | openArray
  | closeArray
  | openObject
  | closeObject
  | comma
  | colon
  | null
  | bool (b : Bool)
  | number (t : NumberText)
  | string (t : StringText)
  deriving DecidableEq

/-- The token that is being read. -/
inductive Unfinished where
  /-- None: the reader stands between tokens. -/
  | none
  /-- A word, latest letter first. -/
  | word (letters : List Char)
  /-- A number, latest character first. -/
  | number (chars : List Char)
  /-- A string, latest piece first. -/
  | string (pieces : List Piece)
  /-- A string, after a backslash. -/
  | escape (pieces : List Piece)
  /-- A string, inside the number of a unit of which `n` digits with value `u` are read. -/
  | unit (pieces : List Piece) (n u : Nat)

/-- The tokens read so far, latest first, and the one that is being read. -/
structure Lexer where
  /-- The finished tokens, latest first. -/
  tokens : List Token
  /-- The unfinished token. -/
  unfinished : Unfinished

/-- Whether a character separates tokens without meaning anything. -/
def isSpace (c : Char) : Bool := c == ' ' || c == '\n' || c == '\t' || c == '\r'

/-- Whether a character can belong to a number. -/
def isNumberChar (c : Char) : Bool :=
  c.isDigit || c == '-' || c == '+' || c == '.' || c == 'e' || c == 'E'

/-- The token of a word. -/
def wordToken? (letters : List Char) : Option Token :=
  if letters = ['n', 'u', 'l', 'l'] then some .null
  else if letters = ['t', 'r', 'u', 'e'] then some (.bool true)
  else if letters = ['f', 'a', 'l', 's', 'e'] then some (.bool false)
  else none

/-- The value of a hexadecimal digit in either case. -/
def hexValue? (c : Char) : Option Nat :=
  if c.isDigit then some (digitValue c)
  else if 'a' ≤ c ∧ c ≤ 'f' then some (c.toNat - 'a'.toNat + 10)
  else if 'A' ≤ c ∧ c ≤ 'F' then some (c.toNat - 'A'.toNat + 10)
  else none

/-- The character of a short escape. -/
def escaped? : Char → Option Char
  | '"' => some '"'
  | '\\' => some '\\'
  | '/' => some '/'
  | 'b' => some (Char.ofNat 8)
  | 'f' => some (Char.ofNat 12)
  | 'n' => some '\n'
  | 'r' => some '\r'
  | 't' => some '\t'
  | _ => none

namespace Lexer

/-- The reader before the first character. -/
def start : Lexer := ⟨[], .none⟩

/-- The reader after a character that begins a token or stands between tokens. -/
def begin? (ts : List Token) (c : Char) : Option Lexer :=
  if isSpace c then some ⟨ts, .none⟩
  else if c == '[' then some ⟨.openArray :: ts, .none⟩
  else if c == ']' then some ⟨.closeArray :: ts, .none⟩
  else if c.toNat == 0x7B then some ⟨.openObject :: ts, .none⟩
  else if c.toNat == 0x7D then some ⟨.closeObject :: ts, .none⟩
  else if c == ',' then some ⟨.comma :: ts, .none⟩
  else if c == ':' then some ⟨.colon :: ts, .none⟩
  else if c == '"' then some ⟨ts, .string []⟩
  else if c == '-' || c.isDigit then some ⟨ts, .number [c]⟩
  else if c.isLower then some ⟨ts, .word [c]⟩
  else none

/-- The tokens after the unfinished one has ended, if it can end here. -/
def finish? (l : Lexer) : Option (List Token) :=
  match l.unfinished with
  | .none => some l.tokens
  | .word letters => (wordToken? letters.reverse).map (· :: l.tokens)
  | .number chars => (NumberText.ofChars? chars.reverse).map fun t => .number t :: l.tokens
  | _ => none

/-- The reader after one more character. -/
def step? (l : Lexer) (c : Char) : Option Lexer :=
  match l.unfinished with
  | .none => begin? l.tokens c
  | .word letters =>
    if c.isLower then some ⟨l.tokens, .word (c :: letters)⟩ else l.finish?.bind (begin? · c)
  | .number chars =>
    if isNumberChar c then some ⟨l.tokens, .number (c :: chars)⟩ else l.finish?.bind (begin? · c)
  | .string pieces =>
    if c == '"' then some ⟨.string pieces.reverse :: l.tokens, .none⟩
    else if c == '\\' then some ⟨l.tokens, .escape pieces⟩
    else if c.toNat < 0x20 then none
    else some ⟨l.tokens, .string (.char c :: pieces)⟩
  | .escape pieces =>
    if c == 'u' then some ⟨l.tokens, .unit pieces 0 0⟩
    else (escaped? c).map fun d => ⟨l.tokens, .string (.char d :: pieces)⟩
  | .unit pieces n u =>
    (hexValue? c).map fun d =>
      if n = 3 then ⟨l.tokens, .string (.unit (u * 16 + d) :: pieces)⟩
      else ⟨l.tokens, .unit pieces (n + 1) (u * 16 + d)⟩

end Lexer

/-- All tokens of a text, if it consists of tokens. -/
def tokens? (s : List Char) : Option (List Token) :=
  ((s.foldlM Lexer.step? Lexer.start).bind Lexer.finish?).map List.reverse

end Harvest.Json
