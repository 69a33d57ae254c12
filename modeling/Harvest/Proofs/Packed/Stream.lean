import Harvest.Packed.Unpack
import Harvest.Proofs.Packed.Bits

/-!
# Streams of tokens

Packed text carries a stream of tokens that begins with a unit written out. This is the format as
somebody who writes it has to know it: which references are possible, how wide a code is, how the
tokens are laid out as bits and as characters, and which units they stand for. Nothing here reads.

## Main definitions

* `Token.Fits`, `TokenStream` — which tokens may follow each other
* `Packed.codeWidth` — the width of a code, given the size of the dictionary
* `TokenStream.bits`, `TokenStream.chars` — a stream as bits and as characters
* `TokenStream.units` — the units that a stream stands for

## Main results

* `TokenStream.codeWidth_lt` — in a text of at most 2 ^ 29 characters no code takes 32 bits
-/

namespace Harvest

namespace Token

/-- The unit that is written out. -/
def unit? : Token → Option Nat
  | byte u | wide u => some u
  | reference _ | stop => none

/-- Whether the token may come when the dictionary has a certain size. -/
def Fits (size : Nat) : Token → Prop
  | byte u => u < 256
  | wide u => u < 65536
  | reference code => 3 ≤ code ∧ code ≤ size
  | stop => False

/-- What a token that is not the first adds to the dictionary by itself. -/
def learned (t : Token) : List (List Nat) := t.unit?.toList.map fun u => [u]

/-- By how much a token that is not the first lengthens the dictionary. -/
def growth (t : Token) : Nat := t.learned.length + 1

/-- The units that a token stands for. A code that has no meaning yet stands for the units before it,
followed by the first of them. -/
def expansion (dictionary : List (List Nat)) (previous : List Nat) : Token → List Nat
  | byte u | wide u => [u]
  | reference code => dictionary.getD code (previous ++ previous.take 1)
  | stop => []

/-- The bits of a token, when codes have a certain width. -/
def bits (width : Nat) : Token → List Bool
  | byte u => Packed.lowBits width 0 ++ Packed.lowBits 8 u
  | wide u => Packed.lowBits width 1 ++ Packed.lowBits 16 u
  | reference code => Packed.lowBits width code
  | stop => Packed.lowBits width 2

/-- A token has at least the bits of its code. -/
theorem le_length_bits (t : Token) (width : Nat) : width ≤ (t.bits width).length := by
  cases t <;> simp [bits]

end Token

namespace Packed

/-- The number of bits of a code: as many as the size of the dictionary has. -/
def codeWidth (size : Nat) : Nat := size.log2 + 1

/-- The tokens may come one after the other when the dictionary has a certain size. -/
inductive Following : Nat → List Token → Prop
  | nil {size : Nat} : Following size []
  | cons {size : Nat} {t : Token} {ts : List Token} (ht : t.Fits size)
      (hts : Following (size + t.growth) ts) : Following size (t :: ts)

/-- The bits of tokens that are not the first, and of the mark that ends them. -/
def followingBits : Nat → List Token → List Bool
  | size, [] => Token.stop.bits (codeWidth size)
  | size, t :: ts => t.bits (codeWidth size) ++ followingBits (size + t.growth) ts

/-- What tokens that are not the first stand for, one after the other. -/
def expansions : List (List Nat) → List Nat → List Token → List (List Nat)
  | _, _, [] => []
  | dictionary, previous, t :: ts =>
    let e := t.expansion dictionary previous
    e :: expansions (dictionary ++ t.learned ++ [previous ++ e.take 1]) e ts

end Packed

/-- A stream of tokens that begins with a unit written out. -/
structure TokenStream where
  first : Token
  rest : List Token
  literal : first.unit?.isSome
  fits : first.Fits 3
  following : Packed.Following 4 rest

namespace TokenStream

/-- The bits of a stream. The code of the first token is two bits wide. -/
def bits (s : TokenStream) : List Bool := s.first.bits 2 ++ Packed.followingBits 4 s.rest

/-- The units that a stream stands for. The first three codes stand for nothing. -/
def units (s : TokenStream) : List Nat :=
  let e := s.first.expansion [] []
  (e :: Packed.expansions [[], [], [], e] e s.rest).flatten

/-- The characters of a stream: the last one is filled with any bits, and any characters may come
after it. -/
def chars (s : TokenStream) (fill : List Bool) (more : List Char) : List Char :=
  Packed.write (s.bits ++ fill) ++ more

end TokenStream

/-! ### How large a dictionary can get -/

namespace Packed

/-- The size of the dictionary after tokens that are not the first. -/
def sizeAfter (size : Nat) (ts : List Token) : Nat := ts.foldl (fun n t => n + t.growth) size

/-- A token takes three bits for each entry that it adds. -/
theorem growth_le_length_bits (t : Token) {width : Nat} (h : 3 ≤ width) :
    3 * t.growth ≤ (t.bits width).length := by
  cases t <;> simp [Token.growth, Token.learned, Token.unit?, Token.bits] <;> omega

theorem three_le_codeWidth {size : Nat} (h : 4 ≤ size) : 3 ≤ codeWidth size := by
  have hlog : 2 ≤ size.log2 := (Nat.le_log2 (by omega)).mpr h
  rw [codeWidth]
  omega

theorem le_sizeAfter (size : Nat) (ts : List Token) : size ≤ sizeAfter size ts := by
  induction ts generalizing size with
  | nil => exact Nat.le_refl _
  | cons t ts ih => exact Nat.le_trans (Nat.le_add_right _ _) (ih (size + t.growth))

theorem sizeAfter_le (size : Nat) (before after : List Token) (h : 4 ≤ size) :
    3 * sizeAfter size before ≤ 3 * size + (followingBits size (before ++ after)).length := by
  induction before generalizing size with
  | nil => exact Nat.le_add_right _ _
  | cons t ts ih =>
    have hgrowth := growth_le_length_bits t (three_le_codeWidth h)
    have hrest := ih (size + t.growth) (by omega)
    rw [List.cons_append, followingBits, List.length_append]
    change 3 * sizeAfter (size + t.growth) ts ≤ _
    omega

end Packed

/-- In a text of at most 2 ^ 29 characters no code takes 32 bits. -/
theorem TokenStream.codeWidth_lt (s : TokenStream) {fill : List Bool} {more : List Char}
    {before after : List Token} (hlength : (s.chars fill more).length ≤ Bits.count 29)
    (hsplit : s.rest = before ++ after) :
    Packed.codeWidth (Packed.sizeAfter 4 before) < 32 := by
  have hsize := Packed.sizeAfter_le 4 before after (Nat.le_refl 4)
  rw [← hsplit] at hsize
  have hbits : (s.bits ++ fill).length / 6 ≤ 536870912 := by
    rw [chars, List.length_append, Packed.length_write] at hlength
    exact Nat.le_trans (Nat.le_add_right _ _) hlength
  have hlt : Packed.sizeAfter 4 before < 2147483648 := by
    rw [bits, List.length_append, List.length_append] at hbits
    omega
  have hpos : Packed.sizeAfter 4 before ≠ 0 := by
    have := Packed.le_sizeAfter 4 before
    omega
  have hlog : (Packed.sizeAfter 4 before).log2 < 31 := (Nat.log2_lt hpos).mpr hlt
  rw [Packed.codeWidth]
  omega

end Harvest
