import Scoring.Decimal.Literal
import Scoring.Json.Basic

/-!
# Token — the words of JSON texts

`Token.scan` cuts a text into brackets, separators, names and scalars, skipping spaces, tabs and line ends.
Strings resolve their escapes and numbers are rounded to a double here; what comes out of range is marked
and left to the reader of the value.
-/

namespace Scoring

inductive Token where
  | openArray
  | closeArray
  | openObject
  | closeObject
  | comma
  | colon
  /-- A string; nothing when it has an unpaired surrogate. -/
  | text (s : Option String)
  /-- `null`, a truth value or a number. -/
  | scalar (r : Raw)
  deriving Inhabited

namespace Token

/-! ## Strings -/

/-- A part of a string: a character, or a 16-bit unit given by its number. -/
inductive Piece where
  | char (c : Char)
  | unit (u : Nat)

def hexDigit? (c : Char) : Option Nat :=
  if '0' ≤ c && c ≤ '9' then some (c.toNat - '0'.toNat)
  else if 'a' ≤ c && c ≤ 'f' then some (c.toNat - 'a'.toNat + 10)
  else if 'A' ≤ c && c ≤ 'F' then some (c.toNat - 'A'.toNat + 10)
  else none

def unit? (a b c d : Char) : Option Nat := do
  let a ← hexDigit? a
  let b ← hexDigit? b
  let c ← hexDigit? c
  let d ← hexDigit? d
  some (((a * 16 + b) * 16 + c) * 16 + d)

def escaped? : Char → Option Char
  | '"' => some '"'
  | '\\' => some '\\'
  | '/' => some '/'
  | 'b' => some '\x08'
  | 'f' => some '\x0c'
  | 'n' => some '\n'
  | 'r' => some '\r'
  | 't' => some '\t'
  | _ => none

/-- The parts of a string up to its closing quote, and the text behind it. -/
def pieces? : List Char → Option (List Piece × List Char)
  | [] => none
  | '"' :: rest => some ([], rest)
  | '\\' :: 'u' :: a :: b :: c :: d :: rest => do
    let u ← unit? a b c d
    let (ps, rest) ← pieces? rest
    some (.unit u :: ps, rest)
  | '\\' :: e :: rest => do
    let c ← escaped? e
    let (ps, rest) ← pieces? rest
    some (.char c :: ps, rest)
  | c :: rest =>
    if c.toNat < 0x20 then none
    else do
      let (ps, rest) ← pieces? rest
      some (.char c :: ps, rest)

/-- The characters of the parts: a high unit and the low unit behind it make one character, and neither may
stand alone. -/
def join? : List Piece → Option (List Char)
  | [] => some []
  | .char c :: ps => (join? ps).map (c :: ·)
  | .unit hi :: .unit lo :: ps =>
    -- a pair writes one character beyond the first 65536
    if 0xd800 ≤ hi && hi < 0xdc00 then
      if 0xdc00 ≤ lo && lo < 0xe000 then
        (join? ps).map (Char.ofNat (0x10000 + (hi - 0xd800) * 0x400 + (lo - 0xdc00)) :: ·)
      else none
    else if 0xdc00 ≤ hi && hi < 0xe000 then none
    else (join? (.unit lo :: ps)).map (Char.ofNat hi :: ·)
  | .unit u :: ps =>
    if 0xd800 ≤ u && u < 0xe000 then none else (join? ps).map (Char.ofNat u :: ·)

theorem length_pieces? {cs rest : List Char} {ps : List Piece} (h : pieces? cs = some (ps, rest)) :
    rest.length < cs.length := by
  fun_induction pieces? cs generalizing ps rest with
  | case1 => simp at h
  | case2 => simp_all
  | case3 a b c d cs ih =>
    simp only [bind, Option.bind_eq_some_iff] at h
    obtain ⟨_, _, ⟨qs, cs'⟩, hp, he⟩ := h
    have := ih hp
    simp_all
    omega
  | case4 e cs _ ih =>
    simp only [bind, Option.bind_eq_some_iff] at h
    obtain ⟨_, _, ⟨qs, cs'⟩, hp, he⟩ := h
    have := ih hp
    simp_all
    omega
  | case5 => simp at h
  | case6 c cs _ _ _ _ ih =>
    simp only [bind, Option.bind_eq_some_iff] at h
    obtain ⟨⟨qs, cs'⟩, hp, he⟩ := h
    have := ih hp
    simp_all
    omega

/-! ## Numbers -/

def isNumeric (c : Char) : Bool :=
  c.isDigit || c == '-' || c == '+' || c == '.' || c == 'e' || c == 'E'

/-- A double with the given sign and decimal magnitude, unless that is beyond the largest one. -/
def floatNumber (negative : Bool) (x : Decimal.Scientific) : Raw :=
  if x.word .double = Decimal.WordFormat.double.infinity then .unusable
  else .float (Decimal.Literal.finite negative x).toFloat

/-- A whole number, kept as such when it fits 64 bits; minus zero is a double. -/
def wholeNumber (negative : Bool) (n : Nat) : Raw :=
  if negative then
    if 0 < n && n ≤ UInt64.size / 2 then .int (-n) else floatNumber true ⟨n, 0⟩
  else if n < UInt64.size then .int n
  else floatNumber false ⟨n, 0⟩

/-- A number without its sign: digits with no idle zero in front, a fraction with at least one digit, an
exponent. -/
def unsigned? (negative : Bool) (cs : List Char) : Option Raw :=
  let whole := cs.takeWhile Char.isDigit
  let rest := cs.dropWhile Char.isDigit
  -- `0` stands alone or in front of the point
  if whole.isEmpty || (whole.head? == some '0' && 1 < whole.length) then none
  else match rest with
    | [] => some (wholeNumber negative (Decimal.natOfDigits whole))
    | '.' :: rest =>
      let fraction := rest.takeWhile Char.isDigit
      if fraction.isEmpty then none
      else (Decimal.exponentPart? (rest.dropWhile Char.isDigit)).map fun e =>
        floatNumber negative ⟨Decimal.natOfDigits (whole ++ fraction), e - fraction.length⟩
    | rest => (Decimal.exponentPart? rest).map fun e =>
        floatNumber negative ⟨Decimal.natOfDigits whole, e⟩

def number? : List Char → Option Raw
  | '-' :: cs => unsigned? true cs
  | cs => unsigned? false cs

/-! ## Texts -/

/-- The scalar that a run of letters or of numeric characters writes. -/
def scalar? (cs : List Char) : Option Raw :=
  if cs = ['n', 'u', 'l', 'l'] then some .null
  else if cs = ['t', 'r', 'u', 'e'] then some (.bool true)
  else if cs = ['f', 'a', 'l', 's', 'e'] then some (.bool false)
  else number? cs

/-- Which characters may follow `c` within a scalar. -/
def follows (c : Char) : Char → Bool :=
  if c.isAlpha then Char.isAlpha else isNumeric

def isSpace (c : Char) : Bool :=
  c == ' ' || c == '\t' || c == '\n' || c == '\r'

def mark? : Char → Option Token
  | '[' => some .openArray
  | ']' => some .closeArray
  | '\x7b' => some .openObject
  | '\x7d' => some .closeObject
  | ',' => some .comma
  | ':' => some .colon
  | _ => none

/-- All words of a text. A scalar extends as far as its kind of character goes: no JSON text has two scalars
side by side. -/
def scan (cs : List Char) : Option (List Token) :=
  match cs with
  | [] => some []
  | c :: rest =>
    if isSpace c then scan rest
    else if c = '"' then
      match h : pieces? rest with
      | none => none
      | some (ps, behind) =>
        have : behind.length < rest.length := length_pieces? h
        (scan behind).map (.text ((join? ps).map String.ofList) :: ·)
    else match mark? c with
      | some t => (scan rest).map (t :: ·)
      | none =>
        have : (rest.dropWhile (follows c)).length ≤ rest.length :=
          (List.dropWhile_sublist _).length_le
        match scalar? (c :: rest.takeWhile (follows c)) with
        | none => none
        | some r => (scan (rest.dropWhile (follows c))).map (.scalar r :: ·)
termination_by cs.length

end Token

end Scoring
