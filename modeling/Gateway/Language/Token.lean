import Gateway.Language.Name
import Gateway.Json.Parser

/-!
# Tokens

The lexical units of documents. Blanks, commas and comments separate tokens; a byte order mark is a
blank. Escapes and the indentation of block strings are resolved here. Some tokens belong together
only when no comma stands between them, so a token is kept with what stands in front of it.
-/

namespace Gateway

/-- A lexical unit. -/
inductive Token
  | punctuator (mark : Char)
  | spread
  | name (text : Name)
  | int (text : String)
  | float (text : String)
  | string (value : String)
  deriving DecidableEq, Repr

/-- A token in a text. -/
structure Lexeme where
  /-- The token. -/
  token : Token
  /-- Whether a comma stands between the token and the one before it. -/
  isSeparated : Bool
  deriving DecidableEq, Repr

namespace Token

/-- Whether the character is a blank. -/
def isBlank (c : Char) : Bool :=
  c = ' ' || c = '\t' || c = '\n' || c = '\r' || c = '\uFEFF'

/-- Whether the character ends a line. -/
def isLineEnd (c : Char) : Bool :=
  c = '\n' || c = '\r'

/-- Whether the character is a token by itself. -/
def isPunctuator (c : Char) : Bool :=
  "!$&()=:@[]\x7b\x7c\x7d".toList.contains c

/-- The sign at the start, if there is one of those, and the rest. -/
def takeSign (signs : List Char) : List Char → List Char × List Char
  | c :: rest => if signs.contains c then ([c], rest) else ([], c :: rest)
  | [] => ([], [])

/-- The fraction at the start with its point, if there is one, and the rest; a point has digits
behind it. -/
def takeFraction? : List Char → Option (List Char × List Char)
  | '.' :: rest =>
    match Json.takeDigits rest with
    | ([], _) => none
    | (digits, rest) => some ('.' :: digits, rest)
  | rest => some ([], rest)

/-- The exponent at the start with its letter, if there is one, and the rest; the letter has digits
behind it, maybe with a sign. -/
def takeExponent? : List Char → Option (List Char × List Char)
  | c :: rest =>
    if c = 'e' ∨ c = 'E' then
      let (sign, rest) := takeSign ['-', '+'] rest
      match Json.takeDigits rest with
      | ([], _) => none
      | (digits, rest) => some (c :: sign ++ digits, rest)
    else some ([], c :: rest)
  | [] => some ([], [])

/-- Whether digits are those of a whole number, which has no leading zero. -/
def isWhole : List Char → Bool
  | [] => false
  | '0' :: _ :: _ => false
  | _ => true

/-- Whether the characters behind a number belong to it, though no number has them. -/
def isJoined : List Char → Bool
  | c :: _ => c = '.' || Name.isStart c
  | [] => false

/-- Reads a number: an optional sign, digits without a leading zero, a fraction and an exponent,
followed by neither a point nor a letter. -/
def scanNumber (cs : List Char) : Option (Token × List Char) := do
  let (sign, rest) := takeSign ['-'] cs
  let (whole, rest) := Json.takeDigits rest
  if isWhole whole then
    let (fraction, rest) ← takeFraction? rest
    let (exponent, rest) ← takeExponent? rest
    if isJoined rest then none
    else
      let text := String.ofList (sign ++ whole ++ fraction ++ exponent)
      if fraction.isEmpty ∧ exponent.isEmpty then some (.int text, rest)
      else some (.float text, rest)
  else none

/-- The character that two halves of a surrogate pair stand for. -/
def surrogatePair? (high low : Nat) : Option Char :=
  if 0xD800 ≤ high ∧ high < 0xDC00 ∧ 0xDC00 ≤ low ∧ low < 0xE000 then
    some (Char.ofNat (0x10000 + (high - 0xD800) * 0x400 + (low - 0xDC00)))
  else none

/-- The number that hexadecimal digits write. -/
def hexNumber? (digits : List Char) : Option Nat :=
  if digits.isEmpty then none
  else digits.foldlM (fun number digit => (Json.hexDigit? digit).map (number * 16 + ·)) 0

/-- Reads the number of a character behind the letter of its escape: any number of digits in braces,
or four digits; a pair of such escapes can stand for one character. -/
def takeCodePoint : List Char → Option (Char × List Char)
  | '\x7b' :: rest => do
    let (digits, rest) := rest.span (· ≠ '\x7d')
    let number ← hexNumber? digits
    if number.isValidChar then return (Char.ofNat number, rest.drop 1) else none
  | cs => do
    let (unit, rest) ← Json.takeUnit cs
    if unit.isValidChar then return (Char.ofNat unit, rest)
    else
      match rest with
      | '\\' :: 'u' :: rest => do
        let (low, rest) ← Json.takeUnit rest
        return (← surrogatePair? unit low, rest)
      | _ => none

/-- Reads the characters of a string up to its closing quote, which stands on the same line. -/
def scanString : Nat → List Char → List Char → Option (String × List Char)
  | 0, _, _ => none
  | fuel + 1, acc, cs =>
    match cs with
    | '"' :: rest => some (String.ofList acc.reverse, rest)
    | '\\' :: 'u' :: rest => do
      let (c, rest) ← takeCodePoint rest
      scanString fuel (c :: acc) rest
    | '\\' :: c :: rest => do
      let c ← Json.simpleEscape? c
      scanString fuel (c :: acc) rest
    | c :: rest => if isLineEnd c then none else scanString fuel (c :: acc) rest
    | [] => none

/-- Reads a string behind its opening quote. Directly behind the quote a line end counts as a
character. -/
def scanQuoted (cs : List Char) : Option (String × List Char) :=
  match cs with
  | c :: rest =>
    if isLineEnd c then scanString cs.length [c] rest else scanString (cs.length + 1) [] cs
  | [] => none

/-- Reads the raw characters of a block string up to its closing quotes. -/
def scanBlock : Nat → List Char → List Char → Option (List Char × List Char)
  | 0, _, _ => none
  | fuel + 1, acc, cs =>
    match cs with
    | '"' :: '"' :: '"' :: rest => some (acc.reverse, rest)
    | '\\' :: '"' :: '"' :: '"' :: rest => scanBlock fuel ('"' :: '"' :: '"' :: acc) rest
    | c :: rest => scanBlock fuel (c :: acc) rest
    | [] => none

/-- The lines of a text, whatever ends them. -/
def splitLines : List Char → List (List Char)
  | [] => [[]]
  | '\r' :: '\n' :: rest => [] :: splitLines rest
  | c :: rest =>
    if isLineEnd c then [] :: splitLines rest
    else match splitLines rest with
      | [] => [[c]]
      | line :: lines => (c :: line) :: lines

/-- Whether the character indents a line. -/
def isIndent (c : Char) : Bool :=
  c = ' ' || c = '\t'

/-- The least indentation of lines that are not blank. -/
def commonIndent (lines : List (List Char)) : Option Nat :=
  (lines.filterMap fun line =>
    let indent := (line.takeWhile isIndent).length
    if indent < line.length then some indent else none).min?

/-- The value of a block string: common indentation and blank outer lines are removed. -/
def blockValue (raw : List Char) : String :=
  let lines := match splitLines raw with
    | [] => []
    | first :: rest => first :: rest.map (List.drop ((commonIndent rest).getD 0))
  let isBlank (line : List Char) : Bool := line.all isIndent
  let lines := ((lines.dropWhile isBlank).reverse.dropWhile isBlank).reverse
  "\n".intercalate (lines.map String.ofList)

/-- The tokens of a text behind a comma or not, or nothing when it holds a character outside of all
tokens. -/
def scanFrom : Nat → Bool → List Char → Option (List Lexeme)
  | 0, _, _ => none
  | fuel + 1, isSeparated, cs =>
    match cs with
    | [] => some []
    | ',' :: rest => scanFrom fuel true rest
    | '#' :: rest => scanFrom fuel isSeparated (rest.dropWhile fun c => !isLineEnd c)
    | '.' :: '.' :: '.' :: rest => do
      return ⟨.spread, isSeparated⟩ :: (← scanFrom fuel false rest)
    | '"' :: '"' :: '"' :: rest => do
      let (raw, rest) ← scanBlock (rest.length + 1) [] rest
      return ⟨.string (blockValue raw), isSeparated⟩ :: (← scanFrom fuel false rest)
    | '"' :: rest => do
      let (value, rest) ← scanQuoted rest
      return ⟨.string value, isSeparated⟩ :: (← scanFrom fuel false rest)
    | c :: rest =>
      if isBlank c then scanFrom fuel isSeparated rest
      else if isPunctuator c then do
        return ⟨.punctuator c, isSeparated⟩ :: (← scanFrom fuel false rest)
      else if Name.isStart c then
        let (text, rest) := rest.span Name.isContinue
        do return ⟨.name (String.ofList (c :: text)), isSeparated⟩ :: (← scanFrom fuel false rest)
      else do
        let (number, rest) ← scanNumber (c :: rest)
        return ⟨number, isSeparated⟩ :: (← scanFrom fuel false rest)

/-- The tokens of a text, or nothing when it holds a character outside of all tokens. -/
def scan (text : String) : Option (List Lexeme) :=
  let cs := text.toList
  scanFrom (cs.length + 1) false cs

end Token

end Gateway
