/-!
# Characters with their places

A text as a list of characters that know where they stand, so that readers can compare columns and
lines without counting. Every line break is one newline.
-/

namespace Gateway.Yaml

/-- A character of a text with its place. -/
structure Glyph where
  /-- The character. -/
  char : Char
  /-- How many characters precede it. -/
  index : Nat
  /-- How many lines precede its line. -/
  line : Nat
  /-- How many characters precede it on its line. -/
  column : Nat

/-- The characters of a text behind a place. A carriage return breaks lines, but a new line is
counted only at a newline. -/
def glyphsFrom (index line column : Nat) : List Char → List Glyph
  | [] => []
  | '\x0d' :: '\n' :: rest =>
    ⟨'\n', index, line, column⟩ :: glyphsFrom (index + 2) (line + 1) 0 rest
  | '\x0d' :: rest => ⟨'\n', index, line, column⟩ :: glyphsFrom (index + 1) line (column + 1) rest
  | '\n' :: rest => ⟨'\n', index, line, column⟩ :: glyphsFrom (index + 1) (line + 1) 0 rest
  | c :: rest => ⟨c, index, line, column⟩ :: glyphsFrom (index + 1) line (column + 1) rest

/-- The characters of a text, which ends at the first null character. -/
def glyphs (text : String) : List Glyph :=
  glyphsFrom 0 0 0 (text.toList.takeWhile (· ≠ '\x00'))

/-! ## Classes of characters -/

/-- Whether the character separates words of a line. -/
def isBlank (c : Char) : Bool :=
  c = ' ' || c = '\t'

/-- Whether the character ends a line. -/
def isBreak (c : Char) : Bool :=
  c = '\n'

/-- Whether the character marks the structure of flow collections. -/
def isFlowMark (c : Char) : Bool :=
  [',', '[', ']', '{', '}'].contains c

/-- Whether the character can stand in a name. -/
def isWordChar (c : Char) : Bool :=
  c.isAlphanum || c = '_' || c = '-'

/-! ## What comes next -/

/-- Whether the next character is one of a class. -/
def startsWith (p : Char → Bool) : List Glyph → Bool
  | [] => false
  | g :: _ => p g.char

/-- Whether nothing or a line break comes next. -/
def startsBreak : List Glyph → Bool
  | [] => true
  | g :: _ => isBreak g.char

/-- Whether nothing, a separator or a line break comes next. -/
def startsBlank : List Glyph → Bool
  | [] => true
  | g :: _ => isBlank g.char || isBreak g.char

/-- Whether a line starts here that begins or ends a document with a given mark. -/
def isMarkLine (mark : Char) : List Glyph → Bool
  | a :: b :: c :: rest =>
    a.column = 0 && a.char = mark && b.char = mark && c.char = mark && startsBlank rest
  | _ => false

/-- Whether a line starts here that begins or ends a document. -/
def isBoundary (gs : List Glyph) : Bool :=
  isMarkLine '-' gs || isMarkLine '.' gs

/-- The rest behind characters of a class. -/
def dropChars (p : Char → Bool) (gs : List Glyph) : List Glyph :=
  gs.dropWhile fun g => p g.char

/-- The next characters of a class, with the rest. -/
def takeChars (p : Char → Bool) (gs : List Glyph) : String × List Glyph :=
  let (found, rest) := gs.span fun g => p g.char
  (String.ofList (found.map Glyph.char), rest)

/-- The rest behind a line of which nothing but blanks and a comment is left. -/
def endLine? (gs : List Glyph) : Option (List Glyph) :=
  let gs := dropChars isBlank gs
  let gs := if startsWith (· = '#') gs then dropChars (!isBreak ·) gs else gs
  if startsBreak gs then some (gs.drop 1) else none

end Gateway.Yaml
