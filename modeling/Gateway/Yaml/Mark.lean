import Gateway.Yaml.Scalar

/-!
# Marks of YAML texts

What stands in front of nodes, the names by which they are referred to and their tags, and what
stands in front of documents, their directives. Only the tag of nulls has a meaning.
-/

namespace Gateway.Yaml

/-- Reads the name of a node, which ends at a blank or a mark. -/
def nodeName? (gs : List Glyph) : Option (String × List Glyph) :=
  let (name, rest) := takeChars isWordChar gs
  let isEnded := startsBlank rest
    || startsWith (['?', ':', ',', ']', '}', '%', '@', '\x60'].contains ·) rest
  if name.isEmpty || !isEnded then none else some (name, rest)

/-! ## Tags -/

/-- Whether the character can stand in the name of a tag. -/
def isTagChar (c : Char) : Bool :=
  isWordChar c || ";/?:@&=+$,.!~*'()[]%".toList.contains c

/-- The byte that two hexadecimal digits write. -/
def byte? (high low : Char) : Option Nat := do
  return (← Json.hexDigit? high) * 16 + (← Json.hexDigit? low)

/-- The character that an escaped byte starts: itself, or one of two bytes, whose second byte
is given. Longer characters are refused. -/
def byteChar? (first : Nat) (second? : Option Nat) : Option Char :=
  if first < 0x80 then some (Char.ofNat first)
  else if first / 0x20 = 6 then
    match second? with
    | some second =>
      if second / 0x40 = 2 then charOfNumber? (first * 0x100 + second) else none
    | none => none
  else none

/-- Reads the name of a tag, in which bytes can be escaped. -/
def tagName? : List Glyph → Option (List Char × List Glyph)
  | p :: a :: b :: q :: c :: d :: rest =>
    if p.char = '%' then do
      let first ← byte? a.char b.char
      if first < 0x80 then do
        let (name, rest) ← tagName? (q :: c :: d :: rest)
        return (Char.ofNat first :: name, rest)
      else if q.char = '%' then do
        let char ← byteChar? first (byte? c.char d.char)
        let (name, rest) ← tagName? rest
        return (char :: name, rest)
      else none
    else if isTagChar p.char then do
      let (name, rest) ← tagName? (a :: b :: q :: c :: d :: rest)
      return (p.char :: name, rest)
    else some ([], p :: a :: b :: q :: c :: d :: rest)
  | p :: a :: b :: rest =>
    if p.char = '%' then do
      let char ← byteChar? (← byte? a.char b.char) none
      let (name, rest) ← tagName? rest
      return (char :: name, rest)
    else if isTagChar p.char then do
      let (name, rest) ← tagName? (a :: b :: rest)
      return (p.char :: name, rest)
    else some ([], p :: a :: b :: rest)
  | p :: rest =>
    if p.char = '%' then none
    else if isTagChar p.char then do
      let (name, rest) ← tagName? rest
      return (p.char :: name, rest)
    else some ([], p :: rest)
  | [] => some ([], [])

/-- Reads the name of a tag, which is not empty. -/
def fullTagName? (gs : List Glyph) : Option (String × List Glyph) := do
  let (name, rest) ← tagName? gs
  if name.isEmpty then none else return (String.ofList name, rest)

/-- Reads a tag behind its mark and tells whether it is the tag of nulls. -/
def tag? (gs : List Glyph) : Option (Bool × List Glyph) := do
  let (isNull, rest) ←
    if startsWith (· = '<') gs then do
      let (_, rest) ← fullTagName? (gs.drop 1)
      if startsWith (· = '>') rest then pure (false, rest.drop 1) else none
    else do
      let (handle, rest) := takeChars isWordChar gs
      if startsWith (· = '!') rest then do
        let (name, rest) ← fullTagName? (rest.drop 1)
        pure (decide (handle = "" ∧ name = "null"), rest)
      else do
        let (_, rest) ← tagName? rest
        pure (false, rest)
  if startsBlank rest then some (isNull, rest) else none

/-! ## Directives -/

/-- Reads a number of at most nine digits. -/
def versionNumber? (gs : List Glyph) : Option (List Glyph) :=
  let (digits, rest) := takeChars Char.isDigit gs
  if digits.isEmpty || decide (9 < digits.length) then none else some rest

/-- Reads the rest of a directive that gives a version. -/
def versionDirective? (gs : List Glyph) : Option (List Glyph) := do
  let rest ← versionNumber? (dropChars isBlank gs)
  if startsWith (· = '.') rest then versionNumber? (rest.drop 1) else none

/-- Reads the rest of a directive that abbreviates tags. -/
def tagDirective? (gs : List Glyph) : Option (List Glyph) := do
  let gs := dropChars isBlank gs
  if !startsWith (· = '!') gs then none
  else
    let (handle, rest) := takeChars isWordChar (gs.drop 1)
    let isClosed := startsWith (· = '!') rest
    if !isClosed && !handle.isEmpty then none
    else
      let rest := if isClosed then rest.drop 1 else rest
      let (_, rest) ← fullTagName? (dropChars isBlank rest)
      if startsBlank rest then some rest else none

/-- Reads a directive behind its mark, with its line; an unknown one is skipped. -/
def directive? (gs : List Glyph) : Option (List Glyph) := do
  let (name, rest) := takeChars isWordChar gs
  if name.isEmpty || !startsBlank rest then none
  else
    let rest ←
      if name = "YAML" then versionDirective? rest
      else if name = "TAG" then tagDirective? rest
      else some (dropChars (!isBreak ·) rest)
    endLine? rest

end Gateway.Yaml
