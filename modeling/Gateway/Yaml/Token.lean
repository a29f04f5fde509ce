import Gateway.Yaml.Mark

/-!
# YAML tokens

A text as a list of tokens. Block collections are opened and closed by tokens of their own, which
come from the columns of their keys and dashes. A key is only known by the colon behind it, so its
tokens are put in front of it when the colon is found: on the same line, and within a bounded number
of characters.
-/

namespace Gateway.Yaml

/-- A token of a YAML text. -/
inductive Token
  /-- A directive in front of a document. -/
  | directive
  /-- The mark that begins a document. -/
  | documentStart
  /-- The mark that ends a document. -/
  | documentEnd
  /-- The place where a block sequence opens. -/
  | blockSequenceStart
  /-- The place where a block mapping opens. -/
  | blockMappingStart
  /-- The place where a block collection closes. -/
  | blockEnd
  /-- The dash of an item. -/
  | blockEntry
  /-- The bracket that opens a sequence. -/
  | flowSequenceStart
  /-- The bracket that closes a sequence. -/
  | flowSequenceEnd
  /-- The brace that opens a mapping. -/
  | flowMappingStart
  /-- The brace that closes a mapping. -/
  | flowMappingEnd
  /-- The comma between items. -/
  | flowEntry
  /-- The place where a key starts. -/
  | key
  /-- The colon in front of a value. -/
  | value
  /-- A reference to a named node. -/
  | reference (name : String)
  /-- A name for the next node. -/
  | anchor (name : String)
  /-- A tag of the next node. -/
  | tag (isNull : Bool)
  /-- A text, written plainly or not. -/
  | scalar (text : String) (isPlain : Bool)
  deriving DecidableEq

namespace Token

/-- A place where a key can have started. -/
structure KeyStart where
  /-- How many tokens precede the key. -/
  position : Nat
  /-- The character with which the key starts. -/
  place : Glyph
  /-- Whether nothing else can stand here. -/
  isRequired : Bool

/-- What is known at a place between two tokens. -/
structure Progress where
  /-- The tokens so far. -/
  tokens : Array Token := #[]
  /-- The columns of the open block collections, the innermost first. -/
  columns : List Nat := []
  /-- Where a key can have started, in the innermost open flow collection and so on; outside of all
  there is one more. -/
  keyStarts : List (Option KeyStart) := [none]
  /-- Whether a key can start here. -/
  allowsKey : Bool := true
  /-- The index behind the last quoted scalar. -/
  quotedEnd : Nat := 0

namespace Progress

/-- Whether the place is in a flow collection. -/
def inFlow (progress : Progress) : Bool :=
  decide (1 < progress.keyStarts.length)

/-- Adds a token. -/
def push (token : Token) (progress : Progress) : Progress :=
  { progress with tokens := progress.tokens.push token }

/-- Says whether a key can start here. -/
def allowKey (allowsKey : Bool) (progress : Progress) : Progress :=
  { progress with allowsKey }

/-- The innermost place where a key can have started. -/
def keyStart? (progress : Progress) : Option KeyStart :=
  progress.keyStarts.head?.join

/-- Replaces the innermost place where a key can have started. -/
def setKeyStart (start? : Option KeyStart) (progress : Progress) : Progress :=
  { progress with keyStarts := start? :: progress.keyStarts.drop 1 }

/-- Gives up the innermost place where a key can have started. -/
def dropKey (progress : Progress) : Option Progress :=
  if progress.keyStart?.any KeyStart.isRequired then none else some (progress.setKeyStart none)

/-- Notes that a key can start here, if one is allowed. In flow collections nothing else is
allowed in the column of the innermost block collection. -/
def noteKey (place : Glyph) (progress : Progress) : Option Progress :=
  if progress.allowsKey then do
    let isRequired := progress.inFlow && progress.columns.head? = some place.column
    let progress ← progress.dropKey
    return progress.setKeyStart (some { position := progress.tokens.size, place, isRequired })
  else some progress

/-- The longest key, in characters. -/
def maxKeyLength : Nat := 1024

/-- Gives up the keys that are too far away to end at a place. -/
def dropFarKeys (place : Glyph) (progress : Progress) : Option Progress := do
  let isFar (start : KeyStart) : Bool :=
    decide (start.place.line < place.line ∨ start.place.index + maxKeyLength < place.index)
  let keyStarts ← progress.keyStarts.mapM fun start? =>
    match start? with
    | some start =>
      if isFar start then (if start.isRequired then none else some none) else some (some start)
    | none => some none
  return { progress with keyStarts }

/-- Closes the block collections that are indented deeper than a column. -/
def closeBlocks (column : Nat) (progress : Progress) : Progress :=
  if progress.inFlow then progress
  else
    let closed := progress.columns.takeWhile fun open' => decide (column < open')
    { progress with
      tokens := progress.tokens ++ closed.map fun _ => blockEnd
      columns := progress.columns.drop closed.length }

/-- Closes all block collections. -/
def closeAllBlocks (progress : Progress) : Progress :=
  if progress.inFlow then progress
  else { progress with
    tokens := progress.tokens ++ progress.columns.map fun _ => blockEnd
    columns := [] }

/-- Opens a block collection in a column, unless one is open there; the token that opens it comes at
a position. -/
def openBlock (column position : Nat) (token : Token) (progress : Progress) : Progress :=
  if progress.inFlow || progress.columns.head?.any (column ≤ ·) then progress
  else { progress with
    tokens := progress.tokens.insertIdxIfInBounds position token
    columns := column :: progress.columns }

/-- Opens a block collection in a column behind all tokens. -/
def openBlockHere (column : Nat) (token : Token) (progress : Progress) : Progress :=
  progress.openBlock column progress.tokens.size token

/-- Goes to the next character that is neither blank nor in a comment. Where a key can start, no tab
can indent a line. -/
def seek : (inComment : Bool) → Progress → List Glyph → Progress × List Glyph
  | _, progress, [] => (progress, [])
  | inComment, progress, g :: rest =>
    if isBreak g.char then
      seek false (if progress.inFlow then progress else progress.allowKey true) rest
    else if inComment || g.char = ' ' then seek inComment progress rest
    else if g.char = '#' then seek true progress rest
    else if g.char = '\t' && (progress.inFlow || !progress.allowsKey) then
      seek inComment progress rest
    else (progress, g :: rest)

/-! ## Single tokens -/

/-- How a reading goes on: what is known, and what is left. -/
abbrev Step := Option (Progress × List Glyph)

/-- Marks the bounds of a document. -/
def readBoundary (token : Token) (gs : List Glyph) (progress : Progress) : Step := do
  let progress ← progress.closeAllBlocks.dropKey
  return ((progress.allowKey false).push token, gs.drop 3)

/-- Reads a directive behind its mark. -/
def readDirective (rest : List Glyph) (progress : Progress) : Step := do
  let progress ← progress.closeAllBlocks.dropKey
  return ((progress.allowKey false).push directive, ← directive? rest)

/-- The deepest nesting of flow collections. -/
def maxFlowDepth : Nat := 255

/-- Opens a flow collection. -/
def openFlow (token : Token) (place : Glyph) (rest : List Glyph) (progress : Progress) : Step := do
  let progress ← progress.noteKey place
  if maxFlowDepth < progress.keyStarts.length then none
  else
    let progress := { progress with keyStarts := none :: progress.keyStarts }
    return ((progress.allowKey true).push token, rest)

/-- Closes a flow collection. -/
def closeFlow (token : Token) (rest : List Glyph) (progress : Progress) : Step := do
  let progress ← progress.dropKey
  let keyStarts := if progress.inFlow then progress.keyStarts.drop 1 else progress.keyStarts
  return (({ progress with keyStarts }.allowKey false).push token, rest)

/-- Reads a comma. -/
def readFlowEntry (rest : List Glyph) (progress : Progress) : Step := do
  let progress ← progress.dropKey
  return ((progress.allowKey true).push flowEntry, rest)

/-- Reads the dash of an item, which stands where a key can start. -/
def readBlockEntry (place : Glyph) (rest : List Glyph) (progress : Progress) : Step :=
  if progress.inFlow || !progress.allowsKey then none
  else do
    let progress ← (progress.openBlockHere place.column blockSequenceStart).dropKey
    return ((progress.allowKey true).push blockEntry, rest)

/-- Reads the question mark in front of a key. -/
def readKey (place : Glyph) (rest : List Glyph) (progress : Progress) : Step :=
  if !progress.inFlow && !progress.allowsKey then none
  else do
    let progress ← (progress.openBlockHere place.column blockMappingStart).dropKey
    return ((progress.allowKey (!progress.inFlow)).push key, rest)

/-- Reads the colon in front of a value. The tokens of the key are put where it can have started; if
nothing can, the key has a mark of its own or is missing. -/
def readValue (place : Glyph) (rest : List Glyph) (progress : Progress) : Step :=
  match progress.keyStart? with
  | some start =>
    let tokens := progress.tokens.insertIdxIfInBounds start.position key
    let progress := { progress with tokens }.openBlock
      start.place.column start.position blockMappingStart
    some (((progress.setKeyStart none).allowKey false).push value, rest)
  | none =>
    if !progress.inFlow && !progress.allowsKey then none
    else
      let progress := progress.openBlockHere place.column blockMappingStart
      some ((progress.allowKey (!progress.inFlow)).push value, rest)

/-- Reads a mark in front of a node or a reference to a node, behind its first character. -/
def readMark (read : List Glyph → Option (Token × List Glyph)) (place : Glyph) (rest : List Glyph)
    (progress : Progress) : Step := do
  let progress ← progress.noteKey place
  let (token, rest) ← read rest
  return ((progress.allowKey false).push token, rest)

/-- Reads a block scalar behind its first mark. -/
def readBlockScalar (isFolded : Bool) (place : Glyph) (rest : List Glyph) (progress : Progress) :
    Step := do
  let progress ← progress.noteKey place
  let (text, rest) ← blockScalar? isFolded progress.columns.head? rest
  return ((progress.allowKey true).push (scalar text false), rest)

/-- The index in front of what is left of a text, if something is. -/
def indexOf : List Glyph → Nat
  | [] => 0
  | g :: _ => g.index

/-- Reads a quoted scalar behind its first quote. -/
def readQuoted (place : Glyph) (rest : List Glyph) (progress : Progress) : Step := do
  let progress ← progress.noteKey place
  let (text, rest) ← quoted? place.char rest
  let progress := { progress with quotedEnd := indexOf rest }
  return ((progress.allowKey false).push (scalar text false), rest)

/-- Reads a plain scalar. Behind a line break a key can follow. -/
def readPlain (place : Glyph) (rest : List Glyph) (progress : Progress) : Step := do
  let progress ← progress.noteKey place
  let indent := (progress.columns.head?.map (· + 1)).getD 0
  let (text, isBroken, rest) ← plain? progress.inFlow indent (place :: rest)
  return ((progress.allowKey isBroken).push (scalar text true), rest)

/-- Reads the token that starts with a character. -/
def readToken (g : Glyph) (rest : List Glyph) (progress : Progress) : Step :=
  let inFlow := progress.inFlow
  let isValueMark := startsBlank rest
    || (inFlow && (startsWith isFlowMark rest || g.index = progress.quotedEnd))
  match g.char with
  | '[' => progress.openFlow flowSequenceStart g rest
  | '\x7b' => progress.openFlow flowMappingStart g rest
  | ']' => progress.closeFlow flowSequenceEnd rest
  | '\x7d' => progress.closeFlow flowMappingEnd rest
  | ',' => progress.readFlowEntry rest
  | '-' => if startsBlank rest then progress.readBlockEntry g rest else progress.readPlain g rest
  | '?' => if startsBlank rest then progress.readKey g rest else progress.readPlain g rest
  | ':' => if isValueMark then progress.readValue g rest else progress.readPlain g rest
  | '*' => progress.readMark (fun gs => (nodeName? gs).map fun r => (reference r.1, r.2)) g rest
  | '&' => progress.readMark (fun gs => (nodeName? gs).map fun r => (anchor r.1, r.2)) g rest
  | '!' => progress.readMark (fun gs => (tag? gs).map fun r => (tag r.1, r.2)) g rest
  | '|' => if inFlow then progress.readPlain g rest else progress.readBlockScalar false g rest
  | '>' => if inFlow then progress.readPlain g rest else progress.readBlockScalar true g rest
  | '\'' => progress.readQuoted g rest
  | '"' => progress.readQuoted g rest
  | '%' => none
  | '@' => none
  | '\x60' => none
  | _ => progress.readPlain g rest

end Progress

/-! ## All tokens -/

open Progress in
/-- Reads the tokens of a text; every token takes at least one character. -/
def readFrom : Nat → Progress → List Glyph → Option (List Token)
  | 0, _, _ => none
  | fuel + 1, progress, gs =>
    match seek false progress gs with
    | (progress, []) => do
      let progress ← progress.closeAllBlocks.dropKey
      return progress.tokens.toList
    | (progress, g :: rest) => do
      let progress ← progress.dropFarKeys g
      let progress := progress.closeBlocks g.column
      let (progress, rest) ←
        if g.column = 0 && g.char = '%' then progress.readDirective rest
        else if isMarkLine '-' (g :: rest) then progress.readBoundary documentStart (g :: rest)
        else if isMarkLine '.' (g :: rest) then progress.readBoundary documentEnd (g :: rest)
        else progress.readToken g rest
      readFrom fuel progress rest

/-- The tokens of a text. -/
def ofText? (text : String) : Option (List Token) :=
  let gs := glyphs text
  readFrom (gs.length + 1) {} gs

end Token

end Gateway.Yaml
