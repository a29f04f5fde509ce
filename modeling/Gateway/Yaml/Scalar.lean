import Gateway.Json.Parser
import Gateway.Yaml.Glyph

/-!
# Reading YAML scalars

Readers for plain, quoted and block scalars. Each takes the characters that are left and gives the
text with the rest; line breaks inside a scalar are folded as its style says.
-/

namespace Gateway.Yaml

/-! ## Folding -/

/-- What stands between two words of a scalar. -/
inductive Gap
  /-- Blanks within a line, the latest first. -/
  | blanks (chars : List Char)
  /-- A line break, which can be escaped, and how many breaks follow it. -/
  | lines (isEscaped : Bool) (further : Nat)

namespace Gap

/-- No gap. -/
def empty : Gap := .blanks []

/-- Whether there is no gap. -/
def isEmpty : Gap → Bool
  | .blanks chars => chars.isEmpty
  | .lines .. => false

/-- Whether the gap goes over the end of a line. -/
def isLines : Gap → Bool
  | .blanks _ => false
  | .lines .. => true

/-- The gap with one more blank; next to line breaks blanks do not count. -/
def addBlank (c : Char) : Gap → Gap
  | .blanks chars => .blanks (c :: chars)
  | .lines isEscaped further => .lines isEscaped further

/-- The gap with one more line break. -/
def addBreak : Gap → Gap
  | .blanks _ => .lines false 0
  | .lines isEscaped further => .lines isEscaped (further + 1)

/-- What a gap stands for, in reverse: a single line break is a space, an escaped one is nothing. -/
def chars : Gap → List Char
  | .blanks chars => chars
  | .lines false 0 => [' ']
  | .lines _ further => List.replicate further '\n'

end Gap

/-! ## Plain scalars -/

/-- Whether a word of a plain scalar ends in front of the characters. -/
def endsWord (inFlow : Bool) : List Glyph → Bool
  | [] => true
  | g :: rest =>
    (g.char = ':' && (startsBlank rest || (inFlow && startsWith isFlowMark rest)))
      || (inFlow && isFlowMark g.char)

/-- Whether a plain scalar ends in front of the characters, which stand behind a gap. -/
def endsPlain (inFlow : Bool) (indent : Nat) : List Glyph → Bool
  | [] => true
  | g :: rest =>
    g.char = '#' || isBoundary (g :: rest) || (!inFlow && decide (g.column < indent))

/-- Reads a plain scalar behind the reversed characters and the gap that are read; its further lines
are indented at least as deep as given. Tells also whether the scalar ends behind a line break. -/
def plainFrom (inFlow : Bool) (indent : Nat) : List Char → Gap → List Glyph →
    Option (String × Bool × List Glyph)
  | acc, gap, [] => some (String.ofList acc.reverse, gap.isLines, [])
  | acc, gap, g :: rest =>
    if isBlank g.char then
      if g.char = '\t' && gap.isLines && decide (g.column < indent) then none
      else plainFrom inFlow indent acc (gap.addBlank g.char) rest
    else if isBreak g.char then plainFrom inFlow indent acc gap.addBreak rest
    else if (!gap.isEmpty && endsPlain inFlow indent (g :: rest))
        || endsWord inFlow (g :: rest) then
      some (String.ofList acc.reverse, gap.isLines, g :: rest)
    else plainFrom inFlow indent (g.char :: gap.chars ++ acc) .empty rest

/-- Reads a plain scalar; tells also whether it ends behind a line break. -/
def plain? (inFlow : Bool) (indent : Nat) (gs : List Glyph) : Option (String × Bool × List Glyph) :=
  plainFrom inFlow indent [] .empty gs

/-! ## Quoted scalars -/

/-- The character of an escape by one letter. -/
def escaped? : Char → Option Char
  | '0' => some '\x00'
  | 'a' => some '\x07'
  | 'b' => some '\x08'
  | 't' => some '\t'
  | '\t' => some '\t'
  | 'n' => some '\n'
  | 'v' => some '\x0b'
  | 'f' => some '\x0c'
  | 'r' => some '\r'
  | 'e' => some '\x1b'
  | ' ' => some ' '
  | '"' => some '"'
  | '\'' => some '\''
  | '\\' => some '\\'
  | 'N' => some '\u0085'
  | '_' => some '\u00a0'
  | 'L' => some '\u2028'
  | 'P' => some '\u2029'
  | _ => none

/-- How many hexadecimal digits follow the letter of an escape. -/
def escapeLength? : Char → Option Nat
  | 'x' => some 2
  | 'u' => some 4
  | 'U' => some 8
  | _ => none

/-- The character with a number. -/
def charOfNumber? (number : Nat) : Option Char :=
  if number.isValidChar then some (Char.ofNat number) else none

/-- What is read of a quoted scalar. -/
inductive QuotedState
  /-- A text and a gap behind it. -/
  | text (gap : Gap)
  /-- A backslash. -/
  | escape
  /-- A part of a number that is so many digits short. -/
  | number (missing value : Nat)
  /-- A quote that ends the scalar unless another one follows. -/
  | quote

/-- Reads a quoted scalar behind the reversed characters that are read. -/
def quotedFrom (quote : Char) : List Char → QuotedState → List Glyph → Option (String × List Glyph)
  | acc, .quote, [] => some (String.ofList acc.reverse, [])
  | _, _, [] => none
  | acc, .quote, g :: rest =>
    if g.char = quote then quotedFrom quote (quote :: acc) (.text .empty) rest
    else some (String.ofList acc.reverse, g :: rest)
  | acc, .number missing value, g :: rest => do
    let value := value * 16 + (← Json.hexDigit? g.char)
    if missing ≤ 1 then quotedFrom quote ((← charOfNumber? value) :: acc) (.text .empty) rest
    else quotedFrom quote acc (.number (missing - 1) value) rest
  | acc, .escape, g :: rest =>
    if isBreak g.char then quotedFrom quote acc (.text (.lines true 0)) rest
    else
      match escapeLength? g.char with
      | some length => quotedFrom quote acc (.number length 0) rest
      | none => do quotedFrom quote ((← escaped? g.char) :: acc) (.text .empty) rest
  | acc, .text gap, g :: rest =>
    if isBlank g.char then quotedFrom quote acc (.text (gap.addBlank g.char)) rest
    else if isBreak g.char then quotedFrom quote acc (.text gap.addBreak) rest
    else if !gap.isEmpty && isBoundary (g :: rest) then none
    else if g.char = '"' && quote = '"' then
      some (String.ofList (gap.chars ++ acc).reverse, rest)
    else if g.char = quote then quotedFrom quote (gap.chars ++ acc) .quote rest
    else if g.char = '\\' && quote = '"' then quotedFrom quote (gap.chars ++ acc) .escape rest
    else quotedFrom quote (g.char :: gap.chars ++ acc) (.text .empty) rest

/-- Reads a quoted scalar behind its first quote. -/
def quoted? (quote : Char) (gs : List Glyph) : Option (String × List Glyph) :=
  quotedFrom quote [] (.text .empty) gs

/-! ## Block scalars -/

/-- What happens to the line breaks at the end of a block scalar. -/
inductive Chomping
  /-- All are dropped. -/
  | strip
  /-- One is kept. -/
  | clip
  /-- All are kept. -/
  | keep
  deriving DecidableEq

/-- The mark of how the line breaks at the end are treated. -/
def chomping? : Char → Option Chomping
  | '+' => some .keep
  | '-' => some .strip
  | _ => none

/-- The indentation that a digit gives, which is not zero. -/
def increment? (c : Char) : Option Nat :=
  if c = '0' then none else some (c.toNat - '0'.toNat)

/-- Reads the marks of a block scalar, which come in any order: how its end is treated and how much
deeper it is indented than its parent, or zero. -/
def blockMarks? : List Glyph → Option (Chomping × Nat × List Glyph)
  | [] => some (.clip, 0, [])
  | g :: rest =>
    match chomping? g.char, rest with
    | some chomping, digit :: behind =>
      if digit.char.isDigit then
        (increment? digit.char).map fun increment => (chomping, increment, behind)
      else some (chomping, 0, rest)
    | some chomping, [] => some (chomping, 0, [])
    | none, _ =>
      if g.char.isDigit then
        match increment? g.char, rest with
        | none, _ => none
        | some increment, mark :: behind =>
          match chomping? mark.char with
          | some chomping => some (chomping, increment, behind)
          | none => some (.clip, increment, rest)
        | some increment, [] => some (.clip, increment, [])
      else some (.clip, 0, g :: rest)

/-- Finds how deep a block scalar is indented: as deep as the deepest of its first lines up to the
first that is not empty. Gives the number of empty lines and the rest. -/
def blockIndent? (deepest breaks : Nat) : List Glyph → Option (Nat × Nat × List Glyph)
  | [] => some (deepest, breaks, [])
  | g :: rest =>
    let deepest := max deepest g.column
    if g.char = ' ' then blockIndent? (max deepest (g.column + 1)) breaks rest
    else if g.char = '\t' then none
    else if isBreak g.char then blockIndent? deepest (breaks + 1) rest
    else some (deepest, breaks, g :: rest)

/-- What is read of a block scalar. -/
structure BlockState where
  /-- The characters of the lines, in reverse. -/
  acc : List Char := []
  /-- Whether a line is finished by a break. -/
  isBroken : Bool := false
  /-- How many empty lines follow. -/
  emptyLines : Nat
  /-- Whether the last line starts with a blank. -/
  isBlankLine : Bool := false

/-- The characters when a further line starts, with a blank or not: in a folded scalar a break
between two lines without blanks at their starts is a space. -/
def BlockState.join (isFolded : Bool) (state : BlockState) (isBlankNext : Bool) : List Char :=
  let break? : List Char :=
    if !state.isBroken then []
    else if !isFolded || state.isBlankLine || isBlankNext then ['\n']
    else if state.emptyLines = 0 then [' ']
    else []
  List.replicate state.emptyLines '\n' ++ break? ++ state.acc

/-- The text of a finished block scalar. -/
def BlockState.text (chomping : Chomping) (state : BlockState) : String :=
  let break? := if state.isBroken ∧ chomping ≠ .strip then ['\n'] else []
  let emptyLines := if chomping = .keep then List.replicate state.emptyLines '\n' else []
  String.ofList (emptyLines ++ break? ++ state.acc).reverse

/-- Reads the lines of a block scalar. -/
def blockFrom (isFolded : Bool) (indent : Nat) : (inLine : Bool) → BlockState → List Glyph →
    Option (BlockState × List Glyph)
  | _, state, [] => some (state, [])
  | true, state, g :: rest =>
    if isBreak g.char then
      blockFrom isFolded indent false { state with isBroken := true, emptyLines := 0 } rest
    else blockFrom isFolded indent true { state with acc := g.char :: state.acc } rest
  | false, state, g :: rest =>
    if g.char = ' ' && decide (g.column < indent) then blockFrom isFolded indent false state rest
    else if g.char = '\t' && decide (g.column < indent) then none
    else if isBreak g.char then
      blockFrom isFolded indent false { state with emptyLines := state.emptyLines + 1 } rest
    else if g.column = indent then
      let isBlankLine := isBlank g.char
      blockFrom isFolded indent true
        { acc := g.char :: state.join isFolded isBlankLine, emptyLines := 0, isBlankLine } rest
    else some (state, g :: rest)

/-- Reads a block scalar behind its first mark. Its parent is indented as given, if it is in one. -/
def blockScalar? (isFolded : Bool) (parent? : Option Nat) (gs : List Glyph) :
    Option (String × List Glyph) := do
  let (chomping, increment, gs) ← blockMarks? gs
  let gs ← endLine? gs
  let (indent, emptyLines, gs) ←
    if increment = 0 then do
      let (deepest, emptyLines, gs) ← blockIndent? 0 0 gs
      pure (max (max deepest ((parent?.map (· + 1)).getD 0)) 1, emptyLines, gs)
    else pure (parent?.getD 0 + increment, 0, gs)
  let (state, rest) ← blockFrom isFolded indent false { emptyLines } gs
  return (state.text chomping, rest)

end Gateway.Yaml
