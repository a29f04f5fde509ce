import Gateway.Yaml.Basic
import Gateway.Yaml.Token

/-!
# YAML trees of tokens

A text that holds one document, as a tree. A node that is left out is empty; references are replaced
by the nodes that they name.
-/

namespace Gateway.Yaml

/-- What is known of the nodes that are read. -/
structure Nodes where
  /-- The numbers of the names, the latest first; a name can be used again. -/
  names : List (String × Nat) := []
  /-- The finished nodes with names, by number, each with how many references it stands for. -/
  named : List (Nat × Yaml × Nat) := []
  /-- How many references there are, those inside of what they stand for included. -/
  references : Nat := 0
  /-- How many nodes and ends of collections are written. -/
  size : Nat := 0

/-- A reader of nodes. -/
abbrev Reading (α : Type) := StateT Nodes Option α

namespace Reading

/-- Counts written nodes or ends of collections. -/
def count (size : Nat) : Reading Unit :=
  modify fun nodes => { nodes with size := nodes.size + size }

/-- A node that is left out. -/
def missing : Reading Yaml := do
  count 1
  return Yaml.empty

/-- The node with a name, which has to be finished. -/
def refer (name : String) : Reading Yaml := do
  count 1
  let nodes ← get
  let number ← (nodes.names.lookup name : Option Nat)
  let (node, references) ← (nodes.named.lookup number : Option (Yaml × Nat))
  set { nodes with references := nodes.references + references + 1 }
  return node

/-- Gives the next node a name, if there is one, before it is read. -/
def name (anchor? : Option String) : Reading Nat := do
  let nodes ← get
  let number := nodes.names.length
  if let some anchor := anchor? then
    set { nodes with names := (anchor, number) :: nodes.names }
  return number

/-- The text of a key. -/
def keyText (key : Yaml) : Reading String :=
  (key.asText? : Option String)

/-- The name and the tag in front of a node, in either order. -/
def marks : List Token → Option String × Option Bool × List Token
  | .anchor name :: .tag isNull :: rest => (some name, some isNull, rest)
  | .tag isNull :: .anchor name :: rest => (some name, some isNull, rest)
  | .anchor name :: rest => (some name, none, rest)
  | .tag isNull :: rest => (none, some isNull, rest)
  | rest => (none, none, rest)

/-- The form of a scalar with a tag. -/
def scalarForm (isPlain : Bool) (tag? : Option Bool) : ScalarForm :=
  match isPlain, tag? with
  | true, none => .plain
  | true, some true => .null
  | _, _ => .text

/-- Whether nothing stands between a dash and what follows. -/
def endsItem : List Token → Bool
  | [] => false
  | token :: _ => token = .blockEntry || token = .blockEnd

/-- Whether nothing stands between a mark of a block mapping and what follows. -/
def endsPart : List Token → Bool
  | [] => false
  | token :: _ => token = .key || token = .value || token = .blockEnd

/-- Whether nothing stands between a mark of a flow mapping and what follows. -/
def endsFlowPart : List Token → Bool
  | [] => false
  | token :: _ => token = .flowEntry || token = .flowMappingEnd

mutual

/-- Reads a node, which can be a block collection or not; a block sequence that is the value of a
key needs no indentation. -/
def node : Nat → (inBlock isValue : Bool) → List Token → Reading (Yaml × List Token)
  | 0, _, _, _ => failure
  | _ + 1, _, _, .reference target :: rest => return (← refer target, rest)
  | fuel + 1, inBlock, isValue, tokens => do
    let (anchor?, tag?, tokens) := marks tokens
    let number ← name anchor?
    let before := (← get).references
    let (node, rest) ← content fuel inBlock isValue (anchor?.isSome || tag?.isSome) tag? tokens
    if anchor?.isSome then
      modify fun nodes =>
        { nodes with named := (number, node, nodes.references - before) :: nodes.named }
    return (node, rest)

/-- Reads a node behind its marks; if it has marks, it can be left out. -/
def content : Nat → (inBlock isValue isMarked : Bool) → Option Bool → List Token →
    Reading (Yaml × List Token)
  | 0, _, _, _, _, _ => failure
  | fuel + 1, inBlock, isValue, isMarked, tag?, tokens =>
    match tokens, inBlock, isValue with
    | .blockEntry :: _, _, true => do
      count 2
      indentlessItems fuel [] tokens
    | .scalar text isPlain :: rest, _, _ => do
      count 1
      return (.scalar text (scalarForm isPlain tag?), rest)
    | .flowSequenceStart :: rest, _, _ => do
      count 2
      flowItems fuel [] rest
    | .flowMappingStart :: rest, _, _ => do
      count 2
      flowEntries fuel [] rest
    | .blockSequenceStart :: rest, true, _ => do
      count 2
      blockItems fuel [] rest
    | .blockMappingStart :: rest, true, _ => do
      count 2
      blockEntries fuel [] rest
    | _, _, _ => do
      count 1
      if isMarked then return (.scalar "" (scalarForm true tag?), tokens) else failure

/-- Reads the items of a block sequence, behind those that are done. -/
def blockItems : Nat → List Yaml → List Token → Reading (Yaml × List Token)
  | fuel + 1, done, .blockEntry :: rest => do
    let (item, rest) ←
      if endsItem rest then pure (← missing, rest) else node fuel true false rest
    blockItems fuel (done ++ [item]) rest
  | _, done, .blockEnd :: rest => return (.sequence done, rest)
  | _, _, _ => failure

/-- Reads the items of a block sequence that is not indented. -/
def indentlessItems : Nat → List Yaml → List Token → Reading (Yaml × List Token)
  | fuel + 1, done, .blockEntry :: rest => do
    let (item, rest) ←
      if endsItem rest || endsPart rest then pure (← missing, rest) else node fuel true false rest
    indentlessItems fuel (done ++ [item]) rest
  | _, done, rest => return (.sequence done, rest)

/-- Reads the entries of a block mapping. -/
def blockEntries : Nat → List (String × Yaml) → List Token → Reading (Yaml × List Token)
  | fuel + 1, done, .key :: rest => do
    let (name, rest) ←
      if endsPart rest then pure (← missing, rest) else node fuel true true rest
    let (value, rest) ← blockValue fuel rest
    blockEntries fuel (done ++ [(← keyText name, value)]) rest
  | fuel + 1, done, .value :: rest => do
    let name ← missing
    let (value, rest) ← blockValue fuel (.value :: rest)
    blockEntries fuel (done ++ [(← keyText name, value)]) rest
  | _, done, .blockEnd :: rest => return (.mapping done, rest)
  | _, _, _ => failure

/-- Reads the value behind a key of a block mapping. -/
def blockValue : Nat → List Token → Reading (Yaml × List Token)
  | fuel + 1, .value :: rest => do
    if endsPart rest then return (← missing, rest) else node fuel true true rest
  | _, rest => return (← missing, rest)

/-- Reads the entries of a flow mapping. -/
def flowEntries : Nat → List (String × Yaml) → List Token → Reading (Yaml × List Token)
  | 0, _, _ => failure
  | _ + 1, done, .flowMappingEnd :: rest => return (.mapping done, rest)
  | fuel + 1, done, tokens => do
    let (name, value, rest) ←
      match tokens with
      | .key :: rest =>
        if endsFlowPart rest || rest.head? = some .value then do
          let name ← missing
          let (value, rest) ← flowValue fuel endsFlowPart rest
          pure (name, value, rest)
        else do
          let (name, rest) ← node fuel false false rest
          let (value, rest) ← flowValue fuel endsFlowPart rest
          pure (name, value, rest)
      | .value :: _ => do
        let name ← missing
        let (value, rest) ← flowValue fuel endsFlowPart tokens
        pure (name, value, rest)
      | _ => do
        let (name, rest) ← node fuel false false tokens
        pure (name, ← missing, rest)
    let done := done ++ [(← keyText name, value)]
    match rest with
    | .flowEntry :: rest => flowEntries fuel done rest
    | .flowMappingEnd :: rest => return (.mapping done, rest)
    | _ => failure

/-- Reads the value behind a key in a flow collection, which is left out in front of some tokens. -/
def flowValue : Nat → (List Token → Bool) → List Token → Reading (Yaml × List Token)
  | fuel + 1, isLeftOut, .value :: rest => do
    if isLeftOut rest then return (← missing, rest) else node fuel false false rest
  | _, _, rest => return (← missing, rest)

/-- Reads the items of a flow sequence; an item can be a key with its value. -/
def flowItems : Nat → List Yaml → List Token → Reading (Yaml × List Token)
  | 0, _, _ => failure
  | _ + 1, done, .flowSequenceEnd :: rest => return (.sequence done, rest)
  | fuel + 1, done, tokens => do
    let (item, rest) ←
      match tokens with
      | .key :: rest => do
        count 2
        flowPair fuel rest
      | _ => node fuel false false tokens
    let done := done ++ [item]
    match rest with
    | .flowEntry :: rest => flowItems fuel done rest
    | .flowSequenceEnd :: rest => return (.sequence done, rest)
    | _ => failure

/-- Reads a mapping of one entry that is an item of a flow sequence. -/
def flowPair : Nat → List Token → Reading (Yaml × List Token)
  | 0, _ => failure
  | fuel + 1, tokens => do
    let (name, rest) ←
      match tokens with
      | .value :: rest => pure (← missing, rest)
      | .flowEntry :: rest => pure (← missing, rest)
      | .flowSequenceEnd :: rest => pure (← missing, rest)
      | _ => node fuel false false tokens
    let (value, rest) ← flowValue fuel (fun rest =>
      rest.head? = some .flowEntry || rest.head? = some .flowSequenceEnd) rest
    return (.mapping [(← keyText name, value)], rest)

end

/-- Reads the content of a document whose start is marked, which can be empty. -/
def markedDocument (fuel : Nat) : List Token → Reading (Yaml × List Token)
  | [] => return (← missing, [])
  | token :: rest => do
    if token = .directive || token = .documentStart || token = .documentEnd then
      return (← missing, token :: rest)
    else node fuel true false (token :: rest)

/-- Reads the first document of a text that is not empty. -/
def document (tokens : List Token) : Reading (Yaml × List Token) :=
  let fuel := 4 * tokens.length + 4
  match tokens.dropWhile (· = .directive) with
  | .documentStart :: rest => markedDocument fuel rest
  | [] => failure
  | rest => if rest.length < tokens.length then failure else node fuel true false rest

end Reading

/-- How many references a text can stand for, for every node that it holds. -/
def maxReferences : Nat := 100

/-- Reads a text that holds one document. -/
def parse? (text : String) : Option Yaml := do
  let tokens ← Token.ofText? text
  let ((node, rest), nodes) ← (Reading.document tokens).run {}
  let isFinished := (rest.dropWhile (· = Token.documentEnd)).isEmpty
  if isFinished ∧ nodes.references ≤ nodes.size * maxReferences then some node else none

end Gateway.Yaml
