import Gateway.Entries
import Gateway.Schema.Builtin
import Gateway.Validation.Kept

/-!
# Overlapping fields

Fields that are selected under one response key have to agree: their types must have the same shape,
and where they can apply to one object they must be the same field with the same arguments.
-/

namespace Gateway

namespace Literal

mutual

/-- Whether a value is the same as another one: the fields of an object can be in another order, and
a longer list can follow. -/
def sameValue : Literal → Literal → Bool
  | .list as, .list bs => sameValues as bs
  | .object as, .object bs => as.length == bs.length && sameMembers as bs
  | a, b => a == b

/-- Whether two lists hold the same values as far as both go. -/
def sameValues : List Literal → List Literal → Bool
  | a :: as, b :: bs => sameValue a b && sameValues as bs
  | _, _ => true

/-- Whether every field of the first list has the same value in the second. -/
def sameMembers : List (Name × Literal) → List (Name × Literal) → Bool
  | [], _ => true
  | (name, a) :: as, bs =>
    (match bs.find? (·.1 = name) with
      | some (_, b) => sameValue a b
      | none => false) && sameMembers as bs

end

end Literal

namespace Schema

/-- Whether values of two types can stand under one response key: both are lists to the same depth
with the same nulls, and leaf types are equal. -/
def sameShape (schema : Schema) : TypeRef → TypeRef → Bool
  | .list a, .list b => schema.sameShape a b
  | .nonNullList a, .nonNullList b => schema.sameShape a b
  | .named a, .named b => innerShape a b
  | .nonNullNamed a, .nonNullNamed b => innerShape a b
  | _, _ => false
where
  /-- Whether values of two named types can stand under one response key. -/
  innerShape (a b : Name) : Bool :=
    if schema.hasType a && schema.hasType b then
      if schema.isLeaf a && schema.isLeaf b then a == b
      else schema.isComposite a && schema.isComposite b
    else true

end Schema

/-- A field node with the type from which it is selected. -/
structure SelectedField where
  /-- The type of the selection set that holds the node. -/
  parentType : Name
  /-- The node. -/
  node : Field
  deriving DecidableEq

namespace SelectedField

/-- Whether two nodes are given the same arguments. -/
def sameArguments (a b : SelectedField) : Bool :=
  a.node.arguments.all (fun argument =>
    match b.node.arguments.find? (·.name = argument.name) with
    | some other => other.value.sameValue argument.value
    | none => false)
  && b.node.arguments.all fun argument =>
    a.node.arguments.any fun other => other.name = argument.name

/-- The declared type of the selected field. -/
def type? (schema : Schema) (selected : SelectedField) : Option TypeRef :=
  (schema.selectable? selected.parentType selected.node.name).map FieldDefinition.type

/-- The findings about the shapes of the types of two nodes under one key. -/
def shapeFindings (schema : Schema) (key : Name) (a b : SelectedField) : List Diagnostic :=
  match a.type? schema, b.type? schema with
  | some s, some t => if schema.sameShape s t then [] else [.differentTypes key]
  | _, _ => []

/-- The findings about two nodes under one key that can apply to one object. -/
def fieldFindings (key : Name) (a b : SelectedField) : List Diagnostic :=
  if a.node.name ≠ b.node.name then [.differentFields key]
  else if sameArguments a b then []
  else [.differentArguments b.node.name]

/-- The findings that compare the first of several nodes with each of the others. -/
def compareFirst (compare : SelectedField → SelectedField → List Diagnostic) :
    List SelectedField → List Diagnostic
  | [] => []
  | first :: rest => rest.flatMap (compare first)

/-- The nodes by response key. -/
def byKey (selected : List SelectedField) : Entries (List SelectedField) :=
  selected.foldl (fun groups field => groups.push field.node.responseKey field) []

/-- The groups of nodes that can apply to one object: the nodes of each object type together with
those of abstract types. -/
def commonParents (schema : Schema) (selected : List SelectedField) :
    List (List SelectedField) :=
  let concrete := selected.filter fun field => schema.isObject field.parentType
  let abstract := selected.filter fun field => schema.isAbstract field.parentType
  let groups : Entries (List SelectedField) :=
    concrete.foldl (fun groups field => groups.push field.parentType field) []
  if groups.isEmpty then [abstract] else groups.values.map (· ++ abstract)

end SelectedField

namespace KeptDocument

/-- Fields that have been reached, and selection sets that wait to be read. -/
structure Expansion where
  /-- The fields so far. -/
  fields : List SelectedField := []
  /-- The selection sets to read next, with the types they select from. -/
  waiting : List (Name × List Selection) := []
  /-- The fragments that have been spread. -/
  visited : List Name := []
  /-- The selections that have been read. -/
  read : List Selection := []

namespace Expansion

/-- Reads one selection of a set. -/
def step (fragments : Entries Fragment) (type : Name) (expansion : Expansion)
    (selection : Selection) : Expansion :=
  let expansion := { expansion with read := expansion.read ++ [selection] }
  match selection with
  | .field node => { expansion with fields := expansion.fields ++ [⟨type, node⟩] }
  | .inline condition _ selections =>
    { expansion with waiting := expansion.waiting ++ [(condition.getD type, selections)] }
  | .spread fragment _ =>
    if expansion.visited.contains fragment then expansion
    else
      { expansion with
        visited := fragment :: expansion.visited
        waiting := expansion.waiting ++ match fragments.get? fragment with
          | some definition => [(definition.condition, definition.selections)]
          | none => [] }

/-- Reads the sets that wait, one round after another. -/
def run (fragments : Entries Fragment) : Nat → Expansion → Expansion
  | 0, expansion => expansion
  | rounds + 1, expansion =>
    run fragments rounds <|
      expansion.waiting.foldl
        (fun expansion set => set.2.foldl (step fragments set.1) expansion)
        { expansion with waiting := [] }

end Expansion

mutual

/-- How deep selections are nested. -/
def depth : Selection → Nat
  | .field ⟨_, _, _, _, selections⟩ => depthAll selections + 1
  | .spread .. => 1
  | .inline _ _ selections => depthAll selections + 1

/-- The greatest depth among selections. -/
def depthAll : List Selection → Nat
  | [] => 0
  | selection :: rest => max (depth selection) (depthAll rest)

end

/-- A bound on how deep selections reach when every fragment is spread once. -/
def reach (kept : KeptDocument) : Nat :=
  ((kept.operations.map fun operation => depthAll operation.selections)
    ++ kept.fragments.values.map fun fragment => depthAll fragment.selections).foldr (· + ·) 0 + 1

/-- Reads selection sets and their fragments, level by level. -/
def expansion (kept : KeptDocument) (sets : List (Name × List Selection)) : Expansion :=
  Expansion.run kept.fragments kept.reach { waiting := sets }

/-- The fields selected in selection sets and their fragments. -/
def expand (kept : KeptDocument) (sets : List (Name × List Selection)) : List SelectedField :=
  (kept.expansion sets).fields

/-- The selection sets of nodes, where they have one. -/
def innerSets (schema : Schema) (selected : List SelectedField) :
    List (Name × List Selection) :=
  selected.filterMap fun field =>
    match field.type? schema, field.node.selections with
    | some type, selection :: rest => some (type.innerName, selection :: rest)
    | _, _ => none

/-- A comparison of merged selection sets: which nodes under one key are compared, and how. -/
structure Comparison where
  /-- The groups of nodes under one key that are compared. -/
  groups : List SelectedField → List (List SelectedField)
  /-- The findings about two nodes under a key. -/
  compare : Name → SelectedField → SelectedField → List Diagnostic

/-- The merged selection sets that have been compared, and the findings. -/
structure Compared where
  /-- The sets. -/
  seen : List (List SelectedField) := []
  /-- The findings. -/
  findings : List Diagnostic := []
  /-- Whether sets are nested too deep to compare all of them. -/
  isTooDeep : Bool := false

/-- How deep merged selection sets can be nested below those of an operation. -/
def maxMergeDepth : Nat := 128

/-- Compares a merged selection set and the sets under it, each set once and only so deep. -/
def compareWithin (kept : KeptDocument) (schema : Schema) (comparison : Comparison)
    (depth : Nat) (selected : List SelectedField) (compared : Compared) : Compared :=
  if compared.seen.contains selected then compared
  else
    (SelectedField.byKey selected).foldl (fun compared entry =>
      (comparison.groups entry.2).foldl (fun compared group =>
        let compared := { compared with
          findings := compared.findings
            ++ SelectedField.compareFirst (comparison.compare entry.1) group }
        match innerSets schema group, depth with
        | [], _ => compared
        | _, 0 => { compared with isTooDeep := true }
        | sets, depth + 1 =>
          compareWithin kept schema comparison depth (kept.expand sets) compared)
        compared)
      { compared with seen := selected :: compared.seen }

/-- The comparison of the shapes of types. -/
def shapeComparison (schema : Schema) : Comparison :=
  ⟨fun nodes => [nodes], SelectedField.shapeFindings schema⟩

/-- The comparison of fields that can apply to one object. -/
def fieldComparison (schema : Schema) : Comparison :=
  ⟨SelectedField.commonParents schema, SelectedField.fieldFindings⟩

/-- Compares the fields of an operation in both ways, behind other operations. -/
def compareOperation (kept : KeptDocument) (schema : Schema)
    (compared : Compared × Compared × List Diagnostic) (operation : Operation) :
    Compared × Compared × List Diagnostic :=
  match schema.root? operation.kind with
  | none => compared
  | some root =>
    let (shapes, fields, deep) := compared
    let selected := kept.expand [(root, operation.selections)]
    let compare (comparison : Comparison) (compared : Compared) : Compared :=
      kept.compareWithin schema comparison maxMergeDepth selected
        { compared with isTooDeep := false }
    let shapes := compare (shapeComparison schema) shapes
    let fields := compare (fieldComparison schema) fields
    (shapes, fields,
      deep ++ if shapes.isTooDeep || fields.isTooDeep then [.deepSelections] else [])

/-- The findings about fields under one response key. -/
def overlapFindings (kept : KeptDocument) (schema : Schema) : List Diagnostic :=
  let (shapes, fields, deep) := kept.operations.foldl (kept.compareOperation schema) ({}, {}, [])
  shapes.findings ++ fields.findings ++ deep

end KeptDocument

end Gateway
