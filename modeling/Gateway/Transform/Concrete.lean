import Gateway.Request.Revise

/-!
# Known concrete types

When the value of a root field is known to be of an object type and the target declares the field
with an abstract type, the field's selections are made to apply to the object type.
-/

namespace Gateway.Transform

/-- Wraps the selections of a root field whose type is abstract. -/
def wrapRootField (schema : Schema) (root concrete : Name) : Selection → Selection
  | .field node =>
    match schema.fieldTypeName? root node.name with
    | some type =>
      if schema.isAbstract type && !node.selections.isEmpty then
        .field { node with selections := [.inline (some concrete) [] node.selections] }
      else .field node
    | none => .field node
  | selection => selection

/-- Wraps the selections of the root fields of every operation, when the type is an object type. -/
def wrapConcrete (schema : Schema) (concrete : Name) (document : Document) :
    Except DelegationError Document :=
  if schema.isObject concrete then
    document.mapM fun
      | .operation operation =>
        match schema.root? operation.kind with
        | none => .error (.transform ("missing " ++ operation.kind.keyword ++ " root type"))
        | some root =>
          .ok <| .operation { operation with
            selections := operation.selections.map (wrapRootField schema root concrete) }
      | definition => .ok definition
  else .ok document

end Gateway.Transform
