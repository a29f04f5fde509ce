import Gateway.Delegation.Session
import Gateway.Fetched.Leaf
import Gateway.Fetched.Null
import Gateway.Operation.Info
import Gateway.Stitching.Subschema

/-!
# Reconstructed results

The data of a response become a fetched value of a declared type. Errors travel with the values that
they concern: the first segment of a path names the child that an error belongs to. Objects are
completed once their fields are there.
-/

namespace Gateway

/-- What data are reconstructed with. -/
structure Reconstruction (σ : Type) where
  /-- The subschema that the data were fetched from. -/
  subschema : Subschema
  /-- The schema that declares their types. -/
  schema : Schema
  /-- Completes an object of a type, for the gateway field that it answers. -/
  complete : FieldInfo → Name → FetchedObject → Act σ FetchedObject

/-- What is known about a member of an object. -/
inductive Child
  /-- The name of the concrete type. -/
  | typename
  /-- A value of a type, and the gateway field that selects it. -/
  | typed (info? : Option FieldInfo) (type : TypeRef)
  /-- Neither selected nor declared. -/
  | unknown

namespace Reconstruction

variable {σ : Type}

/-- The name of the subschema. -/
def owner (reconstruction : Reconstruction σ) : String :=
  reconstruction.subschema.name

/-- The type of an object: what it names when its declared type is abstract. -/
def concreteType (schema : Schema) (members : Entries Json) (type : Name) : Name :=
  if schema.isAbstract type then
    match members.get? typenameField with
    | some (.string name) => if schema.isObject name then name else type
    | _ => type
  else type

/-- What is known about the member under a key of an object of a type. -/
def child (schema : Schema) (info? : Option FieldInfo) (type : Name) (key : String) : Child :=
  if key = typenameField then .typename
  else
    let selected := do
      let info ← info?
      let nodes ← (info.subFields type).get? key
      info.child? type key nodes
    match selected, schema.field? type key with
    | some info, _ => .typed (some info) info.returnType
    | none, some field => .typed none field.type
    | none, none => .unknown

/-- Warns about members of which nothing is known. -/
def warnUnknown (reconstruction : Reconstruction σ) (info? : Option FieldInfo) (type : Name)
    (keys : List String) : Act σ Unit :=
  keys.forM fun key =>
    match child reconstruction.schema info? type key with
    | .unknown => Act.warn (.unmatchedKey reconstruction.owner type key)
    | _ => pure ()

/-- Whether an error is about a child that a list of a length does not have. -/
def isOutside (length : Nat) (error : GraphError) : Bool :=
  match error.firstSegment? with
  | some (.index position) => decide (length ≤ position)
  | some (.key _) => true
  | none => false

/-- Warns when errors are about items that a list does not have. -/
def warnOutside (reconstruction : Reconstruction σ) (length : Nat) (errors : List GraphError) :
    Act σ Unit :=
  if errors.any (isOutside length) then
    Act.warn (.errorsOutsideList reconstruction.owner length)
  else pure ()

/-- Warns when errors are about a list itself. -/
def warnList (reconstruction : Reconstruction σ) (errors : List GraphError) : Act σ Unit :=
  if (ownErrors errors).isEmpty then pure ()
  else Act.warn (.listErrors reconstruction.owner)

mutual

/-- Reconstructs a value whose type is unknown. -/
def untyped (reconstruction : Reconstruction σ) :
    Json → List GraphError → Act σ FetchedValue
  | .null, errors => pure (FetchedValue.ofErrors reconstruction.owner errors)
  | .array items, errors => do
    let values ← untypedItems reconstruction errors 0 items
    warnOutside reconstruction items.length errors
    return .list values
  | .object members, errors => do
    let fields ← untypedMembers reconstruction errors members
    return .object { fields, errors, owner := reconstruction.owner }
  | json, _ => pure (.leaf json)

/-- Reconstructs items whose type is unknown, from a position on. -/
def untypedItems (reconstruction : Reconstruction σ) (errors : List GraphError)
    (position : Nat) : List Json → Act σ (List FetchedValue)
  | [] => pure []
  | item :: rest => do
    let value ← untyped reconstruction item (errorsOfChild (.index position) errors)
    return value :: (← untypedItems reconstruction errors (position + 1) rest)

/-- Reconstructs members whose type is unknown. -/
def untypedMembers (reconstruction : Reconstruction σ) (errors : List GraphError) :
    List (String × Json) → Act σ (Entries FetchedValue)
  | [] => pure []
  | (key, item) :: rest => do
    let value ← untyped reconstruction item (errorsOfChild (.key key) errors)
    return (key, value) :: (← untypedMembers reconstruction errors rest)

end

/-- Reconstructs a value that is neither a list nor an object of its type. -/
def plain (reconstruction : Reconstruction σ) (json : Json) (errors : List GraphError)
    (type : TypeRef) : Act σ FetchedValue :=
  if reconstruction.schema.isLeaf type.innerName then
    pure (FetchedValue.ofLeaf reconstruction.schema type.innerName json)
  else reconstruction.untyped json errors

/-- Completes an object, if it answers a gateway field and merging is not skipped. -/
def completed (reconstruction : Reconstruction σ) (info? : Option FieldInfo) (type : Name)
    (skipsMerging : Bool) (object : FetchedObject) : Act σ FetchedValue :=
  match info? with
  | some info =>
    if skipsMerging then pure (.object object)
    else .object <$> reconstruction.complete info type object
  | none => pure (.object object)

mutual

/-- Reconstructs a value of a type, for the gateway field that it answers. -/
def value (reconstruction : Reconstruction σ) :
    Json → List GraphError → Option FieldInfo → TypeRef → Bool → Act σ FetchedValue
  | .null, errors, _, _, _ => pure (FetchedValue.ofErrors reconstruction.owner errors)
  | .array items, errors, info?, type, skipsMerging =>
    match type.item? with
    | some item => do
      warnList reconstruction errors
      warnOutside reconstruction items.length errors
      return .list (← itemValues reconstruction errors info? item skipsMerging 0 items)
    | none => plain reconstruction (.array items) errors type
  | .object members, errors, info?, type, skipsMerging =>
    if reconstruction.schema.isComposite type.innerName then do
      let name := concreteType reconstruction.schema members type.innerName
      warnUnknown reconstruction info? name (Entries.keys members)
      let fields ← memberValues reconstruction errors info? name members
      completed reconstruction info? name skipsMerging
        { fields, errors, owner := reconstruction.owner }
    else plain reconstruction (.object members) errors type
  | json, errors, _, type, _ => plain reconstruction json errors type

/-- Reconstructs the items of a list from a position on. -/
def itemValues (reconstruction : Reconstruction σ) (errors : List GraphError)
    (info? : Option FieldInfo) (type : TypeRef) (skipsMerging : Bool) (position : Nat) :
    List Json → Act σ (List FetchedValue)
  | [] => pure []
  | item :: rest => do
    let first ← value reconstruction item (errorsOfChild (.index position) errors)
      (info?.map (·.atIndex position)) type skipsMerging
    return first ::
      (← itemValues reconstruction errors info? type skipsMerging (position + 1) rest)

/-- Reconstructs the members of an object of a type. -/
def memberValues (reconstruction : Reconstruction σ) (errors : List GraphError)
    (info? : Option FieldInfo) (type : Name) :
    List (String × Json) → Act σ (Entries FetchedValue)
  | [] => pure []
  | (key, json) :: rest => do
    let childErrors := errorsOfChild (.key key) errors
    let first ← match child reconstruction.schema info? type key with
      | .typename => pure (.leaf json)
      | .typed childInfo? childType =>
        value reconstruction json childErrors childInfo? childType false
      | .unknown => untyped reconstruction json childErrors
    return (key, first) :: (← memberValues reconstruction errors info? type rest)

end

/-- Reconstructs data that may be absent. -/
def result (reconstruction : Reconstruction σ) (data? : Option Json) (errors : List GraphError)
    (info? : Option FieldInfo) (type : TypeRef) (skipsMerging : Bool) : Act σ FetchedValue :=
  reconstruction.value (data?.getD .null) errors info? type skipsMerging

end Reconstruction

end Gateway
