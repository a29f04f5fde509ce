import Gateway.Request.Revise

/-!
# Concrete types of abstract values

Every selection set on an interface or a union selects `__typename`, so that the concrete type of an
abstract value is known when its result is read.
-/

namespace Gateway.Transform

/-- The selections with the meta field selected, when the type is abstract. -/
def withTypename (schema : Schema) (type : Name) (selections : List Selection) :
    List Selection :=
  if schema.isAbstract type && !selectsTypename selections then selections ++ [selectTypename]
  else selections

/-- The revision that selects the meta field on abstract types. -/
def addingTypename (schema : Schema) : Revision where
  fieldType? := schema.fieldTypeName?
  finish := withTypename schema

/-- Selects the meta field in every selection set on an abstract type. -/
def addTypename (schema : Schema) (document : Document) : Except DelegationError Document :=
  document.revise schema (fun _ => (addingTypename schema).selections) none

end Gateway.Transform
