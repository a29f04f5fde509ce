import Gateway.Json.Basic

/-!
# Request contexts

The values that a gateway request carries to executors and resolvers. A context holds at most one
value of each kind; every holder of the context sees the same values.
-/

namespace Gateway

/-- A value in a context. -/
inductive ContextValue
  | int (value : Int)
  | text (value : String)
  | flag (value : Bool)
  deriving DecidableEq, Repr

/-- The kinds of values in a context. -/
inductive ContextKind
  | int
  | text
  | flag
  deriving DecidableEq, Repr

/-- The kind of a value. -/
def ContextValue.kind : ContextValue → ContextKind
  | .int _ => .int
  | .text _ => .text
  | .flag _ => .flag

/-- The values of a request, of pairwise different kinds. -/
structure Context where
  /-- The values held. -/
  values : List ContextValue := []
  deriving DecidableEq, Repr

namespace Context

/-- The value of a kind. -/
def get? (context : Context) (kind : ContextKind) : Option ContextValue :=
  context.values.find? (·.kind = kind)

/-- Whether there is a value of the kind. -/
def contains (context : Context) (kind : ContextKind) : Bool :=
  (context.get? kind).isSome

/-- The context without the value of a kind. -/
def erase (context : Context) (kind : ContextKind) : Context :=
  ⟨context.values.filter (·.kind ≠ kind)⟩

/-- The context with a value, in place of the one of its kind. -/
def insert (context : Context) (value : ContextValue) : Context :=
  ⟨value :: (context.erase value.kind).values⟩

/-- The text held, if there is one. -/
def text? (context : Context) : Option String :=
  match context.get? .text with
  | some (.text value) => some value
  | _ => none

end Context

end Gateway
