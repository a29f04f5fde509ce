import Gateway.Configuration.Apply
import Gateway.Configuration.Basic
import Gateway.Configuration.Describe
import Gateway.Context
import Gateway.Decimal.Double
import Gateway.Decimal.Shortest
import Gateway.Delegation.Context
import Gateway.Delegation.Delegate
import Gateway.Delegation.Session
import Gateway.DelegationError
import Gateway.Entries
import Gateway.Execution.Arguments
import Gateway.Execution.Completion
import Gateway.Execution.Local
import Gateway.Execution.Mock
import Gateway.Execution.Values
import Gateway.Execution.Variables
import Gateway.Fetched.Describe
import Gateway.Fetched.Leaf
import Gateway.Fetched.Merge
import Gateway.Fetched.Null
import Gateway.Fetched.Reconstruct
import Gateway.Fetched.Resolve
import Gateway.Fetched.Value
import Gateway.GraphError
import Gateway.Input.Literal
import Gateway.Input.Serialize
import Gateway.Json.Basic
import Gateway.Json.Parser
import Gateway.Json.Printer
import Gateway.Language.Name
import Gateway.Language.Parser
import Gateway.Language.Printer
import Gateway.Language.Syntax
import Gateway.Language.Token
import Gateway.Operation.Collect
import Gateway.Operation.Info
import Gateway.Path
import Gateway.Request.Basic
import Gateway.Request.Bindings
import Gateway.Request.Build
import Gateway.Request.Revise
import Gateway.Response
import Gateway.Schema.Basic
import Gateway.Schema.Build
import Gateway.Schema.Builtin
import Gateway.Schema.Possible
import Gateway.Schema.Validity
import Gateway.Stitching.Describe
import Gateway.Stitching.Info
import Gateway.Stitching.Merge
import Gateway.Stitching.MergedType
import Gateway.Stitching.Plan
import Gateway.Stitching.Requirements
import Gateway.Stitching.Service
import Gateway.Stitching.Subschema
import Gateway.Transform.Arguments
import Gateway.Transform.Chain
import Gateway.Transform.Concrete
import Gateway.Transform.Expand
import Gateway.Transform.Filter
import Gateway.Transform.Requirements
import Gateway.Transform.Typename
import Gateway.Validation.Diagnostic
import Gateway.Validation.Document
import Gateway.Validation.Incremental
import Gateway.Validation.Kept
import Gateway.Validation.Overlap
import Gateway.Validation.Spreads
import Gateway.Validation.Values
import Gateway.Yaml.Basic
import Gateway.Yaml.Glyph
import Gateway.Yaml.Mark
import Gateway.Yaml.Node
import Gateway.Yaml.Scalar
import Gateway.Yaml.Token
import Gateway.Proofs.Entries
import Gateway.Proofs.Except
import Gateway.Proofs.Fetched.Merge
import Gateway.Proofs.Language.Token
import Gateway.Proofs.Language.Layout
import Gateway.Proofs.Language.SelectionText
import Gateway.Proofs.Language.SelectionShape
import Gateway.Proofs.Language.Reader
import Gateway.Proofs.Language.Nesting
import Gateway.Proofs.Language.Places
import Gateway.Proofs.Stitching.Containment
import Gateway.Proofs.Stitching.Fates
import Gateway.Proofs.Stitching.Plan
import Gateway.Proofs.Stitching.Deal
import Gateway.Proofs.Stitching.Rounds
import Gateway.Proofs.Stitching.Accounts
import Gateway.Proofs.Stitching.Lossless
import Gateway.Proofs.Stitching.Leftover
import Gateway.Proofs.Stitching.Surfaced
import Gateway.Proofs.Stitching.Info
import Gateway.Proofs.Schema.Declared
import Gateway.Proofs.Stitching.Owners
import Gateway.Proofs.Stitching.Needs
import Gateway.Proofs.Transform.Kept
import Gateway.Proofs.Transform.Pruned
import Gateway.Proofs.Transform.Reached
import Gateway.Proofs.Transform.Filtered
import Gateway.Proofs.Transform.Stable
import Gateway.Proofs.Schema.Overlap
import Gateway.Proofs.Transform.Revised
import Gateway.Proofs.Transform.Sound
import Gateway.Proofs.Operation.Gather
import Gateway.Proofs.Transform.Mirrored
import Gateway.Proofs.Transform.Collected
import Gateway.Proofs.Fetched.Deep
import Gateway.Proofs.Fetched.Conformant
import Gateway.Proofs.Fetched.Reading
import Gateway.Proofs.Fetched.Restored
import Gateway.Proofs.Fetched.Grouped
import Gateway.Proofs.Fetched.Dropped
import Gateway.Proofs.Transform.Expanded
import Gateway.Proofs.Transform.Preserved
import Gateway.Proofs.Delegation.Depth
import Gateway.Proofs.Delegation.Nested
import Gateway.Proofs.Delegation.Course
import Gateway.Proofs.Delegation.Located
import Gateway.Proofs.Delegation.Positions
import Gateway.Proofs.Transform.Required
import Gateway.Proofs.Transform.Agreeing
import Gateway.Proofs.Transform.Typed
import Gateway.Proofs.Stitching.Enlarged
import Gateway.Proofs.Stitching.Ownership
import Gateway.Proofs.Stitching.Resolved
import Gateway.Proofs.Stitching.FanOut
import Gateway.Proofs.Transform.Gapless
import Gateway.Proofs.Delegation.Found
import Gateway.Proofs.Request.Arguments
import Gateway.Proofs.Fetched.Placed
import Gateway.Proofs.Configuration.Accepted
import Gateway.Proofs.Operation.Conditions
import Gateway.Proofs.Fetched.Resolve
import Gateway.Proofs.Operation.Search
import Gateway.Proofs.Operation.Collected
import Gateway.Proofs.Request.Sent
import Gateway.Proofs.Transform.Supplied
import Gateway.Proofs.Request.Closed
import Gateway.Proofs.Transform.Supplemented
import Gateway.Proofs.Transform.Defined
import Gateway.Proofs.Input.Projected
import Gateway.Proofs.Input.Integral
import Gateway.Proofs.Request.Promoted
import Gateway.Proofs.Response.Codec
import Gateway.Proofs.Stitching.Monotone
import Gateway.Proofs.Stitching.Cached
import Gateway.Proofs.Delegation.Inner
import Gateway.Proofs.Delegation.Numbers
