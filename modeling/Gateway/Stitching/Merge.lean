import Gateway.Fetched.Merge
import Gateway.Stitching.Plan

/-!
# Merging fields

An object is completed round after round: each round asks the proxiable targets for the fields that
they own and merges their answers, until nothing is missing or no target can be asked for the rest.
All targets of a round are asked before the first answer is awaited.
-/

namespace Gateway

/-- One round of merging. -/
structure MergeRound where
  /-- Which fields were asked of which subschemas. -/
  plan : Plan
  /-- Their answers, in the order of the plan. -/
  answers : List FetchedValue

/-- A run of merging, so far. -/
structure MergeRun where
  /-- The object with all answers merged into it. -/
  object : FetchedObject
  /-- The selections that are missing. -/
  waiting : List Selection
  /-- The subschemas given as sources, and all that have been proxiable, asked or not. -/
  sources : List Subschema
  /-- The subschemas that have not been proxiable. -/
  targets : List Subschema
  /-- The rounds so far. -/
  rounds : List MergeRound := []

/-- How a subschema is asked for selected fields of an object: asking it leads to an answer that can
be awaited. -/
abbrev AskFields (m : Type → Type) :=
  Subschema → FetchedObject → List Selection → m (m FetchedValue)

namespace MergeRun

/-- The run with the answers of a round. -/
def next (run : MergeRun) (plan : Plan) (answers : List FetchedValue) : MergeRun where
  object := run.object.mergeAnswers answers
  waiting := plan.waiting
  sources := run.sources ++ plan.proxiable
  targets := plan.nonProxiable
  rounds := run.rounds ++ [⟨plan, answers⟩]

end MergeRun

namespace MergedType

variable {ρ : Type} {m : Type → Type} [Monad m]

/-- Runs rounds, at most as many as given. -/
def mergeWithin (merged : MergedType ρ) (ask : AskFields m) : Nat → MergeRun → m MergeRun
  | 0, run => pure run
  | rounds + 1, run =>
    let plan := merged.plan run.waiting run.sources run.targets
    if plan.delegations.isEmpty then pure run
    else do
      let pending ← plan.delegations.mapM fun entry => ask entry.1 run.object entry.2
      let answers ← pending.mapM id
      mergeWithin merged ask rounds (run.next plan answers)

/-- Fetches what is missing from an object. Every round but the last uses up a target. -/
def merge (merged : MergedType ρ) (ask : AskFields m) (object : FetchedObject)
    (selections : List Selection) (sources targets : List Subschema) : m MergeRun :=
  merged.mergeWithin ask targets.length { object, waiting := selections, sources, targets }

end MergedType

end Gateway
