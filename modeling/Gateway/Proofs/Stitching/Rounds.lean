import Gateway.Delegation.Delegate
import Gateway.Proofs.Session
import Gateway.Proofs.Stitching.Deal

/-!
# The rounds of merging

`MergedType.mergeWithin` asks in any monad. Here it asks merged type resolvers, as it does in a
session (`Resolvers.ask`), and in a monad that also notes every call and every answer as it happens
(`Resolvers.askNoting`). `mergeWithin_goes` shows that both lead to the same and that the notes are
those of rounds: `Goes` takes a run to its outcome by a log of its rounds, so what holds along all
logs of `Goes` holds of every run over all resolvers.

The bound of the loop is no bound on the runs: a round that asks uses up a target
(`nonProxiable_length_lt`), so `mergeWithin_add` finds nothing to do beyond as many rounds as there
are targets.
-/

namespace Gateway

/-! ## Resolvers and what they are seen to do -/

/-- Merged type resolvers: a call is begun at once, and its answer is awaited later. -/
abbrev Resolvers (σ : Type) :=
  Subschema → FetchedObject → List Selection → StateM (Session σ) (Act σ FetchedValue)

/-- What a call of a resolver leads to. -/
abbrev Outcome := Except DelegationError FetchedValue

/-- What is seen of the resolvers. -/
inductive Event
  /-- A call is begun. -/
  | asked (call : Call)
  /-- A call is over. -/
  | answered (call : Call) (outcome : Outcome)

namespace Resolvers

variable {σ : Type}

/-- Asks resolvers in a session. -/
def ask (resolvers : Resolvers σ) : AskFields (ExceptT DelegationError (StateM (Session σ))) :=
  fun subschema object selections => ExceptT.lift (resolvers subschema object selections)

/-- Awaits the answer to a call and notes it. -/
def awaitNoting (call : Call) (pending : Act σ FetchedValue) :
    ExceptT DelegationError (StateM (Session σ × List Event)) FetchedValue :=
  fun (session, events) =>
    let (outcome, session) := runFrom pending session
    (outcome, session, events ++ [.answered call outcome])

/-- Asks resolvers in a session and notes what is seen of them. -/
def askNoting (resolvers : Resolvers σ) :
    AskFields (ExceptT DelegationError (StateM (Session σ × List Event))) :=
  fun subschema object selections (session, events) =>
    let (pending, session) := StateT.run (resolvers subschema object selections) session
    (.ok (awaitNoting (subschema, selections) pending), session,
      events ++ [.asked (subschema, selections)])

end Resolvers

/-- What resolves a merged type in its subschemas are resolvers. -/
theorem MergedType.exists_ask_eq {σ : Type} (merged : MergedType (TypeResolver σ))
    (stitching? : Option (Stitching σ)) (complete : Completion σ) (type : Name)
    (context : Context) (info : FieldInfo) :
    ∃ resolvers : Resolvers σ,
      merged.ask stitching? complete type context info = resolvers.ask := by
  have hbegun : ∀ subschema object selections, ∃ begun : StateM (Session σ) (Act σ FetchedValue),
      merged.ask stitching? complete type context info subschema object selections =
        ExceptT.lift begun := by
    intro subschema object selections
    unfold MergedType.ask
    cases merged.resolvers.get? subschema.name with
    | none => exact ⟨pure _, rfl⟩
    | some resolver =>
      cases resolver with
      | custom fetch =>
        refine ⟨fun session =>
          let (pending, world) := fetch object context info subschema selections session.world
          (pending, { session with world }), rfl⟩
      | rootField services fieldName arguments? => exact ⟨pure _, rfl⟩
  choose resolvers hresolvers using hbegun
  refine ⟨resolvers, ?_⟩
  funext subschema object selections
  exact hresolvers subschema object selections

/-! ## One round -/

/-- The plan of a round, with the answers that are awaited. -/
structure RoundLog where
  /-- Which fields are asked of which subschemas. -/
  plan : Plan
  /-- The calls that are over, each with what it led to. -/
  answers : List (Call × Outcome)

/-- The calls of a round in order. -/
def RoundLog.calls (round : RoundLog) : List Call :=
  round.plan.delegations

/-- What is seen of the resolvers in a round. -/
def RoundLog.events (round : RoundLog) : List Event :=
  round.calls.map Event.asked ++ round.answers.map fun answer => .answered answer.1 answer.2

/-- The sources after rounds: those of the start, and all targets that were proxiable. -/
def sourcesAfter (sources : List Subschema) (rounds : List RoundLog) : List Subschema :=
  sources ++ rounds.flatMap fun round => round.plan.proxiable

/-- Without rounds the sources are those of the start. -/
theorem sourcesAfter_nil (sources : List Subschema) : sourcesAfter sources [] = sources :=
  List.append_nil sources

/-- The targets of a round join the sources for the next ones. -/
theorem sourcesAfter_cons (sources : List Subschema) (round : RoundLog) (rounds : List RoundLog) :
    sourcesAfter sources (round :: rounds) =
      sourcesAfter (sources ++ round.plan.proxiable) rounds := by
  unfold sourcesAfter
  rw [List.flatMap_cons, List.append_assoc]

/-- The answers of calls are awaited in order until one of the calls fails. -/
inductive Answers : List Call → Except DelegationError (List FetchedValue) →
    List (Call × Outcome) → Prop
  /-- No calls are left. -/
  | nil : Answers [] (.ok []) []
  /-- A call is answered, and so are the others. -/
  | ok {call : Call} {calls : List Call} {answer : FetchedValue} {answers : List FetchedValue}
    {log : List (Call × Outcome)} (others : Answers calls (.ok answers) log) :
    Answers (call :: calls) (.ok (answer :: answers)) ((call, .ok answer) :: log)
  /-- A call is answered, but another one fails. -/
  | later {call : Call} {calls : List Call} {answer : FetchedValue} {error : DelegationError}
    {log : List (Call × Outcome)} (others : Answers calls (.error error) log) :
    Answers (call :: calls) (.error error) ((call, .ok answer) :: log)
  /-- A call fails, and no other one is awaited. -/
  | failed {call : Call} {calls : List Call} {error : DelegationError} :
    Answers (call :: calls) (.error error) [(call, .error error)]

section Round

variable {σ : Type} (resolvers : Resolvers σ) (object : FetchedObject)

/-- All calls of a round are begun, in order. -/
theorem exists_runFrom_mapM_ask (calls : List Call) (session : Session σ)
    (events : List Event) :
    ∃ pending session', pending.length = calls.length ∧
      runFrom (calls.mapM fun call => resolvers.ask call.1 object call.2) session =
        (.ok pending, session') ∧
      runFrom (calls.mapM fun call => resolvers.askNoting call.1 object call.2)
          (session, events) =
        (.ok (List.zipWith Resolvers.awaitNoting calls pending), session',
          events ++ calls.map Event.asked) := by
  -- Noting leaves the session alone, so both runs take the same steps.
  induction calls generalizing session events with
  | nil =>
    refine ⟨[], session, rfl, rfl, ?_⟩
    rw [List.map_nil, List.append_nil]
    rfl
  | cons call rest ih =>
    obtain ⟨first, hfirst⟩ : ∃ first,
        StateT.run (resolvers call.1 object call.2) session = first := ⟨_, rfl⟩
    obtain ⟨pending, session', hlength, hplain, hnoting⟩ := ih first.2 (events ++ [.asked call])
    refine ⟨first.1 :: pending, session', by rw [List.length_cons, List.length_cons, hlength],
      ?_, ?_⟩
    · have hask : runFrom (resolvers.ask call.1 object call.2) session =
          (.ok first.1, first.2) := by
        rw [← hfirst]
        rfl
      rw [List.mapM_cons, runFrom_bind_ok hask, runFrom_bind_ok hplain]
      rfl
    · have hask : runFrom (resolvers.askNoting call.1 object call.2) (session, events) =
          (.ok (Resolvers.awaitNoting call first.1), first.2, events ++ [.asked call]) := by
        rw [← hfirst]
        rfl
      rw [List.mapM_cons, runFrom_bind_ok hask, runFrom_bind_ok hnoting, runFrom_pure,
        List.map_cons, List.append_assoc, List.singleton_append]
      rfl

/-- The answers of a round are awaited in order, and the first failure ends it. -/
theorem exists_runFrom_mapM_await (calls : List Call) (pending : List (Act σ FetchedValue))
    (hlength : pending.length = calls.length) (session : Session σ) (events : List Event) :
    ∃ outcome session' log, Answers calls outcome log ∧
      runFrom (pending.mapM id) session = (outcome, session') ∧
      runFrom ((List.zipWith Resolvers.awaitNoting calls pending).mapM id) (session, events) =
        (outcome, session', events ++ log.map fun answer => .answered answer.1 answer.2) := by
  induction calls generalizing pending session events with
  | nil =>
    cases List.eq_nil_of_length_eq_zero hlength
    refine ⟨.ok [], session, [], .nil, rfl, ?_⟩
    rw [List.map_nil, List.append_nil]
    rfl
  | cons call rest ih =>
    obtain ⟨first, others, rfl⟩ := List.exists_cons_of_length_eq_add_one hlength
    have hothers : others.length = rest.length := Nat.succ.inj hlength
    rw [List.zipWith_cons_cons, List.mapM_cons, List.mapM_cons, id, id]
    cases hfirst : runFrom first session with
    | mk outcome session₁ =>
      have hawait : runFrom (Resolvers.awaitNoting call first) (session, events) =
          (outcome, session₁, events ++ [.answered call outcome]) := by
        change (let (outcome, session) := runFrom first session
          (outcome, session, events ++ [Event.answered call outcome])) = _
        rw [hfirst]
      -- A failure ends the awaiting; an answer leaves the others to be awaited.
      cases outcome with
      | error error =>
        refine ⟨.error error, session₁, [(call, .error error)], .failed,
          runFrom_bind_error hfirst, ?_⟩
        rw [runFrom_bind_error hawait]
        rfl
      | ok answer =>
        obtain ⟨outcome, session', log, hanswers, hplain, hnoting⟩ :=
          ih others hothers session₁ (events ++ [.answered call (.ok answer)])
        rw [runFrom_bind_ok hfirst, runFrom_bind_ok hawait]
        rw [List.append_assoc, List.singleton_append] at hnoting
        cases outcome with
        | error error =>
          refine ⟨.error error, session', (call, .ok answer) :: log, .later hanswers,
            runFrom_bind_error hplain, ?_⟩
          rw [runFrom_bind_error hnoting]
          rfl
        | ok answers =>
          refine ⟨.ok (answer :: answers), session', (call, .ok answer) :: log, .ok hanswers,
            ?_, ?_⟩
          · rw [runFrom_bind_ok hplain]
            rfl
          · rw [runFrom_bind_ok hnoting]
            rfl

end Round

/-! ## All rounds -/

namespace MergedType

variable {ρ : Type}

/-- The plan of the next round of a run. -/
def nextPlan (merged : MergedType ρ) (run : MergeRun) : Plan :=
  merged.plan run.waiting run.sources run.targets

/-- A run goes on to its outcome, round by round. -/
inductive Goes (merged : MergedType ρ) :
    MergeRun → Except DelegationError MergeRun → List RoundLog → Prop
  /-- There is nothing to call. -/
  | done {run : MergeRun} (idle : (merged.nextPlan run).delegations = []) :
    Goes merged run (.ok run) []
  /-- A call of the round fails. -/
  | failed {run : MergeRun} {error : DelegationError} {log : List (Call × Outcome)}
    (busy : (merged.nextPlan run).delegations ≠ [])
    (answers : Answers (merged.nextPlan run).delegations (.error error) log) :
    Goes merged run (.error error) [⟨merged.nextPlan run, log⟩]
  /-- All calls of the round are answered, and the run goes on with their answers. -/
  | next {run : MergeRun} {values : List FetchedValue} {log : List (Call × Outcome)}
    {outcome : Except DelegationError MergeRun} {rounds : List RoundLog}
    (busy : (merged.nextPlan run).delegations ≠ [])
    (answers : Answers (merged.nextPlan run).delegations (.ok values) log)
    (rest : Goes merged (run.next (merged.nextPlan run) values) outcome rounds) :
    Goes merged run outcome (⟨merged.nextPlan run, log⟩ :: rounds)

/-- Without targets there is nothing to call. -/
theorem nextPlan_idle (merged : MergedType ρ) {run : MergeRun} (h : run.targets = []) :
    (merged.nextPlan run).delegations = [] := by
  by_contra hbusy
  have hlt : (merged.nextPlan run).nonProxiable.length < run.targets.length :=
    nonProxiable_length_lt hbusy
  rw [h] at hlt
  exact Nat.not_lt_zero _ hlt

section Loop

variable {m : Type → Type} [Monad m] (merged : MergedType ρ) (ask : AskFields m)

/-- A round that has nothing to call is the last one. -/
theorem mergeWithin_idle (fuel : Nat) {run : MergeRun}
    (h : (merged.nextPlan run).delegations = []) :
    merged.mergeWithin ask fuel run = pure run := by
  cases fuel with
  | zero => rfl
  | succ fuel =>
    have hempty : (merged.plan run.waiting run.sources run.targets).delegations.isEmpty = true :=
      List.isEmpty_iff.mpr h
    rw [mergeWithin]
    exact if_pos hempty

/-- A round that has something to call begins its calls, awaits their answers and goes on. -/
theorem mergeWithin_busy (fuel : Nat) {run : MergeRun}
    (h : (merged.nextPlan run).delegations ≠ []) :
    merged.mergeWithin ask (fuel + 1) run = (do
      let pending ← (merged.nextPlan run).delegations.mapM fun call => ask call.1 run.object call.2
      let values ← pending.mapM id
      merged.mergeWithin ask fuel (run.next (merged.nextPlan run) values)) := by
  have hempty :
      ¬ (merged.plan run.waiting run.sources run.targets).delegations.isEmpty = true := by
    rw [List.isEmpty_iff]
    exact h
  rw [mergeWithin]
  exact if_neg hempty

/-- Nothing is left to do beyond as many rounds as there are targets. -/
theorem mergeWithin_add (fuel more : Nat) {run : MergeRun} (hfuel : run.targets.length ≤ fuel) :
    merged.mergeWithin ask (fuel + more) run = merged.mergeWithin ask fuel run := by
  induction fuel generalizing run with
  | zero =>
    have hidle := merged.nextPlan_idle (List.eq_nil_of_length_eq_zero (Nat.le_zero.mp hfuel))
    rw [mergeWithin_idle merged ask _ hidle, mergeWithin_idle merged ask _ hidle]
  | succ fuel ih =>
    by_cases hidle : (merged.nextPlan run).delegations = []
    · rw [mergeWithin_idle merged ask _ hidle, mergeWithin_idle merged ask _ hidle]
    · have hlt : (merged.nextPlan run).nonProxiable.length < run.targets.length :=
        nonProxiable_length_lt hidle
      rw [Nat.add_right_comm, mergeWithin_busy merged ask _ hidle,
        mergeWithin_busy merged ask _ hidle]
      refine bind_congr fun pending => bind_congr fun values => ih ?_
      change (merged.nextPlan run).nonProxiable.length ≤ fuel
      omega

end Loop

/-- Noted or not, a run leads to the same, and what is noted are its rounds. -/
theorem mergeWithin_goes {σ : Type} (merged : MergedType ρ) (resolvers : Resolvers σ) (fuel : Nat)
    (run : MergeRun) (hfuel : run.targets.length ≤ fuel) (session : Session σ)
    (events : List Event) :
    ∃ outcome session' rounds, Goes merged run outcome rounds ∧
      runFrom (merged.mergeWithin resolvers.ask fuel run) session = (outcome, session') ∧
      runFrom (merged.mergeWithin resolvers.askNoting fuel run) (session, events) =
        (outcome, session', events ++ rounds.flatMap RoundLog.events) := by
  -- The fuel is as much as there are targets left, which every round that calls lessens.
  induction fuel generalizing run session events with
  | zero =>
    have hidle := merged.nextPlan_idle (List.eq_nil_of_length_eq_zero (Nat.le_zero.mp hfuel))
    refine ⟨.ok run, session, [], .done hidle, rfl, ?_⟩
    rw [List.flatMap_nil, List.append_nil]
    rfl
  | succ fuel ih =>
    by_cases hidle : (merged.nextPlan run).delegations = []
    · refine ⟨.ok run, session, [], .done hidle, ?_, ?_⟩
      · rw [mergeWithin_idle merged _ _ hidle, runFrom_pure]
      · rw [mergeWithin_idle merged _ _ hidle, runFrom_pure, List.flatMap_nil, List.append_nil]
    · obtain ⟨pending, session₁, hlength, hask, haskNoting⟩ :=
        exists_runFrom_mapM_ask resolvers run.object (merged.nextPlan run).delegations session
          events
      obtain ⟨outcome, session₂, log, hanswers, hawait, hawaitNoting⟩ :=
        exists_runFrom_mapM_await (merged.nextPlan run).delegations pending hlength session₁
          (events ++ (merged.nextPlan run).delegations.map Event.asked)
      rw [mergeWithin_busy merged _ _ hidle, mergeWithin_busy merged _ _ hidle,
        runFrom_bind_ok hask, runFrom_bind_ok haskNoting]
      rw [List.append_assoc] at hawaitNoting
      cases outcome with
      | error error =>
        refine ⟨.error error, session₂, _, .failed hidle hanswers, runFrom_bind_error hawait, ?_⟩
        rw [runFrom_bind_error hawaitNoting, List.flatMap_singleton]
        rfl
      | ok values =>
        have hlt : (merged.nextPlan run).nonProxiable.length < run.targets.length :=
          nonProxiable_length_lt hidle
        obtain ⟨outcome, session', rounds, hrest, hplain, hnoting⟩ :=
          ih (run.next (merged.nextPlan run) values)
            (by change (merged.nextPlan run).nonProxiable.length ≤ fuel; omega) session₂
            (events ++ RoundLog.events ⟨merged.nextPlan run, log⟩)
        refine ⟨outcome, session', _, .next hidle hanswers hrest, ?_, ?_⟩
        · rw [runFrom_bind_ok hawait]
          exact hplain
        · rw [List.append_assoc] at hnoting
          rw [runFrom_bind_ok hawaitNoting, List.flatMap_cons]
          exact hnoting

end MergedType

end Gateway
