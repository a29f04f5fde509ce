import Gateway.Delegation.Delegate
import Gateway.Proofs.Session
import Gateway.Schema.Builtin
import Mathlib.Data.List.Forall2
import Mathlib.Data.List.Infix

/-!
# The course of a delegation

A delegation passes its request through the request hooks of a chain, validates it, sends it to the
service and passes the response back through the result hooks, from the end of the chain. Hooks may
do anything to the session and may fail. `Hooked` lists the calls of hooks, each from the session in
which the one before it ended, and `Delegation.Goes` takes a delegation from a session to its
outcome by such calls, with one rule for each way in which it can end.

Every run takes this course (`Delegation.run_goes`): at most one request is sent, and one is
exactly when every request hook succeeds, the request is valid and there is something to answer it.
All of this is for delegations whose root field and its type are known; without them a delegation
ends before it calls any hook.
-/

namespace Gateway

variable {σ α : Type}

/-! ## Calls of hooks -/

/-- The hooks of transforms are called in order, each with what the one before it led to, until one
of them fails. The calls are listed with what each hook is given. -/
inductive Hooked (hook : Transform σ → α → Act σ α) :
    List (Transform σ) → α → Session σ → Except DelegationError α → Session σ →
      List (Transform σ × α) → Prop
  /-- No transforms are left. -/
  | done {given : α} {session : Session σ} : Hooked hook [] given session (.ok given) session []
  /-- A hook fails, and no other one is called. -/
  | failed {transform : Transform σ} {rest : List (Transform σ)} {given : α}
    {error : DelegationError} {session session' : Session σ}
    (fails : runFrom (hook transform given) session = (.error error, session')) :
    Hooked hook (transform :: rest) given session (.error error) session' [(transform, given)]
  /-- A hook succeeds, and the others are called with what it leads to. -/
  | passed {transform : Transform σ} {rest : List (Transform σ)} {given next : α}
    {outcome : Except DelegationError α} {session session₁ session' : Session σ}
    {calls : List (Transform σ × α)}
    (succeeds : runFrom (hook transform given) session = (.ok next, session₁))
    (others : Hooked hook rest next session₁ outcome session' calls) :
    Hooked hook (transform :: rest) given session outcome session' ((transform, given) :: calls)

section Hooked

variable {hook : Transform σ → α → Act σ α} {transforms : List (Transform σ)} {given : α}
  {outcome outcome₁ : Except DelegationError α} {session session' session₁ : Session σ}
  {calls calls₁ : List (Transform σ × α)}

/-- A fold of hooks calls them. -/
theorem exists_hooked (hook : Transform σ → α → Act σ α) (transforms : List (Transform σ))
    (given : α) (session : Session σ) :
    ∃ outcome session' calls, Hooked hook transforms given session outcome session' calls ∧
      runFrom (transforms.foldlM (fun given transform => hook transform given) given) session =
        (outcome, session') := by
  induction transforms generalizing given session with
  | nil => exact ⟨.ok given, session, [], .done, rfl⟩
  | cons first rest ih =>
    rw [List.foldlM_cons]
    cases hfirst : runFrom (hook first given) session with
    | mk called session₁ =>
      cases called with
      | error error =>
        exact ⟨.error error, session₁, _, .failed hfirst, runFrom_bind_error hfirst⟩
      | ok next =>
        obtain ⟨outcome, session', calls, hothers, hrun⟩ := ih next session₁
        exact ⟨outcome, session', _, .passed hfirst hothers, (runFrom_bind_ok hfirst).trans hrun⟩

/-- What hooks lead to and which of them are called is determined. -/
theorem Hooked.unique (h : Hooked hook transforms given session outcome session' calls)
    (h₁ : Hooked hook transforms given session outcome₁ session₁ calls₁) :
    outcome₁ = outcome ∧ session₁ = session' ∧ calls₁ = calls := by
  induction h generalizing outcome₁ session₁ calls₁ with
  | done =>
    cases h₁
    exact ⟨rfl, rfl, rfl⟩
  | failed fails =>
    cases h₁ with
    | failed fails₁ =>
      cases fails.symm.trans fails₁
      exact ⟨rfl, rfl, rfl⟩
    | passed succeeds₁ => exact absurd (fails.symm.trans succeeds₁) (by simp)
  | passed succeeds _ ih =>
    cases h₁ with
    | failed fails₁ => exact absurd (succeeds.symm.trans fails₁) (by simp)
    | passed succeeds₁ others₁ =>
      cases succeeds.symm.trans succeeds₁
      obtain ⟨houtcome, hsession, hcalls⟩ := ih others₁
      exact ⟨houtcome, hsession, by rw [hcalls]⟩

/-- Hooks are called in the order of the transforms. -/
theorem Hooked.isPrefix (h : Hooked hook transforms given session outcome session' calls) :
    calls.map Prod.fst <+: transforms := by
  induction h with
  | done => exact List.prefix_rfl
  | failed => exact List.cons_prefix_cons.mpr ⟨rfl, List.nil_prefix⟩
  | passed _ _ ih => exact List.cons_prefix_cons.mpr ⟨rfl, ih⟩

/-- When all hooks succeed, the hook of every transform is called. -/
theorem Hooked.calls_eq {value : α}
    (h : Hooked hook transforms given session (.ok value) session' calls) :
    calls.map Prod.fst = transforms := by
  generalize houtcome : (Except.ok value : Except DelegationError α) = outcome at h
  induction h with
  | done => rfl
  | failed => exact absurd houtcome (by simp)
  | passed _ _ ih => rw [List.map_cons, ih houtcome]

/-- When the hooks fail, it is the last one called that fails, with the same error. -/
theorem Hooked.exists_failed {error : DelegationError}
    (h : Hooked hook transforms given session (.error error) session' calls) :
    ∃ earlier transform value before, calls = earlier ++ [(transform, value)] ∧
      runFrom (hook transform value) before = (.error error, session') := by
  generalize houtcome : (Except.error error : Except DelegationError α) = outcome at h
  induction h with
  | done => exact absurd houtcome (by simp)
  | failed fails =>
    cases houtcome
    exact ⟨[], _, _, _, rfl, fails⟩
  | passed _ _ ih =>
    obtain ⟨earlier, transform, value, before, hcalls, hfails⟩ := ih houtcome
    exact ⟨_ :: earlier, transform, value, before, by rw [hcalls, List.cons_append], hfails⟩

end Hooked

/-! ## Chains -/

namespace Transform

/-- The transforms of a chain in front of those of the subschema and of the call. -/
def leading (context : DelegationContext) : List (Transform σ) :=
  (if context.gatewayRequirements?.isSome then [addSelectionsByField, addSelectionsByType] else [])
  ++ [wrapConcreteTypes context.view context.returnType]
  ++ (context.gateway?.map fun gateway => expandAbstractTypes gateway context.view).toList

/-- The transforms of a chain behind those of the subschema and of the call. -/
def trailing (context : DelegationContext) : List (Transform σ) :=
  (if context.gatewayRequirements?.isSome then [addFragmentsByField] else [])
  ++ (context.arguments?.map addArgumentsAsVariables).toList
  ++ [filterToTarget, addTypenameToAbstract]

/-- The transforms of the subschema and of the call stand in a chain in reverse order. -/
theorem chain_eq (context : DelegationContext) (transforms : List (Transform σ)) :
    chain context transforms = leading context ++ transforms.reverse ++ trailing context := by
  simp only [chain, leading, trailing, List.append_assoc]

end Transform

/-! ## Responses -/

/-- A response passes the result hooks from the end of the chain, and is read when all of them
succeed. -/
inductive Returned (complete : Completion σ) (chain : List (Transform σ))
    (context : DelegationContext) (response : Response) (session : Session σ) :
    Except DelegationError FetchedValue → Session σ → List (Transform σ × Response) → Prop
  /-- A result hook fails. -/
  | failed {error : DelegationError} {session' : Session σ} {calls : List (Transform σ × Response)}
    (hooked : Hooked (fun transform => transform.result context) chain.reverse response session
      (.error error) session' calls) :
    Returned complete chain context response session (.error error) session' calls
  /-- The value of the delegated field is read. -/
  | read {passed : Response} {outcome : Except DelegationError FetchedValue}
    {session₁ session' : Session σ} {calls : List (Transform σ × Response)}
    (hooked : Hooked (fun transform => transform.result context) chain.reverse response session
      (.ok passed) session₁ calls)
    (reads : runFrom (context.fieldValue complete passed) session₁ = (outcome, session')) :
    Returned complete chain context response session outcome session' calls

/-- A value of the delegated field as the root object of an event. -/
def DelegationContext.root (context : DelegationContext) (value : FetchedValue) : FetchedObject :=
  { fields := [(context.fieldName, value)], owner := context.subschema.name }

section Returned

variable {complete : Completion σ} {chain : List (Transform σ)} {context : DelegationContext}
  {response : Response} {session session' : Session σ}
  {outcome : Except DelegationError FetchedValue} {calls : List (Transform σ × Response)}

/-- What a response leads to, it leads to by its way back. -/
theorem exists_returned (complete : Completion σ) (chain : List (Transform σ))
    (context : DelegationContext) (response : Response) (session : Session σ) :
    ∃ outcome session' calls,
      Returned complete chain context response session outcome session' calls ∧
      runFrom (Delegation.valueOf complete chain context response) session =
        (outcome, session') := by
  obtain ⟨hooked, session₁, calls, hhooked, hrun⟩ :=
    exists_hooked (fun transform => transform.result context) chain.reverse response session
  cases hooked with
  | error error =>
    exact ⟨.error error, session₁, calls, .failed hhooked, runFrom_bind_error hrun⟩
  | ok passed =>
    exact ⟨_, _, calls, .read hhooked rfl, runFrom_bind_ok hrun⟩

/-- What an event leads to, its response leads to by its way back; the value becomes the field of a
root object. -/
theorem exists_returned_event (complete : Completion σ) (chain : List (Transform σ))
    (context : DelegationContext) (response : Response) (session : Session σ) :
    ∃ outcome session' calls,
      Returned complete chain context response session outcome session' calls ∧
      runFrom (Delegation.eventOf complete chain context response) session =
        (outcome.map context.root, session') := by
  obtain ⟨outcome, session', calls, hreturned, hrun⟩ :=
    exists_returned complete chain context response session
  refine ⟨outcome, session', calls, hreturned, ?_⟩
  unfold Delegation.eventOf
  cases outcome with
  | error error => exact runFrom_bind_error hrun
  | ok value => exact runFrom_bind_ok hrun

/-- Result hooks are called from the end of the chain on. -/
theorem Returned.isPrefix
    (h : Returned complete chain context response session outcome session' calls) :
    calls.map Prod.fst <+: chain.reverse := by
  cases h with
  | failed hooked => exact hooked.isPrefix
  | read hooked _ => exact hooked.isPrefix

end Returned

/-- Whatever the session, an event leads to what its response leads to on its way back. -/
def LeadsBack (complete : Completion σ) (chain : List (Transform σ)) (context : DelegationContext)
    (response : Response) (event : Act σ FetchedObject) : Prop :=
  ∀ session, ∃ outcome session' calls,
    Returned complete chain context response session outcome session' calls ∧
    runFrom event session = (outcome.map context.root, session')

/-! ## Delegations -/

/-- What a delegation is seen to do. -/
structure CourseLog (σ : Type) where
  /-- The calls of request hooks. -/
  requests : List (Transform σ × Request) := []
  /-- What is sent to the service. -/
  deliveries : List Delivery := []
  /-- The calls of result hooks for a response. -/
  results : List (Transform σ × Response) := []

namespace Delegation

variable {delegation : Delegation σ} {complete : Completion σ} {context : DelegationContext}

/-- What answers what is sent: the subscriber for a subscription, or else the executor. -/
def answerer? (delegation : Delegation σ) (context : DelegationContext) :
    Option (Subscriber σ) :=
  if context.kind = .subscription then delegation.service.subscriber?
  else some fun delivery => .response <$> executor delegation.service delivery

/-- The request hooks of the chain are called with the request. -/
def Requested (delegation : Delegation σ) (context : DelegationContext) :
    Session σ → Except DelegationError Request → Session σ → List (Transform σ × Request) → Prop :=
  Hooked (fun transform => transform.request context) (delegation.chain context)
    delegation.request

/-- A request is valid, or it is not validated. -/
def Accepts (delegation : Delegation σ) (context : DelegationContext) (request : Request) : Prop :=
  delegation.skipsValidation = true ∨ context.target.check request.document = []

/-- Every request hook succeeds, what they lead to is accepted, and for a subscription there is a
subscriber. -/
def Sends (delegation : Delegation σ) (context : DelegationContext) (session : Session σ) : Prop :=
  ∃ request session' calls, delegation.Requested context session (.ok request) session' calls ∧
    delegation.Accepts context request ∧
    (context.kind = .subscription → delegation.service.subscriber?.isSome = true)

/-- A delegation goes from a session to its outcome. -/
inductive Goes (complete : Completion σ) (delegation : Delegation σ) (session : Session σ) :
    Except DelegationError (Delegated σ) → Session σ → CourseLog σ → Prop
  /-- The root field or its type is not known. -/
  | unknown {error : DelegationError} (unknown : delegation.delegationContext = .error error) :
    Goes complete delegation session (.error error) session {}
  /-- A request hook fails. -/
  | failed {context : DelegationContext} {error : DelegationError} {session' : Session σ}
    {requests : List (Transform σ × Request)}
    (known : delegation.delegationContext = .ok context)
    (requested : delegation.Requested context session (.error error) session' requests) :
    Goes complete delegation session (.error error) session' { requests }
  /-- The request is not valid. -/
  | invalid {context : DelegationContext} {request : Request} {session' : Session σ}
    {requests : List (Transform σ × Request)} {error : DelegationError}
    (known : delegation.delegationContext = .ok context)
    (requested : delegation.Requested context session (.ok request) session' requests)
    (refused : ¬ delegation.Accepts context request)
    (findings : validate context.target request = .error error) :
    Goes complete delegation session (.error error) session' { requests }
  /-- There is no subscriber. -/
  | unanswered {context : DelegationContext} {request : Request} {session' : Session σ}
    {requests : List (Transform σ × Request)}
    (known : delegation.delegationContext = .ok context)
    (requested : delegation.Requested context session (.ok request) session' requests)
    (accepted : delegation.Accepts context request)
    (missing : delegation.answerer? context = none) :
    Goes complete delegation session
      (.error (.missingSubscriber delegation.service.subschema.name)) session' { requests }
  /-- The request is answered with a response, which is passed back. -/
  | response {context : DelegationContext} {request : Request} {session₁ session' : Session σ}
    {requests : List (Transform σ × Request)} {answer : Subscriber σ} {response : Response}
    {world : σ} {outcome : Except DelegationError FetchedValue}
    {results : List (Transform σ × Response)}
    (known : delegation.delegationContext = .ok context)
    (requested : delegation.Requested context session (.ok request) session₁ requests)
    (accepted : delegation.Accepts context request)
    (found : delegation.answerer? context = some answer)
    (answered : answer (delegation.delivery request) session₁.world = (.response response, world))
    (returned : Returned complete (delegation.chain context) context response
      { session₁ with world } outcome session' results) :
    Goes complete delegation session (outcome.map .value) session'
      { requests, deliveries := [delegation.delivery request], results }
  /-- The request is answered with a stream, each event of which is passed back for itself when it
  is taken. -/
  | stream {context : DelegationContext} {request : Request} {session₁ : Session σ}
    {requests : List (Transform σ × Request)} {answer : Subscriber σ} {responses : List Response}
    {world : σ} {events : List (Act σ FetchedObject)}
    (known : delegation.delegationContext = .ok context)
    (requested : delegation.Requested context session (.ok request) session₁ requests)
    (accepted : delegation.Accepts context request)
    (found : delegation.answerer? context = some answer)
    (answered : answer (delegation.delivery request) session₁.world = (.events responses, world))
    (returned : List.Forall₂ (LeadsBack complete (delegation.chain context) context)
      responses events) :
    Goes complete delegation session (.ok (.stream events)) { session₁ with world }
      { requests, deliveries := [delegation.delivery request] }

/-- A delegation follows the order of its chain. -/
structure Follows (delegation : Delegation σ) (context : DelegationContext) (session : Session σ)
    (outcome : Except DelegationError (Delegated σ)) (log : CourseLog σ) : Prop where
  /-- The transforms of the service and of the call stand in the chain in reverse order. -/
  chain : delegation.chain context = Transform.leading context
    ++ (delegation.service.transforms ++ delegation.transforms).reverse
    ++ Transform.trailing context
  /-- Request hooks are called in the order of the chain. -/
  requests : log.requests.map Prod.fst <+: delegation.chain context
  /-- The first one that fails is the last one that is called, and its error is the outcome. -/
  failed : ∀ error session', delegation.Requested context session (.error error) session'
      log.requests → outcome = .error error ∧ log.deliveries = [] ∧
    ∃ earlier transform given before, log.requests = earlier ++ [(transform, given)] ∧
      runFrom (transform.request context given) before = (.error error, session')
  /-- No more than one request is sent. -/
  once : log.deliveries.length ≤ 1
  /-- Before it is, the hook of every transform is called. -/
  called : log.deliveries.length = 1 → log.requests.map Prod.fst = delegation.chain context
  /-- One is sent when every request hook succeeds, its request is accepted and, for a
  subscription, there is a subscriber; only then. -/
  sent : log.deliveries.length = 1 ↔ delegation.Sends context session
  /-- Result hooks are called in the reverse order of the chain, after a request was sent. -/
  results : log.results.map Prod.fst <+: (delegation.chain context).reverse ∧
    (log.results ≠ [] → log.deliveries.length = 1)

/-- A request that is validated is accepted when nothing is found wrong with it. -/
theorem validate_eq_ok_iff {schema : Schema} {request : Request} :
    validate schema request = .ok () ↔ schema.check request.document = [] := by
  unfold validate
  cases schema.check request.document <;> simp

/-- What becomes of a request that is accepted. -/
def deliver (complete : Completion σ) (delegation : Delegation σ) (context : DelegationContext)
    (request : Request) : Act σ (Delegated σ) :=
  match delegation.answerer? context with
  | none => throw (.missingSubscriber delegation.service.subschema.name)
  | some answer => do
    match ← Act.ofWorld (answer (delegation.delivery request)) with
    | .response response =>
      return .value (← valueOf complete (delegation.chain context) context response)
    | .events responses =>
      return .stream (responses.map (eventOf complete (delegation.chain context) context))

/-- A delegation passes its request through the chain, validates it and delivers it. -/
theorem run_eq (complete : Completion σ) (delegation : Delegation σ) :
    delegation.run complete = (do
      let context ← Act.ofExcept delegation.delegationContext
      let request ← Transform.applyRequest (delegation.chain context) context delegation.request
      Act.ofExcept (if delegation.skipsValidation then .ok () else validate context.target request)
      delegation.deliver complete context request) := by
  unfold run
  refine bind_congr fun context => bind_congr fun request => ?_
  have hdeliver : (if context.kind = .subscription then
      match delegation.service.subscriber? with
      | none => throw (.missingSubscriber delegation.service.subschema.name)
      | some subscribe => do
        match ← Act.ofWorld (subscribe (delegation.delivery request)) with
        | .response response =>
          return .value (← valueOf complete (delegation.chain context) context response)
        | .events responses =>
          return .stream (responses.map (eventOf complete (delegation.chain context) context))
    else do
      let response ← Act.ofWorld (executor delegation.service (delegation.delivery request))
      return .value (← valueOf complete (delegation.chain context) context response)) =
      delegation.deliver complete context request := by
    unfold deliver answerer?
    split_ifs <;> rfl
  cases delegation.skipsValidation with
  | false => exact bind_congr fun _ => hdeliver
  | true => exact hdeliver

/-- What becomes of an accepted request is the rest of a course. -/
theorem exists_goes_of_accepted {request : Request} {session session₁ : Session σ}
    {requests : List (Transform σ × Request)}
    (known : delegation.delegationContext = .ok context)
    (requested : delegation.Requested context session (.ok request) session₁ requests)
    (accepted : delegation.Accepts context request) (complete : Completion σ) :
    ∃ outcome session' log,
      runFrom (delegation.deliver complete context request) session₁ = (outcome, session') ∧
      delegation.Goes complete session outcome session' log := by
  unfold deliver
  cases hfound : delegation.answerer? context with
  | none => exact ⟨_, session₁, _, rfl, .unanswered known requested accepted hfound⟩
  | some answer =>
    obtain ⟨⟨given, world⟩, hgiven⟩ :
        ∃ given, answer (delegation.delivery request) session₁.world = given := ⟨_, rfl⟩
    have hsent : runFrom (Act.ofWorld (answer (delegation.delivery request))) session₁ =
        (.ok given, { session₁ with world }) := by
      change (Except.ok (answer (delegation.delivery request) session₁.world).1, _) = _
      rw [hgiven]
    dsimp only
    rw [runFrom_bind_ok hsent]
    cases given with
    | response response =>
      obtain ⟨outcome, session', results, hreturned, hrun⟩ :=
        exists_returned complete (delegation.chain context) context response
          { session₁ with world }
      refine ⟨_, session', _, ?_, .response known requested accepted hfound hgiven hreturned⟩
      cases outcome with
      | error error => exact runFrom_bind_error hrun
      | ok value => exact runFrom_bind_ok hrun
    | events responses =>
      refine ⟨_, { session₁ with world }, _, rfl,
        .stream known requested accepted hfound hgiven ?_⟩
      rw [List.forall₂_map_right_iff, List.forall₂_same]
      intro response _ session
      exact exists_returned_event complete (delegation.chain context) context response session

/-- Every run of a delegation takes its course. -/
theorem exists_goes (complete : Completion σ) (delegation : Delegation σ) (session : Session σ) :
    ∃ outcome session' log, runFrom (delegation.run complete) session = (outcome, session') ∧
      delegation.Goes complete session outcome session' log := by
  rw [run_eq]
  -- Each stage ends the run by a rule of its own, or hands what it leads to on to the next stage.
  cases hcontext : delegation.delegationContext with
  | error error => exact ⟨_, session, _, rfl, .unknown hcontext⟩
  | ok context =>
    have hknown : runFrom (Act.ofExcept (.ok context) : Act σ DelegationContext) session =
        (.ok context, session) := rfl
    obtain ⟨passed, session₁, requests, hrequested, hrequests⟩ := exists_hooked
      (fun transform => transform.request context) (delegation.chain context) delegation.request
      session
    rw [runFrom_bind_ok hknown]
    cases passed with
    | error error =>
      exact ⟨_, session₁, _, runFrom_bind_error hrequests, .failed hcontext hrequested⟩
    | ok request =>
      have hpassed : runFrom
          (Transform.applyRequest (delegation.chain context) context delegation.request) session =
          (.ok request, session₁) := hrequests
      rw [runFrom_bind_ok hpassed]
      by_cases haccepted : delegation.Accepts context request
      · have hvalid : (if delegation.skipsValidation then .ok ()
            else validate context.target request) = .ok () := by
          rcases haccepted with hskips | hvalid
          · exact if_pos hskips
          · rw [validate_eq_ok_iff.mpr hvalid, ite_self]
        rw [hvalid]
        exact exists_goes_of_accepted hcontext hrequested haccepted complete
      · have hskips : ¬ delegation.skipsValidation = true := fun h => haccepted (.inl h)
        cases hvalid : validate context.target request with
        | ok => exact absurd (.inr (validate_eq_ok_iff.mp hvalid)) haccepted
        | error error =>
          rw [if_neg hskips]
          exact ⟨_, session₁, _, rfl, .invalid hcontext hrequested haccepted hvalid⟩

/-- Only a subscription may have nothing to answer it. -/
theorem isSome_answerer?_iff (delegation : Delegation σ) (context : DelegationContext) :
    (delegation.answerer? context).isSome = true ↔
      (context.kind = .subscription → delegation.service.subscriber?.isSome = true) := by
  unfold answerer?
  split_ifs with hkind
  · exact ⟨fun h _ => h, fun h => h hkind⟩
  · exact ⟨fun _ h => absurd h hkind, fun _ => rfl⟩

section Follows

variable {session session' : Session σ} {outcome : Except DelegationError (Delegated σ)}
  {requests : List (Transform σ × Request)}

/-- Where nothing is sent, the request hooks follow the chain. -/
theorem follows_unsent {passed : Except DelegationError Request}
    (requested : delegation.Requested context session passed session' requests)
    (hfailed : ∀ error, passed = .error error → outcome = .error error)
    (hnot : ¬ delegation.Sends context session) :
    delegation.Follows context session outcome { requests } where
  chain := Transform.chain_eq context _
  requests := requested.isPrefix
  failed error session₁ h := by
    obtain ⟨rfl, -, -⟩ := requested.unique h
    exact ⟨hfailed error rfl, rfl, h.exists_failed⟩
  once := Nat.zero_le 1
  called h := absurd h (by simp)
  sent := ⟨fun h => absurd h (by simp), fun h => absurd h hnot⟩
  results := ⟨List.nil_prefix, fun h => absurd rfl h⟩

/-- Where a request is sent, the request hooks follow the chain, and what is called for the response
follows it when this is in reverse order. -/
theorem follows_sent {request : Request} {answer : Subscriber σ}
    {results : List (Transform σ × Response)}
    (requested : delegation.Requested context session (.ok request) session' requests)
    (accepted : delegation.Accepts context request)
    (found : delegation.answerer? context = some answer)
    (hresults : results.map Prod.fst <+: (delegation.chain context).reverse) (delivery : Delivery) :
    delegation.Follows context session outcome
      { requests, deliveries := [delivery], results } where
  chain := Transform.chain_eq context _
  requests := requested.isPrefix
  failed error session₁ h := absurd (requested.unique h).1 (by simp)
  once := Nat.le_refl 1
  called _ := requested.calls_eq
  sent := by
    have hanswered := (isSome_answerer?_iff delegation context).mp (Option.isSome_of_mem found)
    exact ⟨fun _ => ⟨request, session', requests, requested, accepted, hanswered⟩, fun _ => rfl⟩
  results := ⟨hresults, fun _ => rfl⟩

/-- Nothing is sent when the request that the hooks lead to is not accepted or there is nothing to
answer it. -/
theorem not_sends {request : Request}
    (requested : delegation.Requested context session (.ok request) session' requests)
    (hnot : delegation.Accepts context request → delegation.answerer? context = none) :
    ¬ delegation.Sends context session := by
  rintro ⟨request', _, _, requested', accepted, hanswered⟩
  obtain ⟨hsame, -, -⟩ := requested.unique requested'
  cases hsame
  rw [← isSome_answerer?_iff, hnot accepted] at hanswered
  exact Bool.false_ne_true hanswered

/-- A course follows the order of the chain. -/
theorem Goes.follows {log : CourseLog σ}
    (h : delegation.Goes complete session outcome session' log)
    (known : delegation.delegationContext = .ok context) :
    delegation.Follows context session outcome log := by
  cases h with
  | unknown unknown => exact absurd (unknown.symm.trans known) (by simp)
  | failed known' requested =>
    cases known.symm.trans known'
    refine follows_unsent requested (fun _ h => by cases h; rfl) ?_
    rintro ⟨_, _, _, requested', -⟩
    exact absurd (requested.unique requested').1 (by simp)
  | invalid known' requested refused =>
    cases known.symm.trans known'
    exact follows_unsent requested (by simp) (not_sends requested fun h => absurd h refused)
  | unanswered known' requested _ missing =>
    cases known.symm.trans known'
    exact follows_unsent requested (by simp) (not_sends requested fun _ => missing)
  | response known' requested accepted found _ returned =>
    cases known.symm.trans known'
    exact follows_sent requested accepted found returned.isPrefix _
  | stream known' requested accepted found =>
    cases known.symm.trans known'
    refine follows_sent requested accepted found ?_ _
    exact List.nil_prefix

end Follows

/-- Every run of a delegation takes a course, which is in the order of its chain when the root field
and its type are known, and over at once when they are not. -/
theorem run_goes (delegation : Delegation σ) (complete : Completion σ) (session : Session σ) :
    ∃ outcome session' log,
      runFrom (delegation.run complete) session = (outcome, session') ∧
      delegation.Goes complete session outcome session' log ∧
      (∀ context, delegation.delegationContext = .ok context →
        delegation.Follows context session outcome log) ∧
      (∀ error, delegation.delegationContext = .error error →
        outcome = .error error ∧ session' = session ∧ log = {}) := by
  obtain ⟨outcome, session', log, hrun, hgoes⟩ := exists_goes complete delegation session
  refine ⟨outcome, session', log, hrun, hgoes, fun _ known => hgoes.follows known, ?_⟩
  intro error unknown
  have hcontext : ∀ {context}, delegation.delegationContext ≠ .ok context := by
    intro context known
    exact absurd (known.symm.trans unknown) (by simp)
  cases hgoes with
  | unknown unknown' =>
    cases unknown.symm.trans unknown'
    exact ⟨rfl, rfl, rfl⟩
  | failed known => exact absurd known hcontext
  | invalid known => exact absurd known hcontext
  | unanswered known => exact absurd known hcontext
  | response known => exact absurd known hcontext
  | stream known => exact absurd known hcontext

/-- A transform that notes its calls. -/
def notingTransform : Transform (List String) where
  request _ request := do
    Act.ofWorld (modify (· ++ ["request"]))
    return request
  result _ response := do
    Act.ofWorld (modify (· ++ ["result"]))
    return response

/-- A service of a user that notes what it executes. -/
def notingService : Service (List String) where
  subschema := {
    name := "accounts"
    schema := {
      types := [Builtin.scalar "String",
        Builtin.object "Query" [Builtin.field "user" (.named "User")],
        Builtin.object "User" [Builtin.field "name" (.named "String")]]
      directives := []
      roots := [(.query, "Query")] } }
  executor? := some fun _ => do
    modify (· ++ ["execute"])
    return { data := some (.object [("user", .object [("name", .string "Ann")])]) }

/-- A delegation whose root field is selected in a fragment. -/
def spreadRoot : Delegation (List String) where
  service := notingService
  request := {
    document := [
      .operation { selections := [.spread "Root" []] },
      .fragment { name := "Root", condition := "Query", selections := [
        .field { name := "user", selections := [.field { name := "name" }] }] }] }
  returnType? := some (.named "User")
  transforms := [notingTransform]

/-- It ends with an error before any hook is called, although the same request passes the hooks and
the validation and is executed when the root field is named. -/
theorem not_executed_spreadRoot :
    runFrom (spreadRoot.run fun _ _ _ _ object => pure object) { world := [] } =
      (.error (.invalidRequest "the request selects no root field"), { world := [] }) ∧
    (runFrom ({ spreadRoot with fieldName? := some "user" }.run
        fun _ _ _ _ object => pure object) { world := [] }).2.world =
      ["request", "execute", "result"] :=
  ⟨rfl, by decide +kernel⟩

end Delegation

end Gateway
