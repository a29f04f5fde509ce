import Gateway.Proofs.Delegation.Course
import Gateway.Proofs.Delegation.Nested
import Gateway.Proofs.Fetched.Reading
import Gateway.Proofs.Stitching.Lossless
import Gateway.Proofs.Transform.Stable

/-!
# Where the value of the root field is found

A delegation without a gateway field and without transforms of its own makes a request for its root
field (`Delegation.SelectsRoot.asksFirst`). It sends the field under the response key that it has
there, since every transform of the chain keeps name and alias (`Transform.KeepsRoot`). The value is
then read from what the response has under the name of the field. This is the response key of the
field unless the field has an alias. With an alias nothing is found: the delegation succeeds with a
value that is made of the errors alone, none of which has a path (`Delegation.Answered.run_reads`).
-/

namespace Gateway

/-! ## Requests for one root field -/

/-- The selection is of the field, apart from arguments and selections, or of the meta field. -/
def Selection.Asks (node : Field) (selection : Selection) : Prop :=
  ∃ asked : Field, selection = .field asked ∧
    (asked.name = node.name ∧ asked.alias? = node.alias? ∨
      asked.name = typenameField ∧ asked.alias? = none)

/-- The first operation selects nothing but the field at its root, and the meta field. -/
def Document.AsksFirst (node : Field) (document : Document) : Prop :=
  ∃ operation, document.operations.head? = some operation ∧
    ∀ selection ∈ operation.selections, selection.Asks node

/-- An operation selects nothing but the field when another one does. -/
def Operation.KeepsRoot (node : Field) (operation kept : Operation) : Prop :=
  (∀ selection ∈ operation.selections, selection.Asks node) →
    ∀ selection ∈ kept.selections, selection.Asks node

section AsksFirst

variable {node : Field} {document output : Document}

/-- When every operation is kept in turn, the first one is. -/
theorem Document.AsksFirst.of_forall₂ (h : document.AsksFirst node)
    (hkept : List.Forall₂ (Operation.KeepsRoot node) document.operations output.operations) :
    output.AsksFirst node := by
  obtain ⟨operation, hhead, hasks⟩ := h
  obtain ⟨rest, hrest⟩ := List.head?_eq_some_iff.mp hhead
  rw [hrest] at hkept
  obtain ⟨first, others, hfirst, -, hothers⟩ := List.forall₂_cons_left_iff.mp hkept
  exact ⟨first, by rw [hothers, List.head?_cons], hfirst hasks⟩

end AsksFirst

/-! ## Transforms that keep the root field -/

namespace Transform

variable {node : Field} {schema : Schema} {document output : Document}

/-- The selections of a root field that are wrapped are its own business. -/
theorem asks_wrapRootField {root concrete : Name} {selection : Selection}
    (h : selection.Asks node) : (wrapRootField schema root concrete selection).Asks node := by
  obtain ⟨asked, rfl, hasks⟩ := h
  unfold wrapRootField
  dsimp only
  split
  · split_ifs
    · exact ⟨_, rfl, hasks⟩
    · exact ⟨asked, rfl, hasks⟩
  · exact ⟨asked, rfl, hasks⟩

/-- Wrapping selections keeps the root field. -/
theorem wrapConcrete_asksFirst {concrete : Name}
    (houtput : wrapConcrete schema concrete document = .ok output) (h : document.AsksFirst node) :
    output.AsksFirst node := by
  unfold wrapConcrete at houtput
  split_ifs at houtput
  · refine h.of_forall₂ ?_
    have hall := mapM_eq_ok_iff.mp houtput
    clear houtput h
    induction hall with
    | nil => exact .nil
    | @cons definition changed rest others hfirst _ ih =>
      cases definition with
      | operation operation =>
        dsimp only at hfirst
        split at hfirst
        · cases hfirst
        · cases hfirst
          refine .cons (fun hasks selection hmem => ?_) ih
          obtain ⟨asked, hasked, rfl⟩ := List.mem_map.mp hmem
          exact asks_wrapRootField (hasks asked hasked)
      | fragment fragment =>
        cases hfirst
        exact ih
      | typeSystem definition =>
        cases hfirst
        exact ih
  · cases houtput
    exact h

/-- Binding arguments keeps the root field. -/
theorem asks_bindInSelections {supplied : Entries Json} {root : Name} {vars : BoundVariables}
    {selections : List Selection} (h : ∀ selection ∈ selections, selection.Asks node) :
    ∀ selection ∈ (bindInSelections schema supplied root vars selections).2,
      selection.Asks node := by
  induction selections generalizing vars with
  | nil => exact fun _ hmem => absurd hmem List.not_mem_nil
  | cons first rest ih =>
    obtain ⟨⟨asked, rfl, hasks⟩, hrest⟩ := List.forall_mem_cons.mp h
    rw [bindInSelections]
    refine List.forall_mem_cons.mpr ⟨?_, ih hrest⟩
    unfold bindInSelection
    dsimp only
    split
    · exact ⟨_, rfl, hasks⟩
    · exact ⟨asked, rfl, hasks⟩

/-- Sending arguments as variables keeps the root field. -/
theorem addArguments_asksFirst {supplied : Entries Json} {request : Request}
    (h : request.document.AsksFirst node) :
    (addArguments schema supplied request).document.AsksFirst node := by
  refine h.of_forall₂ ?_
  unfold addArguments
  dsimp only
  generalize request.vars = values
  generalize request.document = document
  induction document generalizing values with
  | nil => exact .nil
  | cons definition rest ih =>
    cases definition with
    | operation operation =>
      refine .cons (fun hasks => ?_) (ih _)
      dsimp only
      split
      · exact hasks
      · exact asks_bindInSelections hasks
    | fragment fragment => exact ih values
    | typeSystem definition => exact ih values

/-- What is left of a selection of the field is a selection of the field. -/
theorem filterToSchema_asksFirst (houtput : filterToSchema schema document = .ok output)
    (h : document.AsksFirst node) : output.AsksFirst node := by
  obtain ⟨kept, hkept, rfl⟩ := filterToSchema_eq_ok_iff.mp houtput
  refine h.of_forall₂ ?_
  rw [Document.operations_ofParts, List.forall₂_map_right_iff]
  refine hkept.imp fun operation entry hentry hasks selection hmem => ?_
  obtain ⟨left, fragments⟩ := entry
  obtain ⟨root, -, -, rfl⟩ := Filter.operation_eq_ok_iff.mp hentry
  obtain ⟨asked, hasked, hleaves⟩ := Filter.mem_filterAll_iff.mp hmem
  obtain ⟨origin, rfl, horigin⟩ := hasks asked hasked
  cases hleaves with
  | typename => exact ⟨origin, rfl, horigin⟩
  | leaf => exact ⟨_, rfl, horigin⟩
  | composite => exact ⟨_, rfl, horigin⟩

/-- Selecting the meta field keeps the root field. -/
theorem addTypename_asksFirst (houtput : addTypename schema document = .ok output)
    (h : document.AsksFirst node) : output.AsksFirst node := by
  refine h.of_forall₂ ?_
  rw [Document.operations_revise houtput, List.forall₂_map_right_iff, List.forall₂_same]
  intro operation _ hasks
  dsimp only
  cases schema.root? operation.kind with
  | none => exact hasks
  | some root =>
    intro selection hmem
    rcases mem_typedSelections hmem with ⟨asked, hasked, rfl⟩ | rfl
    · obtain ⟨origin, rfl, horigin⟩ := hasks asked hasked
      obtain ⟨selections, hrevised⟩ :=
        (addingTypename schema).exists_selection_field root origin
      exact ⟨_, hrevised, horigin⟩
    · exact ⟨_, rfl, .inr ⟨rfl, rfl⟩⟩

/-! ## Chains that keep the root field -/

variable {σ : Type} {context : DelegationContext} {transform : Transform σ}

/-- The hooks of a transform have no effects, that for requests keeps the root field, and that for
responses does nothing. -/
structure KeepsRoot (context : DelegationContext) (node : Field) (transform : Transform σ) :
    Prop where
  /-- Requests for the field stay such. -/
  request : ∀ {given passed : Request} {session session' : Session σ},
    runFrom (transform.request context given) session = (.ok passed, session') →
      session' = session ∧ (given.document.AsksFirst node → passed.document.AsksFirst node)
  /-- Responses are left as they are. -/
  result : ∀ response, transform.result context response = pure response

/-- A transform of requests that keeps the root field. -/
theorem KeepsRoot.ofRequest
    {change : DelegationContext → Request → Except DelegationError Request}
    (h : ∀ {given passed}, change context given = .ok passed →
      given.document.AsksFirst node → passed.document.AsksFirst node) :
    (ofRequest change : Transform σ).KeepsRoot context node where
  request hrun := by
    obtain ⟨hchange, rfl⟩ := Prod.mk.inj hrun
    exact ⟨rfl, h hchange⟩
  result _ := rfl

/-- A transform of documents that keeps the root field. -/
theorem KeepsRoot.ofDocument
    {change : DelegationContext → Document → Except DelegationError Document}
    (h : ∀ {given passed}, change context given = .ok passed →
      given.AsksFirst node → passed.AsksFirst node) :
    (ofDocument change : Transform σ).KeepsRoot context node := by
  refine .ofRequest fun hchange hasks => ?_
  obtain ⟨document, hdocument, hpassed⟩ := except_bind_eq_ok_iff.mp hchange
  cases hpassed
  exact h hdocument hasks

/-- Without a gateway field, every transform of the chain that the call has no part in keeps the
root field. -/
theorem keepsRoot_of_mem_chain (hinfo : context.info? = none)
    (hmem : transform ∈ chain context []) : transform.KeepsRoot context node := by
  have hgateway : context.gateway? = none := by
    unfold DelegationContext.gateway?
    rw [hinfo, Option.map_none]
  have hrequirements : context.gatewayRequirements?.isSome = false := by
    unfold DelegationContext.gatewayRequirements?
    rw [hgateway]
    rfl
  unfold chain at hmem
  rw [hgateway, hrequirements] at hmem
  simp only [Bool.false_eq_true, if_false, List.nil_append, Option.map_none, Option.toList_none,
    List.append_nil, List.reverse_nil, List.mem_append, Option.mem_toList, Option.map_eq_some_iff,
    List.mem_cons, List.not_mem_nil, or_false] at hmem
  rcases hmem with (rfl | ⟨supplied, -, rfl⟩) | rfl | rfl
  · exact .ofDocument wrapConcrete_asksFirst
  · refine .ofRequest fun hchange hasks => ?_
    cases hchange
    exact addArguments_asksFirst hasks
  · exact .ofDocument filterToSchema_asksFirst
  · exact .ofDocument addTypename_asksFirst

section Chain

variable {transforms : List (Transform σ)}
  (hkeeps : ∀ transform ∈ transforms, transform.KeepsRoot context node)

include hkeeps

/-- A request for the field that passes such transforms stays one. -/
theorem applyRequest_asksFirst {given passed : Request} {session session' : Session σ}
    (hrun : runFrom (applyRequest transforms context given) session = (.ok passed, session'))
    (h : given.document.AsksFirst node) :
    session' = session ∧ passed.document.AsksFirst node := by
  unfold applyRequest at hrun
  induction transforms generalizing given session with
  | nil =>
    cases hrun
    exact ⟨rfl, h⟩
  | cons first rest ih =>
    obtain ⟨hfirst, hrest⟩ := List.forall_mem_cons.mp hkeeps
    rw [List.foldlM_cons] at hrun
    cases hcalled : runFrom (first.request context given) session with
    | mk outcome session₁ =>
      cases outcome with
      | error error => cases (runFrom_bind_error hcalled).symm.trans hrun
      | ok next =>
        obtain ⟨rfl, hnext⟩ := hfirst.request hcalled
        exact ih hrest ((runFrom_bind_ok hcalled).symm.trans hrun) (hnext h)

/-- A response passes such transforms as it is. -/
theorem applyResult_eq_pure (response : Response) :
    applyResult transforms context response = pure response := by
  have hall : ∀ transform ∈ transforms.reverse, ∀ response,
      transform.result context response = pure response := fun transform hmem =>
    (hkeeps transform (List.mem_reverse.mp hmem)).result
  unfold applyResult
  generalize transforms.reverse = reversed at hall
  induction reversed with
  | nil => rfl
  | cons first rest ih =>
    obtain ⟨hfirst, hrest⟩ := List.forall_mem_cons.mp hall
    rw [List.foldlM_cons, hfirst, pure_bind, ih hrest]

end Chain

end Transform

/-! ## Responses -/

/-- The response keys of the root fields of a request. -/
def Request.rootKeys (request : Request) : List Name :=
  (request.document.operations.head?.map fun operation =>
    responseKeys operation.selections).getD []

namespace Response

/-- The data under a key of a response. -/
def dataAt? (response : Response) (key : String) : Option Json :=
  response.data.bind fun data => data.get? key

/-- The errors of a response as seen from a key: an error about anything else has no path. -/
def errorsAt (response : Response) (key : String) : List GraphError :=
  response.errors.map fun error =>
    if error.firstSegment? = some (.key key) then error.relativeToChild else error.withPath none

/-- A response has data and errors for nothing but the root fields of a request. -/
structure Answers (response : Response) (request : Request) : Prop where
  /-- The data. -/
  data : ∀ key, response.dataAt? key ≠ none → key ∈ request.rootKeys
  /-- The errors that have a path. -/
  errors : ∀ error ∈ response.errors, ∀ key, error.firstSegment? = some (.key key) →
    key ∈ request.rootKeys

/-- A response has nothing under a key that is not asked for. -/
theorem Answers.errorsAt_eq {response : Response} {request : Request} (h : response.Answers request)
    {key : String} (hkey : key ∉ request.rootKeys) :
    response.errorsAt key = response.errors.map fun error => error.withPath none := by
  refine List.map_congr_left fun error hmem => if_neg fun hsegment => ?_
  exact hkey (h.errors error hmem key hsegment)

end Response

/-- A request for one field asks for its response key, and for nothing else but the meta field. -/
theorem Request.rootKeys_subset {request : Request} {node : Field}
    (h : request.document.AsksFirst node) {key : Name} (hkey : key ∈ request.rootKeys) :
    key = node.responseKey ∨ key = typenameField := by
  obtain ⟨operation, hhead, hasks⟩ := h
  unfold rootKeys at hkey
  rw [hhead] at hkey
  obtain ⟨asked, hasked, rfl⟩ := mem_responseKeys.mp hkey
  obtain ⟨same, hsame, hasks⟩ := hasks _ hasked
  cases hsame
  unfold FieldOf.responseKey
  rcases hasks with ⟨hname, halias⟩ | ⟨hname, halias⟩
  · exact .inl (by rw [hname, halias])
  · exact .inr (by rw [hname, halias]; rfl)

/-- The value that is reconstructed from what a response has under a key. -/
def DelegationContext.valueAt {σ : Type} (context : DelegationContext) (complete : Completion σ)
    (response : Response) (key : String) : Act σ FetchedValue :=
  Reconstruction.result
    { subschema := context.subschema
      schema := context.gateway?.getD context.view
      complete := complete context.subschema context.context }
    (response.dataAt? key) (response.errorsAt key) context.info? context.returnType
    context.skipsMerging

/-! ## Delegations of one root field -/

namespace Delegation

variable {σ : Type} {delegation : Delegation σ} {complete : Completion σ}
  {context : DelegationContext} {node : Field}

/-- A delegation selects one root field, which the subschema declares. No root field and no gateway
field are named, and no transforms are given. -/
structure SelectsRoot (delegation : Delegation σ) (node : Field) : Prop where
  /-- The first operation selects the field. -/
  selected : ∃ operation root, delegation.rootOperation? = some operation ∧
    operation.selections = [.field node] ∧
    delegation.service.subschema.schema.root? operation.kind = some root ∧
    (delegation.service.subschema.schema.fieldTypeName? root node.name).isSome = true
  /-- No root field is named. -/
  unnamed : delegation.fieldName? = none
  /-- There is no gateway field. -/
  unknown : delegation.info? = none
  /-- The service has no transforms. -/
  service : delegation.service.transforms = []
  /-- The call has no transforms. -/
  call : delegation.transforms = []

/-- What the request is transformed to is accepted, sent from a session and answered with a
response, which leaves the world in a state. -/
structure Answered (delegation : Delegation σ) (context : DelegationContext) (request : Request)
    (response : Response) (session sent : Session σ) (world : σ) : Prop where
  /-- The root field and its type are known. -/
  known : delegation.delegationContext = .ok context
  /-- The request passes the chain. -/
  requested : runFrom (Transform.applyRequest (delegation.chain context) context
    delegation.request) session = (.ok request, sent)
  /-- It is accepted. -/
  accepted : delegation.Accepts context request
  /-- It is answered. -/
  answered : ∃ answer, delegation.answerer? context = some answer ∧
    answer (delegation.delivery request) sent.world = (.response response, world)

namespace SelectsRoot

variable (h : delegation.SelectsRoot node)

include h

/-- A declared field is not the meta field. -/
theorem name_ne : node.name ≠ typenameField := by
  obtain ⟨_, root, -, -, -, hdeclared⟩ := h.selected
  intro hname
  unfold Schema.fieldTypeName? at hdeclared
  rw [if_pos hname] at hdeclared
  exact Bool.false_ne_true hdeclared

/-- The request is one for the field. -/
theorem asksFirst : delegation.request.document.AsksFirst node := by
  obtain ⟨operation, _, hfirst, hselections, -⟩ := h.selected
  refine ⟨operation, hfirst, ?_⟩
  rw [hselections]
  exact List.forall_mem_singleton.mpr ⟨node, rfl, .inl ⟨rfl, rfl⟩⟩

/-- The root field of the delegation is that field. -/
theorem fieldName_eq : delegation.fieldName = .ok node.name := by
  obtain ⟨operation, _, hfirst, hselections, -⟩ := h.selected
  unfold fieldName
  rw [h.unnamed, hfirst, Option.bind_some, hselections]
  rfl

/-- Every transform of the chain keeps the field. -/
theorem keepsRoot (hknown : delegation.delegationContext = .ok context) :
    ∀ transform ∈ delegation.chain context, transform.KeepsRoot context node := by
  intro transform hmem
  unfold chain at hmem
  rw [h.service, h.call, List.append_nil] at hmem
  exact Transform.keepsRoot_of_mem_chain
    ((of_delegationContext hknown).1.trans h.unknown) hmem

end SelectsRoot

section Answered

variable {request : Request} {response : Response} {session sent : Session σ} {world : σ}

/-- A delegation that is answered ends with the value of the response. -/
theorem Answered.run_eq (h : delegation.Answered context request response session sent world)
    (complete : Completion σ) :
    runFrom (delegation.run complete) session =
      runFrom (.value <$> valueOf complete (delegation.chain context) context response)
        { sent with world } := by
  obtain ⟨answer, hanswer, hresponse⟩ := h.answered
  have hknown : runFrom (Act.ofExcept delegation.delegationContext : Act σ DelegationContext)
      session = (.ok context, session) := by
    rw [h.known]
    rfl
  have hvalid : (if delegation.skipsValidation then .ok ()
      else validate context.target request) = .ok () := by
    rcases h.accepted with hskips | hvalid
    · exact if_pos hskips
    · rw [validate_eq_ok_iff.mpr hvalid, ite_self]
  have hsent : runFrom (Act.ofWorld (answer (delegation.delivery request))) sent =
      (.ok (.response response), { sent with world }) := by
    change (Except.ok (answer (delegation.delivery request) sent.world).1, _) = _
    rw [hresponse]
  rw [Delegation.run_eq, runFrom_bind_ok hknown, runFrom_bind_ok h.requested, hvalid]
  change runFrom (delegation.deliver complete context request) sent = _
  unfold deliver
  rw [hanswer]
  dsimp only
  rw [runFrom_bind_ok hsent, map_eq_pure_bind]

/-- A delegation of one root field sends the field under its response key. When it is answered, it
succeeds with the value that is reconstructed from what the response has under the name of the
field. If the field has an alias and the response is one to what was sent, nothing is found, and the
value is made of the errors of the response, which lose their paths. -/
theorem Answered.run_reads (hroot : delegation.SelectsRoot node)
    (h : delegation.Answered context request response session sent world)
    (complete : Completion σ) :
    request.document.AsksFirst node ∧
    ∃ value warnings,
      runFrom (delegation.run complete) session =
        (.ok (.value value), { session with world, warnings := session.warnings ++ warnings }) ∧
      runFrom (context.valueAt complete response node.name) { session with world } =
        (.ok value, { session with world, warnings := session.warnings ++ warnings }) ∧
      (response.Answers request → node.responseKey ≠ node.name →
        value = .ofErrors delegation.service.subschema.name
          (response.errors.map fun error => error.withPath none)) := by
  obtain ⟨hinfo, -, hfield, hsubschema⟩ := of_delegationContext h.known
  have hname : context.fieldName = node.name := by
    rw [hroot.fieldName_eq] at hfield
    exact (Except.ok.inj hfield).symm
  obtain ⟨rfl, hasks⟩ := Transform.applyRequest_asksFirst (hroot.keepsRoot h.known) h.requested
    hroot.asksFirst
  -- Without a gateway field no object is completed, so reconstruction never fails.
  have hunknown : context.info?.isSome ≠ true := by
    rw [hinfo, hroot.unknown]
    exact Bool.false_ne_true
  obtain ⟨value, warnings, hvalue⟩ : ∃ value warnings,
      runFrom (context.fieldValue complete response) { sent with world } =
        (.ok value, { sent with world, warnings := sent.warnings ++ warnings }) :=
    Reconstruction.exists_result (fun hsome => absurd hsome hunknown) ..
  have hread : runFrom (context.valueAt complete response node.name) { sent with world } =
      (.ok value, { sent with world, warnings := sent.warnings ++ warnings }) := by
    rw [← hname]
    exact hvalue
  refine ⟨hasks, value, warnings, ?_, hread, fun hanswers halias => ?_⟩
  · rw [h.run_eq complete]
    unfold valueOf
    rw [Transform.applyResult_eq_pure (hroot.keepsRoot h.known), pure_bind, map_eq_pure_bind,
      runFrom_bind_ok hvalue]
    rfl
  · have hkey : node.name ∉ request.rootKeys := by
      intro hmem
      rcases Request.rootKeys_subset hasks hmem with hsame | hmeta
      · exact halias hsame.symm
      · exact hroot.name_ne hmeta
    have hnone : response.dataAt? node.name = none := by
      by_contra hdata
      exact hkey (hanswers.data node.name hdata)
    unfold DelegationContext.valueAt at hread
    rw [hnone, hanswers.errorsAt_eq hkey, hsubschema] at hread
    have hsame := congrArg Prod.fst hread
    exact (Except.ok.inj hsame).symm

end Answered

/-- A user under an alias. -/
def aliasedUser : Field :=
  { alias? := some "me", name := "user", selections := [.field { name := "name" }] }

/-- A response to a request for it. -/
def aliasedResponse : Response :=
  { data := some (.object [("me", .object [("name", .string "Ann")])]) }

/-- A delegation of a request for it, to a service that answers with the response. -/
def aliasedRoot : Delegation Unit where
  service :=
    { subschema := notingService.subschema, executor? := some fun _ => pure aliasedResponse }
  request := { document := [.operation { selections := [.field aliasedUser] }] }

/-- The user is there under the alias, but the delegation leads to null. -/
theorem run_reads_aliasedRoot :
    aliasedRoot.SelectsRoot aliasedUser ∧
    ∃ context request, aliasedRoot.Answered context request aliasedResponse { world := () }
      { world := () } () ∧ aliasedResponse.Answers request ∧
      aliasedResponse.dataAt? aliasedUser.responseKey =
        some (.object [("name", .string "Ann")]) ∧
      ∃ warnings, runFrom (aliasedRoot.run fun _ _ _ _ object => pure object) { world := () } =
        (.ok (.value .null), { world := (), warnings }) := by
  have hroot : aliasedRoot.SelectsRoot aliasedUser :=
    ⟨⟨_, "Query", rfl, rfl, rfl, rfl⟩, rfl, rfl, rfl, rfl⟩
  obtain ⟨context, hknown⟩ : ∃ context, aliasedRoot.delegationContext = .ok context := ⟨_, rfl⟩
  have hanswered : ∃ request, aliasedRoot.Answered context request aliasedResponse
      { world := () } { world := () } () ∧ request.rootKeys = ["me"] := by
    cases hknown
    exact ⟨_, ⟨rfl, rfl, .inr (by decide +kernel), _, rfl, rfl⟩, rfl⟩
  obtain ⟨request, hanswered, hkeys⟩ := hanswered
  have hanswers : aliasedResponse.Answers request := by
    refine ⟨fun key hdata => ?_, fun error hmem => absurd hmem List.not_mem_nil⟩
    rw [hkeys, List.mem_singleton]
    by_contra hkey
    refine hdata ?_
    have hother : Entries.get? [("me", Json.object [("name", .string "Ann")])] key = none := by
      rw [Entries.get?_cons, if_neg hkey]
      rfl
    exact hother
  obtain ⟨-, value, warnings, hrun, -, hmissed⟩ :=
    hanswered.run_reads hroot fun _ _ _ _ object => pure object
  rw [hmissed hanswers (by decide)] at hrun
  exact ⟨hroot, context, request, hanswered, hanswers, rfl, _, hrun⟩

end Delegation

end Gateway
