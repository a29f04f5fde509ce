import Gateway.Proofs.Fetched.Merge
import Gateway.Proofs.Stitching.Accounts
import Mathlib.Data.List.Nodup
import Mathlib.Data.List.Perm.Basic

/-!
# Merging loses nothing

When fields with different response keys are merged into an object that has none of them, and every
resolver answers what it is asked for, the merged object is the object with all answers behind it:
what the object had is unchanged, each field that was asked has the value and the subschema of its
answer, and a field that was never asked is missing (`Holds`).

The answers of all rounds are merged one after another (`Goes.exists_answers`), and no key is in two
of them because a field goes to one call (`Deals.keys_distinct`). So the deep merge of answers only
ever appends.
-/

namespace Gateway

/-- The response keys of selected fields. -/
def responseKeys (selections : List Selection) : List Name :=
  (directFields selections).map FieldOf.responseKey

/-- A response key is that of one of the fields. -/
theorem mem_responseKeys {selections : List Selection} {key : Name} :
    key ∈ responseKeys selections ↔
      ∃ node, Selection.field node ∈ selections ∧ node.responseKey = key := by
  unfold responseKeys
  rw [List.mem_map]
  refine exists_congr fun node => and_congr_left fun _ => ?_
  exact mem_directFields

/-! ## The keys of calls -/

section Keys

variable {deal : Deal} {nodes : List Field} {calls : List Call} {left : List Selection}

/-- A field of a call is dealt to the call. -/
theorem Deals.mem_deal (h : Deals deal (nodes.map Selection.field) calls left) {call : Call}
    (hcall : call ∈ calls) {selection : Selection} (hselection : selection ∈ call.2) :
    (selection, some call.1.name) ∈ deal := by
  rw [h.called call hcall] at hselection
  unfold Deal.labelled at hselection
  obtain ⟨⟨selection', label⟩, hmem, rfl⟩ := List.mem_map.mp hselection
  obtain ⟨hhand, hlabel⟩ := List.mem_filter.mp hmem
  rw [← of_decide_eq_true hlabel]
  exact hhand

/-- Calls ask only for the fields that are dealt. -/
theorem Deals.exists_node (h : Deals deal (nodes.map Selection.field) calls left) {call : Call}
    (hcall : call ∈ calls) {selection : Selection} (hselection : selection ∈ call.2) :
    ∃ node ∈ nodes, selection = .field node := by
  have hmem : selection ∈ deal.map Prod.fst :=
    List.mem_map.mpr ⟨_, h.mem_deal hcall hselection, rfl⟩
  rw [h.dealt] at hmem
  obtain ⟨node, hnode, rfl⟩ := List.mem_map.mp (List.mem_filter.mp hmem).1
  exact ⟨node, hnode, rfl⟩

/-- The keys of all hands of a deal are those of its fields, so they are different. -/
theorem Deals.nodup_keys (h : Deals deal (nodes.map Selection.field) calls left)
    (hdistinct : (nodes.map FieldOf.responseKey).Nodup) :
    (deal.map fun hand => hand.1.asField?.map FieldOf.responseKey).Nodup := by
  have hkeys : (deal.map fun hand => hand.1.asField?.map FieldOf.responseKey) =
      ((nodes.map Selection.field).filter fun selection => !selection.isTypename).map
        fun selection => selection.asField?.map FieldOf.responseKey := by
    rw [← h.dealt, List.map_map]
    rfl
  have hall : ((nodes.map Selection.field).map fun selection =>
      selection.asField?.map FieldOf.responseKey).Nodup := by
    have hsome : ((nodes.map Selection.field).map fun selection =>
        selection.asField?.map FieldOf.responseKey) =
          (nodes.map FieldOf.responseKey).map some := by
      rw [List.map_map, List.map_map]
      rfl
    rw [hsome]
    exact hdistinct.map fun _ _ h => Option.some.inj h
  rw [hkeys]
  exact hall.sublist (List.filter_sublist.map _)

/-- A response key is asked of one subschema and for one field. -/
theorem Deals.eq_of_responseKey (h : Deals deal (nodes.map Selection.field) calls left)
    (hdistinct : (nodes.map FieldOf.responseKey).Nodup) {node node' : Field}
    {label label' : Option String} (hmem : (Selection.field node, label) ∈ deal)
    (hmem' : (Selection.field node', label') ∈ deal)
    (hkey : node.responseKey = node'.responseKey) : node = node' ∧ label = label' := by
  have hsame := List.inj_on_of_nodup_map (h.nodup_keys hdistinct) hmem hmem'
    (congrArg some hkey)
  cases hsame
  exact ⟨rfl, rfl⟩

/-- All response keys of all calls are different. -/
theorem Deals.keys_distinct (h : Deals deal (nodes.map Selection.field) calls left)
    (hdistinct : (nodes.map FieldOf.responseKey).Nodup)
    (honce : calls.Pairwise fun call call' => call.1.name ≠ call'.1.name) :
    (calls.flatMap fun call => responseKeys call.2).Nodup := by
  rw [List.nodup_flatMap]
  constructor
  · intro call hcall
    have hkeys : ((call.2.map fun selection =>
        selection.asField?.map FieldOf.responseKey)).Nodup := by
      rw [h.called call hcall]
      unfold Deal.labelled
      rw [List.map_map]
      exact (h.nodup_keys hdistinct).sublist (List.filter_sublist.map _)
    -- A call only has fields, so none of its selections is without a response key.
    have hsome : (responseKeys call.2).map some =
        call.2.map fun selection => selection.asField?.map FieldOf.responseKey := by
      have hfields : ∀ selection ∈ call.2, ∃ node, selection = .field node := by
        intro selection hselection
        obtain ⟨node, -, rfl⟩ := h.exists_node hcall hselection
        exact ⟨node, rfl⟩
      generalize call.2 = selections at hfields
      induction selections with
      | nil => rfl
      | cons first rest ih =>
        obtain ⟨node, rfl⟩ := hfields first List.mem_cons_self
        have hrest := ih fun selection hmem => hfields selection (List.mem_cons_of_mem _ hmem)
        exact congrArg (some node.responseKey :: ·) hrest
    rw [← hsome] at hkeys
    exact hkeys.of_map some
  · refine honce.imp_of_mem fun {call call'} hcall hcall' hname => ?_
    intro key hkey hkey'
    obtain ⟨node, hnode, rfl⟩ := mem_responseKeys.mp hkey
    obtain ⟨node', hnode', hsame⟩ := mem_responseKeys.mp hkey'
    have hlabel := (h.eq_of_responseKey hdistinct (h.mem_deal hcall hnode)
      (h.mem_deal hcall' hnode') hsame.symm).2
    exact hname (Option.some.inj hlabel)

end Keys

/-! ## The answers of all rounds -/

/-- When no call of a round fails, each has one of the values. -/
theorem Answers.eq_zip {calls : List Call} {values : List FetchedValue}
    {log : List (Call × Outcome)} (h : Answers calls (.ok values) log) :
    log = (calls.zip values).map (fun answer => (answer.1, .ok answer.2)) ∧
      (calls.zip values).map Prod.fst = calls ∧ (calls.zip values).map Prod.snd = values := by
  obtain ⟨outcome, houtcome⟩ : ∃ outcome, outcome =
      (Except.ok values : Except DelegationError (List FetchedValue)) := ⟨_, rfl⟩
  rw [← houtcome] at h
  induction h generalizing values with
  | nil =>
    cases houtcome
    exact ⟨rfl, rfl, rfl⟩
  | ok _ ih =>
    cases houtcome
    obtain ⟨hlog, hcalls, hvalues⟩ := ih rfl
    rw [List.zip_cons_cons, List.map_cons, List.map_cons, List.map_cons, hcalls, hvalues, ← hlog]
    exact ⟨rfl, rfl, rfl⟩
  | later => exact absurd houtcome (by simp)
  | failed => exact absurd houtcome (by simp)

/-- A run that succeeds has merged the answers to all calls in order. -/
theorem MergedType.Goes.exists_answers {ρ : Type} {merged : MergedType ρ} {run final : MergeRun}
    {rounds : List RoundLog} (h : merged.Goes run (.ok final) rounds) :
    ∃ answers : List (Call × FetchedValue), callsOf rounds = answers.map Prod.fst ∧
      rounds.flatMap RoundLog.answers = answers.map (fun answer => (answer.1, .ok answer.2)) ∧
      final.object = run.object.mergeAnswers (answers.map Prod.snd) := by
  obtain ⟨outcome, houtcome⟩ : ∃ outcome, outcome =
      (Except.ok final : Except DelegationError MergeRun) := ⟨_, rfl⟩
  rw [← houtcome] at h
  induction h generalizing final with
  | done =>
    cases houtcome
    exact ⟨[], rfl, rfl, rfl⟩
  | failed => exact absurd houtcome (by simp)
  | @next run values log _ rounds _ answers _ ih =>
    obtain ⟨hlog, hcalls, hvalues⟩ := answers.eq_zip
    obtain ⟨others, hcalls', hlog', hobject⟩ := ih houtcome
    refine ⟨(merged.nextPlan run).delegations.zip values ++ others, ?_, ?_, ?_⟩
    · rw [List.map_append, hcalls, ← hcalls']
      exact List.flatMap_cons
    · rw [List.map_append, ← hlog', ← hlog]
      exact List.flatMap_cons
    · rw [hobject, List.map_append, hvalues]
      unfold ObjectOf.mergeAnswers
      rw [List.foldl_append]
      rfl

/-! ## The merged object -/

/-- An answer is what a call asks for: an object of the called subschema with exactly the response
keys that are asked. -/
structure Fulfils (call : Call) (answer : FetchedObject) : Prop where
  /-- The fields come from the subschema. -/
  owned : ∀ key ∈ answer.keys, answer.fieldOwner key = call.1.name
  /-- The fields are those that are asked. -/
  keys : answer.keys.Perm (responseKeys call.2)

/-- What an object holds after fields have been merged into it, as seen from outside. -/
structure Holds (object : FetchedObject) (nodes : List Field) (events : List Event)
    (merged : FetchedObject) : Prop where
  /-- What the object had is unchanged. -/
  kept : ∀ key ∈ object.keys,
    merged.get? key = object.get? key ∧ merged.fieldOwner key = object.fieldOwner key
  /-- Every call was answered. -/
  answered : ∀ call, .asked call ∈ events →
    ∃ answer, Event.answered call (.ok (.object answer)) ∈ events
  /-- A field that was asked is there, with the value of the answer, from the subschema that was
  called. -/
  fetched : ∀ call answer, .answered call (.ok (.object answer)) ∈ events →
    ∀ selection ∈ call.2, ∃ node ∈ nodes, selection = .field node ∧
      ∃ value, answer.get? node.responseKey = some value ∧
        merged.get? node.responseKey = some value ∧
        merged.fieldOwner node.responseKey = call.1.name
  /-- A field that was never asked is missing. -/
  missing : ∀ node ∈ nodes, (∀ call, .asked call ∈ events → .field node ∉ call.2) →
    merged.get? node.responseKey = none
  /-- Nothing else is there. -/
  only : ∀ key ∈ merged.keys, key ∈ object.keys ∨
    ∃ call, .asked call ∈ events ∧ key ∈ responseKeys call.2

/-- What is answered in a round is seen. -/
theorem mem_events {rounds : List RoundLog} {round : RoundLog} (hround : round ∈ rounds)
    {call : Call} {result : Outcome} (hanswer : (call, result) ∈ round.answers) :
    Event.answered call result ∈ rounds.flatMap RoundLog.events := by
  refine List.mem_flatMap.mpr ⟨round, hround, List.mem_append_right _ ?_⟩
  exact List.mem_map.mpr ⟨_, hanswer, rfl⟩

/-- The objects that answered all calls of rounds. -/
structure AnsweredBy (rounds : List RoundLog) (answers : List (Call × FetchedObject)) : Prop where
  /-- They are the answers to all calls. -/
  calls : callsOf rounds = answers.map Prod.fst
  /-- There are no other answers. -/
  log : rounds.flatMap RoundLog.answers =
    answers.map fun answer => (answer.1, .ok (.object answer.2))
  /-- They are what the calls ask for. -/
  fulfils : ∀ answer ∈ answers, Fulfils answer.1 answer.2

section AnsweredBy

variable {rounds : List RoundLog} {answers : List (Call × FetchedObject)}

/-- A call that is asked is one of those that are answered. -/
theorem AnsweredBy.asked_iff (h : AnsweredBy rounds answers) (call : Call) :
    Event.asked call ∈ rounds.flatMap RoundLog.events ↔ ∃ answer ∈ answers, answer.1 = call := by
  rw [← List.mem_map, ← h.calls]
  simp [callsOf, RoundLog.events]

/-- An answer that is seen is one of the objects. -/
theorem AnsweredBy.answered_iff (h : AnsweredBy rounds answers) (call : Call)
    (answer : FetchedObject) :
    Event.answered call (.ok (.object answer)) ∈ rounds.flatMap RoundLog.events ↔
      (call, answer) ∈ answers := by
  have hmem : (call, Except.ok (FetchedValue.object answer)) ∈ rounds.flatMap RoundLog.answers ↔
      (call, answer) ∈ answers := by
    rw [h.log]
    simp
  rw [← hmem]
  simp [RoundLog.events]

/-- Objects answer calls. -/
theorem AnsweredBy.mem_calls (h : AnsweredBy rounds answers) {answer : Call × FetchedObject}
    (hanswer : answer ∈ answers) : answer.1 ∈ callsOf rounds := by
  rw [h.calls]
  exact List.mem_map_of_mem hanswer

variable {nodes : List Field} {deal : Deal} {left : List Selection}

/-- Each key of an answer is that of a field of its call. -/
theorem AnsweredBy.exists_node (h : AnsweredBy rounds answers)
    (hdeal : Deals deal (nodes.map Selection.field) (callsOf rounds) left)
    {answer : Call × FetchedObject} (hanswer : answer ∈ answers) {key : String}
    (hkey : key ∈ answer.2.keys) :
    ∃ node ∈ nodes, Selection.field node ∈ answer.1.2 ∧ node.responseKey = key := by
  obtain ⟨node, hnode, rfl⟩ :=
    mem_responseKeys.mp ((h.fulfils answer hanswer).keys.mem_iff.mp hkey)
  obtain ⟨node', hnode', hsame⟩ := hdeal.exists_node (h.mem_calls hanswer) hnode
  cases hsame
  exact ⟨node, hnode', hnode, rfl⟩

/-- The keys of all answers are different. -/
theorem AnsweredBy.keys_distinct (h : AnsweredBy rounds answers)
    (hdeal : Deals deal (nodes.map Selection.field) (callsOf rounds) left)
    (hdistinct : (nodes.map FieldOf.responseKey).Nodup)
    (honce : (callsOf rounds).Pairwise fun call call' => call.1.name ≠ call'.1.name) :
    ((answers.map Prod.snd).flatMap ObjectOf.keys).Nodup := by
  have hperm : ((answers.map Prod.snd).flatMap ObjectOf.keys).Perm
      ((callsOf rounds).flatMap fun call => responseKeys call.2) := by
    rw [h.calls, List.flatMap_map, List.flatMap_map]
    exact List.Perm.flatMap_left _ fun answer hanswer => (h.fulfils answer hanswer).keys
  exact hperm.nodup_iff.mpr (hdeal.keys_distinct hdistinct honce)

/-- The keys of all answers are new to an object that has none of the fields. -/
theorem AnsweredBy.keys_fresh (h : AnsweredBy rounds answers)
    (hdeal : Deals deal (nodes.map Selection.field) (callsOf rounds) left) {object : FetchedObject}
    (hfresh : ∀ node ∈ nodes, node.responseKey ∉ object.keys) :
    ∀ key ∈ (answers.map Prod.snd).flatMap ObjectOf.keys, key ∉ object.keys := by
  intro key hmem
  rw [List.flatMap_map, List.mem_flatMap] at hmem
  obtain ⟨answer, hanswer, hkey⟩ := hmem
  obtain ⟨node, hnode, -, rfl⟩ := h.exists_node hdeal hanswer hkey
  exact hfresh node hnode

/-- An object with the answers behind it holds its own fields and theirs. -/
theorem AnsweredBy.holds (h : AnsweredBy rounds answers) {object : FetchedObject}
    (hdistinct : (nodes.map FieldOf.responseKey).Nodup)
    (hfresh : ∀ node ∈ nodes, node.responseKey ∉ object.keys)
    (hdeal : Deals deal (nodes.map Selection.field) (callsOf rounds) left)
    (honce : (callsOf rounds).Pairwise fun call call' => call.1.name ≠ call'.1.name) :
    Holds object nodes (rounds.flatMap RoundLog.events)
      (object.mergeAnswers ((answers.map Prod.snd).map FetchedValue.object)) := by
  have hkeys := h.keys_distinct hdeal hdistinct honce
  have hnew := h.keys_fresh hdeal hfresh
  refine ⟨?_, ?_, ?_, ?_, ?_⟩
  · intro key hmem
    refine ⟨object.get?_mergeAnswers_of_mem hkeys hnew hmem, ?_⟩
    exact object.fieldOwner_mergeAnswers_of_not_mem _ fun hother => hnew key hother hmem
  · intro call hcall
    obtain ⟨answer, hanswer, rfl⟩ := (h.asked_iff call).mp hcall
    exact ⟨answer.2, (h.answered_iff answer.1 answer.2).mpr hanswer⟩
  · intro call answer hevent selection hselection
    have hanswer := (h.answered_iff call answer).mp hevent
    have hsource : answer ∈ answers.map Prod.snd := List.mem_map.mpr ⟨_, hanswer, rfl⟩
    obtain ⟨node, hnode, rfl⟩ := hdeal.exists_node (h.mem_calls hanswer) hselection
    -- The answer has all keys that were asked, so it has one for this selection.
    have hmem : node.responseKey ∈ answer.keys :=
      (h.fulfils _ hanswer).keys.mem_iff.mpr (mem_responseKeys.mpr ⟨node, hselection, rfl⟩)
    obtain ⟨value, hvalue⟩ : ∃ value, answer.get? node.responseKey = some value :=
      Entries.exists_get?_iff.mpr hmem
    refine ⟨node, hnode, rfl, value, hvalue, ?_, ?_⟩
    · exact object.get?_mergeAnswers_of_answer hkeys hnew hsource hvalue
    · rw [object.fieldOwner_mergeAnswers _ hkeys hsource hmem]
      exact (h.fulfils _ hanswer).owned _ hmem
  · intro node hnode hnever
    refine Entries.get?_eq_none_iff.mpr fun hmem => ?_
    rcases (object.mem_keys_mergeAnswers hkeys hnew).mp hmem with hmem | ⟨_, hsource, hmem⟩
    · exact hfresh node hnode hmem
    · obtain ⟨answer, hanswer, rfl⟩ := List.mem_map.mp hsource
      obtain ⟨node', hnode', hasks, hsame⟩ := h.exists_node hdeal hanswer hmem
      have heq : node' = node := List.inj_on_of_nodup_map hdistinct hnode' hnode hsame
      rw [heq] at hasks
      exact hnever answer.1 ((h.asked_iff _).mpr ⟨answer, hanswer, rfl⟩) hasks
  · intro key hmem
    refine ((object.mem_keys_mergeAnswers hkeys hnew).mp hmem).imp_right ?_
    rintro ⟨_, hsource, hmem⟩
    obtain ⟨answer, hanswer, rfl⟩ := List.mem_map.mp hsource
    exact ⟨answer.1, (h.asked_iff _).mpr ⟨answer, hanswer, rfl⟩,
      (h.fulfils answer hanswer).keys.mem_iff.mp hmem⟩

end AnsweredBy

/-- Rounds whose calls are all answered with what they ask for are answered by objects. -/
theorem exists_answeredBy {rounds : List RoundLog} {answers : List (Call × FetchedValue)}
    (hcalls : callsOf rounds = answers.map Prod.fst)
    (hlog : rounds.flatMap RoundLog.answers =
      answers.map fun answer => (answer.1, .ok answer.2))
    (hanswers : ∀ call result, Event.answered call result ∈ rounds.flatMap RoundLog.events →
      ∃ answer, result = .ok (.object answer) ∧ Fulfils call answer) :
    ∃ objects, AnsweredBy rounds objects ∧
      answers.map Prod.snd = (objects.map Prod.snd).map FetchedValue.object := by
  have hobjects : ∃ objects : List (Call × FetchedObject),
      answers = objects.map (fun answer => (answer.1, .object answer.2)) ∧
      ∀ answer ∈ objects, Fulfils answer.1 answer.2 := by
    have hall : ∀ answer ∈ answers,
        ∃ found, answer.2 = .object found ∧ Fulfils answer.1 found := by
      intro answer hanswer
      have hmem : (answer.1, Except.ok answer.2) ∈ rounds.flatMap RoundLog.answers := by
        rw [hlog]
        exact List.mem_map.mpr ⟨answer, hanswer, rfl⟩
      obtain ⟨round, hround, hmem⟩ := List.mem_flatMap.mp hmem
      obtain ⟨found, hfound, hfulfils⟩ := hanswers _ _ (mem_events hround hmem)
      exact ⟨found, Except.ok.inj hfound, hfulfils⟩
    -- The values are taken to be objects one by one, apart from the rounds.
    clear hcalls hlog
    induction answers with
    | nil => exact ⟨[], rfl, by simp⟩
    | cons first rest ih =>
      obtain ⟨found, hfound, hfulfils⟩ := hall first List.mem_cons_self
      obtain ⟨objects, hobjects, hrest⟩ := ih fun answer hmem =>
        hall answer (List.mem_cons_of_mem _ hmem)
      refine ⟨(first.1, found) :: objects, ?_, List.forall_mem_cons.mpr ⟨hfulfils, hrest⟩⟩
      rw [List.map_cons, ← hobjects, ← hfound]
  obtain ⟨objects, rfl, hfulfils⟩ := hobjects
  refine ⟨objects, ⟨?_, ?_, hfulfils⟩, ?_⟩
  · rw [hcalls, List.map_map]
    rfl
  · rw [hlog, List.map_map]
    rfl
  · rw [List.map_map, List.map_map]
    rfl

namespace MergedType

variable {ρ σ : Type}

/-- Fields with different response keys are merged into an object that has none of them. When every
resolver that is called answers what it is asked for, the merge succeeds, and the merged object
holds what it had and what was asked, and nothing else. -/
theorem merge_holds (merged : MergedType ρ) (resolvers : Resolvers σ) (object : FetchedObject)
    (nodes : List Field) (sources targets : List Subschema) (session session' : Session σ)
    (outcome : Except DelegationError MergeRun) (events : List Event)
    (hdistinct : (nodes.map FieldOf.responseKey).Nodup)
    (hfresh : ∀ node ∈ nodes, node.responseKey ∉ object.keys)
    (hrun : runFrom (merged.merge resolvers.askNoting object (nodes.map Selection.field) sources
      targets) (session, []) = (outcome, session', events))
    (hanswers : ∀ call result, Event.answered call result ∈ events →
      ∃ answer, result = .ok (.object answer) ∧ Fulfils call answer) :
    ∃ run, outcome = .ok run ∧
      runFrom (merged.merge resolvers.ask object (nodes.map Selection.field) sources targets)
        session = (.ok run, session') ∧
      Holds object nodes events run.object := by
  obtain ⟨outcome', session'', rounds, hgoes, hplain, hnoting⟩ :=
    merged.mergeWithin_goes resolvers targets.length
      { object, waiting := nodes.map Selection.field, sources, targets } (Nat.le_refl _) session []
  cases hrun.symm.trans hnoting
  have haccount := hgoes.accounted
  cases outcome with
  | error error =>
    -- A failed merge has an answer that is no object.
    obtain ⟨earlier, round, call, rfl, hmem⟩ := haccount.failed error rfl
    obtain ⟨answer, habsurd, -⟩ := hanswers call (.error error) (mem_events
      (List.mem_append_right _ (List.mem_singleton.mpr rfl)) hmem)
    exact absurd habsurd (by simp)
  | ok run =>
    obtain ⟨answers, hcalls, hlog, hobject⟩ := hgoes.exists_answers
    obtain ⟨objects, hobjects, hvalues⟩ := exists_answeredBy hcalls hlog hanswers
    obtain ⟨deal, left, hdeal, -⟩ := haccount.dealt
    refine ⟨run, rfl, hplain, ?_⟩
    rw [hobject, hvalues]
    exact hobjects.holds hdistinct hfresh hdeal haccount.once

/-- A subschema that declares one field of orders. -/
def orderSubschema (name field : String) : Subschema where
  name := name
  schema :=
    { types := [{ name := "Order", body := .object [] [{ name := field, type := .named "Int" }] }]
      directives := []
      roots := [] }

/-- Orders whose cost depends on their weight. -/
def orderType : MergedType Unit where
  typeName? := some "Order"
  uniqueFields := [("weight", orderSubschema "weights" "weight"),
    ("cost", orderSubschema "shipping" "cost")]
  selections := [("shipping", [.field { name := "weight" }])]

/-- Resolvers that answer each field with the name of their subschema. -/
def orderResolvers : Resolvers Unit := fun subschema _ selections =>
  pure <| pure <| .object
    { fields := (responseKeys selections).map fun key => (key, .leaf (.string subschema.name))
      owner := subschema.name }

/-- What is seen of a call of these resolvers for one field. -/
def orderEvents (name field : String) : List Event :=
  let call : Call := (orderSubschema name field, [.field { name := field }])
  [.asked call,
    .answered call (.ok (.object { fields := [(field, .leaf (.string name))], owner := name }))]

/-- An order is merged in two rounds, because its cost waits for its weight. -/
theorem merge_holds_order :
    ∃ run,
      runFrom (orderType.merge orderResolvers.ask { owner := "orders" }
        ([{ name := "cost" }, { name := "weight" }].map Selection.field) []
        [orderSubschema "shipping" "cost", orderSubschema "weights" "weight"])
        { world := () } = (.ok run, { world := () }) ∧
      Holds { owner := "orders" } [{ name := "cost" }, { name := "weight" }]
        (orderEvents "weights" "weight" ++ orderEvents "shipping" "cost") run.object := by
  have hanswer : ∀ name field : String, Fulfils
      (orderSubschema name field, [.field { name := field }])
      { fields := [(field, .leaf (.string name))], owner := name } := by
    intro name field
    exact ⟨fun _ _ => rfl, List.Perm.refl [field]⟩
  have hanswers : ∀ call result,
      Event.answered call result ∈ orderEvents "weights" "weight" ++ orderEvents "shipping" "cost" →
        ∃ answer, result = .ok (.object answer) ∧ Fulfils call answer := by
    intro call result hmem
    simp only [orderEvents, List.cons_append, List.nil_append, List.mem_cons, reduceCtorEq,
      Event.answered.injEq, List.not_mem_nil, or_false, false_or] at hmem
    rcases hmem with ⟨rfl, rfl⟩ | ⟨rfl, rfl⟩
    · exact ⟨_, rfl, hanswer "weights" "weight"⟩
    · exact ⟨_, rfl, hanswer "shipping" "cost"⟩
  obtain ⟨run, -, hplain, hholds⟩ := merge_holds orderType orderResolvers { owner := "orders" }
    [{ name := "cost" }, { name := "weight" }] []
    [orderSubschema "shipping" "cost", orderSubschema "weights" "weight"]
    { world := () } { world := () } _ _ (by decide) (by decide) rfl hanswers
  exact ⟨run, hplain, hholds⟩

end MergedType

end Gateway
