import Gateway.Proofs.Stitching.Rounds

/-!
# Every selection is accounted for

Over all its rounds, a run of merging calls each target at most once, hands every selection but the
meta field to one call or leaves it, and stops at the first failure (`Accounted`). This is shown
along `Goes`, by induction on the rounds: what a round leaves to the next ones, the selections that
wait and the targets that it does not call, is what the next ones deal out.
-/

namespace Gateway

/-! ## The answers of a round -/

/-- The calls that are over are the first ones. -/
theorem Answers.isPrefix {calls : List Call} {outcome : Except DelegationError (List FetchedValue)}
    {log : List (Call × Outcome)} (h : Answers calls outcome log) :
    log.map Prod.fst <+: calls := by
  induction h with
  | nil => exact List.prefix_rfl
  | ok _ ih => exact List.cons_prefix_cons.mpr ⟨rfl, ih⟩
  | later _ ih => exact List.cons_prefix_cons.mpr ⟨rfl, ih⟩
  | failed => exact List.cons_prefix_cons.mpr ⟨rfl, List.nil_prefix⟩

/-- When no call fails, every call is answered. -/
theorem Answers.exists_answer {calls : List Call} {values : List FetchedValue}
    {log : List (Call × Outcome)} (h : Answers calls (.ok values) log) {call : Call}
    (hcall : call ∈ calls) : ∃ answer, (call, .ok answer) ∈ log := by
  obtain ⟨outcome, houtcome⟩ : ∃ outcome, outcome =
      (Except.ok values : Except DelegationError (List FetchedValue)) := ⟨_, rfl⟩
  rw [← houtcome] at h
  induction h generalizing values with
  | nil => exact absurd hcall List.not_mem_nil
  | @ok first _ answer _ _ _ ih =>
    rcases List.mem_cons.mp hcall with rfl | hrest
    · exact ⟨answer, List.mem_cons_self⟩
    · obtain ⟨answer', hmem⟩ := ih hrest rfl
      exact ⟨answer', List.mem_cons_of_mem _ hmem⟩
  | later => exact absurd houtcome (by simp)
  | failed => exact absurd houtcome (by simp)

/-- The calls of a round fail when a call has failed, and with its error. -/
theorem Answers.error_iff {calls : List Call}
    {outcome : Except DelegationError (List FetchedValue)} {log : List (Call × Outcome)}
    (h : Answers calls outcome log) (error : DelegationError) :
    outcome = .error error ↔ ∃ call, (call, .error error) ∈ log := by
  induction h with
  | nil => simp
  | ok _ ih => simpa using ih
  | later _ ih => simpa using ih
  | failed => simp [eq_comm]

/-! ## The account of a run -/

/-- All calls of rounds. -/
def callsOf (rounds : List RoundLog) : List Call :=
  rounds.flatMap RoundLog.calls

/-- A merge of selections from targets, as its rounds show it, from its start to its outcome. -/
structure Accounted {ρ : Type} (merged : MergedType ρ) (selections : List Selection)
    (targets : List Subschema) (outcome : Except DelegationError MergeRun)
    (rounds : List RoundLog) : Prop where
  /-- Only targets are called. -/
  targets : ∀ call ∈ callsOf rounds, call.1.isAmong targets = true
  /-- No subschema is called twice. -/
  once : (callsOf rounds).Pairwise fun call call' => call.1.name ≠ call'.1.name
  /-- Every selection but the meta field goes to one call or is left over at the end, and a call
  gets its selections in order. -/
  dealt : ∃ deal left, Deals deal selections (callsOf rounds) left ∧
    ∀ run, outcome = .ok run → run.waiting = left
  /-- At the end there is nothing left to call. -/
  done : ∀ run, outcome = .ok run → (merged.nextPlan run).delegations = []
  /-- Calls are answered in the order in which they were begun, in the same round. -/
  answered : ∀ round ∈ rounds, round.answers.map Prod.fst <+: round.calls
  /-- The merge succeeds only when every call of every round is answered. -/
  succeeded : ∀ run, outcome = .ok run → ∀ round ∈ rounds, ∀ call ∈ round.calls,
    ∃ answer, (call, .ok answer) ∈ round.answers
  /-- A failed call fails the merge with its error, and no later round begins. -/
  failure : ∀ earlier round later, rounds = earlier ++ round :: later →
    ∀ call error, (call, .error error) ∈ round.answers → outcome = .error error ∧ later = []
  /-- The merge fails only with the error of a call of the last round. -/
  failed : ∀ error, outcome = .error error → ∃ earlier round call,
    rounds = earlier ++ [round] ∧ (call, .error error) ∈ round.answers

namespace MergedType

variable {ρ : Type} {merged : MergedType ρ}

/-- What is so of the calls of any plan for some targets is so of all calls of a run. -/
theorem Goes.forall_mem_calls {P : Call → Prop} {targets : List Subschema}
    (hplan : ∀ run : MergeRun, run.targets ⊆ targets →
      ∀ call ∈ (merged.nextPlan run).delegations, P call)
    {run : MergeRun} {outcome : Except DelegationError MergeRun} {rounds : List RoundLog}
    (h : merged.Goes run outcome rounds) (htargets : run.targets ⊆ targets) :
    ∀ call ∈ callsOf rounds, P call := by
  induction h with
  | done => exact fun call hcall => absurd hcall List.not_mem_nil
  | @failed run =>
    rw [callsOf, List.flatMap_singleton]
    exact hplan run htargets
  | @next run _ _ _ _ _ _ _ ih =>
    rw [callsOf, List.flatMap_cons, List.forall_mem_append]
    exact ⟨hplan run htargets, ih fun target htarget =>
      htargets (mem_of_mem_nonProxiable htarget)⟩

/-- An only round that fails is accounted for. -/
theorem accounted_failed {run : MergeRun} {error : DelegationError} {log : List (Call × Outcome)}
    (h : Answers (merged.nextPlan run).delegations (.error error) log) :
    Accounted merged run.waiting run.targets (.error error)
      [⟨merged.nextPlan run, log⟩] := by
  obtain ⟨deal, hdeal⟩ := merged.plan_deals run.waiting run.sources run.targets
  have hcalls : callsOf [⟨merged.nextPlan run, log⟩] =
      (merged.nextPlan run).delegations := List.flatMap_singleton _ _
  refine ⟨?_, ?_, ⟨deal, (merged.nextPlan run).waiting, ?_, by simp⟩, by simp, ?_, by simp, ?_, ?_⟩
  · rw [hcalls]
    intro call hcall
    obtain ⟨target, htarget, hname, -⟩ := exists_target_of_mem hcall
    exact List.any_eq_true.mpr ⟨target, htarget, decide_eq_true hname⟩
  · rw [hcalls]
    exact pairwise_delegations _ _ _
  · rw [hcalls]
    exact hdeal
  · intro round hround
    rw [List.mem_singleton.mp hround]
    exact h.isPrefix
  · intro earlier round later hsplit call error' hmem
    rcases earlier with _ | ⟨first, earlier⟩
    · obtain ⟨rfl, rfl⟩ := List.cons.inj hsplit
      have hsame : error = error' := Except.error.inj ((h.error_iff error').mpr ⟨call, hmem⟩)
      exact ⟨congrArg Except.error hsame, rfl⟩
    · exact absurd (List.cons.inj hsplit).2 (by simp)
  · rintro error' ⟨rfl⟩
    obtain ⟨call, hmem⟩ := (h.error_iff error).mp rfl
    exact ⟨[], _, call, rfl, hmem⟩

/-- A round in front of rounds that are accounted for is accounted for with them. -/
theorem accounted_next {run : MergeRun} {values : List FetchedValue}
    {log : List (Call × Outcome)} {outcome : Except DelegationError MergeRun}
    {rounds : List RoundLog}
    (h : Answers (merged.nextPlan run).delegations (.ok values) log)
    (hrest : Accounted merged (merged.nextPlan run).waiting (merged.nextPlan run).nonProxiable
      outcome rounds) :
    Accounted merged run.waiting run.targets outcome
      (⟨merged.nextPlan run, log⟩ :: rounds) := by
  obtain ⟨deal, hdeal⟩ := merged.plan_deals run.waiting run.sources run.targets
  have hcalls : callsOf (⟨merged.nextPlan run, log⟩ :: rounds) =
      (merged.nextPlan run).delegations ++ callsOf rounds := List.flatMap_cons
  -- The later rounds only call targets that this one leaves.
  have hothers : ∀ call ∈ (merged.nextPlan run).delegations, ∀ call' ∈ callsOf rounds,
      call.1.name ≠ call'.1.name := by
    intro call hcall call' hcall'
    obtain ⟨target, htarget, his⟩ := List.any_eq_true.mp (hrest.targets call' hcall')
    rw [of_decide_eq_true his]
    exact name_ne_of_mem_nonProxiable hcall htarget
  -- The run would not go on if a call of this round had failed.
  have herror : ∀ call error, (call, .error error) ∉ log := by
    intro call error hmem
    exact absurd ((h.error_iff error).mpr ⟨call, hmem⟩) (by simp)
  refine ⟨?_, ?_, ?_, hrest.done, ?_, ?_, ?_, ?_⟩
  · rw [hcalls]
    intro call hcall
    rcases List.mem_append.mp hcall with hcall | hcall
    · obtain ⟨target, htarget, hname, -⟩ := exists_target_of_mem hcall
      exact List.any_eq_true.mpr ⟨target, htarget, decide_eq_true hname⟩
    · obtain ⟨target, htarget, his⟩ := List.any_eq_true.mp (hrest.targets call hcall)
      exact List.any_eq_true.mpr ⟨target, mem_of_mem_nonProxiable htarget, his⟩
  · rw [hcalls, List.pairwise_append]
    exact ⟨pairwise_delegations _ _ _, hrest.once, hothers⟩
  · rw [hcalls]
    obtain ⟨later, left, hlater, hleft⟩ := hrest.dealt
    exact ⟨deal.relay later, left, hdeal.relay hlater hothers, hleft⟩
  · intro round hround
    rcases List.mem_cons.mp hround with rfl | hround
    · exact h.isPrefix
    · exact hrest.answered round hround
  · intro run' hok round hround call hcall
    rcases List.mem_cons.mp hround with rfl | hround
    · exact h.exists_answer hcall
    · exact hrest.succeeded run' hok round hround call hcall
  · intro earlier round later hsplit call error hmem
    rcases earlier with _ | ⟨first, earlier⟩
    · obtain ⟨rfl, -⟩ := List.cons.inj hsplit
      exact absurd hmem (herror call error)
    · exact hrest.failure earlier round later (List.cons.inj hsplit).2 call error hmem
  · intro error houtcome
    obtain ⟨earlier, round, call, rfl, hmem⟩ := hrest.failed error houtcome
    exact ⟨_ :: earlier, round, call, rfl, hmem⟩

/-- The rounds of a run account for what it waits for and for its targets. -/
theorem Goes.accounted {run : MergeRun} {outcome : Except DelegationError MergeRun}
    {rounds : List RoundLog} (h : merged.Goes run outcome rounds) :
    Accounted merged run.waiting run.targets outcome rounds := by
  induction h with
  | @done run idle =>
    obtain ⟨deal, hdeal⟩ := exists_deals_nil run.waiting
    refine ⟨by simp [callsOf], List.Pairwise.nil, ⟨deal, run.waiting, hdeal, ?_⟩, ?_, by simp,
      by simp, by simp, by simp⟩
    · rintro _ ⟨rfl⟩
      rfl
    · rintro _ ⟨rfl⟩
      exact idle
  | failed _ answers => exact accounted_failed answers
  | next _ answers _ ih => exact accounted_next answers ih

/-- A merge ends, whatever its resolvers do, and its rounds account for all that it is given: over
all of them only targets are called and none of them twice, each selection goes to one call or is
left, in order, and the first failure of a call ends the merge with its error. -/
theorem merge_accounted {σ : Type} (merged : MergedType ρ) (resolvers : Resolvers σ)
    (object : FetchedObject) (selections : List Selection) (sources targets : List Subschema)
    (session : Session σ) :
    ∃ outcome session' rounds,
      runFrom (merged.merge resolvers.ask object selections sources targets) session =
        (outcome, session') ∧
      runFrom (merged.merge resolvers.askNoting object selections sources targets) (session, []) =
        (outcome, session', rounds.flatMap RoundLog.events) ∧
      (∀ more, merged.mergeWithin resolvers.ask (targets.length + more)
          { object, waiting := selections, sources, targets } =
        merged.merge resolvers.ask object selections sources targets) ∧
      Accounted merged selections targets outcome rounds := by
  obtain ⟨outcome, session', rounds, hgoes, hplain, hnoting⟩ :=
    merged.mergeWithin_goes resolvers targets.length
      { object, waiting := selections, sources, targets } (Nat.le_refl _) session []
  refine ⟨outcome, session', rounds, hplain, hnoting, ?_, hgoes.accounted⟩
  intro more
  exact mergeWithin_add merged resolvers.ask targets.length more (Nat.le_refl _)

end MergedType

end Gateway
