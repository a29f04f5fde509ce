import Gateway.Delegation.Session

/-!
# Runs of actions

An action leads from a state to a value or an error, and to a state (`runFrom`). Some actions of a
session never fail and do no more to it than warn: `Act.Ensures` says so of an action, together with
what its value and its warnings are like. This is kept when actions follow each other
(`Act.Ensures.bind`).
-/

namespace Gateway

/-! ## Actions from a state -/

/-- What an action that may fail leads to from a state. -/
def runFrom {τ α : Type} (action : ExceptT DelegationError (StateM τ) α) (state : τ) :
    Except DelegationError α × τ :=
  Id.run (StateT.run (ExceptT.run action) state)

section RunFrom

variable {τ α β : Type} {action : ExceptT DelegationError (StateM τ) α}
  {next : α → ExceptT DelegationError (StateM τ) β} {state state' : τ}

/-- A value leaves the state as it is. -/
theorem runFrom_pure (value : α) :
    runFrom (pure value : ExceptT DelegationError (StateM τ) α) state = (.ok value, state) :=
  rfl

/-- What comes next goes on from where an action ends. -/
theorem runFrom_bind_ok {value : α} (h : runFrom action state = (.ok value, state')) :
    runFrom (action >>= next) state = runFrom (next value) state' := by
  change Id.run (StateT.run (ExceptT.run action >>= ExceptT.bindCont next) state) = _
  rw [StateT.run_bind]
  change (ExceptT.bindCont next (runFrom action state).1).run (runFrom action state).2 = _
  rw [h]
  rfl

/-- Nothing comes next when an action fails. -/
theorem runFrom_bind_error {error : DelegationError}
    (h : runFrom action state = (.error error, state')) :
    runFrom (action >>= next) state = (.error error, state') := by
  change Id.run (StateT.run (ExceptT.run action >>= ExceptT.bindCont next) state) = _
  rw [StateT.run_bind]
  change (ExceptT.bindCont next (runFrom action state).1).run (runFrom action state).2 = _
  rw [h]
  rfl

end RunFrom

/-! ## Actions that only warn -/

namespace Act

variable {σ α β : Type}

/-- In every session the action has a value and does nothing but warn; value and warnings are as
stated. -/
def Ensures (action : Act σ α) (post : α → List Warning → Prop) : Prop :=
  ∀ session, ∃ value warnings,
    runFrom action session =
      (.ok value, { session with warnings := session.warnings ++ warnings }) ∧
    post value warnings

/-- A value is there without warnings. -/
theorem ensures_pure {value : α} {post : α → List Warning → Prop} (h : post value []) :
    (pure value : Act σ α).Ensures post := by
  intro session
  refine ⟨value, [], ?_, h⟩
  rw [runFrom_pure, List.append_nil]

/-- A warning is the only one. -/
theorem ensures_warn {warning : Warning} {post : Unit → List Warning → Prop}
    (h : post () [warning]) : (Act.warn warning : Act σ Unit).Ensures post :=
  fun _ => ⟨(), [warning], rfl, h⟩

/-- What an action ensures may be weakened. -/
theorem Ensures.imp {action : Act σ α} {post post' : α → List Warning → Prop}
    (h : action.Ensures post)
    (himp : ∀ value warnings, post value warnings → post' value warnings) :
    action.Ensures post' := by
  intro session
  obtain ⟨value, warnings, hrun, hpost⟩ := h session
  exact ⟨value, warnings, hrun, himp value warnings hpost⟩

/-- An action and what follows it warn one after the other. -/
theorem Ensures.bind {action : Act σ α} {next : α → Act σ β} {post : α → List Warning → Prop}
    {post' : β → List Warning → Prop} (h : action.Ensures post)
    (hnext : ∀ value warnings, post value warnings →
      (next value).Ensures fun result more => post' result (warnings ++ more)) :
    (action >>= next).Ensures post' := by
  intro session
  obtain ⟨value, warnings, hrun, hpost⟩ := h session
  obtain ⟨result, more, hmore, hresult⟩ := hnext value warnings hpost
    { session with warnings := session.warnings ++ warnings }
  refine ⟨result, warnings ++ more, ?_, hresult⟩
  rw [runFrom_bind_ok hrun, hmore, List.append_assoc]

end Act

end Gateway
