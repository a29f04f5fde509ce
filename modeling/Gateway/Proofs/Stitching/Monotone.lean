import Gateway.Proofs.Stitching.Rounds

/-!
# More sources never contain less

What types have, they have together with others behind them (`Has.append`): a field that one of them
declares is still declared, and the condition of an inline fragment is compared with the first type,
which stays the first. So sources contain no less when others join them, and since the targets of a
round only ever join the sources (`Goes.sources`), a target whose needs are met in a round has them
met in every later one.
-/

namespace Gateway

/-! ## Selections -/

/-- The types of a field are those that it has in the first types and in those behind them. -/
theorem innerTypes_append (types more : List (Schema × Name)) (field : Name) :
    innerTypes (types ++ more) field = innerTypes types field ++ innerTypes more field :=
  List.filterMap_append

/-- What types have they have with others behind them. -/
theorem Has.append {types : List (Schema × Name)} {selection : Selection}
    (h : Has types selection) (more : List (Schema × Name)) : Has (types ++ more) selection := by
  induction h generalizing more with
  | typename named => exact .typename named
  | field declared _ ih =>
    obtain ⟨type, htype, hsome⟩ := declared
    refine .field ⟨type, List.mem_append_left _ htype, hsome⟩ fun selection hmem => ?_
    rw [innerTypes_append]
    exact ih selection hmem _
  | spread => exact .spread
  | elsewhere other => exact .elsewhere other
  | inline _ ih => exact .inline fun selection hmem => ih selection hmem more

namespace MergedType

variable {ρ : Type} {merged : MergedType ρ}

/-! ## Sources -/

/-- What the tables of sources know they know with others behind them. -/
theorem Knows.append {sources : List Subschema} {needed : List Selection}
    (h : merged.Knows sources needed) (more : List Subschema) :
    merged.Knows (sources ++ more) needed := by
  obtain ⟨source, hsource, hknown⟩ := h
  exact ⟨source, List.mem_append_left _ hsource, hknown⟩

/-- What sources contain they contain with others behind them. -/
theorem Contains.append {sources : List Subschema} {needed : List Selection}
    (h : merged.Contains sources needed) (more : List Subschema) :
    merged.Contains (sources ++ more) needed := by
  rcases h with hknows | ⟨type, htype, hhas⟩
  · exact .inl (hknows.append more)
  · refine .inr ⟨type, htype, fun selection hmem => ?_⟩
    rw [List.map_append]
    exact (hhas selection hmem).append _

/-- The check of sources goes on to succeed when others join them. -/
theorem sourcesContain_append {sources : List Subschema} {needed : List Selection}
    (h : merged.sourcesContain sources needed = true) (more : List Subschema) :
    merged.sourcesContain (sources ++ more) needed = true := by
  rw [sourcesContain_iff] at h ⊢
  exact h.append more

/-- The needs of a target stay met when others join the sources. -/
theorem typeNeedsMet_append {sources : List Subschema} {target : Subschema}
    (h : merged.typeNeedsMet sources target = true) (more : List Subschema) :
    merged.typeNeedsMet (sources ++ more) target = true := by
  unfold typeNeedsMet at h ⊢
  split
  · rename_i needed hneeded
    rw [hneeded] at h
    exact sourcesContain_append h more
  · rfl

/-! ## Rounds -/

/-- More rounds only add sources. -/
theorem sourcesAfter_append (sources : List Subschema) (rounds more : List RoundLog) :
    sourcesAfter sources (rounds ++ more) = sourcesAfter (sourcesAfter sources rounds) more := by
  unfold sourcesAfter
  rw [List.flatMap_append, List.append_assoc]

/-- Each round is planned for the sources after those before it, and these are also the sources
with which a run ends. -/
theorem Goes.sources {run : MergeRun} {outcome : Except DelegationError MergeRun}
    {rounds : List RoundLog} (h : merged.Goes run outcome rounds) :
    (∀ earlier round later, rounds = earlier ++ round :: later → ∃ waiting targets,
      round.plan = merged.plan waiting (sourcesAfter run.sources earlier) targets) ∧
    ∀ final, outcome = .ok final → final.sources = sourcesAfter run.sources rounds := by
  induction h with
  | done idle =>
    refine ⟨fun earlier round later hsplit => absurd hsplit (by simp), ?_⟩
    rintro final ⟨rfl⟩
    exact (sourcesAfter_nil _).symm
  | @failed run _ _ _ _ =>
    refine ⟨fun earlier round later hsplit => ?_, fun final hfinal => absurd hfinal (by simp)⟩
    rcases earlier with _ | ⟨first, earlier⟩
    · obtain ⟨rfl, -⟩ := List.cons.inj hsplit
      exact ⟨_, _, by rw [sourcesAfter_nil]; rfl⟩
    · exact absurd (List.cons.inj hsplit).2 (by simp)
  | @next run _ _ _ _ _ _ _ ih =>
    obtain ⟨hplans, hfinal⟩ := ih
    refine ⟨fun earlier round later hsplit => ?_, fun final houtcome => ?_⟩
    · rcases earlier with _ | ⟨first, earlier⟩
      · obtain ⟨rfl, -⟩ := List.cons.inj hsplit
        exact ⟨_, _, by rw [sourcesAfter_nil]; rfl⟩
      · obtain ⟨rfl, hrest⟩ := List.cons.inj hsplit
        rw [sourcesAfter_cons]
        exact hplans earlier round later hrest
    · rw [sourcesAfter_cons]
      exact hfinal final houtcome

/-- More sources never contain less: what sources contain they contain when others are behind them.
So in every run of merging, whose rounds are planned for sources that only grow, the needs of a
target that are met for the sources of a round are met for those of every later round, and for those
with which the run ends. -/
theorem merge_stays_met {σ : Type} (merged : MergedType ρ) :
    (∀ sources more needed, merged.sourcesContain sources needed = true →
      merged.sourcesContain (sources ++ more) needed = true) ∧
    ∀ (resolvers : Resolvers σ) (object : FetchedObject) (selections : List Selection)
      (sources targets : List Subschema) (session : Session σ),
      ∃ outcome session' rounds,
        runFrom (merged.merge resolvers.askNoting object selections sources targets)
          (session, []) = (outcome, session', rounds.flatMap RoundLog.events) ∧
        merged.Goes { object, waiting := selections, sources, targets } outcome rounds ∧
        (∀ earlier round later, rounds = earlier ++ round :: later → ∃ waiting rest,
          round.plan = merged.plan waiting (sourcesAfter sources earlier) rest) ∧
        (∀ final, outcome = .ok final → final.sources = sourcesAfter sources rounds) ∧
        ∀ earlier between later, rounds = earlier ++ between ++ later → ∀ target,
          merged.typeNeedsMet (sourcesAfter sources earlier) target = true →
          merged.typeNeedsMet (sourcesAfter sources (earlier ++ between)) target = true := by
  refine ⟨fun sources more needed h => sourcesContain_append h more, ?_⟩
  intro resolvers object selections sources targets session
  obtain ⟨outcome, session', rounds, hgoes, -, hnoting⟩ :=
    merged.mergeWithin_goes resolvers targets.length
      { object, waiting := selections, sources, targets } (Nat.le_refl _) session []
  obtain ⟨hplans, hfinal⟩ := hgoes.sources
  refine ⟨outcome, session', rounds, hnoting, hgoes, hplans, hfinal, ?_⟩
  intro earlier between later _ target hmet
  rw [sourcesAfter_append]
  exact typeNeedsMet_append hmet _

end MergedType

end Gateway
