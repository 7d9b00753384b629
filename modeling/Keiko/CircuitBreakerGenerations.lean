import Keiko.CircuitBreakerInvariant

/-! What a settlement is worth depends on the generation of its admission. A stale one
moves the provider's cooldown at most, no admission counts twice, and recovery takes the
configured number of successes of one generation without a failure among them. -/
namespace Keiko.Breaker
open Keiko.Library Keiko.Gateway

variable {modelId : Text} {config : CircuitBreakerConfig} {state : Traffic}
  {settlements : List Settlement} {index : Nat} {outcome : Outcome} {error : Option GatewayError}
  {admission : CircuitBreakerAdmission}

theorem step_unsettled (modelId : Text) (config : CircuitBreakerConfig) (hit : state.admissions[index]? = some admission)
    (unsettled : admission.settled = false) :
    (step modelId config state (.settle index outcome error)).breaker =
      settleAdmission config state.now state.breaker admission outcome error := by
  simp [step,hit,settle,unsettled]

theorem step_settled (modelId : Text) (config : CircuitBreakerConfig) (hit : state.admissions[index]? = some admission)
    (settled : admission.settled = true) :
    step modelId config state (.settle index outcome error) = state := by
  obtain ⟨mem,rfl⟩ := List.getElem?_eq_some_iff.mp hit
  simp [step,hit,settle,settled]

/-- A settlement that does not count leaves the breaker as it is, apart from the
provider's cooldown during the outage that ended its generation. -/
theorem step_uncounted (modelId : Text) (config : CircuitBreakerConfig)
    (uncounted : counted state (.settle index outcome error) = []) :
    ∃ post, state.breaker.providerCooldownUntil ≤ post ∧
      (step modelId config state (.settle index outcome error)).breaker =
        {state.breaker with providerCooldownUntil := post} ∧
      (post ≠ state.breaker.providerCooldownUntil →
        ∃ admission, state.admissions[index]? = some admission ∧ admission.settled = false ∧
          canExtendClosedGenerationOutage state.breaker admission = true) := by
  have unmoved : ∀ {condition : Prop}, state.breaker.providerCooldownUntil ≠
      state.breaker.providerCooldownUntil → condition := fun moved => absurd rfl moved
  cases hit : state.admissions[index]? with
  | none => exact ⟨_,le_refl _,by simp [step,hit],unmoved⟩
  | some admission =>
    cases settled : admission.settled with
    | true => exact ⟨_,le_refl _,by rw [step_settled modelId config hit settled],unmoved⟩
    | false =>
      have stale : admission.generation ≠ state.breaker.generation := by
        intro cur
        simp [counted,hit,settled,cur] at uncounted
      obtain ⟨post,forward,moved,only⟩ :=
        settleAdmission_stale config state.now outcome error stale
      refine ⟨post,forward,(step_unsettled modelId config hit settled).trans moved,fun further => ?_⟩
      exact ⟨admission,rfl,settled,only further⟩

theorem settleAdmission_nonProviderFault (config : CircuitBreakerConfig) (now : ℚ)
    (breaker : CircuitBreaker) (origin : CircuitBreakerAdmission) (error : Option GatewayError) :
    settleAdmission config now breaker origin .nonProviderFault error = breaker ∨
      settleAdmission config now breaker origin .nonProviderFault error = releaseProbe breaker := by
  have announced : announceProviderCooldown now breaker .nonProviderFault error = breaker := rfl
  by_cases cur : origin.generation = breaker.generation
  · rw [settleAdmission_current cur,announced]
    simp only [recordOutcome,recordNonProviderFault]
    split
    · exact .inl rfl
    · exact .inr rfl
  · simp [settleAdmission,cur,announced]

theorem step_nonProviderFault (modelId : Text) (config : CircuitBreakerConfig) (state : Traffic)
    (index : Nat) (error : Option GatewayError) : ∃ inFlight,
    (step modelId config state (.settle index .nonProviderFault error)).breaker =
      {state.breaker with probesInFlight := inFlight} := by
  cases hit : state.admissions[index]? with
  | none => exact ⟨state.breaker.probesInFlight,by simp [step,hit]⟩
  | some admission =>
    cases settled : admission.settled with
    | true =>
      exact ⟨state.breaker.probesInFlight,by rw [step_settled modelId config hit settled]⟩
    | false =>
      rw [step_unsettled modelId config hit settled]
      rcases settleAdmission_nonProviderFault config state.now state.breaker admission error with kept | released
      · exact ⟨state.breaker.probesInFlight,kept⟩
      · exact ⟨state.breaker.probesInFlight - 1,released⟩

theorem recordOutcome_closes {now : ℚ} {breaker : CircuitBreaker} (unclosed : breaker.state ≠ .closed)
    (admitting : breaker.state ≠ .open)
    (closes : (recordOutcome config now breaker outcome).state = .closed) :
    breaker.state = .halfOpen ∧ outcome = .success ∧ breaker.probesRemaining ≤ 1 := by
  have halfOpen : breaker.state = .halfOpen := by
    cases current : breaker.state with
    | closed => exact absurd current unclosed
    | «open» => exact absurd current admitting
    | halfOpen => rfl
  cases outcome with
  | success =>
    by_cases last : breaker.probesRemaining ≤ 1
    · exact ⟨halfOpen,rfl,last⟩
    · have further : ¬breaker.probesRemaining - 1 ≤ 0 := by omega
      simp [recordOutcome,recordSuccess,halfOpen,further,releaseProbe] at closes
  | failure => simp [recordOutcome,recordFailure,halfOpen,openBreaker] at closes
  | nonProviderFault =>
    simp [recordOutcome,recordNonProviderFault,halfOpen,releaseProbe] at closes

theorem step_closes (sound : Sound config state settlements) (unclosed : state.breaker.state ≠ .closed) (ev : Event)
    (closes : (step modelId config state ev).breaker.state = .closed) :
    state.breaker.state = .halfOpen ∧ ∃ index error, ev = .settle index .success error ∧
      counted state ev = [⟨index,state.breaker.generation,.success⟩] ∧
      state.breaker.probesRemaining = 1 := by
  cases ev with
  | assertAllowed =>
    simp only [step] at closes
    split at closes
    · next allowed =>
      obtain ⟨_,⟨closed,_⟩ | ⟨halfOpen,_,rfl⟩ | ⟨_,rfl⟩⟩ := assertAllowed_ok allowed
      · exact absurd closed unclosed
      · exact absurd closes unclosed
      · cases closes
    · next refused =>
      cases assertAllowed_error refused
      exact absurd closes unclosed
  | advance elapsed => exact absurd closes unclosed
  | settle index outcome error =>
    by_cases uncounted : counted state (.settle index outcome error) = []
    · obtain ⟨post,_,kept,_⟩ := step_uncounted modelId config uncounted
      rw [kept] at closes
      exact absurd closes unclosed
    · simp only [counted] at uncounted ⊢
      cases hit : state.admissions[index]? with
      | none => simp [hit] at uncounted
      | some admission =>
        cases settled : admission.settled with
        | true => simp [hit,settled] at uncounted
        | false =>
          by_cases cur : admission.generation = state.breaker.generation
          · have granted := sound.recorded.present admission (List.mem_of_getElem? hit) cur
            obtain ⟨post,_,announced⟩ :=
              announceProviderCooldown_cases state.now state.breaker outcome error
            rw [step_unsettled modelId config hit settled,settleAdmission_current cur,announced] at closes
            obtain ⟨halfOpen,rfl,last⟩ := recordOutcome_closes (by exact unclosed) (by exact granted.1) closes
            have due := (sound.probing halfOpen).unfinished
            refine ⟨halfOpen,index,error,rfl,?_,?_⟩
            · simp [settled,cur]
            · simp only at last
              omega
          · simp [hit,cur] at uncounted

/-- The breaker follows the settlements of its present generation only, each admission at
most once. -/
theorem stale_settlements (modelId : Text) (config : CircuitBreakerConfig) (now : ℚ)
    (events : List Event) :
    let state := (traffic modelId config now).run events
    let settlements := (traffic modelId config now).noted events
    (∀ index admission outcome error, state.admissions[index]? = some admission →
      admission.generation < state.breaker.generation →
      let after := (step modelId config state (.settle index outcome error)).breaker
      after = {state.breaker with providerCooldownUntil := after.providerCooldownUntil} ∧
      state.breaker.providerCooldownUntil ≤ after.providerCooldownUntil ∧
      (after.providerCooldownUntil ≠ state.breaker.providerCooldownUntil →
        state.breaker.state = .open ∧ state.breaker.generation = admission.generation + 1 ∧
        admission.halfOpen = false)) ∧
    (∀ index admission outcome error, state.admissions[index]? = some admission →
      admission.settled = true →
      step modelId config state (.settle index outcome error) = state) ∧
    (settlements.map Settlement.admission).Nodup ∧
    (∀ event, state.breaker.state ≠ .closed →
      (step modelId config state event).breaker.state = .closed →
      state.breaker.state = .halfOpen ∧
      tally (settlements ++ counted state event) state.breaker.generation .success =
        config.halfOpenProbes ∧
      tally (settlements ++ counted state event) state.breaker.generation .failure = 0) ∧
    ∀ index error providerAdmitted, isNonProviderFault error = true →
      let event := .settle index (failureOutcome error providerAdmitted) (some error)
      let after := (step modelId config state event).breaker
      after = {state.breaker with probesInFlight := after.probesInFlight} := by
  intro state settlements
  have sound : Sound config state settlements := sound_run now events
  refine ⟨?_,?_,sound.recorded.once,?_,?_⟩
  · intro index admission outcome error found earlier
    have uncounted : counted state (.settle index outcome error) = [] := by
      have stale : admission.generation ≠ state.breaker.generation := ne_of_lt earlier
      simp [counted,found,stale]
    obtain ⟨later,forward,moved,only⟩ :=
      step_uncounted modelId config uncounted
    rw [moved]
    refine ⟨rfl,forward,fun further => ?_⟩
    obtain ⟨_,same,_,outage⟩ := only further
    cases found.symm.trans same
    simp only [canExtendClosedGenerationOutage,Bool.and_eq_true,Bool.not_eq_true',
      decide_eq_true_eq] at outage
    exact ⟨outage.1.2,outage.2,outage.1.1⟩
  · intro index admission outcome error found settled
    exact step_settled modelId config found settled
  · intro event unclosed closes
    obtain ⟨halfOpen,index,error,rfl,count,last⟩ := step_closes sound unclosed event closes
    have probing := sound.probing halfOpen
    have remaining := probing.remaining
    rw [count,tally_snoc,tally_snoc,probing.unfailed]
    rw [last] at remaining
    refine ⟨halfOpen,?_,by simp⟩
    simp only [and_self,if_true]
    omega
  · intro index error providerAdmitted fault event after
    have neutral : failureOutcome error providerAdmitted = .nonProviderFault := by
      simp [failureOutcome,fault]
    obtain ⟨inFlight,kept⟩ := step_nonProviderFault modelId config state index (some error)
    simp only [after,event,neutral,kept]

end Keiko.Breaker
