import Keiko.CircuitBreaker
import Mathlib.Tactic.Linarith

/-! What every interleaving of callers keeps. The slots taken in the half-open state are
the probes that have not settled, the counters of a generation are those of its counted
settlements, and a new generation starts with neither. -/
namespace Keiko.Breaker
open Keiko.Library Keiko.Gateway List Option

def tally (settlements : List Settlement) (generation : Nat) (outcome : Outcome) : Nat :=
  settlements.countP fun settlement =>
    settlement.generation = generation && settlement.outcome = outcome

structure Recorded (traffic : Traffic) (settlements : List Settlement) : Prop where
  granted : ∀ admission ∈ traffic.admissions, admission.generation ≤ traffic.breaker.generation
  present : ∀ admission ∈ traffic.admissions, admission.generation = traffic.breaker.generation →
      traffic.breaker.state ≠ .open ∧ (admission.halfOpen = true ↔ traffic.breaker.state = .halfOpen)
  listed : ∀ settlement ∈ settlements, settlement.generation ≤ traffic.breaker.generation
  settled : ∀ settlement ∈ settlements, ∃ admission,
    traffic.admissions[settlement.admission]? = some admission ∧ admission.settled = true
  once : (settlements.map Settlement.admission).Nodup

structure Probing (config : CircuitBreakerConfig) (traffic : Traffic)
    (settlements : List Settlement) : Prop where
  occupied : traffic.breaker.probesInFlight = outstanding traffic
  room : traffic.breaker.probesInFlight ≤ config.halfOpenProbes
  unfinished : 0 < traffic.breaker.probesRemaining
  remaining : traffic.breaker.probesRemaining +
    tally settlements traffic.breaker.generation .success = config.halfOpenProbes
  unfailed : tally settlements traffic.breaker.generation .failure = 0

structure Sound (config : CircuitBreakerConfig) (traffic : Traffic)
    (settlements : List Settlement) : Prop where
  recorded : Recorded traffic settlements
  belowThreshold : traffic.breaker.state = .closed → traffic.breaker.consecutiveFailures < config.failureThreshold
  openedAt : traffic.breaker.state = .open → traffic.breaker.openedAt.isSome
  probing : traffic.breaker.state = .halfOpen → Probing config traffic settlements

section Announce

variable (now : ℚ) (b : CircuitBreaker) (out : Outcome) (error : Option GatewayError)

theorem announceProviderCooldown_cases : ∃ post, b.providerCooldownUntil ≤ post ∧
    announceProviderCooldown now b out error = {b with providerCooldownUntil := post} := by
  unfold announceProviderCooldown
  cases announcedCooldown out error with
  | none => exact ⟨_,le_refl _,rfl⟩
  | some cooldown => exact ⟨_,le_max_left _ _,rfl⟩

end Announce

section Admit

variable {modelId : Text} {config : CircuitBreakerConfig} {now : ℚ}
  {b after : CircuitBreaker} {adm : CircuitBreakerAdmission}
  {refusal : CircuitOpenError}

def halfOpened (config : CircuitBreakerConfig) (b : CircuitBreaker) : CircuitBreaker :=
  {b with
    state := .halfOpen
    generation := b.generation + 1
    probesRemaining := config.halfOpenProbes
    probesInFlight := 1
    rejectedSinceTransition := 0}

theorem assertAllowed_eq : assertAllowed modelId config now b = match b.state with
    | .closed => .ok ⟨createAdmission b,b⟩
    | .open =>
      if cooledDown config now b then .ok ⟨createAdmission (halfOpened config b),halfOpened config b⟩
      else .error ⟨circuitOpenError modelId,noteRejection b⟩
    | .halfOpen =>
      if b.probesInFlight ≥ config.halfOpenProbes then .error ⟨circuitHalfOpenError modelId,noteRejection b⟩
      else
        let admitted := {b with probesInFlight := b.probesInFlight + 1}
        .ok ⟨createAdmission admitted,admitted⟩ := by
  have probes : ¬config.halfOpenProbes = 0 := ne_of_gt config.halfOpenProbes_pos
  unfold assertAllowed
  cases s : b.state with
  | closed => simp [bind,Except.bind,pure,Except.pure,s]
  | «open» =>
    by_cases cooled : cooledDown config now b = true
    · simp [enterHalfOpenOrReject,admitProbeOrReject,cooled,probes,bind,Except.bind,pure,Except.pure,halfOpened]
    · simp [enterHalfOpenOrReject,cooled,bind,Except.bind]
  | halfOpen =>
    by_cases saturated : config.halfOpenProbes ≤ b.probesInFlight
    · simp [admitProbeOrReject,saturated,bind,Except.bind,pure,Except.pure,s]
    · simp [admitProbeOrReject,saturated,bind,Except.bind,pure,Except.pure,s]

/-- An admission is granted by the closed breaker, by a free slot of the half-open one, or
by the open one when it has cooled down. -/
theorem assertAllowed_ok (allowed : assertAllowed modelId config now b =
    .ok ⟨adm,after⟩) : adm = createAdmission after ∧ (b.state = .closed ∧ after = b ∨
        b.state = .halfOpen ∧ b.probesInFlight < config.halfOpenProbes ∧
          after = {b with probesInFlight := b.probesInFlight + 1} ∨
        b.state = .open ∧ after = halfOpened config b) := by
  rw [assertAllowed_eq] at allowed
  cases state : b.state with
  | closed =>
    simp only [state] at allowed
    cases allowed
    exact ⟨rfl,.inl ⟨rfl,rfl⟩⟩
  | «open» =>
    simp only [state] at allowed
    split at allowed
    · cases allowed
      exact ⟨rfl,.inr (.inr ⟨rfl,rfl⟩)⟩
    · cases allowed
  | halfOpen =>
    simp only [state] at allowed
    split at allowed
    · cases allowed
    · next room =>
      cases allowed
      exact ⟨rfl,.inr (.inl ⟨rfl,lt_of_not_ge room,rfl⟩)⟩

theorem assertAllowed_error (refused : assertAllowed modelId config now b =
    .error ⟨refusal,after⟩) : after = noteRejection b := by
  rw [assertAllowed_eq] at refused
  split at refused
  · cases refused
  · split at refused
    · cases refused
    · cases refused
      rfl
  · split at refused
    · cases refused
      rfl
    · cases refused

end Admit

section Generations

variable {cfg : CircuitBreakerConfig} {traffic : Traffic} {done : List Settlement}
  {b : CircuitBreaker} {admissions : List CircuitBreakerAdmission} {now : ℚ}

theorem outstanding_eq_zero (early : ∀ admission ∈ admissions, admission.generation < b.generation) :
    outstanding ⟨b,admissions,now⟩ = 0 := by
  apply countP_eq_zero.mpr
  intro admission mem
  have pre := early admission mem
  simp only [Bool.and_eq_true,decide_eq_true_eq,not_and]
  intro _ same
  omega

theorem tally_eq_zero {gen : Nat} {outcome : Outcome}
    (early : ∀ settlement ∈ done, settlement.generation < gen) :
    tally done gen outcome = 0 := by
  apply countP_eq_zero.mpr
  intro settlement mem
  have pre := early settlement mem
  simp only [Bool.and_eq_true,decide_eq_true_eq,not_and]
  intro same
  omega

theorem tally_snoc (settlement : Settlement) (gen : Nat) (outcome : Outcome) :
    tally (done ++ [settlement]) gen outcome = tally done gen outcome +
        if settlement.generation = gen ∧ settlement.outcome = outcome then 1 else 0 := by
  simp [tally,countP_append,countP_singleton]

end Generations

section Settle

variable {cfg : CircuitBreakerConfig} {now : ℚ} {b after : CircuitBreaker}
  {origin adm : CircuitBreakerAdmission} {out : Outcome} {error : Option GatewayError}
  {admissions : List CircuitBreakerAdmission} {settlements : List Settlement} {i : Nat}

theorem settleAdmission_current (cur : origin.generation = b.generation) :
    settleAdmission cfg now b origin out error =
      recordOutcome cfg now (announceProviderCooldown now b out error) out := by
  simp [settleAdmission,cur]

/-- A settlement from another generation moves the provider's cooldown at most, and that
only while the outage its generation ended in is open. -/
theorem settleAdmission_stale (cfg : CircuitBreakerConfig) (now : ℚ) (out : Outcome)
    (error : Option GatewayError) (stale : origin.generation ≠ b.generation) :
    ∃ post, b.providerCooldownUntil ≤ post ∧ settleAdmission cfg now b origin out error =
        {b with providerCooldownUntil := post} ∧
      (post ≠ b.providerCooldownUntil → canExtendClosedGenerationOutage b origin = true) := by
  unfold settleAdmission
  by_cases extends' : canExtendClosedGenerationOutage b origin = true
  · obtain ⟨post,forward,announced⟩ := announceProviderCooldown_cases now b out error
    refine ⟨post,forward,?_,fun _ => extends'⟩
    simp [stale,extends',announced]
  · refine ⟨b.providerCooldownUntil,le_refl _,?_,fun moved => absurd rfl moved⟩
    simp [stale,extends']

/-- A counted outcome stays in the generation with its state, or ends the generation in an
outage or in recovery. -/
theorem recordOutcome_cases (cfg : CircuitBreakerConfig) (now : ℚ) (b : CircuitBreaker) (out : Outcome) :
    (recordOutcome cfg now b out).generation = b.generation ∧
      (recordOutcome cfg now b out).state = b.state ∨
    (recordOutcome cfg now b out).generation = b.generation + 1 ∧
      ((recordOutcome cfg now b out).state = .open ∧
        (recordOutcome cfg now b out).openedAt = some now ∨
      (recordOutcome cfg now b out).state = .closed ∧
        (recordOutcome cfg now b out).consecutiveFailures = 0) := by
  cases out with
  | success =>
    simp only [recordOutcome,recordSuccess]
    split
    · split
      · exact .inr ⟨rfl,.inr ⟨rfl,rfl⟩⟩
      · exact .inl ⟨rfl,rfl⟩
    · exact .inl ⟨rfl,rfl⟩
  | failure =>
    simp only [recordOutcome,recordFailure]
    split
    · exact .inr ⟨rfl,.inl ⟨rfl,rfl⟩⟩
    · split
      · exact .inr ⟨rfl,.inl ⟨rfl,rfl⟩⟩
      · exact .inl ⟨rfl,rfl⟩
  | nonProviderFault =>
    simp only [recordOutcome,recordNonProviderFault]
    split
    · exact .inl ⟨rfl,rfl⟩
    · exact .inl ⟨rfl,rfl⟩

theorem mem_set_settled (hit : admissions[i]? = some adm) {e : CircuitBreakerAdmission}
    (mem : e ∈ admissions.set i {adm with settled := true}) :
    ∃ early ∈ admissions, e.generation = early.generation ∧ e.halfOpen = early.halfOpen := by
  rcases mem_or_eq_of_mem_set mem with kept | rfl
  · exact ⟨e,kept,rfl,rfl⟩
  · exact ⟨adm,mem_of_getElem? hit,rfl,rfl⟩

theorem outstanding_set_settled (hit : admissions[i]? = some adm)
    (unsettled : adm.settled = false) (same : after.generation = b.generation) :
    outstanding ⟨b,admissions,now⟩ =
      outstanding ⟨after,admissions.set i {adm with settled := true},now⟩ +
        if adm.generation = b.generation then 1 else 0 := by
  obtain ⟨bound,rfl⟩ := List.getElem?_eq_some_iff.mp hit
  unfold outstanding
  rw [countP_set bound,same]
  by_cases cur : admissions[i].generation = b.generation
  · have occupied : 0 < admissions.countP fun adm =>
        !adm.settled && adm.generation = b.generation :=
      countP_pos_iff.mpr ⟨_,getElem_mem bound,by simp [unsettled,cur]⟩
    simp only [unsettled,cur]
    simp
    omega
  · simp [unsettled,cur]

/-- Settling keeps the records when the breaker keeps its generation with the state, or
begins the next one. -/
theorem Recorded.settle (recorded : Recorded ⟨b,admissions,now⟩ settlements)
    (hit : admissions[i]? = some adm)
    (moved : after.generation = b.generation ∧ after.state = b.state ∨
      after.generation = b.generation + 1) :
    Recorded ⟨after,admissions.set i {adm with settled := true},now⟩ settlements where
  granted := by
    intro e mem
    obtain ⟨early,held,gen,_⟩ := mem_set_settled hit mem
    have bound := recorded.granted early held
    simp only at bound ⊢
    omega
  present := by
    intro e mem cur
    obtain ⟨early,held,gen,halfOpen⟩ := mem_set_settled hit mem
    have bound := recorded.granted early held
    simp only at bound cur ⊢
    rcases moved with ⟨same,s⟩ | next
    · rw [s,halfOpen]
      exact recorded.present early held (by simp only; omega)
    · omega
  listed := by
    intro settlement mem
    have bound := recorded.listed settlement mem
    simp only at bound ⊢
    omega
  settled := by
    intro settlement mem
    obtain ⟨early,held,done⟩ := recorded.settled settlement mem
    simp only at held ⊢
    by_cases same : i = settlement.admission
    · subst same
      obtain ⟨bound,_⟩ := List.getElem?_eq_some_iff.mp hit
      exact ⟨_,by rw [getElem?_set_self bound],rfl⟩
    · exact ⟨early,by rw [getElem?_set_ne same,held],done⟩
  once := recorded.once

theorem Recorded.count (recorded : Recorded ⟨b,admissions,now⟩ settlements)
    (hit : admissions[i]? = some adm) (unsettled : adm.settled = false)
    (moved : after.generation = b.generation ∧ after.state = b.state ∨
      after.generation = b.generation + 1) :
    Recorded ⟨after,admissions.set i {adm with settled := true},now⟩
      (settlements ++ [⟨i,adm.generation,out⟩]) := by
  have kept := recorded.settle hit moved
  have bound := recorded.granted adm (mem_of_getElem? hit)
  obtain ⟨inside,_⟩ := List.getElem?_eq_some_iff.mp hit
  refine ⟨kept.granted,kept.present,?_,?_,?_⟩
  · intro settlement mem
    rcases mem_append.mp mem with old | new
    · exact kept.listed settlement old
    · cases mem_singleton.mp new
      simp only at bound ⊢
      omega
  · intro settlement mem
    rcases mem_append.mp mem with old | new
    · exact kept.settled settlement old
    · cases mem_singleton.mp new
      exact ⟨_,getElem?_set_self inside,rfl⟩
  · rw [map_append,nodup_append]
    refine ⟨recorded.once,by simp,?_⟩
    intro old mem new single equal
    cases mem_singleton.mp single
    obtain ⟨settlement,listed,rfl⟩ := mem_map.mp mem
    obtain ⟨early,held,done⟩ := recorded.settled settlement listed
    simp only [equal,hit,some.injEq] at held
    rw [← held,unsettled] at done
    cases done

theorem Probing.cooldown (probing : Probing cfg ⟨b,admissions,now⟩ settlements) (post : ℚ) :
    Probing cfg ⟨{b with providerCooldownUntil := post},admissions,now⟩ settlements :=
  { probing with }

theorem Recorded.cooldown (recorded : Recorded ⟨b,admissions,now⟩ settlements) (post : ℚ) :
    Recorded ⟨{b with providerCooldownUntil := post},admissions,now⟩ settlements :=
  { recorded with }

theorem Sound.cooldown (sound : Sound cfg ⟨b,admissions,now⟩ settlements) (post : ℚ) :
    Sound cfg ⟨{b with providerCooldownUntil := post},admissions,now⟩ settlements :=
  ⟨sound.recorded.cooldown post,sound.belowThreshold,sound.openedAt,
    fun halfOpen => (sound.probing halfOpen).cooldown post⟩

theorem Probing.count (probing : Probing cfg ⟨b,admissions,now⟩ settlements)
    (halfOpen : b.state = .halfOpen) (hit : admissions[i]? = some adm)
    (unsettled : adm.settled = false) (cur : adm.generation = b.generation)
    (still : (recordOutcome cfg now b out).state = .halfOpen) :
    Probing cfg ⟨recordOutcome cfg now b out,admissions.set i {adm with settled := true},now⟩
      (settlements ++ [⟨i,adm.generation,out⟩]) := by
  have released : ∀ {after : CircuitBreaker}, after.generation = b.generation → b.probesInFlight - 1 =
        outstanding ⟨after,admissions.set i {adm with settled := true},now⟩ := by
    intro after same
    have occupied := probing.occupied
    rw [outstanding_set_settled hit unsettled same,if_pos cur] at occupied
    simp only at occupied
    omega
  have room : b.probesInFlight - 1 ≤ cfg.halfOpenProbes :=
    le_trans (Nat.sub_le _ _) probing.room
  have remaining := probing.remaining
  have unfailed := probing.unfailed
  simp only at remaining unfailed
  cases out with
  | success =>
    by_cases last : b.probesRemaining - 1 ≤ 0
    · simp [recordOutcome,recordSuccess,halfOpen,last,closeBreaker] at still
    · have kept : recordOutcome cfg now b .success = {b with
            probesInFlight := b.probesInFlight - 1
            probesRemaining := b.probesRemaining - 1} := by
        simp [recordOutcome,recordSuccess,halfOpen,releaseProbe,last]
      rw [kept]
      refine ⟨released rfl,room,by simp only; omega,?_,?_⟩
      · simp only [tally_snoc,cur,and_self,if_true]
        push_cast
        omega
      · simp [tally_snoc,unfailed]
  | failure => simp [recordOutcome,recordFailure,halfOpen,openBreaker] at still
  | nonProviderFault =>
    have kept : recordOutcome cfg now b .nonProviderFault = releaseProbe b := by
      simp [recordOutcome,recordNonProviderFault,halfOpen]
    rw [kept]
    refine ⟨released rfl,room,probing.unfinished,?_,?_⟩
    · simpa [tally_snoc,releaseProbe] using remaining
    · simpa [tally_snoc,releaseProbe] using unfailed

theorem recordOutcome_closed (closed : b.state = .closed)
    (below : b.consecutiveFailures < cfg.failureThreshold)
    (still : (recordOutcome cfg now b out).state = .closed) :
    (recordOutcome cfg now b out).consecutiveFailures < cfg.failureThreshold := by
  cases out with
  | success =>
    simpa [recordOutcome,recordSuccess,closed] using cfg.failureThreshold_pos
  | failure =>
    by_cases reached : cfg.failureThreshold ≤ b.consecutiveFailures + 1
    · simp [recordOutcome,recordFailure,closed,reached,openBreaker] at still
    · simp only [recordOutcome,recordFailure,closed,reached,if_false,reduceCtorEq]
      omega
  | nonProviderFault => simpa [recordOutcome,recordNonProviderFault,closed] using below

theorem Sound.count (sound : Sound cfg ⟨b,admissions,now⟩ settlements)
    (hit : admissions[i]? = some adm) (unsettled : adm.settled = false)
    (cur : adm.generation = b.generation) :
    Sound cfg ⟨recordOutcome cfg now b out,admissions.set i {adm with settled := true},now⟩
      (settlements ++ [⟨i,adm.generation,out⟩]) := by
  have granted := sound.recorded.present adm (mem_of_getElem? hit) cur
  have cases := recordOutcome_cases cfg now b out
  refine ⟨sound.recorded.count hit unsettled (by tauto),?_,?_,?_⟩
  · intro closed
    rcases cases with ⟨_,s⟩ | ⟨_,⟨opened,_⟩ | ⟨_,none⟩⟩
    · have pre := s.symm.trans closed
      exact recordOutcome_closed pre (sound.belowThreshold pre) closed
    · rw [closed] at opened
      cases opened
    · simp only [none]
      exact cfg.failureThreshold_pos
  · intro opened
    rcases cases with ⟨_,s⟩ | ⟨_,⟨_,since⟩ | ⟨closed,_⟩⟩
    · exact absurd (s.symm.trans opened) granted.1
    · simp [since]
    · rw [opened] at closed
      cases closed
  · intro halfOpen
    rcases cases with ⟨_,s⟩ | ⟨_,⟨opened,_⟩ | ⟨closed,_⟩⟩
    · have pre := s.symm.trans halfOpen
      exact (sound.probing pre).count pre hit unsettled cur halfOpen
    · rw [halfOpen] at opened
      cases opened
    · rw [halfOpen] at closed
      cases closed

theorem Sound.stale (sound : Sound cfg ⟨b,admissions,now⟩ settlements)
    (hit : admissions[i]? = some adm) (unsettled : adm.settled = false)
    (stale : adm.generation ≠ b.generation) :
    Sound cfg ⟨b,admissions.set i {adm with settled := true},now⟩
      settlements := by
  refine ⟨sound.recorded.settle hit (.inl ⟨rfl,rfl⟩),sound.belowThreshold,sound.openedAt,?_⟩
  intro halfOpen
  have probing := sound.probing halfOpen
  refine { probing with occupied := ?_ }
  have occupied := probing.occupied
  have same : b.generation = b.generation := rfl
  rw [outstanding_set_settled hit unsettled same,if_neg stale] at occupied
  exact occupied

theorem Sound.settle (sound : Sound cfg ⟨b,admissions,now⟩ settlements)
    (out : Outcome) (error : Option GatewayError)
    (hit : admissions[i]? = some adm) (unsettled : adm.settled = false) :
    Sound cfg ⟨settleAdmission cfg now b adm out error,
        admissions.set i {adm with settled := true},now⟩
      (settlements ++ if adm.generation = b.generation then
        [⟨i,adm.generation,out⟩] else []) := by
  by_cases cur : adm.generation = b.generation
  · obtain ⟨post,_,announced⟩ := announceProviderCooldown_cases now b out error
    rw [settleAdmission_current cur,announced,if_pos cur]
    exact (sound.cooldown post).count hit unsettled cur
  · obtain ⟨post,_,settled,_⟩ := settleAdmission_stale cfg now out error cur
    rw [settled,if_neg cur,append_nil]
    exact (sound.stale hit unsettled cur).cooldown post

end Settle

section Admitted

variable {modelId : Text} {cfg : CircuitBreakerConfig} {now : ℚ}
  {b after : CircuitBreaker} {admissions : List CircuitBreakerAdmission}
  {settlements : List Settlement}

theorem Recorded.grant (recorded : Recorded ⟨b,admissions,now⟩ settlements)
    (moved : after.generation = b.generation ∧ after.state = b.state ∨
      after.generation = b.generation + 1) (admitting : after.state ≠ .open) :
    Recorded ⟨after,admissions ++ [createAdmission after],now⟩ settlements where
  granted := by
    intro e mem
    rcases mem_append.mp mem with old | new
    · have bound := recorded.granted e old
      simp only at bound ⊢
      omega
    · cases mem_singleton.mp new
      exact le_refl _
  present := by
    intro e mem cur
    rcases mem_append.mp mem with old | new
    · have bound := recorded.granted e old
      simp only at bound cur ⊢
      rcases moved with ⟨same,s⟩ | next
      · rw [s]
        exact recorded.present e old (by simp only; omega)
      · omega
    · cases mem_singleton.mp new
      exact ⟨admitting,by simp [createAdmission]⟩
  listed := by
    intro settlement mem
    have bound := recorded.listed settlement mem
    simp only at bound ⊢
    omega
  settled := by
    intro settlement mem
    obtain ⟨early,held,done⟩ := recorded.settled settlement mem
    obtain ⟨inside,_⟩ := List.getElem?_eq_some_iff.mp held
    exact ⟨early,by rw [getElem?_append_left inside]; exact held,done⟩
  once := recorded.once

theorem outstanding_admitted (b after : CircuitBreaker) (same : after.generation = b.generation) :
    outstanding ⟨after,admissions ++ [createAdmission after],now⟩ = outstanding ⟨b,admissions,now⟩ + 1 := by
  simp [outstanding,createAdmission,same,countP_append]

theorem Sound.grant (sound : Sound cfg ⟨b,admissions,now⟩ settlements) {admission : CircuitBreakerAdmission}
    (allowed : assertAllowed modelId cfg now b = .ok ⟨admission,after⟩) :
    Sound cfg ⟨after,admissions ++ [admission],now⟩ settlements := by
  obtain ⟨rfl,⟨closed,rfl⟩ | ⟨halfOpen,free,rfl⟩ | ⟨opened,rfl⟩⟩ := assertAllowed_ok allowed
  · refine ⟨sound.recorded.grant (.inl ⟨rfl,rfl⟩) (by simp [closed]),sound.belowThreshold,sound.openedAt,?_⟩
    intro halfOpen
    cases closed.symm.trans halfOpen
  · have probing := sound.probing halfOpen
    refine ⟨sound.recorded.grant (.inl ⟨rfl,rfl⟩) (by simp [halfOpen]),sound.belowThreshold,sound.openedAt,?_⟩
    intro _
    refine { probing with occupied := ?_, room := free }
    exact (congrArg (· + 1) probing.occupied).trans (outstanding_admitted b _ rfl).symm
  · refine ⟨sound.recorded.grant (.inr rfl) (by simp [halfOpened]),by simp [halfOpened],by simp [halfOpened],?_⟩
    intro _
    have begun : outstanding ⟨halfOpened cfg b,admissions,now⟩ = 0 := by
      apply outstanding_eq_zero
      intro admission mem
      exact Nat.lt_succ_of_le (sound.recorded.granted admission mem)
    have fresh : ∀ outcome, tally settlements (b.generation + 1) outcome = 0 := by
      intro outcome
      apply tally_eq_zero
      intro settlement mem
      exact Nat.lt_succ_of_le (sound.recorded.listed settlement mem)
    refine ⟨?_,cfg.halfOpenProbes_pos,?_,?_,fresh .failure⟩
    · rw [outstanding_admitted (halfOpened cfg b) _ rfl,begun]
      rfl
    · simpa [halfOpened] using cfg.halfOpenProbes_pos
    · simp [halfOpened,fresh .success]

theorem Sound.reject (sound : Sound cfg ⟨b,admissions,now⟩ settlements) :
    Sound cfg ⟨noteRejection b,admissions,now⟩ settlements :=
  have recorded := sound.recorded
  ⟨{ recorded with },sound.belowThreshold,sound.openedAt,fun halfOpen =>
      have probing := sound.probing halfOpen
      { probing with }⟩

end Admitted

section Run

variable {modelId : Text} {cfg : CircuitBreakerConfig}

theorem Sound.step (s : Traffic) (settlements : List Settlement) (ev : Event)
    (sound : Sound cfg s settlements) :
    Sound cfg (step modelId cfg s ev) (settlements ++ counted s ev) := by
  cases ev with
  | assertAllowed =>
    simp only [Breaker.step,counted,append_nil]
    split
    · next allowed => exact sound.grant allowed
    · next refused =>
      cases assertAllowed_error refused
      exact sound.reject
  | settle index outcome error =>
    simp only [Breaker.step,counted]
    cases found : s.admissions[index]? with
    | none => simpa using sound
    | some admission =>
      cases settled : admission.settled with
      | true =>
        have kept : s.admissions.set index admission = s.admissions := by
          obtain ⟨mem,rfl⟩ := List.getElem?_eq_some_iff.mp found
          exact set_getElem_self mem
        simpa [Breaker.settle,settled,kept] using sound
      | false =>
        have moved := sound.settle outcome error found settled
        simpa [Breaker.settle,settled] using moved
  | advance elapsed =>
    simp only [Breaker.step,counted,append_nil]
    have recorded := sound.recorded
    refine ⟨{ recorded with },sound.belowThreshold,sound.openedAt,fun halfOpen => ?_⟩
    have probing := sound.probing halfOpen
    exact { probing with }

theorem sound_start (now : ℚ) : Sound cfg (traffic modelId cfg now).start [] where
  recorded := by
    constructor
    all_goals simp [traffic]
  belowThreshold := fun _ => cfg.failureThreshold_pos
  openedAt := by simp [traffic,initialBreaker]
  probing := by simp [traffic,initialBreaker]

theorem sound_run (now : ℚ) (evs : List Event) : Sound cfg ((traffic modelId cfg now).run evs)
      ((traffic modelId cfg now).noted evs) :=
  Machine.holds_of_step (Sound cfg) (sound_start now) Sound.step evs

end Run

section Release

variable (modelId : Text) (cfg : CircuitBreakerConfig) {settlements : List Settlement} {s : Traffic}

/-- A call of `settle` with the admission it is made on. -/
structure Call where
  admission : Nat
  outcome : Outcome
  error : Option GatewayError

def Call.event (call : Call) : Event := .settle call.admission call.outcome call.error

theorem settleAdmission_generation (now : ℚ) (breaker : CircuitBreaker)
    (origin : CircuitBreakerAdmission) (outcome : Outcome) (error : Option GatewayError) :
    breaker.generation ≤ (settleAdmission cfg now breaker origin outcome error).generation := by
  by_cases cur : origin.generation = breaker.generation
  · obtain ⟨post,_,announced⟩ := announceProviderCooldown_cases now breaker outcome error
    rw [settleAdmission_current cur,announced]
    rcases recordOutcome_cases cfg now {breaker with providerCooldownUntil := post} outcome with ⟨same,_⟩ | ⟨next,_⟩
    · exact same.ge
    · exact next.symm ▸ Nat.le_succ _
  · obtain ⟨post,_,settled,_⟩ := settleAdmission_stale cfg now outcome error cur
    rw [settled]

theorem step_settle (s : Traffic) (call : Call) :
    s.breaker.generation ≤ (step modelId cfg s call.event).breaker.generation ∧
      ∀ index after, (step modelId cfg s call.event).admissions[index]? = some after →
        ∃ pre, s.admissions[index]? = some pre ∧ after.generation = pre.generation ∧
          (pre.settled = true ∨ index = call.admission → after.settled = true) := by
  simp only [Call.event,step]
  cases hit : s.admissions[call.admission]? with
  | none =>
    refine ⟨le_refl _,fun index after held => ⟨after,held,rfl,?_⟩⟩
    intro settled
    rcases settled with settled | rfl
    · exact settled
    · rw [hit] at held
      cases held
  | some admission =>
    cases done : admission.settled with
    | true =>
      simp only [settle,done,if_true]
      refine ⟨le_refl _,fun index after held => ?_⟩
      obtain ⟨mem,rfl⟩ := List.getElem?_eq_some_iff.mp hit
      rw [set_getElem_self] at held
      refine ⟨after,held,rfl,?_⟩
      intro settled
      rcases settled with settled | rfl
      · exact settled
      · rw [getElem?_eq_getElem mem] at held
        cases held
        exact done
    | false =>
      simp only [settle,done,Bool.false_eq_true,if_false]
      refine ⟨settleAdmission_generation _ _ _ _ _ _,fun index after held => ?_⟩
      by_cases same : call.admission = index
      · subst same
        obtain ⟨mem,_⟩ := List.getElem?_eq_some_iff.mp hit
        rw [getElem?_set_self mem] at held
        cases held
        exact ⟨admission,hit,rfl,fun _ => rfl⟩
      · rw [getElem?_set_ne same] at held
        refine ⟨after,held,rfl,fun settled => ?_⟩
        rcases settled with settled | rfl
        · exact settled
        · exact absurd rfl same

theorem settle_calls (s : Traffic) (calls : List Call) :
    let settled := (calls.map Call.event).foldl (step modelId cfg) s
    s.breaker.generation ≤ settled.breaker.generation ∧ ∀ index after, settled.admissions[index]? = some after →
        ∃ pre, s.admissions[index]? = some pre ∧ after.generation = pre.generation ∧
          (pre.settled = true ∨ index ∈ calls.map Call.admission → after.settled = true) := by
  induction calls using reverseRecOn with
  | nil =>
    refine ⟨le_refl _,fun index after held => ⟨after,held,rfl,?_⟩⟩
    intro settled
    simpa using settled
  | append_singleton calls call ih =>
    obtain ⟨post,es⟩ := ih
    obtain ⟨further,step⟩ := step_settle modelId cfg ((calls.map Call.event).foldl (step modelId cfg) s) call
    simp only [map_append,map_cons,map_nil,foldl_append,foldl_cons,foldl_nil]
    refine ⟨post.trans further,fun index after held => ?_⟩
    obtain ⟨middle,heldMiddle,sameMiddle,settledMiddle⟩ := step index after held
    obtain ⟨pre,heldBefore,sameBefore,settledBefore⟩ := es index middle heldMiddle
    refine ⟨pre,heldBefore,sameMiddle.trans sameBefore,fun settled => ?_⟩
    simp only [mem_append,mem_singleton] at settled
    rcases settled with settled | listed | rfl
    · exact settledMiddle (.inl (settledBefore (.inl settled)))
    · exact settledMiddle (.inl (settledBefore (.inr listed)))
    · exact settledMiddle (.inr rfl)

/-- Once the admissions of the present generation have settled, nothing is outstanding,
whatever their settlements did to the breaker. -/
theorem outstanding_settle_calls (sound : Sound cfg s settlements) (calls : List Call)
    (all : ∀ index admission, s.admissions[index]? = some admission →
      admission.settled = false → admission.generation = s.breaker.generation →
      index ∈ calls.map Call.admission) :
    outstanding ((calls.map Call.event).foldl (step modelId cfg) s) = 0 := by
  obtain ⟨post,es⟩ := settle_calls modelId cfg s calls
  apply countP_eq_zero.mpr
  intro after mem
  obtain ⟨index,held⟩ := mem_iff_getElem?.mp mem
  obtain ⟨pre,heldBefore,same,settled⟩ := es index after held
  have granted := sound.recorded.granted pre (mem_of_getElem? heldBefore)
  simp only [Bool.and_eq_true,Bool.not_eq_true',decide_eq_true_eq,not_and]
  intro unsettled cur
  have here : pre.generation = s.breaker.generation := by omega
  cases done : pre.settled with
  | true => simp [settled (.inl done)] at unsettled
  | false => simp [settled (.inr (all index pre heldBefore done here))] at unsettled

theorem admits_after_wait (sound : Sound cfg s settlements)
    (room : s.breaker.state = .halfOpen → outstanding s < cfg.halfOpenProbes) :
    ∃ wait : ℚ, 0 ≤ wait ∧ (s.breaker.state ≠ .open → wait = 0) ∧
      ∃ admitted, assertAllowed modelId cfg (s.now + wait) s.breaker = .ok admitted := by
  cases cur : s.breaker.state with
  | closed => exact ⟨0,le_refl 0,fun _ => rfl,by simp [assertAllowed_eq,cur]⟩
  | «open» =>
    obtain ⟨openedAt,since⟩ := isSome_iff_exists.mp (sound.openedAt cur)
    refine ⟨max 0 (openedAt + cfg.cooldownMs - s.now),le_max_left _ _,fun closed => absurd rfl closed,?_⟩
    have cooled : cooledDown cfg (s.now + max 0 (openedAt + cfg.cooldownMs - s.now))
        s.breaker = true := by
      have enough := le_max_right 0 (openedAt + cfg.cooldownMs - s.now)
      simp only [cooledDown,since,ge_iff_le,decide_eq_true_eq]
      linarith only [enough]
    simp [assertAllowed_eq,cur,cooled]
  | halfOpen =>
    have occupied := (sound.probing cur).occupied
    have free := room cur
    have unsaturated : ¬s.breaker.probesInFlight ≥ cfg.halfOpenProbes := by omega
    exact ⟨0,le_refl 0,fun _ => rfl,by simp [assertAllowed_eq,cur,unsaturated]⟩

end Release

/-- In every interleaving the slots of the half-open breaker are its unsettled probes; once
these have settled, in any order and with any outcomes, the next probe is admitted, after
the cooldown where one of them reopened the breaker. -/
theorem breaker_invariant (modelId : Text) (config : CircuitBreakerConfig) (now : ℚ)
    (events : List Event) :
    let state := (traffic modelId config now).run events
    (state.breaker.state = .halfOpen →
      state.breaker.probesInFlight = outstanding state ∧
        state.breaker.probesInFlight ≤ config.halfOpenProbes) ∧
    (state.breaker.state = .closed →
      state.breaker.consecutiveFailures < config.failureThreshold) ∧
    (state.breaker.state = .open → ∃ openedAt, state.breaker.openedAt = some openedAt) ∧
    (state.breaker.state = .halfOpen → outstanding state < config.halfOpenProbes →
      ∃ admitted, assertAllowed modelId config state.now state.breaker = .ok admitted) ∧
    ∀ calls : List Call,
      (∀ index admission, state.admissions[index]? = some admission →
        admission.settled = false → admission.generation = state.breaker.generation →
        index ∈ calls.map Call.admission) →
      let settled := (traffic modelId config now).run (events ++ calls.map Call.event)
      outstanding settled = 0 ∧
      ∃ wait : ℚ, 0 ≤ wait ∧ (settled.breaker.state ≠ .open → wait = 0) ∧
        ∃ admitted,
          assertAllowed modelId config (settled.now + wait) settled.breaker = .ok admitted := by
  intro state
  have sound : Sound config state _ := sound_run now events
  refine ⟨?_,sound.belowThreshold,?_,?_,?_⟩
  · intro halfOpen
    exact ⟨(sound.probing halfOpen).occupied,(sound.probing halfOpen).room⟩
  · intro opened
    exact isSome_iff_exists.mp (sound.openedAt opened)
  · intro halfOpen room
    obtain ⟨wait,_,immediate,admitted,allowed⟩ := admits_after_wait modelId config sound
      fun _ => room
    refine ⟨admitted,?_⟩
    rw [immediate (by rw [halfOpen]; simp),add_zero] at allowed
    exact allowed
  · intro calls all settled
    have none : outstanding settled = 0 := by
      have settledAll := outstanding_settle_calls modelId config sound calls all
      simp only [settled,Machine.run_append]
      exact settledAll
    refine ⟨none,admits_after_wait modelId config (sound_run now _) fun _ => ?_⟩
    exact none.symm ▸ config.halfOpenProbes_pos

end Keiko.Breaker
