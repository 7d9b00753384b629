import Keiko.RetryLoop
import Mathlib.Tactic.Linarith
import Mathlib.Data.Rat.Floor

/-! What the retry loop keeps to. Every attempt and every sleep fits the budget it was
granted under, the attempts of a call are counted across its loops, and the caller who
heard of a retry or of a wait hears once how the loop ended. -/
namespace Keiko.Retry
open Keiko.Library Keiko.Gateway List

section Measures

def Effect.isAttempt : Effect → Bool
  | .attempted _ => true
  | _ => false

def Effect.isRepair : Effect → Bool
  | .scheduled schedule => schedule.repair.isSome
  | _ => false

def Effect.isSettlement : Effect → Bool
  | .notice (.settled _) => true
  | _ => false

def Effect.isAnnouncement : Effect → Bool
  | .notice (.settled _) => false
  | .notice _ => true
  | _ => false

variable (effects : List Effect)

def attemptsIn : Nat := effects.countP Effect.isAttempt

def repairsIn : Nat := effects.countP Effect.isRepair

def settlementsIn : Nat := effects.countP Effect.isSettlement

def announcedIn : Bool := effects.any Effect.isAnnouncement

def owes (announcer : Option RetryAnnouncer) : Bool := announcer.any RetryAnnouncer.owed

def steers (config : RetryConfig) (effects : List Effect) : Bool :=
  effects.any fun effect =>
    match effect with
    | .attempted attempted => (attempted.previousError.bind (repairReason config)).isSome
    | _ => false

variable (first second : List Effect)

@[simp] theorem attemptsIn_append : attemptsIn (first ++ second) = attemptsIn first + attemptsIn second :=
  countP_append

@[simp] theorem repairsIn_append : repairsIn (first ++ second) = repairsIn first + repairsIn second :=
  countP_append

@[simp] theorem settlementsIn_append : settlementsIn (first ++ second) = settlementsIn first + settlementsIn second :=
  countP_append

@[simp] theorem announcedIn_append : announcedIn (first ++ second) = (announcedIn first || announcedIn second) :=
  any_append

@[simp] theorem steers_append (config : RetryConfig) :
    steers config (first ++ second) = (steers config first || steers config second) :=
  any_append

end Measures

section Delay

variable {cfg : RetryConfig} {error : GatewayError} {budget : RetryBudget}

theorem maxBackoffDelayMs_nonneg (attempt : Int) (base : Nat) : 0 ≤ maxBackoffDelayMs attempt base := by
  unfold maxBackoffDelayMs maxBackoffMs
  apply le_min
  · exact mul_nonneg (Nat.cast_nonneg base) (zpow_nonneg (by norm_num) _)
  · norm_num

theorem backoffDelayMs_nonneg (attempt : Int) (base : Nat) (random : Jitter) :
    0 ≤ backoffDelayMs attempt base random := by
  have capped := maxBackoffDelayMs_nonneg attempt base
  have half : 0 ≤ 1 / 2 + 1 / 2 * random.value := by linarith [random.nonneg]
  have product := mul_nonneg capped half
  unfold backoffDelayMs
  have floor : (0 : Int) ≤ ⌊maxBackoffDelayMs attempt base * (1 / 2 + 1 / 2 * random.value) + 1 / 2⌋ := by
    apply Int.floor_nonneg.mpr
    linarith
  exact_mod_cast floor

theorem retryDelayMs_nonneg (error : GatewayError) (attempt : Int) (base : Nat) (random : Jitter)
    (jitterProviderCooldown : Bool) :
    0 ≤ retryDelayMs error attempt base random jitterProviderCooldown := by
  have backoff := backoffDelayMs_nonneg attempt base random
  unfold retryDelayMs
  split
  · split
    · next hint =>
      apply le_min
      · have jitter : 0 ≤ if jitterProviderCooldown = true then max 1 (backoffDelayMs attempt base random) else 0 := by
          split
          · exact le_trans zero_le_one (le_max_left _ _)
          · exact le_refl _
        linarith
      · norm_num [maxTimerDelayMs]
    · exact backoff
  · exact backoff

theorem retryDecision_sleep {shouldRetry : Option Bool} {attempt : Int} {random : Jitter}
    {sleepMs : ℚ} {repair : Option RetryRepairReason}
    (decided : retryDecision error cfg budget shouldRetry attempt random = .sleep sleepMs repair) :
    repair = none ∧ 0 ≤ sleepMs ∧ (sleepMs : WithTop ℚ) < budget.remainingMs ∧
      ∀ windowMs, decisionWindowMs cfg error = some windowMs → budget.elapsedMs + sleepMs < windowMs := by
  have positive := retryDelayMs_nonneg error attempt cfg.retryBaseDelayMs random cfg.jitterProviderCooldown
  unfold retryDecision at decided
  split at decided
  · cases decided
  · split at decided
    · cases decided
    · simp only at decided
      split at decided
      · cases decided
      · next fits =>
        cases decided
        have fits := lt_of_not_ge fits
        unfold remainingForRetry at fits
        cases window : decisionWindowMs cfg error with
        | none =>
          rw [window] at fits
          exact ⟨rfl,positive,fits,by simp⟩
        | some windowMs =>
          simp only [window,lt_max_iff,lt_min_iff] at fits
          rcases fits with negative | ⟨inBudget,inWindow⟩
          · have absurdly := WithTop.coe_lt_coe.mp negative
            exact absurd absurdly (not_lt_of_ge positive)
          · refine ⟨rfl,positive,inBudget,?_⟩
            intro other same
            cases same
            have before := WithTop.coe_lt_coe.mp inWindow
            linarith

end Delay

section Announcements

def OnlyNotices (effects : List Effect) : Prop := ∀ effect ∈ effects, ∃ notice, effect = .notice notice

/-- Nothing is settled along the effects, and what was announced is owed after them. -/
structure Heard (before after : RetryState) (effects : List Effect) : Prop where
  notices : OnlyNotices effects
  unsettled : settlementsIn effects = 0
  owed : owes after.announcer = (owes before.announcer || announcedIn effects)
  same : after = {before with announcer := after.announcer}

structure Ended (before after : RetryState) (effects : List Effect) : Prop where
  settled : settlementsIn effects = if owes before.announcer = true ∨ announcedIn effects = true then 1 else 0
  discharged : owes after.announcer = false

variable {s before middle after : RetryState} {first second effects : List Effect}

theorem OnlyNotices.append (start : OnlyNotices first) (rest : OnlyNotices second) : OnlyNotices (first ++ second) := by
  intro effect mem
  rcases mem_append.mp mem with mem | mem
  · exact start effect mem
  · exact rest effect mem

theorem OnlyNotices.attempts_eq (notices : OnlyNotices effects) : attemptsIn effects = 0 := by
  apply countP_eq_zero.mpr
  intro effect mem
  obtain ⟨notice,rfl⟩ := notices effect mem
  simp [Effect.isAttempt]

theorem OnlyNotices.repairs_eq (notices : OnlyNotices effects) : repairsIn effects = 0 := by
  apply countP_eq_zero.mpr
  intro effect mem
  obtain ⟨notice,rfl⟩ := notices effect mem
  simp [Effect.isRepair]

theorem OnlyNotices.steers_eq (notices : OnlyNotices effects) (config : RetryConfig) :
    steers config effects = false := by
  apply any_eq_false.mpr
  intro effect mem
  obtain ⟨notice,rfl⟩ := notices effect mem
  simp

variable (s : RetryState)

theorem Heard.refl : Heard s s [] :=
  ⟨by simp [OnlyNotices],rfl,by simp [announcedIn],rfl⟩

theorem Heard.trans (start : Heard before middle first) (rest : Heard middle after second) :
    Heard before after (first ++ second) where
  notices := start.notices.append rest.notices
  unsettled := by simp [start.unsettled,rest.unsettled]
  owed := by rw [rest.owed,start.owed,announcedIn_append,Bool.or_assoc]
  same := by
    rw [rest.same]
    conv_lhs => rw [start.same]

theorem announce_heard (notice : GatewayRetryNotice)
    (announcement : Effect.isAnnouncement (.notice notice) = true) :
    Heard s (announce s notice).1 (announce s notice).2 := by
  have unsettled : Effect.isSettlement (.notice notice) = false := by
    cases notice with
    | scheduled attempt retryPolicy => rfl
    | admissionWait reason retryPolicy => rfl
    | settled out => cases announcement
  unfold announce
  cases announcer : s.announcer with
  | none => exact Heard.refl s
  | some owing =>
    refine ⟨by simp [OnlyNotices],?_,?_,rfl⟩
    · simp [settlementsIn,unsettled]
    · simp [owes,announcedIn,announcement]

theorem announceWaits_heard (waits : List (CircuitWaitReason × RetryPolicy)) (s : RetryState) :
    Heard s (announceWaits s waits).1 (announceWaits s waits).2 := by
  induction waits generalizing s with
  | nil => exact Heard.refl s
  | cons wait waits ih =>
    obtain ⟨reason,retryPolicy⟩ := wait
    exact (announce_heard s (.admissionWait reason retryPolicy) rfl).trans (ih _)

theorem announceProviderRetry_heard (error : GatewayError)
    (repair : Option RetryRepairReason) (retryPolicy : RetryPolicy) :
    Heard s (announceProviderRetry s error repair retryPolicy).1
      (announceProviderRetry s error repair retryPolicy).2 := by
  unfold announceProviderRetry
  split
  · exact Heard.refl s
  · exact announce_heard s _ rfl

theorem announceSettled_ended (out : CallOutcome) :
    Ended s (announceSettled s out).1 (announceSettled s out).2 := by
  unfold announceSettled
  cases announcer : s.announcer with
  | none => exact ⟨by simp [owes,announcer,settlementsIn,announcedIn],by simp [owes,announcer]⟩
  | some owing =>
    cases owed : owing.owed with
    | false =>
      exact ⟨by simp [owes,announcer,owed,settlementsIn,announcedIn],by simp [owes,announcer,owed]⟩
    | true =>
      refine ⟨?_,by simp [owes,owed]⟩
      simp [owes,announcer,owed,settlementsIn,Effect.isSettlement]

theorem announceSettled_notices (out : CallOutcome) :
    OnlyNotices (announceSettled s out).2 := by
  unfold announceSettled
  split
  · simp [OnlyNotices]
  · split
    · simp [OnlyNotices]
    · simp [OnlyNotices]

theorem announceSettled_same (out : CallOutcome) : (announceSettled s out).1 =
      {s with announcer := (announceSettled s out).1.announcer} := by
  unfold announceSettled
  split
  · rfl
  · split
    · rfl
    · rfl

end Announcements

section Rounds

/-- An attempt starts within the budget and is bounded by what is left of it, or by the
millisecond below which no timer goes. -/
structure Bounded (cfg : RetryConfig) (attempt : Attempted) : Prop where
  inBudget : ∀ timeoutMs, cfg.timeoutMs = some timeoutMs → attempt.elapsedMs < timeoutMs
  remaining : ∀ timeoutMs, cfg.timeoutMs = some timeoutMs → attempt.remainingMs = (timeoutMs - attempt.elapsedMs : ℚ)
  bounded : ∀ bound, attempt.attemptTimeoutMs = some bound → (bound : WithTop ℚ) ≤ max 1 attempt.remainingMs

structure Fits (cfg : RetryConfig) (schedule : Scheduled) : Prop where
  nonneg : 0 ≤ schedule.sleepMs
  inBudget : ∀ timeoutMs, cfg.timeoutMs = some timeoutMs → schedule.budgetElapsedMs + schedule.sleepMs < timeoutMs
  inWindow : ∀ windowMs, cfg.retryWindowMs = some windowMs → schedule.repair = none →
    isNonProviderFault schedule.error = false →
    schedule.windowElapsedMs + schedule.sleepMs < windowMs

variable {α : Type} {cfg : RetryConfig} {s : RetryState} {error : GatewayError}
  {backoff : Backoff} {round : Round α} {repair : Option RetryRepairReason} {repairs : Nat} {sleepMs : ℚ}
  {budget : RetryBudget}

theorem remainingBudgetMs_lt {timeoutMs elapsedMs : ℚ} (positive : 0 ≤ sleepMs)
    (fits : (sleepMs : WithTop ℚ) < remainingBudgetMs (some timeoutMs) elapsedMs) :
    elapsedMs + sleepMs < timeoutMs := by
  have below := WithTop.coe_lt_coe.mp fits
  rcases lt_max_iff.mp below with negative | inBudget
  · exact absurd negative (not_lt_of_ge positive)
  · linarith

theorem attemptTimeoutFor_le {remainingMs : WithTop ℚ} {bound : ℚ}
    (bounded : attemptTimeoutFor cfg remainingMs = some bound) :
    (bound : WithTop ℚ) ≤ max 1 remainingMs := by
  unfold attemptTimeoutFor at bounded
  split at bounded
  · cases bounded
  · next least equal =>
    cases bounded
    have below : (least : WithTop ℚ) ≤ remainingMs := equal.symm.le.trans (min_le_left _ _)
    rw [WithTop.coe_max]
    apply max_le_max (le_refl _)
    exact le_trans (WithTop.coe_le_coe.mpr (Int.floor_le least)) below

theorem repairDecision_none (none' : repairDecision error cfg budget repairs = none) :
    repairs = 0 → repairReason cfg error = none := by
  intro zero
  cases reason : repairReason cfg error with
  | none => rfl
  | some repair =>
    simp only [repairDecision,zero,if_true,reason] at none'
    split at none'
    · cases none'
    · cases none'

theorem repairDecision_sleep
    (decided : repairDecision error cfg budget repairs = some (.sleep sleepMs repair)) :
    repairs = 0 ∧ sleepMs = 0 ∧ 0 < budget.remainingMs ∧ repair.isSome = true ∧ repairReason cfg error = repair := by
  unfold repairDecision at decided
  split at decided
  · cases decided
  · next granted =>
    split at granted
    · split at decided
      · cases decided
      · next zero funded =>
        cases decided
        exact ⟨zero,rfl,lt_of_not_ge funded,rfl,granted⟩
    · cases granted

theorem decision_sleep {failedMs windowMs : ℚ} {shouldRetry : Option Bool} {attempt : Int}
    {random : Jitter}
    (decided : (repairDecision error cfg ⟨remainingBudgetMs cfg.timeoutMs failedMs,windowMs⟩ repairs).getD
      (retryDecision error cfg ⟨remainingBudgetMs cfg.timeoutMs failedMs,windowMs⟩
        shouldRetry attempt random) = .sleep sleepMs repair) :
    Fits cfg ⟨error,repair,failedMs,windowMs,sleepMs⟩ ∧
      (repair = none ∧ (repairs = 0 → repairReason cfg error = none) ∨
        repair.isSome = true ∧ repairs = 0 ∧ (repairReason cfg error).isSome = true) := by
  cases repaired : repairDecision error cfg ⟨remainingBudgetMs cfg.timeoutMs failedMs,windowMs⟩ repairs with
  | none =>
    rw [repaired] at decided
    obtain ⟨unrepaired,positive,inBudget,inWindow⟩ := retryDecision_sleep decided
    refine ⟨⟨positive,?_,?_⟩,.inl ⟨unrepaired,repairDecision_none repaired⟩⟩
    · intro timeoutMs budgeted
      rw [budgeted] at inBudget
      exact remainingBudgetMs_lt positive inBudget
    · intro window windowed _ providerFault
      exact inWindow window (by simp [decisionWindowMs,providerFault,windowed])
  | some decision =>
    rw [repaired] at decided
    cases decided
    obtain ⟨zero,rfl,funded,granted,reason⟩ := repairDecision_sleep repaired
    refine ⟨⟨le_refl 0,?_,?_⟩,.inr ⟨granted,zero,by rw [reason]; exact granted⟩⟩
    · intro timeoutMs budgeted
      rw [budgeted] at funded
      exact remainingBudgetMs_lt (le_refl 0) funded
    · intro _ _ unrepaired
      simp only at unrepaired
      rw [unrepaired] at granted
      cases granted

theorem recordFailedAttempt_cases (cfg : RetryConfig) (s : RetryState)
    (error : GatewayError) (backoff : Backoff) :
    let failed := {s with lastError := some error}
    (recordFailedAttempt cfg s error backoff : Loop α × List Effect) = fail failed error ∨
    ∃ schedule granted heard told, Fits cfg schedule ∧ (schedule.repair = none ∧ granted = failed ∧
        (s.repairs = 0 → repairReason cfg error = none) ∨
      schedule.repair.isSome = true ∧ granted = {failed with repairs := s.repairs + 1} ∧
        s.repairs = 0 ∧ (repairReason cfg error).isSome = true) ∧
      Heard granted heard told ∧
      ((recordFailedAttempt cfg s error backoff : Loop α × List Effect) =
          ⟨.attempting {heard with attempt := heard.attempt + 1},.scheduled schedule :: told⟩ ∨
        ∃ thrown, (recordFailedAttempt cfg s error backoff : Loop α × List Effect) =
          ⟨(fail heard thrown).1,.scheduled schedule :: told ++ (fail (α := α) heard thrown).2⟩) := by
  intro failed
  unfold recordFailedAttempt
  simp only
  split
  · next sleepMs repair decided =>
    right
    obtain ⟨fits,kind⟩ := decision_sleep decided
    have heard := announceProviderRetry_heard
      (if repair.isSome then {failed with repairs := failed.repairs + 1} else failed) error repair
      (retryPolicyFor cfg error)
    refine ⟨_,_,_,_,fits,?_,heard,?_⟩
    · rcases kind with ⟨rfl,unrepaired⟩ | ⟨granted,zero,reason⟩
      · exact .inl ⟨rfl,rfl,unrepaired⟩
      · exact .inr ⟨granted,by simp only [granted,if_true]; rfl,zero,reason⟩
    · cases slept : sleepWithCancellation backoff.slept with
      | ok v => exact .inl rfl
      | error thrown => exact .inr ⟨thrown,rfl⟩
  · left
    rfl

theorem executeRetryAttempt_cases (cfg : RetryConfig) (s : RetryState) (round : Round α) :
    (∃ error, executeRetryAttempt cfg s round = fail s error) ∨
    ∃ heard told, Bounded cfg (operationCall cfg s round) ∧ (cfg.retryWindowMs = none →
        (s.attempt : Int) - s.repairs ≤ cfg.maxRetries + 1) ∧
      Heard s heard told ∧
      ((∃ v, executeRetryAttempt cfg s round = ⟨.answered (announceSettled heard .answered).1 v,
            .attempted (operationCall cfg s round) :: told ++ (announceSettled heard .answered).2⟩) ∨
        (∃ error, executeRetryAttempt cfg s round =
          ⟨(fail heard error).1,.attempted (operationCall cfg s round) :: told ++ (fail (α := α) heard error).2⟩) ∨
        ∃ error, executeRetryAttempt cfg s round = ⟨(recordFailedAttempt cfg heard error round.backoff).1,
            .attempted (operationCall cfg s round) :: told ++
              (recordFailedAttempt (α := α) cfg heard error round.backoff).2⟩) := by
  by_cases exhausted : cfg.retryWindowMs = none ∧ (s.attempt : Int) - s.repairs > cfg.maxRetries + 1
  · exact .inl ⟨_,by unfold executeRetryAttempt; rw [if_pos exhausted]⟩
  by_cases aborted : round.aborted = true
  · exact .inl ⟨_,by unfold executeRetryAttempt; rw [if_neg exhausted,if_pos aborted]⟩
  by_cases spent : remainingBudgetMs cfg.timeoutMs (round.startedAt - s.start) ≤ 0
  · exact .inl ⟨_,by unfold executeRetryAttempt; rw [if_neg exhausted,if_neg aborted,if_pos spent]⟩
  right
  have left := lt_of_not_ge spent
  have within : ∀ timeoutMs, cfg.timeoutMs = some timeoutMs → round.startedAt - s.start < timeoutMs := by
    intro timeoutMs budgeted
    rw [budgeted] at left
    have below := remainingBudgetMs_lt (le_refl 0) left
    linarith
  refine ⟨_,_,⟨within,?_,fun bound => attemptTimeoutFor_le⟩,?_,announceWaits_heard round.waits s,?_⟩
  · intro timeoutMs budgeted
    have elapsed := within timeoutMs budgeted
    simp only [operationCall,budgeted,remainingBudgetMs]
    rw [max_eq_right (by linarith)]
  · intro unwindowed
    exact not_lt.mp fun beyond => exhausted ⟨unwindowed,beyond⟩
  · unfold executeRetryAttempt
    rw [if_neg exhausted,if_neg aborted,if_neg spent]
    cases round.outcome with
    | answered v => exact .inl ⟨v,rfl⟩
    | failed error => exact .inr (.inr ⟨error,rfl⟩)
    | refused error originalError => exact .inr (.inl ⟨_,rfl⟩)

end Rounds

section Told

variable {α : Type} {cfg : RetryConfig} {pre heard : RetryState} {loop : Loop α} {effects : List Effect}

def Loop.reached : Loop α → RetryState
  | .resuming state _ => state
  | .attempting state => state
  | .answered state _ => state
  | .failed state _ => state

def Loop.finished : Loop α → Bool
  | .resuming _ _ => false
  | .attempting _ => false
  | .answered _ _ => true
  | .failed _ _ => true

/-- A loop that goes on owes what it announced; one that ends settles it once. -/
structure Told (owing : Bool) (loop : Loop α) (effects : List Effect) : Prop where
  owed : loop.finished = false → settlementsIn effects = 0 ∧
    owes loop.reached.announcer = (owing || announcedIn effects)
  settled : loop.finished = true → settlementsIn effects = if owing = true ∨ announcedIn effects = true then 1 else 0

theorem Told.append (told : List Effect) {owing middle : Bool} (unsettled : settlementsIn told = 0)
    (owed : middle = (owing || announcedIn told)) (rest : Told middle loop effects) :
    Told owing loop (told ++ effects) := by
  subst owed
  refine ⟨fun running => ?_,fun finished => ?_⟩
  · obtain ⟨none,owes⟩ := rest.owed running
    simp [unsettled,none,owes,Bool.or_assoc]
  · simp [unsettled,rest.settled finished,or_assoc]

theorem Heard.telling {told : List Effect} (heardBy : Heard pre heard told)
    (rest : Told (owes heard.announcer) loop effects) :
    Told (owes pre.announcer) loop (told ++ effects) :=
  rest.append told heardBy.unsettled heardBy.owed

theorem Ended.telling {after : RetryState} (ended : Ended pre after effects)
    (finished : loop.finished = true) : Told (owes pre.announcer) loop effects :=
  ⟨fun running => by simp [finished] at running,fun _ => ended.settled⟩

theorem fail_told (state : RetryState) (error : GatewayError) :
    Told (owes state.announcer) (fail (α := α) state error).1 (fail (α := α) state error).2 :=
  (announceSettled_ended state .failed).telling rfl

theorem Told.attempted {owing : Bool} (attempt : Attempted) (rest : Told owing loop effects) :
    Told owing loop (.attempted attempt :: effects) :=
  rest.append [.attempted attempt] rfl (by simp [announcedIn,Effect.isAnnouncement])

theorem Told.scheduled {owing : Bool} (schedule : Scheduled) (rest : Told owing loop effects) :
    Told owing loop (.scheduled schedule :: effects) :=
  rest.append [.scheduled schedule] rfl (by simp [announcedIn,Effect.isAnnouncement])

theorem attempting_told (state : RetryState) : Told (α := α) (owes state.announcer) (.attempting state) [] :=
  ⟨fun _ => ⟨rfl,by simp [announcedIn,Loop.reached]⟩,fun finished => by cases finished⟩

theorem recordFailedAttempt_told (cfg : RetryConfig) (state : RetryState)
    (error : GatewayError) (backoff : Backoff) :
    Told (owes state.announcer) (recordFailedAttempt (α := α) cfg state error backoff).1
      (recordFailedAttempt (α := α) cfg state error backoff).2 := by
  rcases recordFailedAttempt_cases (α := α) cfg state error backoff with
    failed | ⟨schedule,granted,heard,told,_,kind,heardBy,out⟩
  · rw [failed]
    exact fail_told {state with lastError := some error} error
  · have same : owes granted.announcer = owes state.announcer := by
      rcases kind with ⟨_,rfl,_⟩ | ⟨_,rfl,_⟩ <;> rfl
    rw [← same]
    rcases out with goes | ⟨thrown,ends⟩
    · rw [goes]
      have silent := heardBy.telling (attempting_told (α := α) {heard with attempt := heard.attempt + 1})
      rw [append_nil] at silent
      exact silent.scheduled schedule
    · rw [ends]
      exact (heardBy.telling (fail_told heard thrown)).scheduled schedule

theorem executeRetryAttempt_told (cfg : RetryConfig) (state : RetryState) (round : Round α) :
    Told (owes state.announcer) (executeRetryAttempt cfg state round).1
      (executeRetryAttempt cfg state round).2 := by
  rcases executeRetryAttempt_cases cfg state round with
    ⟨error,failed⟩ | ⟨heard,told,_,_,heardBy,⟨v,ends⟩ | ⟨error,ends⟩ | ⟨error,goes⟩⟩
  · rw [failed]
    exact fail_told state error
  · rw [ends]
    exact (heardBy.telling ((announceSettled_ended heard .answered).telling rfl)).attempted _
  · rw [ends]
    exact (heardBy.telling (fail_told heard error)).attempted _
  · rw [goes]
    exact (heardBy.telling (recordFailedAttempt_told cfg heard error round.backoff)).attempted _

end Told

section Bounds

variable {α : Type} {cfg : RetryConfig} {effects first second : List Effect}

structure Bounds (cfg : RetryConfig) (effects : List Effect) : Prop where
  bounded : ∀ attempt, .attempted attempt ∈ effects → Bounded cfg attempt
  fits : ∀ schedule, .scheduled schedule ∈ effects → Fits cfg schedule

theorem Bounds.append (start : Bounds cfg first) (rest : Bounds cfg second) :
    Bounds cfg (first ++ second) where
  bounded := by
    intro attempt mem
    rcases mem_append.mp mem with mem | mem
    · exact start.bounded attempt mem
    · exact rest.bounded attempt mem
  fits := by
    intro schedule mem
    rcases mem_append.mp mem with mem | mem
    · exact start.fits schedule mem
    · exact rest.fits schedule mem

theorem OnlyNotices.bounds (notices : OnlyNotices effects) : Bounds cfg effects where
  bounded := by
    intro attempt mem
    obtain ⟨notice,equal⟩ := notices _ mem
    cases equal
  fits := by
    intro schedule mem
    obtain ⟨notice,equal⟩ := notices _ mem
    cases equal

theorem Bounds.attempted {attempt : Attempted} (bounded : Bounded cfg attempt)
    (rest : Bounds cfg effects) : Bounds cfg (.attempted attempt :: effects) where
  bounded := by
    intro other mem
    rcases mem_cons.mp mem with equal | mem
    · cases equal
      exact bounded
    · exact rest.bounded other mem
  fits := by
    intro schedule mem
    rcases mem_cons.mp mem with equal | mem
    · cases equal
    · exact rest.fits schedule mem

theorem Bounds.scheduled {schedule : Scheduled} (fits : Fits cfg schedule)
    (rest : Bounds cfg effects) : Bounds cfg (.scheduled schedule :: effects) where
  bounded := by
    intro attempt mem
    rcases mem_cons.mp mem with equal | mem
    · cases equal
    · exact rest.bounded attempt mem
  fits := by
    intro other mem
    rcases mem_cons.mp mem with equal | mem
    · cases equal
      exact fits
    · exact rest.fits other mem

theorem fail_notices (state : RetryState) (error : GatewayError) : OnlyNotices (fail (α := α) state error).2 :=
  announceSettled_notices state .failed

theorem recordFailedAttempt_bounds (cfg : RetryConfig) (state : RetryState)
    (error : GatewayError) (backoff : Backoff) :
    Bounds cfg (recordFailedAttempt (α := α) cfg state error backoff).2 := by
  rcases recordFailedAttempt_cases (α := α) cfg state error backoff with
    failed | ⟨schedule,granted,heard,told,fits,_,heardBy,out⟩
  · rw [failed]
    exact (fail_notices _ error).bounds
  · rcases out with goes | ⟨thrown,ends⟩
    · rw [goes]
      exact heardBy.notices.bounds.scheduled fits
    · rw [ends]
      exact (heardBy.notices.append (fail_notices heard thrown)).bounds.scheduled fits

theorem executeRetryAttempt_bounds (cfg : RetryConfig) (state : RetryState) (round : Round α) :
    Bounds cfg (executeRetryAttempt cfg state round).2 := by
  rcases executeRetryAttempt_cases cfg state round with
    ⟨error,failed⟩ | ⟨heard,told,bounded,_,heardBy,⟨v,ends⟩ | ⟨error,ends⟩ | ⟨error,goes⟩⟩
  · rw [failed]
    exact (fail_notices state error).bounds
  · rw [ends]
    exact (heardBy.notices.append (announceSettled_notices heard .answered)).bounds.attempted bounded
  · rw [ends]
    exact (heardBy.notices.append (fail_notices heard error)).bounds.attempted bounded
  · rw [goes]
    exact (heardBy.notices.bounds.append
      (recordFailedAttempt_bounds cfg heard error round.backoff)).attempted bounded

end Bounds

section Counts

variable {α : Type} {cfg : RetryConfig} {call : StreamAttemptState}
  {s heard : RetryState} {effects notes : List Effect}

def repairsBefore (call : StreamAttemptState) : Nat := if call.steered then 1 else 0

/-- The attempts and the one repair of the call, over the loops so far and this one. -/
structure Limited (cfg : RetryConfig) (call : StreamAttemptState) (effects : List Effect) :
    Prop where
  limit : cfg.retryWindowMs = none → attemptsIn effects = 0 ∨
    call.count + attemptsIn effects ≤ cfg.maxRetries + 1 + repairsBefore call + repairsIn effects
  once : repairsBefore call + repairsIn effects ≤ 1

/-- The state after an attempt: it has been counted, and so has the repair it carried. -/
structure Made (cfg : RetryConfig) (call : StreamAttemptState) (s : RetryState)
    (effects : List Effect) : Prop where
  limited : Limited cfg call effects
  attempt : s.attempt = call.count + attemptsIn effects
  repairs : s.repairs = repairsBefore call + repairsIn effects
  steered : (call.steered || steers cfg effects) = decide (0 < s.repairs)

/-- The state before an attempt, which carries the repair of the failure it follows. -/
structure Due (cfg : RetryConfig) (call : StreamAttemptState) (s : RetryState)
    (effects : List Effect) : Prop where
  limited : Limited cfg call effects
  attempt : s.attempt = call.count + attemptsIn effects + 1
  repairs : s.repairs = repairsBefore call + repairsIn effects
  steered : (call.steered || steers cfg effects ||
    (s.lastError.bind (repairReason cfg)).isSome) = decide (0 < s.repairs)

def Phase (cfg : RetryConfig) (call : StreamAttemptState) (effects : List Effect) : Loop α → Prop
  | .resuming s _ => Made cfg call s effects
  | .attempting s => Due cfg call s effects
  | .answered s _ => Made cfg call s effects
  | .failed _ _ => Limited cfg call effects

theorem Limited.nil (cfg : RetryConfig) (call : StreamAttemptState) : Limited cfg call [] := by
  refine ⟨fun _ => .inl rfl,?_⟩
  simp only [repairsBefore,repairsIn,countP_nil]
  split
  · exact le_refl 1
  · exact zero_le_one

theorem Limited.told (limited : Limited cfg call effects) (notices : OnlyNotices notes) :
    Limited cfg call (effects ++ notes) where
  limit := by
    rw [attemptsIn_append,repairsIn_append,notices.attempts_eq,notices.repairs_eq]
    exact limited.limit
  once := by
    rw [repairsIn_append,notices.repairs_eq]
    exact limited.once

theorem Made.told (made : Made cfg call s effects) (notices : OnlyNotices notes)
    (same : heard = {s with announcer := heard.announcer}) :
    Made cfg call heard (effects ++ notes) where
  limited := made.limited.told notices
  attempt := by
    rw [same,attemptsIn_append,notices.attempts_eq]
    exact made.attempt
  repairs := by
    rw [same,repairsIn_append,notices.repairs_eq]
    exact made.repairs
  steered := by
    rw [same,steers_append,notices.steers_eq,Bool.or_false]
    exact made.steered

theorem Due.told (due : Due cfg call s effects) (notices : OnlyNotices notes)
    (same : heard = {s with announcer := heard.announcer}) :
    Due cfg call heard (effects ++ notes) where
  limited := due.limited.told notices
  attempt := by
    rw [same,attemptsIn_append,notices.attempts_eq]
    exact due.attempt
  repairs := by
    rw [same,repairsIn_append,notices.repairs_eq]
    exact due.repairs
  steered := by
    rw [same,steers_append,notices.steers_eq,Bool.or_false]
    exact due.steered

theorem attemptsIn_attempted (attempt : Attempted) : attemptsIn [.attempted attempt] = 1 := rfl

theorem repairsIn_attempted (attempt : Attempted) : repairsIn [.attempted attempt] = 0 := rfl

theorem Due.attempted (due : Due cfg call s effects) (attempt : Attempted)
    (prev : attempt.previousError = s.lastError)
    (allowed : cfg.retryWindowMs = none → (s.attempt : Int) - s.repairs ≤ cfg.maxRetries + 1) :
    Made cfg call s (effects ++ [.attempted attempt]) where
  limited := by
    refine ⟨fun unwindowed => .inr ?_,?_⟩
    · have allowed := allowed unwindowed
      have made := due.attempt
      have granted := due.repairs
      rw [attemptsIn_append,repairsIn_append,attemptsIn_attempted,repairsIn_attempted]
      omega
    · rw [repairsIn_append,repairsIn_attempted]
      exact due.limited.once
  attempt := by
    rw [attemptsIn_append,attemptsIn_attempted]
    exact due.attempt
  repairs := by
    rw [repairsIn_append,repairsIn_attempted]
    exact due.repairs
  steered := by
    rw [← due.steered,steers_append]
    simp [steers,prev,Bool.or_assoc]

theorem Made.scheduled (made : Made cfg call s effects) {schedule : Scheduled}
    {error : GatewayError} {granted : RetryState}
    (kind : schedule.repair = none ∧ granted = {s with lastError := some error} ∧
        (s.repairs = 0 → repairReason cfg error = none) ∨
      schedule.repair.isSome = true ∧ granted = {s with lastError := some error, repairs := s.repairs + 1} ∧
        s.repairs = 0 ∧ (repairReason cfg error).isSome = true) :
    Due cfg call {granted with attempt := granted.attempt + 1} (effects ++ [.scheduled schedule]) := by
  have attemptless : attemptsIn [.scheduled schedule] = 0 := rfl
  have unsteered : steers cfg [.scheduled schedule] = false := rfl
  have limited := made.limited
  rcases kind with ⟨unrepaired,rfl,reason⟩ | ⟨repaired,rfl,zero,reason⟩
  · have repairless : repairsIn [.scheduled schedule] = 0 := by
      simp [repairsIn,Effect.isRepair,unrepaired]
    refine ⟨⟨?_,?_⟩,?_,?_,?_⟩
    · rw [attemptsIn_append,repairsIn_append,attemptless,repairless]
      exact limited.limit
    · rw [repairsIn_append,repairless]
      exact limited.once
    · rw [attemptsIn_append,attemptless]
      exact congrArg (· + 1) made.attempt
    · rw [repairsIn_append,repairless]
      exact made.repairs
    · rw [steers_append,unsteered,Bool.or_false,made.steered]
      by_cases none' : s.repairs = 0
      · simp [none',reason none']
      · simp [pos_of_ne_zero none']
  · have one : repairsIn [.scheduled schedule] = 1 := by
      simp [repairsIn,Effect.isRepair,repaired]
    have before := made.repairs
    refine ⟨⟨?_,?_⟩,?_,?_,?_⟩
    · intro unwindowed
      rw [attemptsIn_append,repairsIn_append,attemptless,one]
      rcases limited.limit unwindowed with none' | limit
      · exact .inl none'
      · exact .inr (by omega)
    · rw [repairsIn_append,one]
      omega
    · rw [attemptsIn_append,attemptless]
      exact congrArg (· + 1) made.attempt
    · rw [repairsIn_append,one]
      exact congrArg (· + 1) before
    · simp [reason]

theorem Limited.fail (limited : Limited cfg call effects) (s : RetryState) (error : GatewayError) :
    Phase cfg call (effects ++ (fail (α := α) s error).2) (fail (α := α) s error).1 :=
  limited.told (fail_notices s error)

theorem Made.record (made : Made cfg call s effects) (error : GatewayError) (backoff : Backoff) :
    Phase cfg call (effects ++ (recordFailedAttempt (α := α) cfg s error backoff).2)
      (recordFailedAttempt (α := α) cfg s error backoff).1 := by
  rcases recordFailedAttempt_cases (α := α) cfg s error backoff with
    failed | ⟨schedule,granted,heard,told,_,kind,heardBy,out⟩
  · rw [failed]
    exact made.limited.fail _ error
  · have due := made.scheduled kind
    have heardDue : Due cfg call {heard with attempt := heard.attempt + 1}
        (effects ++ [.scheduled schedule] ++ told) :=
      due.told heardBy.notices (congrArg (fun s => {s with attempt := s.attempt + 1}) heardBy.same)
    rcases out with goes | ⟨thrown,ends⟩
    · rw [goes]
      simpa only [Phase,append_assoc,singleton_append] using heardDue
    · rw [ends]
      have failed := heardDue.limited.fail (α := α) heard thrown
      simpa only [append_assoc,nil_append,cons_append] using failed

theorem Due.execute (due : Due cfg call s effects) (round : Round α) :
    Phase cfg call (effects ++ (executeRetryAttempt cfg s round).2)
      (executeRetryAttempt cfg s round).1 := by
  rcases executeRetryAttempt_cases cfg s round with
    ⟨error,failed⟩ | ⟨heard,told,_,allowed,heardBy,out⟩
  · rw [failed]
    exact due.limited.fail s error
  · have made := (due.attempted (operationCall cfg s round) rfl allowed).told heardBy.notices heardBy.same
    rcases out with ⟨v,ends⟩ | ⟨error,ends⟩ | ⟨error,goes⟩
    · rw [ends]
      have settled : Made cfg call (announceSettled heard .answered).1
          (effects ++ [.attempted (operationCall cfg s round)] ++ told ++ (announceSettled heard .answered).2) :=
        made.told (announceSettled_notices heard .answered) (announceSettled_same heard .answered)
      simpa only [Phase,append_assoc,nil_append,cons_append] using settled
    · rw [ends]
      have failed := made.limited.fail (α := α) heard error
      simpa only [append_assoc,nil_append,cons_append] using failed
    · rw [goes]
      have recorded := made.record (α := α) error round.backoff
      simpa only [append_assoc,nil_append,cons_append] using recorded

end Counts

section Run

variable {α : Type} {cfg : RetryConfig} {start : ℚ} {announcer : Option RetryAnnouncer} {resume : Option RetryResume}
  {call : StreamAttemptState} {effects : List Effect} {loop : Loop α}

theorem bounds_run (rounds : List (Round α)) :
    Bounds cfg ((executeWithRetry cfg α start announcer resume).noted rounds) := by
  have none' : Bounds cfg [] := ⟨by simp,by simp⟩
  apply Machine.holds_of_step fun _ effects => Bounds cfg effects
  · exact none'
  · intro loop effects round kept
    apply kept.append
    cases loop with
    | resuming state failed => exact recordFailedAttempt_bounds cfg state failed round.backoff
    | attempting state => exact executeRetryAttempt_bounds cfg state round
    | answered state v => exact none'
    | failed state error => exact none'

theorem told_run (rounds : List (Round α)) :
    Told (owes announcer) ((executeWithRetry cfg α start announcer resume).run rounds)
      ((executeWithRetry cfg α start announcer resume).noted rounds) := by
  apply Machine.holds_of_step (Told (owes announcer))
  · cases resume with
    | none => exact attempting_told ⟨start,1,0,none,announcer⟩
    | some resume =>
      refine ⟨fun _ => ⟨rfl,?_⟩,fun finished => by cases finished⟩
      simp [executeWithRetry,announcedIn,Loop.reached]
  · intro loop effects round kept
    cases loop with
    | resuming state failed =>
      obtain ⟨unsettled,owed⟩ := kept.owed rfl
      exact (recordFailedAttempt_told cfg state failed round.backoff).append effects unsettled owed
    | attempting state =>
      obtain ⟨unsettled,owed⟩ := kept.owed rfl
      exact (executeRetryAttempt_told cfg state round).append effects unsettled owed
    | answered state v =>
      rw [show (executeWithRetry cfg α start announcer resume).notes (.answered state v) round
        = [] from rfl,append_nil]
      exact kept
    | failed state error =>
      rw [show (executeWithRetry cfg α start announcer resume).notes (.failed state error) round
        = [] from rfl,append_nil]
      exact kept

theorem phase_run (cfg : RetryConfig) (start : ℚ) (announcer : Option RetryAnnouncer)
    (call : StreamAttemptState) (failedAttempt : Option GatewayError)
    (first : failedAttempt = none → call = ⟨0,false⟩) (rounds : List (Round α)) :
    Phase cfg call ((executeWithRetry cfg α start announcer (streamResume call failedAttempt)).noted rounds)
      ((executeWithRetry cfg α start announcer (streamResume call failedAttempt)).run rounds) := by
  apply Machine.holds_of_step fun loop effects => Phase cfg call effects loop
  · cases failedAttempt with
    | none =>
      cases first rfl
      exact ⟨Limited.nil cfg _,rfl,rfl,rfl⟩
    | some failed =>
      refine ⟨Limited.nil cfg call,rfl,rfl,?_⟩
      simp only [steers,any_nil,Bool.or_false]
      cases call.steered with
      | false => rfl
      | true => rfl
  · intro loop effects round phase
    cases loop with
    | resuming state failed => exact phase.record failed round.backoff
    | attempting state => exact phase.execute round
    | answered state v =>
      rw [show (executeWithRetry cfg α start announcer (streamResume call failedAttempt)).notes
        (.answered state v) round = [] from rfl,append_nil]
      exact phase
    | failed state error =>
      rw [show (executeWithRetry cfg α start announcer (streamResume call failedAttempt)).notes
        (.failed state error) round = [] from rfl,append_nil]
      exact phase

theorem prepareStreamAttempts_eq (call : StreamAttemptState) (effects : List Effect) :
    prepareStreamAttempts cfg call effects =
      ⟨call.count + attemptsIn effects,call.steered || steers cfg effects⟩ := by
  induction effects generalizing call with
  | nil => simp [prepareStreamAttempts,attemptsIn,steers]
  | cons effect effects ih =>
    have rest := ih
    unfold prepareStreamAttempts at rest ⊢
    rw [foldl_cons,rest]
    rw [← singleton_append,attemptsIn_append,steers_append,← add_assoc,← Bool.or_assoc]
    cases effect with
    | attempted attempt => simp [attemptsIn,steers,Effect.isAttempt]
    | scheduled schedule => simp [attemptsIn,steers,Effect.isAttempt]
    | notice notice => simp [attemptsIn,steers,Effect.isAttempt]

theorem Phase.limited (phase : Phase cfg call effects loop) : Limited cfg call effects := by
  cases loop with
  | resuming state failed => exact Made.limited phase
  | attempting state => exact Due.limited phase
  | answered state v => exact Made.limited phase
  | failed state error => exact phase

theorem Made.resumed {state : RetryState} {rest : List Effect}
    (made : Made cfg call state effects)
    (limited : Limited cfg (prepareStreamAttempts cfg call effects) rest) :
    Limited cfg call (effects ++ rest) := by
  rw [prepareStreamAttempts_eq] at limited
  have before : repairsBefore ⟨call.count + attemptsIn effects,
      call.steered || steers cfg effects⟩ = repairsBefore call + repairsIn effects := by
    have once := made.limited.once
    rw [← made.repairs] at once ⊢
    simp only [repairsBefore,made.steered,decide_eq_true_eq]
    split
    · omega
    · omega
  refine ⟨fun unwindowed => ?_,?_⟩
  · rw [attemptsIn_append,repairsIn_append]
    rcases limited.limit unwindowed with none' | further
    · rcases made.limited.limit unwindowed with none | within
      · exact .inl (by omega)
      · exact .inr (by omega)
    · rw [before] at further
      exact .inr (by simp only at further; omega)
  · rw [repairsIn_append]
    have once := limited.once
    rw [before] at once
    omega

theorem Phase.policy (leg : Leg α) (phase : Phase (leg.policy cfg) call effects loop) :
    Phase cfg call effects loop := by
  have limited : Limited (leg.policy cfg) call effects → Limited cfg call effects :=
    fun limited => ⟨fun unwindowed => limited.limit (by simp [Leg.policy,unwindowed]),limited.once⟩
  have made : ∀ {state}, Made (leg.policy cfg) call state effects → Made cfg call state effects :=
    fun made => ⟨limited made.limited,made.attempt,made.repairs,made.steered⟩
  cases loop with
  | resuming state failed => exact made phase
  | attempting state =>
    have due : Due (leg.policy cfg) call state effects := phase
    exact ⟨limited due.limited,due.attempt,due.repairs,due.steered⟩
  | answered state v => exact made phase
  | failed state error => exact limited phase

theorem callEffects_limited (call : StreamAttemptState) (failedAttempt : Option GatewayError)
    (first : failedAttempt = none → call = ⟨0,false⟩) (legs : List (Leg α)) :
    Limited cfg call (callEffects cfg call failedAttempt legs) := by
  induction legs generalizing call failedAttempt with
  | nil => exact Limited.nil cfg call
  | cons leg legs ih =>
    have phase : Phase cfg call _ _ := (phase_run (leg.policy cfg) leg.start leg.announcer
      call failedAttempt first leg.rounds).policy leg
    simp only [callEffects]
    split
    · next state v ended =>
      rw [ended] at phase
      exact Made.resumed phase (ih _ _ (by simp))
    · exact phase.limited

end Run

/-- The loop keeps its attempts and sleeps within the budget and, where the provider failed,
within the window; it settles what it announced once, when it ends; and the attempts of a
call under the attempts policy stay within it over all the loops of the call. -/
theorem retry_budget {α : Type} (config : RetryConfig) :
    (∀ (start : ℚ) (announcer : Option RetryAnnouncer) (resume : Option RetryResume)
      (rounds : List (Round α)),
      let loop := (executeWithRetry config α start announcer resume).run rounds
      let effects := (executeWithRetry config α start announcer resume).noted rounds
      (∀ attempt, .attempted attempt ∈ effects →
        (∀ timeoutMs, config.timeoutMs = some timeoutMs → attempt.elapsedMs < timeoutMs ∧
          attempt.remainingMs = ((timeoutMs - attempt.elapsedMs : ℚ) : WithTop ℚ)) ∧
        ∀ bound : ℚ, attempt.attemptTimeoutMs = some bound →
          (bound : WithTop ℚ) ≤ max 1 attempt.remainingMs) ∧
      (∀ schedule, .scheduled schedule ∈ effects →
        (∀ timeoutMs, config.timeoutMs = some timeoutMs →
          schedule.budgetElapsedMs + schedule.sleepMs < timeoutMs) ∧
        ∀ windowMs, config.retryWindowMs = some windowMs → schedule.repair = none →
          isNonProviderFault schedule.error = false →
          schedule.windowElapsedMs + schedule.sleepMs < windowMs) ∧
      settlementsIn effects =
        if loop.finished = true ∧ (owes announcer = true ∨ announcedIn effects = true)
        then 1 else 0) ∧
    (config.retryWindowMs = none → ∀ legs : List (Leg α),
      let effects := callEffects config ⟨0,false⟩ none legs
      attemptsIn effects ≤ config.maxRetries + 1 + repairsIn effects ∧ repairsIn effects ≤ 1) := by
  refine ⟨?_,?_⟩
  · intro start announcer resume rounds loop effects
    have bounds : Bounds config effects := bounds_run rounds
    have told : Told (owes announcer) loop effects := told_run rounds
    refine ⟨?_,?_,?_⟩
    · intro attempt member
      have bounded := bounds.bounded attempt member
      exact ⟨fun timeoutMs budgeted =>
        ⟨bounded.inBudget timeoutMs budgeted,bounded.remaining timeoutMs budgeted⟩,bounded.bounded⟩
    · intro schedule member
      have fits := bounds.fits schedule member
      exact ⟨fits.inBudget,fits.inWindow⟩
    · cases finished : loop.finished with
      | false => simp [(told.owed finished).1]
      | true => simp [told.settled finished]
  · intro unwindowed legs effects
    have limited : Limited config ⟨0,false⟩ effects :=
      callEffects_limited ⟨0,false⟩ none (fun _ => rfl) legs
    have once := limited.once
    have limit := limited.limit unwindowed
    simp only [repairsBefore,Bool.false_eq_true,if_false] at once limit
    exact ⟨by omega,by omega⟩

theorem scheduled_mem {α : Type} (config : RetryConfig) (state : RetryState)
    {error : GatewayError} (backoff : Backoff) {sleepMs : ℚ} {repair : Option RetryRepairReason}
    (decided : (repairDecision error config ⟨remainingBudgetMs config.timeoutMs (backoff.failedAt - state.start),
          backoff.decidedAt - state.start⟩ state.repairs).getD
      (retryDecision error config ⟨remainingBudgetMs config.timeoutMs (backoff.failedAt - state.start),
          backoff.decidedAt - state.start⟩
        backoff.shouldRetry (state.attempt - state.repairs) backoff.random) =
      .sleep sleepMs repair) :
    .scheduled ⟨error,repair,backoff.failedAt - state.start,backoff.decidedAt - state.start,sleepMs⟩ ∈
      (recordFailedAttempt (α := α) config state error backoff).2 := by
  unfold recordFailedAttempt
  simp only [decided]
  cases sleepWithCancellation backoff.slept with
  | ok v => exact mem_cons_self
  | error thrown => exact mem_cons_self

def windowedConfig : RetryConfig where
  jitterProviderCooldown := false
  maxRetries := 2
  retryBaseDelayMs := 500
  timeoutMs := none
  attemptTimeoutMs := none
  retryWindowMs := some 1000
  repair := none

def rejectedToolCall : GatewayError := ⟨.malformedToolCall,true,none,false,[]⟩

def lateBackoff : Backoff := ⟨2000,none,2000,⟨0,le_refl 0,zero_lt_one⟩,.completed⟩

theorem rejectedToolCall_delay : retryDelayMs rejectedToolCall 1 500 lateBackoff.random false = 250 := by
  norm_num [retryDelayMs,providerRetryAfterMs,rejectedToolCall,isRateLimitError,isProviderError,
    backoffDelayMs,maxBackoffDelayMs,maxBackoffMs,lateBackoff]

/-- A call with a window retries past it where the model's own tool call did not parse: such
a retry goes by the attempt count. -/
theorem retry_outlives_window : ¬∀ (config : RetryConfig) (resume : Option RetryResume)
    (rounds : List (Round Unit)) (schedule : Scheduled) (windowMs : ℚ),
    config.retryWindowMs = some windowMs →
    .scheduled schedule ∈ (executeWithRetry config Unit 0 none resume).noted rounds →
    schedule.windowElapsedMs + schedule.sleepMs ≤ windowMs := by
  intro within
  have decided : retryDecision rejectedToolCall windowedConfig ⟨⊤,2000 - 0⟩ none ((1 : Nat) - (0 : Nat))
      lateBackoff.random = .sleep 250 none := by
    have delay := rejectedToolCall_delay
    have window : decisionWindowMs windowedConfig rejectedToolCall = none := rfl
    have finite : ¬((250 : ℚ) : WithTop ℚ) ≥ ⊤ := not_le_of_gt (WithTop.coe_lt_top 250)
    have first : ((1 : Nat) : Int) - (0 : Nat) = 1 := rfl
    have base : (windowedConfig.retryBaseDelayMs : ℚ) = 500 := by norm_num [windowedConfig]
    have unjittered : windowedConfig.jitterProviderCooldown = false := rfl
    simp only [retryDecision,remainingForRetry,window,first]
    rw [base,unjittered,delay,if_neg finite]
    simp [isRetryableError,rejectedToolCall,windowedConfig]
  have scheduled := scheduled_mem (α := Unit) windowedConfig ⟨0,1,0,none,none⟩ lateBackoff decided
  have late := within windowedConfig (some ⟨rejectedToolCall,none,none⟩)
    [⟨false,0,0,[],.answered ⟨⟩,lateBackoff⟩] _ 1000 rfl (mem_append_left _ scheduled)
  norm_num [lateBackoff] at late

end Keiko.Retry
