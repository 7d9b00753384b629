import Keiko.CiRepairBudget
import Keiko.Library.Distinct

/-! What writes do to the record of a budget, and what holds of it in every run: what is stored is
valid, nothing of it is ever loosened, and the totals are those of the charges that were accepted,
each once. -/
namespace Keiko.CiRepairBudget
open Keiko.Library Keiko.Runtime List Bool OrderedMap

section Valid

variable {record : CiRepairBudgetRecord} {tried : CiRepairAttempt}

structure ValidUsage (tried : CiRepairAttempt) : Prop where
  startedAt : tried.startedAtMs ≤ maxSafeInteger
  toolCalls : tried.toolCalls ≤ maxSafeInteger
  promptTokens : tried.promptTokens ≤ maxSafeInteger
  running : tried.status = .active → tried.finishedAtMs = none ∧
    tried.toolCalls = (tried.charges.map (·.toolCalls)).sum ∧
      tried.promptTokens = (tried.charges.map (·.promptTokens)).sum
  settled : tried.status ≠ .active → tried.charges = [] ∧
    ∃ finishedAtMs, tried.finishedAtMs = some finishedAtMs ∧ finishedAtMs ≤ maxSafeInteger ∧
      tried.startedAtMs ≤ finishedAtMs

theorem attemptUsage_iff : attemptUsage tried = true ↔ ValidUsage tried := by
  rw [attemptUsage]
  by_cases running : tried.status = .active
  · rw [if_pos running]
    simp only [and_eq_true,safeCount,decide_eq_true_eq,Option.isNone_iff_eq_none]
    constructor
    · intro ⟨⟨⟨startedAt,toolCalls⟩,promptTokens⟩,⟨unfinished,calls⟩,tokens⟩
      exact ⟨startedAt,toolCalls,promptTokens,fun _ => ⟨unfinished,calls,tokens⟩,fun settled => absurd running settled⟩
    · intro usage
      obtain ⟨unfinished,calls,tokens⟩ := usage.running running
      exact ⟨⟨⟨usage.startedAt,usage.toolCalls⟩,usage.promptTokens⟩,⟨unfinished,calls⟩,tokens⟩
  · rw [if_neg running]
    simp only [and_eq_true,safeCount,decide_eq_true_eq,List.isEmpty_iff,Option.any_eq_true]
    constructor
    · intro ⟨⟨⟨startedAt,toolCalls⟩,promptTokens⟩,empty,finishedAtMs,hit,safe,post⟩
      exact ⟨startedAt,toolCalls,promptTokens,fun active => absurd active running,
        fun _ => ⟨empty,finishedAtMs,hit,safe,post⟩⟩
    · intro usage
      obtain ⟨empty,finishedAtMs,hit,safe,post⟩ := usage.settled running
      exact ⟨⟨⟨usage.startedAt,usage.toolCalls⟩,usage.promptTokens⟩,empty,finishedAtMs,hit,safe,post⟩

structure ValidAttempt (tried : CiRepairAttempt) : Prop where
  identity : attemptIdentity tried = true
  few : tried.charges.length ≤ ciRepairMaxCharges
  charges : ∀ charge ∈ tried.charges, validCharge charge = true
  distinct : (tried.charges.map (·.chargeId)).Nodup
  usage : ValidUsage tried

theorem validAttempt_iff : validAttempt tried = true ↔ ValidAttempt tried := by
  rw [validAttempt,validCharges,and_eq_true,attemptUsage_iff]
  simp only [and_eq_true,decide_eq_true_eq,all_eq_true]
  constructor
  · intro ⟨⟨identity,⟨few,charges⟩,nodup⟩,usage⟩
    exact ⟨identity,few,charges,nodup,usage⟩
  · intro valid
    exact ⟨⟨valid.identity,⟨valid.few,valid.charges⟩,valid.distinct⟩,valid.usage⟩

structure ValidTotals (record : CiRepairBudgetRecord) : Prop where
  one : (record.attempts.filter isActive).length ≤ 1
  last : record.attempts.filter isActive = [] ∨ (record.attempts.filter isActive).head? = record.attempts.getLast?
  distinct : (record.attempts.map (·.attemptId)).Nodup
  toolCalls : record.toolCalls = (record.attempts.map (·.toolCalls)).sum
  promptTokens : record.promptTokens = (record.attempts.map (·.promptTokens)).sum
  failed : record.failedAttempts = record.attempts.countP hasFailed
  times : ∀ tried ∈ record.attempts, record.startedAtMs ≤ tried.startedAtMs ∧
    tried.finishedAtMs.getD tried.startedAtMs ≤ record.updatedAtMs

theorem attemptTotals_iff : attemptTotals record = true ↔ ValidTotals record := by
  rw [attemptTotals]
  simp only [and_eq_true,or_eq_true,decide_eq_true_eq,List.isEmpty_iff,List.all_eq_true]
  constructor
  · intro ⟨⟨⟨⟨⟨⟨one,last⟩,nodup⟩,toolCalls⟩,promptTokens⟩,failed⟩,times⟩
    exact ⟨one,last,nodup,toolCalls,promptTokens,failed,times⟩
  · intro totals
    exact ⟨⟨⟨⟨⟨⟨totals.one,totals.last⟩,totals.distinct⟩,totals.toolCalls⟩,totals.promptTokens⟩,
      totals.failed⟩,totals.times⟩

structure ValidCounts (record : CiRepairBudgetRecord) : Prop where
  revision : record.revision ≤ maxSafeInteger
  prNumberSafe : record.prNumber ≤ maxSafeInteger
  startedAt : record.startedAtMs ≤ maxSafeInteger
  updatedAt : record.updatedAtMs ≤ maxSafeInteger
  deadlineSafe : record.deadlineMs ≤ maxSafeInteger
  toolCalls : record.toolCalls ≤ maxSafeInteger
  promptTokens : record.promptTokens ≤ maxSafeInteger
  failed : record.failedAttempts ≤ maxSafeInteger
  prNumber : 0 < record.prNumber ∧ record.prNumber ≤ 1000000000
  later : record.startedAtMs ≤ record.updatedAtMs
  deadline : record.deadlineMs = record.startedAtMs + record.limits.maxRuntimeMs

theorem recordCounts_iff : recordCounts record = true ↔ ValidCounts record := by
  rw [recordCounts]
  simp only [Bool.and_eq_true,all_cons,all_nil,Bool.and_true,safeCount,decide_eq_true_eq]
  constructor
  · intro ⟨⟨⟨⟨⟨revision,prNumberSafe,startedAt,updatedAt,deadlineSafe,toolCalls,promptTokens,failed⟩,
      positive⟩,bounded⟩,post⟩,deadline⟩
    exact ⟨revision,prNumberSafe,startedAt,updatedAt,deadlineSafe,toolCalls,promptTokens,failed,
      ⟨positive,bounded⟩,post,deadline⟩
  · intro counts
    exact ⟨⟨⟨⟨⟨counts.revision,counts.prNumberSafe,counts.startedAt,counts.updatedAt,
      counts.deadlineSafe,counts.toolCalls,counts.promptTokens,counts.failed⟩,counts.prNumber.1⟩,
      counts.prNumber.2⟩,counts.later⟩,counts.deadline⟩

structure Valid (record : CiRepairBudgetRecord) : Prop where
  shape : recordShape record = true
  limits : validCiRepairLimits record.limits = true
  some_attempt : 1 ≤ record.attempts.length
  few : record.attempts.length ≤ ciRepairMaxAttempts
  attempts : ∀ tried ∈ record.attempts, ValidAttempt tried
  counts : ValidCounts record
  totals : ValidTotals record

theorem valid_iff : isCiRepairBudgetRecord record = true ↔ Valid record := by
  rw [isCiRepairBudgetRecord,and_eq_true,and_eq_true,attemptTotals_iff,recordCounts_iff]
  simp only [and_eq_true,decide_eq_true_eq,all_eq_true,validAttempt_iff]
  constructor
  · intro ⟨⟨⟨⟨⟨⟨shape,limits⟩,some_attempt⟩,few⟩,attempts⟩,counts⟩,totals⟩
    exact ⟨shape,limits,some_attempt,few,attempts,counts,totals⟩
  · intro valid
    exact ⟨⟨⟨⟨⟨⟨valid.shape,valid.limits⟩,valid.some_attempt⟩,valid.few⟩,valid.attempts⟩,valid.counts⟩,valid.totals⟩

end Valid

section Changes

variable {key : RowKey} {call : Call} {row : Option Row} {cur : Scope}
  {reason : Option CiRepairBudgetBlockReason} {record : CiRepairBudgetRecord}

structure Scoped (key : RowKey) (call : Call) (row : Option Row) (cur : Scope) : Prop where
  own : cur.call = call
  authorized : validContext key call.context = true
  limits : cur.limits = call.context.limits.counts
  now : cur.now + cur.limits.maxRuntimeMs ≤ maxSafeInteger
  read : cur.current = row.map (·.record)
  stored : ∀ stored, row = some stored → stored.record.revision = stored.revision ∧
    Valid stored.record ∧ stored.record.updatedAtMs ≤ cur.now

theorem scope_eq_ok (hit : scope key call row = .ok cur) : Scoped key call row cur := by
  rw [scope] at hit
  split at hit
  · cases hit
  · split at hit
    · cases hit
    next valid =>
      rw [not_eq_true,not_eq_false'] at valid
      split at hit
      next snapshot draft _ _ =>
        split at hit
        · cases hit
        · simp only at hit
          split at hit
          · cases hit
          next timely =>
            rw [not_eq_true,not_eq_false',and_eq_true,safeCount,decide_eq_true_eq] at timely
            cases row with
            | none =>
              rw [load] at hit
              simp only [Option.any_none,false_eq_true,if_false] at hit
              cases hit
              exact ⟨rfl,valid,rfl,timely.2,rfl,nofun⟩
            | some stored =>
              rw [load] at hit
              split at hit
              · cases hit
              next cur loaded =>
                split at loaded
                next consistent =>
                  cases loaded
                  split at hit
                  · cases hit
                  next ordered =>
                    rw [Option.any_some,decide_eq_true_eq,not_lt] at ordered
                    cases hit
                    refine ⟨rfl,valid,rfl,timely.2,rfl,?_⟩
                    intro other same
                    cases same
                    obtain ⟨_,well,_,_,_,revision,_⟩ := consistent
                    exact ⟨revision,valid_iff.mp well,ordered⟩
                next => cases loaded
      next => cases hit

def firstRecord (key : RowKey) (cur : Scope) (input : CiRepairBegin) : CiRepairBudgetRecord where
  revision := 0
  taskDigest := key.taskDigest
  remoteDigest := key.remoteDigest
  issueBindingDigest := (cur.snapshot.issueBinding.map (·.bindingDigest)).getD []
  prNumber := countOf key.prNumber
  startedAtMs := cur.now
  updatedAtMs := cur.now
  deadlineMs := cur.now + cur.limits.maxRuntimeMs
  limits := cur.limits
  toolCalls := 0
  promptTokens := 0
  failedAttempts := 0
  attempts := [newCiRepairAttempt cur.call.context.runId input cur.now]

def tightenedAt (record : CiRepairBudgetRecord) (now : ℕ) : CiRepairBudgetRecord :=
  { record with revision := record.revision + 1, updatedAtMs := now }

def begunAt (record : CiRepairBudgetRecord) (runId : Text) (input : CiRepairBegin) (now : ℕ) :
    CiRepairBudgetRecord :=
  { tightenedAt record now with
    attempts := record.attempts ++ [newCiRepairAttempt runId input now] }

inductive Change (key : RowKey) (cur : Scope) :
    Option CiRepairBudgetRecord → CiRepairBudgetRecord → Option CiRepairBudgetBlockReason → Prop where
  | first (input : CiRepairBegin) (asked : cur.call.operation = .begin input) :
    Change key cur none (firstRecord key cur input) none
  | tightened (record : CiRepairBudgetRecord) (reason : Option CiRepairBudgetBlockReason)
      (asked : (∃ revision, cur.call.operation = .accept revision) ∨
        (∃ input, cur.call.operation = .begin input) ∧ reason ≠ none) :
    Change key cur (some record) (tightenedAt (tightenedCiRepairBudget record cur.limits) cur.now) reason
  | interrupted (record : CiRepairBudgetRecord) (active : CiRepairAttempt)
      (member : active ∈ record.attempts) (running : active.status = .active)
      (asked : ∀ input, cur.call.operation ≠ .charge input) :
    Change key cur (some record)
      (settleCiRepairAttempt (tightenedCiRepairBudget record cur.limits) active.attemptId
        .interrupted cur.now) (some .recoveryRequired)
  | begun (record : CiRepairBudgetRecord) (input : CiRepairBegin)
      (asked : cur.call.operation = .begin input)
      (idle : record.attempts.find? isActive = none)
      (fresh : ∀ attempt ∈ record.attempts, attempt.attemptId ≠ input.attemptId)
      (room : ciRepairExhaustion (tightenedCiRepairBudget record cur.limits) cur.now = none) :
    Change key cur (some record)
      (begunAt (tightenedCiRepairBudget record cur.limits) cur.call.context.runId input cur.now) none
  | charged (record : CiRepairBudgetRecord) (input : CiRepairChargeInput) (active : CiRepairAttempt)
      (asked : cur.call.operation = .charge input) (member : active ∈ record.attempts)
      (running : active.status = .active) (own : active.attemptId = input.attemptId)
      (valid : validChargeInput input = true) (fresh : priorChargeResult record input = none)
      (room : active.charges.length < ciRepairMaxCharges) :
    Change key cur (some record)
      (chargeCiRepairAttempt (tightenedCiRepairBudget record cur.limits) input.attemptId
        input.counts cur.now) none
  | settled (record : CiRepairBudgetRecord) (input : CiRepairSettle) (active : CiRepairAttempt)
      (asked : cur.call.operation = .settle input) (member : active ∈ record.attempts)
      (running : active.status = .active) (own : active.attemptId = input.attemptId) :
    Change key cur (some record)
      (settleCiRepairAttempt (tightenedCiRepairBudget record cur.limits) input.attemptId
        input.outcome.status cur.now) none

theorem find?_isActive {attempts : List CiRepairAttempt} {active : CiRepairAttempt}
    (hit : attempts.find? isActive = some active) : active ∈ attempts ∧ active.status = .active :=
  ⟨mem_of_find?_eq_some hit,by simpa [isActive] using find?_some hit⟩

theorem acceptScope_changes {revision : Option Number}
    (asked : (∃ revision, cur.call.operation = .accept revision) ∨
      (∃ input, cur.call.operation = .begin input) ∧ ∃ stored active,
        cur.current = some stored ∧ stored.attempts.find? isActive = some active ∧
          active.runId ≠ cur.call.context.runId)
    (persists : acceptScope cur revision = .persists record reason) :
    Change key cur cur.current record reason := by
  rw [acceptScope] at persists
  split at persists
  · cases persists
  · split at persists
    · cases persists
    next stored read =>
      have uncharged : ∀ input, cur.call.operation ≠ .charge input := by
        intro input charge
        rw [charge] at asked
        rcases asked with ⟨_,accept⟩ | ⟨⟨_,begin⟩,_⟩
        · cases accept
        · cases begin
      rw [read]
      simp only at persists
      split at persists
      next active hit =>
        cases persists
        obtain ⟨hit,_⟩ := Option.filter_eq_some_iff.mp hit
        obtain ⟨mem,running⟩ := find?_isActive hit
        exact .interrupted stored active mem running uncharged
      next own =>
        rcases asked with accepts | ⟨_,other,active,same,hit,foreign⟩
        · split at persists
          · split at persists <;> cases persists
          · cases persists
            exact .tightened stored none (.inl accepts)
        · rw [read] at same
          cases same
          change (Option.filter _ (stored.attempts.find? isActive)) = none at own
          rw [hit,Option.filter_some_pos (by simpa using foreign)] at own
          cases own

theorem beginScope_changes {input : CiRepairBegin} (asked : cur.call.operation = .begin input)
    (persists : beginScope key cur input = .persists record reason) :
    Change key cur cur.current record reason := by
  rw [beginScope] at persists
  split at persists
  · cases persists
  · split at persists
    next read =>
      split at persists
      · cases persists
      · rw [firstAttempt] at persists
        split at persists
        · cases persists
        · cases persists
          rw [read]
          exact .first input asked
    next stored read =>
      split at persists
      · cases persists
      next unknown =>
        split at persists
        · cases persists
        · rw [nextAttempt] at persists
          split at persists
          next active hit =>
            split at persists
            · cases persists
            next foreign =>
              exact acceptScope_changes (.inr ⟨⟨input,asked⟩,stored,active,read,hit,foreign⟩) persists
          next idle =>
            rw [read]
            split at persists
            next exhausted _ =>
              rw [persistTightening] at persists
              split at persists
              · cases persists
              · cases persists
                exact .tightened stored (some exhausted) (.inr ⟨⟨input,asked⟩,nofun⟩)
            next room =>
              cases persists
              refine .begun stored input asked idle ?_ room
              intro attempt mem same
              have absent := find?_eq_none.mp unknown attempt mem
              rw [same] at absent
              exact absent (beq_self_eq_true _)

theorem chargeScope_changes {input : CiRepairChargeInput} (asked : cur.call.operation = .charge input)
    (persists : chargeScope cur input = .persists record reason) :
    Change key cur cur.current record reason := by
  rw [chargeScope] at persists
  split at persists
  · cases persists
  next valid =>
    rw [not_eq_true,not_eq_false'] at valid
    split at persists
    · cases persists
    next stored read =>
      split at persists
      · cases persists
      next active hit =>
        have mem := mem_of_find?_eq_some hit
        have chosen := find?_some hit
        rw [and_eq_true,beq_iff_eq,isActive,decide_eq_true_eq] at chosen
        split at persists
        · cases persists
        · split at persists
          · cases persists
          next fresh =>
            split at persists
            · cases persists
            · split at persists
              · cases persists
              next room =>
                cases persists
                rw [read]
                exact .charged stored input active asked mem chosen.2 chosen.1 valid fresh (Nat.lt_of_not_le room)

theorem settleScope_changes {input : CiRepairSettle} (asked : cur.call.operation = .settle input)
    (persists : settleScope cur input = .persists record reason) :
    Change key cur cur.current record reason := by
  rw [settleScope] at persists
  split at persists
  · cases persists
  · split at persists
    · cases persists
    next stored read =>
      split at persists
      · cases persists
      next attempt hit =>
        have mem := mem_of_find?_eq_some hit
        have own := find?_some hit
        rw [beq_iff_eq] at own
        split at persists
        · cases persists
        · split at persists
          · cases persists
          next running =>
            split at persists
            · cases persists
            · cases persists
              rw [read]
              exact .settled stored input attempt asked mem (not_not.mp running) own

theorem work_changes (persists : work key cur = .persists record reason) :
    Change key cur cur.current record reason := by
  rw [work] at persists
  split at persists
  next => cases persists
  next revision asked => exact acceptScope_changes (.inl ⟨revision,asked⟩) persists
  next input asked => exact beginScope_changes asked persists
  next input asked => exact chargeScope_changes asked persists
  next input asked => exact settleScope_changes asked persists

def Came (key : RowKey) (pending : Pending) : Prop :=
  ∃ row cur, Scoped key pending.call row cur ∧
    pending.proposal.current = cur.current ∧ pending.proposal.now = cur.now ∧
      Change key cur cur.current pending.proposal.record pending.proposal.reason

theorem prepare_came {proposal : Proposal} (prepared : prepare key call row = .persists proposal) :
    proposal.current = row.map (·.record) ∧ Came key ⟨call,proposal⟩ := by
  rw [prepare] at prepared
  split at prepared
  · cases prepared
  next cur hit =>
    have reached := scope_eq_ok hit
    split at prepared
    · cases prepared
    next record reason persists =>
      cases prepared
      exact ⟨reached.read,⟨row,cur,reached,rfl,rfl,work_changes persists⟩⟩

end Changes

section Succession

variable {key : RowKey} {cur : Scope} {record next : CiRepairBudgetRecord}
  {reason : Option CiRepairBudgetBlockReason}

/-- An attempt may begin: fewer than three failed, no budget is used up and the deadline is ahead. -/
structure Affords (record : CiRepairBudgetRecord) (now : ℕ) : Prop where
  failed : record.failedAttempts < ciRepairMaxFailedAttempts
  toolCalls : record.toolCalls < record.limits.maxToolCalls
  promptTokens : record.promptTokens < record.limits.maxPromptTokens
  deadline : now < record.deadlineMs

structure Succeeds (record next : CiRepairBudgetRecord) : Prop where
  revision : next = record ∨ record.revision < next.revision
  maxRuntimeMs : next.limits.maxRuntimeMs ≤ record.limits.maxRuntimeMs
  maxToolCalls : next.limits.maxToolCalls ≤ record.limits.maxToolCalls
  maxPromptTokens : next.limits.maxPromptTokens ≤ record.limits.maxPromptTokens
  deadline : next.deadlineMs ≤ record.deadlineMs
  toolCalls : record.toolCalls ≤ next.toolCalls
  promptTokens : record.promptTokens ≤ next.promptTokens
  failed : record.failedAttempts ≤ next.failedAttempts
  kept : ∀ earlier ∈ record.attempts, ∃ attempt ∈ next.attempts,
    attempt.attemptId = earlier.attemptId ∧ earlier.toolCalls ≤ attempt.toolCalls ∧
      earlier.promptTokens ≤ attempt.promptTokens
  begun : ∀ attempt ∈ next.attempts, (∃ earlier ∈ record.attempts,
    earlier.attemptId = attempt.attemptId ∧ earlier.startedAtMs = attempt.startedAtMs) ∨
      Affords record attempt.startedAtMs

theorem Succeeds.refl (record : CiRepairBudgetRecord) : Succeeds record record := by
  refine ⟨.inl rfl,?_,?_,?_,?_,?_,?_,?_,?_,?_⟩
  all_goals try exact le_refl _
  · exact fun early mem => ⟨early,mem,rfl,le_refl _,le_refl _⟩
  · exact fun attempt mem => .inl ⟨attempt,mem,rfl,rfl⟩

theorem Succeeds.trans {last : CiRepairBudgetRecord} (a : Succeeds record next)
    (b : Succeeds next last) : Succeeds record last := by
  refine ⟨?_,b.maxRuntimeMs.trans a.maxRuntimeMs,b.maxToolCalls.trans a.maxToolCalls,
    b.maxPromptTokens.trans a.maxPromptTokens,b.deadline.trans a.deadline,
    a.toolCalls.trans b.toolCalls,a.promptTokens.trans b.promptTokens,
    a.failed.trans b.failed,?_,?_⟩
  · rcases b.revision with same | post
    · rw [same]
      exact a.revision
    · rcases a.revision with same | before
      · rw [same] at post
        exact .inr post
      · exact .inr (before.trans post)
  · intro early mem
    obtain ⟨middle,here,named,calls,tokens⟩ := a.kept early mem
    obtain ⟨attempt,inside,same,more,further⟩ := b.kept middle here
    exact ⟨attempt,inside,same.trans named,calls.trans more,tokens.trans further⟩
  · intro attempt mem
    rcases b.begun attempt mem with ⟨middle,here,named,started⟩ | affords
    · rcases a.begun middle here with ⟨early,inside,same,began⟩ | affords
      · exact .inl ⟨early,inside,same.trans named,began.trans started⟩
      · rw [started] at affords
        exact .inr affords
    · -- What the later record affords the earlier one did.
      refine .inr ⟨a.failed.trans_lt affords.failed,?_,?_,?_⟩
      · exact a.toolCalls.trans_lt (affords.toolCalls.trans_le a.maxToolCalls)
      · exact a.promptTokens.trans_lt (affords.promptTokens.trans_le a.maxPromptTokens)
      · exact affords.deadline.trans_le a.deadline

theorem exhaustion_eq_none {now : ℕ} (room : ciRepairExhaustion record now = none) :
    Affords record now ∧ record.bytes ≤ ciRepairMaxRecordBytes - ciRepairWriteReserveBytes ∧
      receiptExhaustion record = none := by
  rw [ciRepairExhaustion] at room
  split at room
  · cases room
  · split at room
    · cases room
    next deadline =>
      split at room
      · cases room
      next failed =>
        split at room
        · cases room
        next toolCalls =>
          split at room
          · cases room
          next promptTokens =>
            split at room
            · cases room
            next bytes =>
              exact ⟨⟨Nat.lt_of_not_le failed,Nat.lt_of_not_le toolCalls,
                Nat.lt_of_not_le promptTokens,Nat.lt_of_not_le deadline⟩,Nat.le_of_not_lt bytes,room⟩

theorem Succeeds.of_tightened (valid : Valid record) (limits : CiRepairLimits ℕ)
    (revision : next.revision = record.revision + 1)
    (limited : next.limits = (tightenedCiRepairBudget record limits).limits)
    (deadline : next.deadlineMs = (tightenedCiRepairBudget record limits).deadlineMs)
    (toolCalls : record.toolCalls ≤ next.toolCalls)
    (promptTokens : record.promptTokens ≤ next.promptTokens)
    (failed : record.failedAttempts ≤ next.failedAttempts)
    (kept : ∀ early ∈ record.attempts, ∃ attempt ∈ next.attempts,
      attempt.attemptId = early.attemptId ∧ early.toolCalls ≤ attempt.toolCalls ∧
        early.promptTokens ≤ attempt.promptTokens)
    (begun : ∀ attempt ∈ next.attempts, (∃ early ∈ record.attempts,
      early.attemptId = attempt.attemptId ∧ early.startedAtMs = attempt.startedAtMs) ∨
        Affords (tightenedCiRepairBudget record limits) attempt.startedAtMs) :
    Succeeds record next := by
  have tighter : (tightenedCiRepairBudget record limits).deadlineMs ≤ record.deadlineMs := by
    rw [valid.counts.deadline]
    exact Nat.add_le_add_left (Nat.min_le_left _ _) _
  refine ⟨.inr (by omega),?_,?_,?_,?_,toolCalls,promptTokens,failed,kept,?_⟩
  · rw [limited]
    exact Nat.min_le_left _ _
  · rw [limited]
    exact Nat.min_le_left _ _
  · rw [limited]
    exact Nat.min_le_left _ _
  · rw [deadline]
    exact tighter
  · intro attempt mem
    refine (begun attempt mem).imp_right fun affords => ?_
    exact ⟨affords.failed,affords.toolCalls.trans_le (Nat.min_le_left _ _),
      affords.promptTokens.trans_le (Nat.min_le_left _ _),affords.deadline.trans_le tighter⟩

def updateAttempt (attemptId : Text) (update : CiRepairAttempt → CiRepairAttempt)
    (attempt : CiRepairAttempt) : CiRepairAttempt :=
  if attempt.attemptId ≠ attemptId then attempt else update attempt

theorem updateAttempt_other {attemptId : Text} {update : CiRepairAttempt → CiRepairAttempt}
    {attempt : CiRepairAttempt} (other : attempt.attemptId ≠ attemptId) :
    updateAttempt attemptId update attempt = attempt := if_pos other

theorem updateAttempt_own {attemptId : Text} {update : CiRepairAttempt → CiRepairAttempt}
    {attempt : CiRepairAttempt} (own : attempt.attemptId = attemptId) :
    updateAttempt attemptId update attempt = update attempt := if_neg (not_not.mpr own)

theorem updateAttempt_keeps {α : Type} {attemptId : Text} {update : CiRepairAttempt → CiRepairAttempt}
    (read : CiRepairAttempt → α) (same : ∀ attempt, read (update attempt) = read attempt)
    (attempt : CiRepairAttempt) : read (updateAttempt attemptId update attempt) = read attempt := by
  rw [updateAttempt]
  split
  · rfl
  · exact same attempt

theorem Succeeds.of_update (valid : Valid record) (limits : CiRepairLimits ℕ) {attemptId : Text}
    {update : CiRepairAttempt → CiRepairAttempt}
    (revision : next.revision = record.revision + 1)
    (limited : next.limits = (tightenedCiRepairBudget record limits).limits)
    (deadline : next.deadlineMs = (tightenedCiRepairBudget record limits).deadlineMs)
    (toolCalls : record.toolCalls ≤ next.toolCalls)
    (promptTokens : record.promptTokens ≤ next.promptTokens)
    (failed : record.failedAttempts ≤ next.failedAttempts)
    (attempts : next.attempts = record.attempts.map (updateAttempt attemptId update))
    (named : ∀ attempt, (update attempt).attemptId = attempt.attemptId)
    (started : ∀ attempt, (update attempt).startedAtMs = attempt.startedAtMs)
    (calls : ∀ attempt, attempt.toolCalls ≤ (update attempt).toolCalls)
    (tokens : ∀ attempt, attempt.promptTokens ≤ (update attempt).promptTokens) :
    Succeeds record next := by
  apply Succeeds.of_tightened valid limits revision limited deadline toolCalls promptTokens failed
  · intro early mem
    refine ⟨updateAttempt attemptId update early,?_,updateAttempt_keeps _ named early,?_,?_⟩
    · rw [attempts]
      exact mem_map.mpr ⟨early,mem,rfl⟩
    · rw [updateAttempt]
      split
      · exact le_refl _
      · exact calls early
    · rw [updateAttempt]
      split
      · exact le_refl _
      · exact tokens early
  · intro attempt mem
    rw [attempts,mem_map] at mem
    obtain ⟨early,here,rfl⟩ := mem
    exact .inl ⟨early,here,(updateAttempt_keeps _ named early).symm,(updateAttempt_keeps _ started early).symm⟩

theorem Change.succeeds (c : Change key cur (some record) next reason)
    (valid : Valid record) : next.revision = record.revision + 1 ∧ Succeeds record next := by
  cases c with
  | tightened =>
    refine ⟨rfl,Succeeds.of_tightened valid cur.limits rfl rfl rfl (le_refl _) (le_refl _)
      (le_refl _) ?_ ?_⟩
    · exact fun early mem => ⟨early,mem,rfl,le_refl _,le_refl _⟩
    · exact fun attempt mem => .inl ⟨attempt,mem,rfl,rfl⟩
  | interrupted =>
    exact ⟨rfl,Succeeds.of_update valid cur.limits rfl rfl rfl (le_refl _) (le_refl _)
      (Nat.le_add_right _ _) rfl (fun _ => rfl) (fun _ => rfl) (fun _ => le_refl _)
      fun _ => le_refl _⟩
  | begun _ input asked idle fresh room =>
    refine ⟨rfl,Succeeds.of_tightened valid cur.limits rfl rfl rfl (le_refl _) (le_refl _)
      (le_refl _) ?_ ?_⟩
    · exact fun early mem =>
        ⟨early,mem_append_left _ mem,rfl,le_refl _,le_refl _⟩
    · intro attempt mem
      rcases mem_append.mp mem with old | new
      · exact .inl ⟨attempt,old,rfl,rfl⟩
      · rw [mem_singleton] at new
        subst new
        exact .inr (exhaustion_eq_none room).1
  | charged =>
    exact ⟨rfl,Succeeds.of_update valid cur.limits rfl rfl rfl (Nat.le_add_right _ _)
      (Nat.le_add_right _ _) (le_refl _) rfl (fun _ => rfl) (fun _ => rfl)
      (fun _ => Nat.le_add_right _ _) fun _ => Nat.le_add_right _ _⟩
  | settled =>
    exact ⟨rfl,Succeeds.of_update valid cur.limits rfl rfl rfl (le_refl _) (le_refl _)
      (Nat.le_add_right _ _) rfl (fun _ => rfl) (fun _ => rfl) (fun _ => le_refl _)
      fun _ => le_refl _⟩

end Succession

section Charges

variable {key : RowKey} {cur : Scope} {before : Option CiRepairBudgetRecord}
  {record next : CiRepairBudgetRecord} {reason : Option CiRepairBudgetBlockReason}

def Note.charge? : Note → Option (Text × CiRepairCharge ℕ)
  | .charged attemptId charge => some (attemptId,charge)
  | .answered _ _ => none

def chargesOf (notes : List Note) : List (Text × CiRepairCharge ℕ) := notes.filterMap Note.charge?

def chargeName (charge : Text × CiRepairCharge ℕ) : Text × Text := (charge.1,charge.2.chargeId)

def calledTools (notes : List Note) : ℕ := ((chargesOf notes).map (·.2.toolCalls)).sum

def prompted (notes : List Note) : ℕ := ((chargesOf notes).map (·.2.promptTokens)).sum

theorem chargesOf_append (a b : List Note) :
    chargesOf (a ++ b) = chargesOf a ++ chargesOf b := filterMap_append

theorem chargesOf_answered (call : Call) (res : CiRepairBudgetResult) (notes : List Note) :
    chargesOf (.answered call res :: notes) = chargesOf notes := rfl

theorem chargeNotes_of_ne {pending : Pending}
    (other : ∀ input, pending.call.operation ≠ .charge input) : chargeNotes pending = [] := by
  rw [chargeNotes]
  split
  next input asked => exact absurd asked (other input)
  · rfl

theorem outcome_settles (out : SettleOutcome) : out.status ≠ .active := by
  cases out with
  | succeeded => exact nofun
  | failed => exact nofun

/-- A write that charges nothing leaves the totals and the charges of what is active. -/
structure Uncharged (cur : Scope) (before : Option CiRepairBudgetRecord)
    (next : CiRepairBudgetRecord) : Prop where
  asked : ∀ input, cur.call.operation ≠ .charge input
  toolCalls : next.toolCalls = (before.map (·.toolCalls)).getD 0
  promptTokens : next.promptTokens = (before.map (·.promptTokens)).getD 0
  attempts : ∀ record, before = some record → ∀ earlier ∈ record.attempts,
    ∃ attempt ∈ next.attempts, attempt.attemptId = earlier.attemptId ∧ (attempt.status = .active → attempt = earlier)

structure Charged (cur : Scope) (before : Option CiRepairBudgetRecord)
    (next : CiRepairBudgetRecord) (record : CiRepairBudgetRecord) (input : CiRepairChargeInput)
    (active : CiRepairAttempt) : Prop where
  read : before = some record
  asked : cur.call.operation = .charge input
  member : active ∈ record.attempts
  running : active.status = .active
  own : active.attemptId = input.attemptId
  valid : validChargeInput input = true
  fresh : priorChargeResult record input = none
  room : active.charges.length < ciRepairMaxCharges
  written : next = chargeCiRepairAttempt (tightenedCiRepairBudget record cur.limits)
    input.attemptId input.counts cur.now

theorem settled_attempts {attemptId : Text} {status : CiRepairAttemptStatus} (now : ℕ)
    (settles : status ≠ .active) (limits : CiRepairLimits ℕ) :
    ∀ early ∈ record.attempts,
      ∃ attempt ∈ (settleCiRepairAttempt (tightenedCiRepairBudget record limits) attemptId status
        now).attempts, attempt.attemptId = early.attemptId ∧ (attempt.status = .active → attempt = early) := by
  intro early mem
  have named := @updateAttempt_keeps _ attemptId (settleAttempt status now) (·.attemptId) (fun _ => rfl) early
  refine ⟨updateAttempt attemptId (settleAttempt status now) early,mem_map.mpr ⟨early,mem,rfl⟩,named,?_⟩
  by_cases own : early.attemptId = attemptId
  · rw [updateAttempt_own own]
    exact fun active => absurd active settles
  · rw [updateAttempt_other own]
    exact fun _ => rfl

theorem Change.charged_or_uncharged (change : Change key cur before next reason) :
    (∃ record input active, Charged cur before next record input active) ∨ Uncharged cur before next := by
  cases change with
  | first input asked =>
    refine .inr ⟨?_,rfl,rfl,nofun⟩
    intro other charge
    rw [asked] at charge
    cases charge
  | tightened record reason asked =>
    refine .inr ⟨?_,rfl,rfl,?_⟩
    · intro other charge
      rw [charge] at asked
      rcases asked with ⟨_,accept⟩ | ⟨⟨_,begin⟩,_⟩
      · cases accept
      · cases begin
    · intro _ same early mem
      cases same
      exact ⟨early,mem,rfl,fun _ => rfl⟩
  | interrupted record active mem running asked =>
    refine .inr ⟨asked,rfl,rfl,?_⟩
    intro _ same
    cases same
    exact @settled_attempts record active.attemptId .interrupted cur.now nofun cur.limits
  | begun record input asked =>
    refine .inr ⟨?_,rfl,rfl,?_⟩
    · intro other charge
      rw [asked] at charge
      cases charge
    · intro _ same early mem
      cases same
      exact ⟨early,mem_append_left _ mem,rfl,fun _ => rfl⟩
  | charged record input active asked mem running own valid fresh room =>
    exact .inl ⟨record,input,active,rfl,asked,mem,running,own,valid,fresh,room,rfl⟩
  | settled record input active asked =>
    refine .inr ⟨?_,rfl,rfl,?_⟩
    · intro other charge
      rw [asked] at charge
      cases charge
    · intro _ same
      cases same
      exact settled_attempts cur.now (outcome_settles input.outcome) cur.limits

theorem priorChargeResult_eq_none {input : CiRepairChargeInput} {active : CiRepairAttempt}
    (nodup : (record.attempts.map (·.attemptId)).Nodup) (mem : active ∈ record.attempts)
    (own : active.attemptId = input.attemptId) (fresh : priorChargeResult record input = none) :
    input.chargeId ∉ active.charges.map (·.chargeId) := by
  rw [priorChargeResult] at fresh
  have hit : record.attempts.find? (fun attempt => attempt.attemptId == input.attemptId) = some active := by
    cases other : record.attempts.find? fun attempt => attempt.attemptId == input.attemptId with
    | none => exact absurd (beq_iff_eq.mpr own) (find?_eq_none.mp other active mem)
    | some attempt =>
      have named := find?_some other
      rw [beq_iff_eq] at named
      exact congrArg some (inj_on_of_nodup_map nodup (mem_of_find?_eq_some other) mem (named.trans own.symm))
  rw [hit,Option.bind_some] at fresh
  split at fresh
  next gone =>
    intro inside
    obtain ⟨charge,here,same⟩ := mem_map.mp inside
    exact find?_eq_none.mp gone charge here (beq_iff_eq.mpr same)
  next => cases fresh

end Charges

section Runs

variable {key : RowKey} {state : State} {notes : List Note} {proposal : Proposal} {authorized : Bool}
  {row : Option Row}

/-- What holds of the row, of the writes that are to come and of the charges so far. -/
structure Accounted (key : RowKey) (state : State) (notes : List Note) : Prop where
  stored : ∀ row, state.row = some row → row.revision = row.record.revision ∧ Valid row.record ∧
    row.record.bytes ≤ ciRepairMaxRecordBytes
  toolCalls : calledTools notes = (state.row.map (·.record.toolCalls)).getD 0
  promptTokens : prompted notes = (state.row.map (·.record.promptTokens)).getD 0
  distinct : ((chargesOf notes).map chargeName).Nodup
  named : ∀ charge ∈ chargesOf notes, ∃ row, state.row = some row ∧
    ∃ attempt ∈ row.record.attempts, attempt.attemptId = charge.1 ∧
      (attempt.status = .active → charge.2.chargeId ∈ attempt.charges.map (·.chargeId))
  pending : ∀ id pending, state.pending.get? id = some pending → Came key pending ∧
    ∀ cur, pending.proposal.current = some cur → ∃ row, state.row = some row ∧
      (row.record = cur ∨ cur.revision < row.record.revision)

theorem Accounted.start : Accounted key ⟨none,.empty⟩ [] := by
  refine ⟨nofun,rfl,rfl,nodup_nil,?_,?_⟩
  · intro charge mem
    cases mem
  · intro id pending hit
    cases hit

theorem Accounted.answer (accounted : Accounted key state notes) (call : Call)
    (res : CiRepairBudgetResult) : Accounted key state (notes ++ [.answered call res]) := by
  have same : chargesOf (notes ++ [.answered call res]) = chargesOf notes := by
    rw [chargesOf_append,chargesOf_answered]
    exact append_nil _
  refine ⟨accounted.stored,?_,?_,?_,?_,accounted.pending⟩
  · rw [calledTools,same]
    exact accounted.toolCalls
  · rw [prompted,same]
    exact accounted.promptTokens
  · rw [same]
    exact accounted.distinct
  · rw [same]
    exact accounted.named

theorem Accounted.forget (accounted : Accounted key state notes) (id : ℕ) :
    Accounted key ⟨state.row,state.pending.delete id⟩ notes := by
  refine { accounted with pending := ?_ }
  intro other pending hit
  simp only at hit
  rw [get?_delete] at hit
  split at hit
  · cases hit
  · exact accounted.pending other pending hit

theorem Accounted.await (accounted : Accounted key state notes) {call : Call}
    (prepared : prepare key call state.row = .persists proposal) (id : ℕ) :
    Accounted key { state with pending := state.pending.set id ⟨call,proposal⟩ } notes := by
  obtain ⟨read,came⟩ := prepare_came prepared
  refine { accounted with pending := ?_ }
  intro other pending hit
  simp only at hit
  rw [get?_set] at hit
  split at hit
  · cases hit
    refine ⟨came,fun cur same => ?_⟩
    rw [read] at same
    obtain ⟨row,stored,rfl⟩ := Option.map_eq_some_iff.mp same
    exact ⟨row,stored,.inl rfl⟩
  · exact accounted.pending other pending hit

structure Written (key : RowKey) (state : State) (pending : Pending) (cur : Scope) : Prop where
  own : cur.call = pending.call
  change : Change key cur (state.row.map (·.record)) pending.proposal.record pending.proposal.reason
  now : pending.proposal.now = cur.now
  limits : validCiRepairLimits cur.limits = true
  valid : Valid pending.proposal.record
  bytes : pending.proposal.record.bytes ≤ ciRepairMaxRecordBytes

theorem persistRefusal_eq_none (allowed : persistRefusal authorized proposal row = none) :
    Valid proposal.record ∧ proposal.record.bytes ≤ ciRepairMaxRecordBytes ∧ unchanged proposal.current row = true := by
  rw [persistRefusal] at allowed
  split at allowed
  · cases allowed
  · split at allowed
    · cases allowed
    next valid =>
      split at allowed
      · cases allowed
      next bytes =>
        split at allowed
        · cases allowed
        next same =>
          rw [not_eq_true,not_eq_false'] at valid same
          exact ⟨valid_iff.mp valid,Nat.le_of_not_lt bytes,same⟩

theorem Accounted.writes (accounted : Accounted key state notes) {id : ℕ} {pending : Pending}
    (hit : state.pending.get? id = some pending)
    (allowed : persistRefusal authorized pending.proposal state.row = none) :
    ∃ cur, Written key state pending cur := by
  obtain ⟨valid,bytes,same⟩ := persistRefusal_eq_none allowed
  obtain ⟨⟨row,cur,reached,read,now,c⟩,behind⟩ := accounted.pending id pending hit
  have limits : validCiRepairLimits cur.limits = true := by
    have authorized := reached.authorized
    rw [validContext,and_eq_true] at authorized
    rw [reached.limits]
    exact authorized.2
  have kept_row : state.row.map (·.record) = cur.current := by
    rw [← read]
    rw [unchanged.eq_def] at same
    split at same
    next none_read none_stored => rw [none_read,none_stored]; rfl
    next stored written some_read some_stored =>
      obtain ⟨other,here,either⟩ := behind stored some_read
      rw [decide_eq_true_eq] at same
      rw [some_stored] at here
      cases here
      rw [some_read,some_stored,Option.map_some]
      rcases either with equal | post
      · rw [equal]
      · have revision := (accounted.stored written some_stored).1
        omega
    next => cases same
  rw [← kept_row] at c
  exact ⟨cur,reached.own,c,now,limits,valid,bytes⟩

variable {id : ℕ} {pending : Pending} {cur : Scope} {record : CiRepairBudgetRecord}
  {input : CiRepairChargeInput} {active : CiRepairAttempt}

theorem Accounted.behind (accounted : Accounted key state notes)
    (written : Written key state pending cur) (other : ℕ) {waiting : Pending}
    (hit : (state.pending.delete id).get? other = some waiting) : Came key waiting ∧
      ∀ read, waiting.proposal.current = some read → read.revision < pending.proposal.record.revision := by
  rw [get?_delete] at hit
  split at hit
  · cases hit
  · obtain ⟨came,behind⟩ := accounted.pending other waiting hit
    refine ⟨came,fun read same => ?_⟩
    obtain ⟨row,stored,either⟩ := behind read same
    have c := written.change
    rw [stored,Option.map_some] at c
    have next := (c.succeeds (accounted.stored row stored).2.1).1
    rcases either with equal | post
    · rw [← equal]
      omega
    · omega

theorem Accounted.charge (accounted : Accounted key state notes) (written : Written key state pending cur)
    (charged : Charged cur (state.row.map (·.record)) pending.proposal.record record input active) :
    Accounted key ⟨some ⟨pending.proposal.record.revision,pending.proposal.record⟩,
      state.pending.delete id⟩ (notes ++ chargeNotes pending) := by
  obtain ⟨row,stored,rfl⟩ := Option.map_eq_some_iff.mp charged.read
  have valid := (accounted.stored row stored).2.1
  have asked : pending.call.operation = .charge input := by
    rw [← written.own]
    exact charged.asked
  have noted : chargesOf (notes ++ chargeNotes pending) = chargesOf notes ++ [(input.attemptId,input.counts)] := by
    rw [chargesOf_append,chargeNotes,asked]
    rfl
  have fresh := priorChargeResult_eq_none valid.totals.distinct charged.member charged.own charged.fresh
  refine ⟨?_,?_,?_,?_,?_,?_⟩
  · intro other same
    cases same
    exact ⟨rfl,written.valid,written.bytes⟩
  · have before := accounted.toolCalls
    rw [stored] at before
    rw [calledTools,noted,map_append,sum_append]
    change _ = pending.proposal.record.toolCalls
    rw [charged.written]
    change calledTools notes + (input.counts.toolCalls + 0) = row.record.toolCalls + input.counts.toolCalls
    rw [before]
    rfl
  · have before := accounted.promptTokens
    rw [stored] at before
    rw [prompted,noted,map_append,sum_append]
    change _ = pending.proposal.record.promptTokens
    rw [charged.written]
    change prompted notes + (input.counts.promptTokens + 0) = row.record.promptTokens + input.counts.promptTokens
    rw [before]
    rfl
  · rw [noted,map_append,nodup_append]
    refine ⟨accounted.distinct,nodup_singleton _,?_⟩
    intro name old other new same
    rw [map_singleton,mem_singleton] at new
    subst new
    obtain ⟨charge,mem,rfl⟩ := mem_map.mp old
    obtain ⟨_,here,attempt,inside,named,known⟩ := accounted.named charge mem
    rw [stored] at here
    cases here
    rw [chargeName,chargeName,Prod.mk.injEq] at same
    have own := inj_on_of_nodup_map valid.totals.distinct inside charged.member
      (named.trans (same.1.trans charged.own.symm))
    subst own
    have listed := known charged.running
    rw [same.2] at listed
    exact fresh listed
  · intro charge mem
    refine ⟨_,rfl,?_⟩
    rw [charged.written]
    rw [noted] at mem
    rcases mem_append.mp mem with old | new
    · obtain ⟨_,here,attempt,inside,named,known⟩ := accounted.named charge old
      rw [stored] at here
      cases here
      refine ⟨updateAttempt input.attemptId (chargeAttempt input.counts) attempt,mem_map.mpr ⟨attempt,inside,rfl⟩,?_,?_⟩
      · rw [updateAttempt]
        split <;> exact named
      · rw [updateAttempt]
        split
        · exact known
        · intro running
          change _ ∈ (attempt.charges ++ [input.counts]).map _
          rw [map_append]
          exact mem_append_left _ (known running)
    · rw [mem_singleton] at new
      subst new
      refine ⟨updateAttempt input.attemptId (chargeAttempt input.counts) active,
        mem_map.mpr ⟨active,charged.member,rfl⟩,?_,?_⟩
      · rw [updateAttempt_own charged.own]
        exact charged.own
      · rw [updateAttempt_own charged.own]
        intro _
        change _ ∈ (active.charges ++ [input.counts]).map _
        rw [map_append]
        exact mem_append_right _ mem_cons_self
  · intro other waiting hit
    obtain ⟨came,behind⟩ := accounted.behind written other hit
    exact ⟨came,fun read same => ⟨_,rfl,.inr (behind read same)⟩⟩

theorem Accounted.uncharged (accounted : Accounted key state notes) (written : Written key state pending cur)
    (uncharged : Uncharged cur (state.row.map (·.record)) pending.proposal.record) :
    Accounted key ⟨some ⟨pending.proposal.record.revision,pending.proposal.record⟩,
      state.pending.delete id⟩ (notes ++ chargeNotes pending) := by
  have quiet : chargeNotes pending = [] := by
    apply chargeNotes_of_ne
    rw [← written.own]
    exact uncharged.asked
  rw [quiet,append_nil]
  refine ⟨?_,?_,?_,accounted.distinct,?_,?_⟩
  · intro other same
    cases same
    exact ⟨rfl,written.valid,written.bytes⟩
  · rw [accounted.toolCalls]
    change _ = pending.proposal.record.toolCalls
    rw [uncharged.toolCalls,Option.map_map]
    rfl
  · rw [accounted.promptTokens]
    change _ = pending.proposal.record.promptTokens
    rw [uncharged.promptTokens,Option.map_map]
    rfl
  · intro charge mem
    obtain ⟨row,stored,early,inside,named,known⟩ := accounted.named charge mem
    obtain ⟨attempt,here,same,running⟩ := uncharged.attempts row.record (by rw [stored]; rfl) early inside
    refine ⟨_,rfl,attempt,here,same.trans named,fun active => ?_⟩
    have unchanged := running active
    subst unchanged
    exact known active
  · intro other waiting hit
    obtain ⟨came,behind⟩ := accounted.behind written other hit
    exact ⟨came,fun read same => ⟨_,rfl,.inr (behind read same)⟩⟩

theorem persist_allowed (allowed : persistRefusal authorized proposal row = none) :
    persist authorized proposal row = (some ⟨proposal.record.revision,proposal.record⟩,persistResult proposal) := by
  rw [persist,allowed]

theorem persist_refused {reason : CiRepairBudgetBlockReason}
    (refused : persistRefusal authorized proposal row = some reason) :
    persist authorized proposal row = (row,blocked reason proposal.current) := by
  rw [persist,refused]

theorem Accounted.step (accounted : Accounted key state notes) (ev : Event) :
    Accounted key (step key state ev) (notes ++ CiRepairBudget.notes key state ev) := by
  cases ev with
  | call id call =>
    rw [CiRepairBudget.step,CiRepairBudget.notes]
    cases prepared : prepare key call state.row with
    | answered res => exact accounted.answer call res
    | persists proposal =>
      simp only [append_nil]
      exact accounted.await prepared id
  | write id authorized =>
    rw [CiRepairBudget.step,CiRepairBudget.notes]
    cases found : state.pending.get? id with
    | none =>
      simp only [append_nil]
      exact accounted
    | some pending =>
      simp only
      cases refusal : persistRefusal authorized pending.proposal state.row with
      | some reason =>
        rw [persist_refused refusal]
        exact (accounted.forget id).answer pending.call _
      | none =>
        rw [persist_allowed refusal]
        obtain ⟨cur,written⟩ := accounted.writes found refusal
        rw [Option.isNone_none,if_pos rfl,append_cons]
        have answered := accounted.answer pending.call (persistResult pending.proposal)
        rcases written.change.charged_or_uncharged with ⟨record,input,active,charged⟩ | uncharged
        · exact answered.charge written charged
        · exact answered.uncharged written uncharged

theorem machine_accounted (evs : List Event) :
    Accounted key ((machine key).run evs) ((machine key).noted evs) := by
  apply Machine.holds_of_step (Accounted key)
  · exact Accounted.start
  · exact fun state notes ev accounted => accounted.step ev

theorem Accounted.succeeds (accounted : Accounted key state notes) (ev : Event) {row : Row}
    (stored : state.row = some row) :
    ∃ next, (CiRepairBudget.step key state ev).row = some next ∧ Succeeds row.record next.record := by
  cases ev with
  | call id call =>
    rw [CiRepairBudget.step]
    cases prepare key call state.row with
    | answered res => exact ⟨row,stored,Succeeds.refl _⟩
    | persists proposal => exact ⟨row,stored,Succeeds.refl _⟩
  | write id authorized =>
    rw [CiRepairBudget.step]
    cases found : state.pending.get? id with
    | none => exact ⟨row,stored,Succeeds.refl _⟩
    | some pending =>
      simp only
      cases refusal : persistRefusal authorized pending.proposal state.row with
      | some reason =>
        rw [persist_refused refusal]
        exact ⟨row,stored,Succeeds.refl _⟩
      | none =>
        rw [persist_allowed refusal]
        obtain ⟨cur,written⟩ := accounted.writes found refusal
        have c := written.change
        rw [stored] at c
        exact ⟨_,rfl,(c.succeeds (accounted.stored row stored).2.1).2⟩

theorem machine_succeeds (evs more : List Event) {row : Row} (stored : ((machine key).run evs).row = some row) :
    ∃ next, ((machine key).run (evs ++ more)).row = some next ∧ Succeeds row.record next.record := by
  induction more using reverseRecOn with
  | nil =>
    rw [append_nil]
    exact ⟨row,stored,Succeeds.refl _⟩
  | append_singleton more ev ih =>
    obtain ⟨next,here,a⟩ := ih
    rw [← append_assoc,Machine.run_snoc]
    obtain ⟨last,written,b⟩ := (machine_accounted (evs ++ more)).succeeds ev here
    exact ⟨last,written,a.trans b⟩

end Runs

end Keiko.CiRepairBudget
