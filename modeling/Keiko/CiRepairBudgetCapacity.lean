import Mathlib.Tactic.Linarith
import Keiko.CiRepairBudgetTrace

/-! The storage that a budget record may take. What is let through leaves room for one more charge:
its receipt is shorter than the reserve, and a charge of safe counts keeps the record valid. -/
namespace Keiko.CiRepairBudget
open Keiko.Library Keiko.Runtime List Json

section Bytes

def frame (names : List Text) : ℕ :=
  2 + (names.map fun name => (Json.quote name).byteLength + 1).sum + (names.length - 1)

@[irreducible] def countSize (count : ℕ) : ℕ := (countText count).byteLength

@[irreducible] def textSize (text : Text) : ℕ := (Json.quote text).byteLength

theorem byteLength_commaText (texts : List Text) :
    (commaText texts).byteLength = (texts.map Text.byteLength).sum + (texts.length - 1) := by
  rw [commaText,Text.byteLength_intercalate,Text.utf8Size_ascii (by decide),Nat.mul_one]

theorem byteLength_arrayText (xs : List Text) :
    (arrayText xs).byteLength = 2 + (xs.map Text.byteLength).sum + (xs.length - 1) := by
  rw [arrayText,Text.byteLength_cons,Text.byteLength_append,byteLength_commaText,
    Text.byteLength_cons,Text.byteLength_nil,Text.utf8Size_ascii (by decide),
    Text.utf8Size_ascii (by decide)]
  omega

theorem byteLength_objectText (members : List (Text × Text)) : (objectText members).byteLength =
      frame (members.map (·.1)) + (members.map fun mem => mem.2.byteLength).sum := by
  have each : (members.map fun mem => (quote mem.1 ++ ':' :: mem.2).byteLength).sum =
      ((members.map (·.1)).map fun name => (quote name).byteLength + 1).sum +
        (members.map fun mem => mem.2.byteLength).sum := by
    induction members with
    | nil => rfl
    | cons mem members ih =>
      rw [map_cons,sum_cons,ih]
      simp only [map_cons,sum_cons,Text.byteLength_append,Text.byteLength_cons]
      rw [Text.utf8Size_ascii (by decide)]
      omega
  rw [objectText,Text.byteLength_cons,Text.byteLength_append,byteLength_commaText,
    Text.byteLength_cons,Text.byteLength_nil,Text.utf8Size_ascii (by decide),
    Text.utf8Size_ascii (by decide),map_map,frame,length_map,length_map]
  change _ + ((members.map fun mem => (quote mem.1 ++ ':' :: mem.2).byteLength).sum + _ + _) = _
  rw [each]
  omega

theorem isAlphanumeric_ascii {c : Char} (alphanumeric : isAlphanumeric c = true) :
    0x30 ≤ c.toNat ∧ c.toNat < 128 ∧ c.toNat ≠ 0x5c := by
  simp only [isAlphanumeric,Text.isDigit,Bool.or_eq_true,Bool.and_eq_true,decide_eq_true_eq,
    Char.le_def,UInt32.le_iff_toNat_le] at alphanumeric
  change ((48 ≤ c.toNat ∧ c.toNat ≤ 57) ∨ (65 ≤ c.toNat ∧ c.toNat ≤ 90)) ∨
    (97 ≤ c.toNat ∧ c.toNat ≤ 122) at alphanumeric
  omega

theorem safe_ascii {c : Char} (safe : (isAlphanumeric c || ['.','_',':','-'].contains c) = true) :
    0x2d ≤ c.toNat ∧ c.toNat < 128 ∧ c.toNat ≠ 0x5c := by
  rw [Bool.or_eq_true,contains_iff_mem] at safe
  rcases safe with alphanumeric | mark
  · obtain ⟨low,high,other⟩ := isAlphanumeric_ascii alphanumeric
    exact ⟨by omega,high,other⟩
  · simp only [mem_cons,not_mem_nil,or_false] at mark
    rcases mark with rfl | rfl | rfl | rfl <;> decide

theorem escapeChar_safe {c : Char} (safe : 0x2d ≤ c.toNat ∧ c.toNat < 128 ∧ c.toNat ≠ 0x5c) :
    Json.escapeChar c = [c] := by
  obtain ⟨low,_,other⟩ := safe
  have plain : shortEscapes.find? (fun escape => escape.1 = c) = none := by
    rw [find?_eq_none]
    intro escape mem
    rw [decide_eq_true_eq]
    intro same
    subst same
    simp only [shortEscapes,mem_cons,not_mem_nil,or_false] at mem
    rcases mem with rfl | rfl | rfl | rfl | rfl | rfl | rfl <;> revert low other <;> decide
  rw [escapeChar,plain]
  exact if_neg (by omega)

theorem quote_bytes {id : Text} (valid : ciRepairId id = true) : (Json.quote id).byteLength ≤ 130 := by
  have characters : ∀ c ∈ id, 0x2d ≤ c.toNat ∧ c.toNat < 128 ∧ c.toNat ≠ 0x5c := by
    intro c mem
    cases id with
    | nil => cases mem
    | cons a rest =>
      rw [ciRepairId,isSafeIdentifier,Bool.and_eq_true,Bool.and_eq_true,all_eq_true] at valid
      rcases mem_cons.mp mem with rfl | inside
      · obtain ⟨low,high,other⟩ := isAlphanumeric_ascii valid.1.1
        exact ⟨by omega,high,other⟩
      · exact safe_ascii (valid.2 c inside)
  have short : id.length ≤ 128 := by
    cases id with
    | nil => exact Nat.zero_le _
    | cons a rest =>
      rw [ciRepairId,isSafeIdentifier,Bool.and_eq_true,Bool.and_eq_true,decide_eq_true_eq] at valid
      exact Nat.succ_le_succ valid.1.2
  have same : id.flatMap escapeChar = id := by
    clear valid short
    induction id with
    | nil => rfl
    | cons a rest ih =>
      rw [flatMap_cons,escapeChar_safe (characters a mem_cons_self),
        ih fun c mem => characters c (mem_cons_of_mem _ mem)]
      rfl
  rw [quote,same,Text.byteLength_cons,Text.byteLength_append,
    Text.byteLength_ascii fun c mem => (characters c mem).2.1,Text.byteLength_cons,
    Text.byteLength_nil,Text.utf8Size_ascii (by decide)]
  omega

theorem countText_length (count : ℕ) : (countText count).byteLength = (countText count).length := by
  apply Text.byteLength_ascii
  intro c mem
  have digit := Text.isDigit_of_mem_numberText mem
  have alphanumeric : isAlphanumeric c = true := by
    rw [isAlphanumeric,digit]
    rfl
  exact (isAlphanumeric_ascii alphanumeric).2.1

theorem countSize_pos (count : ℕ) : 1 ≤ countSize count := by
  rw [countSize,countText_length]
  exact length_pos_of_ne_nil (Text.numberText_ne_nil count)

theorem countSize_le {count : ℕ} (safe : count ≤ maxSafeInteger) : countSize count ≤ 16 := by
  rw [countSize,countText_length]
  apply (Nat.length_toDigits_le_iff (by decide) (by decide)).mpr
  rw [maxSafeInteger] at safe
  omega

theorem charge_bytes {charge : CiRepairCharge ℕ} (valid : validCharge charge = true) :
    charge.json.byteLength ≤ 204 := by
  simp only [validCharge,Bool.and_eq_true,safeCount,decide_eq_true_eq] at valid
  obtain ⟨⟨named,toolCalls⟩,promptTokens⟩ := valid
  have id := quote_bytes named
  have calls := countSize_le toolCalls
  have tokens := countSize_le promptTokens
  rw [countSize] at calls tokens
  have names : frame ["chargeId".toList,"toolCalls".toList,"promptTokens".toList] = 42 := by
    decide +kernel
  rw [CiRepairCharge.json,byteLength_objectText]
  simp only [map_cons,map_nil,sum_cons,sum_nil,names]
  omega

end Bytes

section Sizes

@[irreducible] def limitFrame : ℕ := frame
  ["maxRuntimeMs".toList,"maxToolCalls".toList,"maxPromptTokens".toList]

@[irreducible] def attemptFrame : ℕ := frame
  ["attemptId".toList,"runId".toList,"failureSignatureDigest".toList,"headSha".toList,
    "baseSha".toList,"kind".toList,"status".toList,"startedAtMs".toList,"finishedAtMs".toList,
    "toolCalls".toList,"promptTokens".toList,"charges".toList]

@[irreducible] def recordFrame : ℕ := frame
  ["schemaVersion".toList,"revision".toList,"taskDigest".toList,"remoteDigest".toList,
    "issueBindingDigest".toList,"prNumber".toList,"startedAtMs".toList,"updatedAtMs".toList,
    "deadlineMs".toList,"limits".toList,"toolCalls".toList,"promptTokens".toList,
    "failedAttempts".toList,"attempts".toList]

theorem limits_bytes (limits : CiRepairLimits ℕ) : limits.json.byteLength = limitFrame +
    [countSize limits.maxRuntimeMs,countSize limits.maxToolCalls,countSize limits.maxPromptTokens].sum := by
  rw [limitFrame,countSize,countSize,countSize]
  exact byteLength_objectText _

theorem attempt_bytes (attempt : CiRepairAttempt) : attempt.json.byteLength = attemptFrame +
    [textSize attempt.attemptId,textSize attempt.runId,textSize attempt.failureSignatureDigest,
      textSize attempt.headSha,textSize attempt.baseSha,textSize attempt.kind.text.toList,
      textSize attempt.status.text.toList,countSize attempt.startedAtMs,
      ((attempt.finishedAtMs.map countText).getD ['n','u','l','l']).byteLength,
      countSize attempt.toolCalls,countSize attempt.promptTokens,
      (arrayText (attempt.charges.map CiRepairCharge.json)).byteLength].sum := by
  simp only [attemptFrame,textSize,countSize]
  exact byteLength_objectText _

theorem record_bytes (record : CiRepairBudgetRecord) : record.bytes = recordFrame +
    [textSize ['1'],countSize record.revision,textSize record.taskDigest,
      textSize record.remoteDigest,textSize record.issueBindingDigest,countSize record.prNumber,
      countSize record.startedAtMs,countSize record.updatedAtMs,countSize record.deadlineMs,
      record.limits.json.byteLength,countSize record.toolCalls,countSize record.promptTokens,
      countSize record.failedAttempts,
      (arrayText (record.attempts.map CiRepairAttempt.json)).byteLength].sum := by
  simp only [recordFrame,textSize,countSize]
  exact byteLength_objectText _

end Sizes

section Growth

variable {record : CiRepairBudgetRecord} {tried active : CiRepairAttempt}
  {charge : CiRepairCharge ℕ} {limits : CiRepairLimits ℕ} {attemptId : Text} {now : ℕ}

def bareRecord (record : CiRepairBudgetRecord) : CiRepairBudgetRecord :=
  { record with revision := 0, updatedAtMs := 0, deadlineMs := 0, limits := ⟨0,0,0⟩ }

theorem countSize_zero : countSize 0 = 1 := by
  rw [countSize]
  decide

theorem bareRecord_bytes (record : CiRepairBudgetRecord) : (bareRecord record).bytes ≤ record.bytes := by
  have revision := countSize_pos record.revision
  have updatedAt := countSize_pos record.updatedAtMs
  have deadline := countSize_pos record.deadlineMs
  have runtime := countSize_pos record.limits.maxRuntimeMs
  have calls := countSize_pos record.limits.maxToolCalls
  have tokens := countSize_pos record.limits.maxPromptTokens
  rw [record_bytes,record_bytes,limits_bytes,limits_bytes]
  simp only [bareRecord,sum_cons,sum_nil,countSize_zero]
  generalize (arrayText (record.attempts.map CiRepairAttempt.json)).byteLength = attempts
  linarith

theorem chargeAttempt_bytes (valid : validCharge charge = true)
    (calls : tried.toolCalls + charge.toolCalls ≤ maxSafeInteger)
    (tokens : tried.promptTokens + charge.promptTokens ≤ maxSafeInteger) :
    (chargeAttempt charge tried).json.byteLength ≤ tried.json.byteLength + 235 := by
  have receipt := charge_bytes valid
  have newCalls := countSize_le calls
  have newTokens := countSize_le tokens
  have oldCalls := countSize_pos tried.toolCalls
  have oldTokens := countSize_pos tried.promptTokens
  rw [attempt_bytes,attempt_bytes,byteLength_arrayText,byteLength_arrayText]
  simp only [chargeAttempt,map_append,map_cons,map_nil,sum_append,sum_cons,
    sum_nil,length_map,length_append,length_cons,length_nil]
  have commas : tried.charges.length + (0 + 1) - 1 ≤ (tried.charges.length - 1) + 1 := by omega
  linarith

theorem toolCalls_le (valid : Valid record) (mem : active ∈ record.attempts) :
    active.toolCalls ≤ record.toolCalls ∧ active.promptTokens ≤ record.promptTokens := by
  rw [valid.totals.toolCalls,valid.totals.promptTokens]
  exact ⟨single_le_sum (fun _ _ => Nat.zero_le _) _ (mem_map.mpr ⟨active,mem,rfl⟩),
    single_le_sum (fun _ _ => Nat.zero_le _) _ (mem_map.mpr ⟨active,mem,rfl⟩)⟩

theorem limits_safe (valid : validCiRepairLimits limits = true) :
    limits.maxRuntimeMs ≤ maxSafeInteger ∧ limits.maxToolCalls ≤ maxSafeInteger ∧
      limits.maxPromptTokens ≤ maxSafeInteger ∧ 0 < limits.maxRuntimeMs ∧
        0 < limits.maxToolCalls ∧ 0 < limits.maxPromptTokens := by
  simp only [validCiRepairLimits,all_cons,all_nil,Bool.and_true,Bool.and_eq_true,safeCount,decide_eq_true_eq] at valid
  obtain ⟨⟨runtime,positive⟩,⟨calls,more⟩,tokens,most⟩ := valid
  exact ⟨runtime,calls,tokens,positive,more,most⟩

theorem chargedAttempts_bytes (valid : Valid record) (mem : active ∈ record.attempts) (well : validCharge charge = true)
    (calls : record.toolCalls + charge.toolCalls ≤ maxSafeInteger)
    (tokens : record.promptTokens + charge.promptTokens ≤ maxSafeInteger) :
    (arrayText ((record.attempts.map (updateAttempt active.attemptId (chargeAttempt charge))).map
        CiRepairAttempt.json)).byteLength ≤
      (arrayText (record.attempts.map CiRepairAttempt.json)).byteLength + 235 := by
  obtain ⟨fewer,less⟩ := toolCalls_le valid mem
  have receipt := @chargeAttempt_bytes active charge well (by omega) (by omega)
  have update := @Distinct.sum_update _ _ _ _ _ valid.totals.distinct mem (fun tried => tried.json.byteLength)
    (fun tried => (updateAttempt active.attemptId (chargeAttempt charge) tried).json.byteLength)
    (fun other _ differ => by rw [updateAttempt_other differ])
  rw [updateAttempt_own rfl] at update
  rw [byteLength_arrayText,byteLength_arrayText,length_map,length_map,length_map,map_map,map_map,map_map]
  change 2 + (record.attempts.map fun tried =>
    (updateAttempt active.attemptId (chargeAttempt charge) tried).json.byteLength).sum + _ ≤
      2 + (record.attempts.map fun tried => tried.json.byteLength).sum + _ + _
  omega

theorem charged_bytes (valid : Valid record) (mem : active ∈ record.attempts) (well : validCharge charge = true)
    (revision : record.revision + 1 ≤ maxSafeInteger) (clock : now ≤ maxSafeInteger)
    (calls : record.toolCalls + charge.toolCalls ≤ maxSafeInteger)
    (tokens : record.promptTokens + charge.promptTokens ≤ maxSafeInteger) :
    (chargeCiRepairAttempt (tightenedCiRepairBudget record limits) active.attemptId charge now).bytes ≤
      (bareRecord record).bytes + 355 := by
  have attempts := chargedAttempts_bytes valid mem well calls tokens
  have safe := limits_safe valid.limits
  have deadline := valid.counts.deadline
  have deadlineSafe := valid.counts.deadlineSafe
  have newRevision := countSize_le revision
  have newClock := countSize_le clock
  have newCalls := countSize_le calls
  have newTokens := countSize_le tokens
  have oldCalls := countSize_pos record.toolCalls
  have oldTokens := countSize_pos record.promptTokens
  have newRuntime := @countSize_le (min record.limits.maxRuntimeMs limits.maxRuntimeMs) (by omega)
  have newLimit := @countSize_le (min record.limits.maxToolCalls limits.maxToolCalls) (by omega)
  have newAllowance := @countSize_le (min record.limits.maxPromptTokens limits.maxPromptTokens) (by omega)
  have newDeadline := @countSize_le (record.startedAtMs + min record.limits.maxRuntimeMs limits.maxRuntimeMs) (by omega)
  rw [record_bytes,record_bytes,limits_bytes,limits_bytes]
  change _ + sum [_,_,_,_,_,_,_,_,_,_,_,_,_,(arrayText ((record.attempts.map (updateAttempt
    active.attemptId (chargeAttempt charge))).map CiRepairAttempt.json)).byteLength] ≤ _
  generalize (arrayText ((record.attempts.map (updateAttempt active.attemptId
    (chargeAttempt charge))).map CiRepairAttempt.json)).byteLength = after at *
  simp only [bareRecord,chargeCiRepairAttempt,tightenedCiRepairBudget,sum_cons,sum_nil,countSize_zero]
  generalize (arrayText (record.attempts.map CiRepairAttempt.json)).byteLength = before at *
  linarith

end Growth

section Validity

variable {record : CiRepairBudgetRecord} {tried active : CiRepairAttempt}
  {charge : CiRepairCharge ℕ} {lim : CiRepairLimits ℕ} {now : ℕ}

theorem tightened_limits_valid (valid : Valid record) (accepted : validCiRepairLimits lim = true) :
    validCiRepairLimits (tightenedCiRepairBudget record lim).limits = true := by
  have old := limits_safe valid.limits
  have new := limits_safe accepted
  simp only [validCiRepairLimits,tightenedCiRepairBudget,all_cons,all_nil,Bool.and_true,
    Bool.and_eq_true,safeCount,decide_eq_true_eq]
  omega

theorem chargeAttempt_valid (valid : ValidAttempt active) (running : active.status = .active)
    (well : validCharge charge = true) (fresh : charge.chargeId ∉ active.charges.map (·.chargeId))
    (room : active.charges.length < ciRepairMaxCharges)
    (calls : active.toolCalls + charge.toolCalls ≤ maxSafeInteger)
    (tokens : active.promptTokens + charge.promptTokens ≤ maxSafeInteger) :
    ValidAttempt (chargeAttempt charge active) := by
  obtain ⟨unfinished,summed,prompted⟩ := valid.usage.running running
  refine ⟨valid.identity,?_,?_,?_,valid.usage.startedAt,calls,tokens,?_,?_⟩
  · change (active.charges ++ [charge]).length ≤ _
    rw [length_append]
    exact room
  · intro other mem
    rcases mem_append.mp mem with old | new
    · exact valid.charges other old
    · rw [mem_singleton] at new
      rw [new]
      exact well
  · change ((active.charges ++ [charge]).map _).Nodup
    rw [map_append,nodup_append]
    refine ⟨valid.distinct,nodup_singleton _,?_⟩
    intro name old other new same
    rw [map_singleton,mem_singleton] at new
    rw [same,new] at old
    exact fresh old
  · intro _
    refine ⟨unfinished,?_,?_⟩
    · change active.toolCalls + charge.toolCalls = ((active.charges ++ [charge]).map _).sum
      rw [map_append,sum_append,summed]
      rfl
    · change active.promptTokens + charge.promptTokens = ((active.charges ++ [charge]).map _).sum
      rw [map_append,sum_append,prompted]
      rfl
  · exact fun settled => absurd running settled

theorem chargedTotals_valid (valid : Valid record) (mem : active ∈ record.attempts) (clock : record.updatedAtMs ≤ now) :
    ValidTotals (chargeCiRepairAttempt (tightenedCiRepairBudget record lim) active.attemptId charge now) := by
  have totals := valid.totals
  have keeps {α : Type} (read : CiRepairAttempt → α)
      (same : ∀ tried, read (chargeAttempt charge tried) = read tried) :
      read ∘ updateAttempt active.attemptId (chargeAttempt charge) = read :=
    funext fun tried => updateAttempt_keeps read same tried
  have actives : (record.attempts.map (updateAttempt active.attemptId (chargeAttempt charge))).filter
      isActive = (record.attempts.filter isActive).map (updateAttempt active.attemptId (chargeAttempt charge)) := by
    rw [filter_map]
    congr 2
    exact keeps isActive fun _ => rfl
  have update {weight : CiRepairAttempt → ℕ} {more : ℕ}
      (grows : weight (chargeAttempt charge active) = weight active + more) :
      (record.attempts.map weight).sum + more = ((record.attempts.map
        (updateAttempt active.attemptId (chargeAttempt charge))).map weight).sum := by
    have updated := @Distinct.sum_update _ _ _ _ _ totals.distinct mem weight
      (fun tried => weight (updateAttempt active.attemptId (chargeAttempt charge) tried))
      (fun other _ differ => by rw [updateAttempt_other differ])
    rw [updateAttempt_own rfl,grows] at updated
    rw [map_map]
    change _ = (record.attempts.map fun tried => weight _).sum
    omega
  refine ⟨?_,?_,?_,?_,?_,?_,?_⟩
  · change ((record.attempts.map (updateAttempt _ _)).filter isActive).length ≤ 1
    rw [actives,length_map]
    exact totals.one
  · change (record.attempts.map (updateAttempt _ _)).filter isActive = [] ∨
      ((record.attempts.map (updateAttempt _ _)).filter isActive).head? =
        (record.attempts.map (updateAttempt _ _)).getLast?
    rw [actives,head?_map,getLast?_map]
    rcases totals.last with none | last
    · rw [none]
      exact .inl rfl
    · rw [last]
      exact .inr rfl
  · change ((record.attempts.map (updateAttempt _ _)).map _).Nodup
    rw [map_map,keeps (·.attemptId) fun _ => rfl]
    exact totals.distinct
  · change record.toolCalls + charge.toolCalls = _
    rw [totals.toolCalls]
    exact update rfl
  · change record.promptTokens + charge.promptTokens = _
    rw [totals.promptTokens]
    exact update rfl
  · change record.failedAttempts = (record.attempts.map (updateAttempt _ _)).countP hasFailed
    rw [countP_map,keeps hasFailed fun _ => rfl]
    exact totals.failed
  · intro tried inside
    obtain ⟨early,here,rfl⟩ := mem_map.mp inside
    obtain ⟨started,finished⟩ := totals.times early here
    have start : (updateAttempt active.attemptId (chargeAttempt charge) early).startedAtMs =
        early.startedAtMs := congrFun (keeps (·.startedAtMs) fun _ => rfl) early
    have finish : (updateAttempt active.attemptId (chargeAttempt charge) early).finishedAtMs =
        early.finishedAtMs := congrFun (keeps (·.finishedAtMs) fun _ => rfl) early
    change record.startedAtMs ≤ (updateAttempt _ _ early).startedAtMs ∧
      (updateAttempt _ _ early).finishedAtMs.getD (updateAttempt _ _ early).startedAtMs ≤ now
    rw [start,finish]
    exact ⟨started,finished.trans clock⟩

theorem charged_valid (valid : Valid record) (mem : active ∈ record.attempts)
    (running : active.status = .active) (well : validCharge charge = true)
    (fresh : charge.chargeId ∉ active.charges.map (·.chargeId))
    (room : active.charges.length < ciRepairMaxCharges)
    (accepted : validCiRepairLimits lim = true) (clock : record.updatedAtMs ≤ now)
    (timely : now ≤ maxSafeInteger) (revision : record.revision + 1 ≤ maxSafeInteger)
    (calls : record.toolCalls + charge.toolCalls ≤ maxSafeInteger)
    (tokens : record.promptTokens + charge.promptTokens ≤ maxSafeInteger) :
    Valid (chargeCiRepairAttempt (tightenedCiRepairBudget record lim) active.attemptId charge now) := by
  have counts := valid.counts
  obtain ⟨fewer,less⟩ := toolCalls_le valid mem
  refine ⟨valid.shape,tightened_limits_valid valid accepted,?_,?_,?_,?_,chargedTotals_valid valid mem clock⟩
  · change 1 ≤ (record.attempts.map _).length
    rw [length_map]
    exact valid.some_attempt
  · change (record.attempts.map _).length ≤ _
    rw [length_map]
    exact valid.few
  · intro tried inside
    obtain ⟨early,here,rfl⟩ := mem_map.mp inside
    by_cases own : early.attemptId = active.attemptId
    · have same := inj_on_of_nodup_map valid.totals.distinct here mem own
      subst same
      change ValidAttempt (updateAttempt _ _ early)
      rw [updateAttempt_own rfl]
      exact chargeAttempt_valid (valid.attempts early here) running well fresh room (by omega) (by omega)
    · change ValidAttempt (updateAttempt _ _ early)
      rw [updateAttempt_other own]
      exact valid.attempts early here
  · have deadline := counts.deadline
    have deadlineSafe := counts.deadlineSafe
    have shorter := Nat.min_le_left record.limits.maxRuntimeMs lim.maxRuntimeMs
    have post := counts.later
    refine ⟨revision,counts.prNumberSafe,counts.startedAt,timely,?_,calls,tokens,counts.failed,
      counts.prNumber,post.trans clock,rfl⟩
    change record.startedAtMs + min record.limits.maxRuntimeMs lim.maxRuntimeMs ≤ maxSafeInteger
    omega

end Validity

section Admission

variable {key : RowKey} {cur : Scope} {record next : CiRepairBudgetRecord}
  {reason : Option CiRepairBudgetBlockReason} {attemptId : Text}

/-- While the attempt is active there is room for another charge of it. -/
structure Admitted (attemptId : Text) (record : CiRepairBudgetRecord) : Prop where
  present : ∃ attempt ∈ record.attempts, attempt.attemptId = attemptId
  room : ∀ attempt ∈ record.attempts, attempt.attemptId = attemptId → attempt.status = .active →
    attempt.charges.length < ciRepairMaxCharges ∧
      (bareRecord record).bytes ≤ ciRepairMaxRecordBytes - ciRepairWriteReserveBytes

theorem active_unique (one : (record.attempts.filter isActive).length ≤ 1) {a b : CiRepairAttempt}
    (mem : a ∈ record.attempts) (here : b ∈ record.attempts)
    (running : a.status = .active) (active : b.status = .active) : a = b := by
  have inside {attempt : CiRepairAttempt} (mem : attempt ∈ record.attempts)
      (running : attempt.status = .active) : attempt ∈ record.attempts.filter isActive :=
    mem_filter.mpr ⟨mem,by rw [isActive,running]; rfl⟩
  have left := inside mem running
  have right := inside here active
  generalize record.attempts.filter isActive = actives at one left right
  rcases actives with _ | ⟨only,_ | ⟨another,rest⟩⟩
  · cases left
  · rw [mem_singleton] at left right
    rw [left,right]
  · simp only [length_cons] at one
    omega

theorem admitted_of_exhaustion (one : (record.attempts.filter isActive).length ≤ 1) {now : ℕ}
    (room : ciRepairExhaustion record now = none)
    (here : ∃ attempt ∈ record.attempts, attempt.attemptId = attemptId) :
    Admitted attemptId record := by
  obtain ⟨_,bytes,receipts⟩ := exhaustion_eq_none room
  refine ⟨here,fun attempt mem _ running => ⟨?_,(bareRecord_bytes record).trans bytes⟩⟩
  rw [receiptExhaustion] at receipts
  split at receipts
  next idle =>
    have absent := find?_eq_none.mp idle attempt mem
    rw [isActive,running] at absent
    exact absurd rfl absent
  next active hit =>
    obtain ⟨inside,active_running⟩ := find?_isActive hit
    have same := active_unique one mem inside running active_running
    subst same
    split at receipts
    · cases receipts
    next few => exact Nat.lt_of_not_le few

theorem Admitted.update (admitted : Admitted attemptId record) (valid : Valid record)
    {active : CiRepairAttempt} (mem : active ∈ record.attempts) (running : active.status = .active)
    (update : CiRepairAttempt → CiRepairAttempt)
    (named : ∀ attempt, (update attempt).attemptId = attempt.attemptId)
    (other : active.attemptId ≠ attemptId ∨ ∀ attempt, (update attempt).status ≠ .active)
    (attempts : next.attempts = record.attempts.map (updateAttempt active.attemptId update)) :
    Admitted attemptId next := by
  refine ⟨?_,?_⟩
  · obtain ⟨attempt,inside,own⟩ := admitted.present
    refine ⟨updateAttempt active.attemptId update attempt,?_,?_⟩
    · rw [attempts]
      exact mem_map.mpr ⟨attempt,inside,rfl⟩
    · rw [updateAttempt_keeps (·.attemptId) named attempt]
      exact own
  · intro attempt inside own active_now
    rw [attempts,mem_map] at inside
    obtain ⟨early,here,rfl⟩ := inside
    rw [updateAttempt_keeps (·.attemptId) named early] at own
    by_cases same : early.attemptId = active.attemptId
    · rcases other with differ | settles
      · exact absurd (same.symm.trans own) differ
      · rw [updateAttempt_own same] at active_now
        exact absurd active_now (settles early)
    · rw [updateAttempt_other same] at active_now
      have one := active_unique valid.totals.one here mem active_now running
      exact absurd (congrArg (·.attemptId) one) same

theorem Admitted.change (admitted : Admitted attemptId record) (valid : Valid record)
    (c : Change key cur (some record) next reason)
    (quiet : ∀ input, cur.call.operation = .charge input → input.attemptId ≠ attemptId) :
    Admitted attemptId next := by
  cases c with
  | tightened => exact ⟨admitted.present,admitted.room⟩
  | interrupted _ active mem running =>
    exact admitted.update valid mem running (settleAttempt .interrupted cur.now)
      (fun _ => rfl) (.inr fun _ => nofun) rfl
  | begun _ input asked idle fresh =>
    obtain ⟨attempt,inside,own⟩ := admitted.present
    refine ⟨⟨attempt,mem_append_left _ inside,own⟩,?_⟩
    intro other mem same running
    rcases mem_append.mp mem with old | new
    · have absent := find?_eq_none.mp idle other old
      rw [isActive,running] at absent
      exact absurd rfl absent
    · rw [mem_singleton] at new
      rw [new] at same
      exact absurd (own.trans same.symm) (fresh attempt inside)
  | charged _ input active asked mem running own =>
    refine admitted.update valid mem running (chargeAttempt input.counts) (fun _ => rfl) (.inl ?_) ?_
    · exact fun same => quiet input asked (own.symm.trans same)
    · rw [own]
      rfl
  | settled _ input active asked mem running own =>
    refine admitted.update valid mem running
      (settleAttempt input.outcome.status cur.now) (fun _ => rfl) (.inr fun _ => outcome_settles input.outcome)
      ?_
    rw [own]
    rfl

end Admission

section Answers

variable {key : RowKey} {call : Call} {row : Option Row} {cur : Scope} {attemptId : Text}
  {s : State} {notes : List Note} {res : CiRepairBudgetResult}

def Unblocked (result : CiRepairBudgetResult) : Prop := ∀ reason record, result ≠ .blocked reason record

inductive Admits (attemptId : Text) : Note → Prop where
  | begun (call : Call) (input : CiRepairBegin) (result : CiRepairBudgetResult)
      (asked : call.operation = .begin input) (own : input.attemptId = attemptId)
      (unblocked : Unblocked result) : Admits attemptId (.answered call result)
  | charged (call : Call) (input : CiRepairChargeInput) (record : CiRepairBudgetRecord)
      (asked : call.operation = .charge input) (own : input.attemptId = attemptId) :
    Admits attemptId (.answered call (.recorded record))

/-- The call is refused for storage, when it is prepared or whenever it comes to write. -/
def CapacityRefused (key : RowKey) (call : Call) (row : Option Row) : Prop :=
  (∃ record, prepare key call row = .answered (.blocked .storageCapacity record)) ∨
    ∃ proposal, prepare key call row = .persists proposal ∧
      ∃ authorized later, persistRefusal authorized proposal later = some .storageCapacity

theorem scope_error (refused : scope key call row = .error res) :
    ∃ reason record, res = .blocked reason record ∧ reason ≠ .storageCapacity := by
  rw [scope] at refused
  split at refused
  · cases refused
    exact ⟨_,_,rfl,by simp⟩
  · split at refused
    · cases refused
      exact ⟨_,_,rfl,by simp⟩
    · split at refused
      · split at refused
        · cases refused
          exact ⟨_,_,rfl,by simp⟩
        · simp only at refused
          split at refused
          · cases refused
            exact ⟨_,_,rfl,by simp⟩
          · split at refused
            · cases refused
              exact ⟨_,_,rfl,by simp⟩
            · split at refused
              · cases refused
                exact ⟨_,_,rfl,by simp⟩
              · cases refused
      · cases refused
        exact ⟨_,_,rfl,by simp⟩

theorem prepare_eq_answered (answered : prepare key call row = .answered res) :
    scope key call row = .error res ∨
      ∃ cur, scope key call row = .ok cur ∧ work key cur = .answered res := by
  rw [prepare] at answered
  split at answered
  next refused =>
    cases answered
    exact .inl refused
  next cur hit =>
    split at answered
    next same =>
      cases answered
      exact .inr ⟨cur,hit,same⟩
    · cases answered

theorem beginScope_answered {input : CiRepairBegin}
    (answered : beginScope key cur input = .answered res) (unblocked : Unblocked res) :
    ∃ stored attempt, cur.current = some stored ∧ attempt ∈ stored.attempts ∧ attempt.attemptId = input.attemptId ∧
        ciRepairExhaustion (tightenedCiRepairBudget stored cur.limits) cur.now = none := by
  rw [beginScope] at answered
  split at answered
  · cases answered
    exact absurd rfl (unblocked _ _)
  · split at answered
    · split at answered
      · cases answered
        exact absurd rfl (unblocked _ _)
      · rw [firstAttempt] at answered
        split at answered
        · cases answered
          exact absurd rfl (unblocked _ _)
        · cases answered
    next stored read =>
      split at answered
      next prior hit =>
        cases answered
        have own := find?_some hit
        rw [beq_iff_eq] at own
        refine ⟨stored,prior,read,mem_of_find?_eq_some hit,own,?_⟩
        rw [replayedBegin] at unblocked
        split at unblocked
        · simp only at unblocked
          split at unblocked
          next room => exact room
          next => exact absurd rfl (unblocked _ _)
        · exact absurd rfl (unblocked _ _)
      · split at answered
        · cases answered
          exact absurd rfl (unblocked _ _)
        · rw [nextAttempt] at answered
          split at answered
          next active hit =>
            split at answered
            · cases answered
              exact absurd rfl (unblocked _ _)
            next foreign =>
              rw [acceptScope,read] at answered
              split at answered
              · cases answered
                exact absurd rfl (unblocked _ _)
              · simp only at answered
                rw [hit,Option.filter_some_pos (by simpa using foreign)] at answered
                cases answered
          · split at answered
            · rw [persistTightening] at answered
              split at answered
              · cases answered
                exact absurd rfl (unblocked _ _)
              · cases answered
            · cases answered

theorem chargeScope_answered {input : CiRepairChargeInput}
    (answered : chargeScope cur input = .answered res) :
    (∀ record, res ≠ .recorded record) ∧ ((∃ record, res = .blocked .storageCapacity record) →
      ∃ stored active, cur.current = some stored ∧ active ∈ stored.attempts ∧
        active.status = .active ∧ active.attemptId = input.attemptId ∧ ciRepairMaxCharges ≤ active.charges.length) := by
  rw [chargeScope] at answered
  split at answered
  · cases answered
    simp [blocked]
  · split at answered
    · cases answered
      simp [blocked]
    next stored read =>
      split at answered
      · cases answered
        simp [blocked]
      next active hit =>
        have chosen := find?_some hit
        rw [Bool.and_eq_true,beq_iff_eq,isActive,decide_eq_true_eq] at chosen
        split at answered
        · cases answered
          simp [blocked]
        · split at answered
          next prior =>
            rw [priorChargeResult] at prior
            split at prior
            · cases prior
            · cases prior
              cases answered
              split
              · simp [blocked]
              · simp [blocked]
          · split at answered
            · cases answered
              simp [blocked]
            · split at answered
              next full =>
                cases answered
                exact ⟨by simp [blocked],fun _ => ⟨stored,active,read,mem_of_find?_eq_some hit,chosen.2,chosen.1,full⟩⟩
              · cases answered

end Answers

section Runs

variable {key : RowKey} {state : State} {notes : List Note} {attemptId : Text} {input : CiRepairChargeInput}
  {next : CiRepairBudgetRecord} {call : Call} {res : CiRepairBudgetResult} {authorized : Bool}
  {current : Scope} {row : Row}

theorem countOf_safe {v : Number} (count : ciRepairCount v = true) : countOf v ≤ maxSafeInteger := by
  cases v with
  | finite v =>
    simp only [ciRepairCount,isSafeIntegerFrom,Bool.and_eq_true,decide_eq_true_eq] at count
    exact Int.toNat_le.mpr count.2
  | _ => cases count

theorem Accounted.admits_call (accounted : Accounted key state notes) (answered : prepare key call state.row = .answered res)
    (admits : Admits attemptId (.answered call res)) :
    ∃ row, state.row = some row ∧ Admitted attemptId row.record := by
  rcases prepare_eq_answered answered with refused | ⟨current,hit,worked⟩
  · obtain ⟨reason,record,rfl,_⟩ := scope_error refused
    cases admits with
    | begun _ _ _ _ _ unblocked => exact absurd rfl (unblocked _ _)
  · have reached := scope_eq_ok hit
    rw [work,reached.own] at worked
    cases admits with
    | begun _ input _ asked own unblocked =>
      rw [asked] at worked
      obtain ⟨stored,attempt,read,mem,named,room⟩ := beginScope_answered worked unblocked
      rw [reached.read] at read
      obtain ⟨row,here,rfl⟩ := Option.map_eq_some_iff.mp read
      have one := (accounted.stored row here).2.1.totals.one
      have admitted := @admitted_of_exhaustion (tightenedCiRepairBudget row.record current.limits)
        attemptId one current.now room ⟨attempt,mem,named.trans own⟩
      exact ⟨row,here,admitted.present,admitted.room⟩
    | charged _ input record asked own =>
      rw [asked] at worked
      exact absurd rfl ((chargeScope_answered worked).1 record)

theorem Admits.asked (admits : Admits attemptId (.answered call res)) :
    (∃ input, call.operation = .begin input ∧ input.attemptId = attemptId) ∨
      ∃ input, call.operation = .charge input ∧ input.attemptId = attemptId := by
  cases admits with
  | begun _ input _ asked own => exact .inl ⟨input,asked,own⟩
  | charged _ input _ asked own => exact .inr ⟨input,asked,own⟩

theorem Change.asked_attempt {pre : Option CiRepairBudgetRecord} (change : Change key current pre next none)
    (asked : (∃ input, current.call.operation = .begin input ∧ input.attemptId = attemptId) ∨
      ∃ input, current.call.operation = .charge input ∧ input.attemptId = attemptId) :
    ∃ attempt ∈ next.attempts, attempt.attemptId = attemptId := by
  cases change with
  | first input begins =>
    rw [begins] at asked
    rcases asked with ⟨_,same,own⟩ | ⟨_,same,_⟩
    · cases same
      exact ⟨_,mem_singleton_self _,own⟩
    · cases same
  | tightened _ _ begins =>
    rcases begins with ⟨_,accepts⟩ | ⟨_,excused⟩
    · rw [accepts] at asked
      rcases asked with ⟨_,same,_⟩ | ⟨_,same,_⟩
      · cases same
      · cases same
    · exact absurd rfl excused
  | begun _ input begins =>
    rw [begins] at asked
    rcases asked with ⟨_,same,own⟩ | ⟨_,same,_⟩
    · cases same
      exact ⟨_,mem_append_right _ mem_cons_self,own⟩
    · cases same
  | charged _ input active charges mem _ named =>
    rw [charges] at asked
    rcases asked with ⟨_,same,_⟩ | ⟨_,same,own⟩
    · cases same
    · cases same
      refine ⟨updateAttempt input.attemptId (chargeAttempt input.counts) active,mem_map.mpr ⟨active,mem,rfl⟩,?_⟩
      rw [updateAttempt_own named]
      exact named.trans own
  | settled _ input _ settles =>
    rw [settles] at asked
    rcases asked with ⟨_,same,_⟩ | ⟨_,same,_⟩
    · cases same
    · cases same

theorem persistResult_cases (proposal : Proposal) :
    (∃ reason, persistResult proposal = .blocked reason (some proposal.record)) ∨
      persistResult proposal = .recorded proposal.record ∧ proposal.reason = none ∧
        ciRepairExhaustion proposal.record proposal.now = none := by
  rw [persistResult]
  split
  next room => exact .inr ⟨rfl,Option.or_eq_none_iff.mp room⟩
  next reason _ => exact .inl ⟨reason,rfl⟩

theorem Accounted.admits_write (accounted : Accounted key state notes) {id : ℕ} {pending : Pending}
    (hit : state.pending.get? id = some pending)
    (admits : Admits attemptId (.answered pending.call (persist authorized pending.proposal state.row).2)) :
    ∃ row, (persist authorized pending.proposal state.row).1 = some row ∧ Admitted attemptId row.record := by
  cases refusal : persistRefusal authorized pending.proposal state.row with
  | some reason =>
    rw [persist_refused refusal] at admits
    cases admits with
    | begun _ _ _ _ _ unblocked => exact absurd rfl (unblocked _ _)
  | none =>
    rw [persist_allowed refusal] at admits ⊢
    obtain ⟨current,written⟩ := accounted.writes hit refusal
    obtain ⟨own_call,c,_,_,valid,_⟩ := written
    rcases persistResult_cases pending.proposal with ⟨reason,blocked⟩ | ⟨recorded,unexcused,room⟩
    · simp only [blocked] at admits
      cases admits with
      | begun _ _ _ _ _ unblocked => exact absurd rfl (unblocked _ _)
    · refine ⟨_,rfl,admitted_of_exhaustion valid.totals.one room ?_⟩
      rw [unexcused] at c
      apply c.asked_attempt
      rw [own_call]
      exact admits.asked

theorem Accounted.admits (accounted : Accounted key state notes) (ev : Event) {note : Note}
    (noted : note ∈ CiRepairBudget.notes key state ev) (admits : Admits attemptId note) :
    ∃ row, (CiRepairBudget.step key state ev).row = some row ∧ Admitted attemptId row.record := by
  cases ev with
  | call id call =>
    rw [CiRepairBudget.notes] at noted
    rw [CiRepairBudget.step]
    cases prepared : prepare key call state.row with
    | answered res =>
      rw [prepared] at noted
      simp only [mem_singleton] at noted
      subst noted
      exact accounted.admits_call prepared admits
    | persists proposal =>
      rw [prepared] at noted
      cases noted
  | write id authorized =>
    rw [CiRepairBudget.notes] at noted
    rw [CiRepairBudget.step]
    cases found : state.pending.get? id with
    | none =>
      rw [found] at noted
      cases noted
    | some pending =>
      rw [found] at noted
      simp only at noted ⊢
      rcases mem_cons.mp noted with rfl | charge
      · exact accounted.admits_write found admits
      · exfalso
        split at charge
        · rw [chargeNotes] at charge
          split at charge
          · rw [mem_singleton] at charge
            subst charge
            cases admits
          · cases charge
        · cases charge

theorem Accounted.stays_admitted (accounted : Accounted key state notes) (ev : Event)
    (stored : state.row = some row) (admitted : Admitted attemptId row.record)
    (quiet : ∀ charge, .charged attemptId charge ∉ CiRepairBudget.notes key state ev) :
    ∃ next, (CiRepairBudget.step key state ev).row = some next ∧ Admitted attemptId next.record := by
  cases ev with
  | call id call =>
    rw [CiRepairBudget.step]
    cases prepare key call state.row with
    | answered res => exact ⟨row,stored,admitted⟩
    | persists proposal => exact ⟨row,stored,admitted⟩
  | write id authorized =>
    rw [CiRepairBudget.notes] at quiet
    rw [CiRepairBudget.step]
    cases found : state.pending.get? id with
    | none => exact ⟨row,stored,admitted⟩
    | some pending =>
      rw [found] at quiet
      simp only at quiet ⊢
      cases refusal : persistRefusal authorized pending.proposal state.row with
      | some reason =>
        rw [persist_refused refusal]
        exact ⟨row,stored,admitted⟩
      | none =>
        rw [persist_allowed refusal]
        rw [refusal,Option.isNone_none,if_pos rfl] at quiet
        obtain ⟨current,written⟩ := accounted.writes found refusal
        have c := written.change
        rw [stored] at c
        refine ⟨_,rfl,admitted.change (accounted.stored row stored).2.1 c ?_⟩
        intro input asked own
        rw [written.own] at asked
        apply quiet input.counts
        rw [chargeNotes,asked,← own]
        exact mem_cons_of_mem _ (mem_singleton_self _)

theorem machine_stays_admitted (evs : List Event) {middle : List Event}
    (stored : ((machine key).run evs).row = some row) (admitted : Admitted attemptId row.record)
    (quiet : ∀ charge, .charged attemptId charge ∉ (machine key).notesFrom ((machine key).run evs) middle) :
    ∃ next, ((machine key).run (evs ++ middle)).row = some next ∧ Admitted attemptId next.record := by
  induction middle using reverseRecOn with
  | nil =>
    rw [append_nil]
    exact ⟨row,stored,admitted⟩
  | append_singleton middle ev ih =>
    rw [Machine.notesFrom_snoc] at quiet
    obtain ⟨next,here,still⟩ := ih fun charge mem => quiet charge (mem_append_left _ mem)
    rw [← append_assoc,Machine.run_snoc]
    apply (machine_accounted (evs ++ middle)).stays_admitted ev here still
    rw [Machine.run_append]
    exact fun charge mem => quiet charge (mem_append_right _ mem)

structure Safe (record : CiRepairBudgetRecord) (charge : CiRepairCharge ℕ) : Prop where
  revision : record.revision + 1 ≤ maxSafeInteger
  toolCalls : record.toolCalls + charge.toolCalls ≤ maxSafeInteger
  promptTokens : record.promptTokens + charge.promptTokens ≤ maxSafeInteger

theorem validChargeInput_counts (valid : validChargeInput input = true) :
    validCharge input.counts = true := by
  simp only [validChargeInput,Bool.and_eq_true] at valid
  obtain ⟨⟨⟨⟨⟨_,id⟩,_⟩,calls⟩,tokens⟩,_⟩ := valid
  simp only [validCharge,safeCount,CiRepairChargeInput.counts,Bool.and_eq_true]
  exact ⟨⟨id,decide_eq_true (countOf_safe calls)⟩,decide_eq_true (countOf_safe tokens)⟩

/-- The charge of an admitted attempt makes a record that is valid and small enough to be written. -/
theorem Change.fits {record : CiRepairBudgetRecord} {origin : Option Row}
    {reason : Option CiRepairBudgetBlockReason}
    (c : Change key current (some record) next reason) (reached : Scoped key call origin current)
    (read : origin.map (·.record) = some record) (admitted : Admitted input.attemptId record)
    (asked : call.operation = .charge input) (safe : Safe record input.counts) :
    Valid next ∧ next.bytes ≤ ciRepairMaxRecordBytes := by
  rw [← reached.own] at asked
  obtain ⟨row,stored,rfl⟩ := Option.map_eq_some_iff.mp read
  obtain ⟨_,valid,clock⟩ := reached.stored row stored
  have timely : current.now ≤ maxSafeInteger := le_of_add_le_left reached.now
  have limits : validCiRepairLimits current.limits = true := by
    have authorized := reached.authorized
    rw [validContext,Bool.and_eq_true] at authorized
    rw [reached.limits]
    exact authorized.2
  rcases c.charged_or_uncharged with ⟨_,other,active,charged⟩ | uncharged
  · have same := charged.asked
    rw [asked] at same
    cases same
    cases charged.read
    have well := validChargeInput_counts charged.valid
    have fresh := priorChargeResult_eq_none valid.totals.distinct charged.member charged.own charged.fresh
    have room := (admitted.room active charged.member charged.own charged.running).2
    have bytes := @charged_bytes row.record active input.counts current.limits current.now valid
      charged.member well safe.revision timely safe.toolCalls safe.promptTokens
    rw [charged.written,← charged.own]
    refine ⟨charged_valid valid charged.member charged.running well fresh charged.room limits clock
      timely safe.revision safe.toolCalls safe.promptTokens,bytes.trans ?_⟩
    rw [ciRepairMaxRecordBytes,ciRepairWriteReserveBytes] at room
    rw [ciRepairMaxRecordBytes]
    omega
  · exact absurd asked (uncharged.asked input)

theorem persistRefusal_of_fits {proposal : Proposal} {post : Option Row}
    (valid : Valid proposal.record) (bytes : proposal.record.bytes ≤ ciRepairMaxRecordBytes) :
    persistRefusal authorized proposal post ≠ some .storageCapacity := by
  rw [persistRefusal]
  split
  · simp
  · rw [valid_iff.mpr valid,Bool.not_true,if_neg Bool.false_ne_true,if_neg (Nat.not_lt.mpr bytes)]
    split
    · simp
    · simp

theorem Admitted.not_refused
    (admitted : Admitted input.attemptId row.record) (stored : state.row = some row)
    (asked : call.operation = .charge input) (safe : Safe row.record input.counts) :
    ¬ CapacityRefused key call state.row := by
  intro refused
  rcases refused with ⟨record,answered⟩ | ⟨proposal,prepared,authorized,post,refusal⟩
  · rcases prepare_eq_answered answered with failed | ⟨current,hit,worked⟩
    · obtain ⟨reason,other,same,differ⟩ := scope_error failed
      cases same
      exact differ rfl
    · have reached := scope_eq_ok hit
      rw [work,reached.own,asked] at worked
      obtain ⟨here,active,read,mem,running,own,full⟩ :=
        (chargeScope_answered worked).2 ⟨record,rfl⟩
      rw [reached.read,stored] at read
      cases read
      have room := (admitted.room active mem own running).1
      omega
  · obtain ⟨reads,origin,current,reached,read,_,c⟩ := prepare_came prepared
    have kept_row : proposal.current = some row.record := by
      rw [reads,stored]
      rfl
    have same : current.current = some row.record := read.symm.trans kept_row
    rw [same] at c
    obtain ⟨valid,bytes⟩ := c.fits reached (reached.read.symm.trans same) admitted asked safe
    exact persistRefusal_of_fits valid bytes refusal

/-- What is stored is valid and never loosened, its totals are those of the distinct charges that were
accepted, and after a begin that was not blocked, or a charge that was recorded, the next charge of the
attempt finds room. -/
theorem machine_budget (key : RowKey) (events : List Event) :
    let state := (machine key).run events
    let noted := (machine key).noted events
    (∀ row, state.row = some row → row.revision = row.record.revision ∧
      isCiRepairBudgetRecord row.record = true ∧ row.record.bytes ≤ ciRepairMaxRecordBytes ∧
        (row.record.attempts.filter isActive).length ≤ 1) ∧
    calledTools noted = (state.row.map (·.record.toolCalls)).getD 0 ∧
    prompted noted = (state.row.map (·.record.promptTokens)).getD 0 ∧
    ((chargesOf noted).map chargeName).Nodup ∧
    (∀ (more : List Event) row, state.row = some row →
      ∃ next, ((machine key).run (events ++ more)).row = some next ∧
        Succeeds row.record next.record) ∧
    ∀ (event : Event) (note : Note) (attemptId : Text) (middle : List Event),
      note ∈ (machine key).notes state event → Admits attemptId note →
      (∀ charge, .charged attemptId charge ∉
        (machine key).notesFrom ((machine key).run (events ++ [event])) middle) →
      ∃ row, ((machine key).run (events ++ [event] ++ middle)).row = some row ∧
        ∀ call input, call.operation = .charge input → input.attemptId = attemptId →
          Safe row.record input.counts → ¬ CapacityRefused key call (some row) := by
  intro state noted
  have accounted := @machine_accounted key events
  refine ⟨?_,accounted.toolCalls,accounted.promptTokens,accounted.distinct,?_,?_⟩
  · intro row stored
    obtain ⟨revision,valid,bytes⟩ := accounted.stored row stored
    exact ⟨revision,valid_iff.mpr valid,bytes,valid.totals.one⟩
  · intro more row stored
    exact machine_succeeds events more stored
  · intro event note attemptId middle member admits quiet
    obtain ⟨row,stored,admitted⟩ := accounted.admits event member admits
    have reached := @Machine.run_snoc _ _ _ (machine key) events event
    have stored := (congrArg State.row reached).trans stored
    obtain ⟨next,present,still⟩ := machine_stays_admitted (events ++ [event]) stored admitted quiet
    refine ⟨next,present,?_⟩
    intro call input asked own safe
    subst own
    rw [← present]
    exact still.not_refused present asked safe

end Runs

section FullAttempt

def fullAttempt (charges : ℕ) : CiRepairAttempt where
  attemptId := ['a']
  runId := ['r']
  failureSignatureDigest := List.replicate 64 'a'
  headSha := List.replicate 40 'a'
  baseSha := List.replicate 40 'b'
  kind := .workspaceEdit
  status := .active
  startedAtMs := 0
  finishedAtMs := none
  toolCalls := charges
  promptTokens := 0
  charges := (List.range charges).map fun charge => ⟨Text.numberText charge,1,0⟩

def fullRecord (charges : ℕ) : CiRepairBudgetRecord where
  revision := charges
  taskDigest := List.replicate 64 'a'
  remoteDigest := List.replicate 64 'b'
  issueBindingDigest := List.replicate 64 'c'
  prNumber := 1
  startedAtMs := 0
  updatedAtMs := 0
  deadlineMs := 1000
  limits := ⟨1000,1000,1000⟩
  toolCalls := charges
  promptTokens := 0
  failedAttempts := 0
  attempts := [fullAttempt charges]

def fullKey : RowKey := ⟨List.replicate 64 'a',List.replicate 64 'b',.finite 1⟩

def fullSnapshot : CodingRuntimeSnapshot where
  state := .running
  terminal := false
  issueBinding := some ⟨List.replicate 64 'b',List.replicate 64 'c'⟩
  ciReadinessBaseSha := none

def fullDraft : DraftDeliveryRecord where
  remoteDigest := List.replicate 64 'b'
  issueBindingDigest := List.replicate 64 'c'
  headSha := List.replicate 40 'a'
  baseSha := List.replicate 40 'b'
  pullRequest := some ⟨.finite 1,true⟩

def fullCall (operation : Operation) : Call where
  context := ⟨['r'],⟨.finite 1000,.finite 1000,.finite 1000⟩,true⟩
  snapshot := some fullSnapshot
  draft := some fullDraft
  now := .finite 0
  records := 0
  operation := operation

def fullInput (charge revision : ℕ) : CiRepairChargeInput where
  chargeId := Text.numberText charge
  toolCalls := .finite 1
  promptTokens := .finite 0
  attemptId := ['a']
  expectedRevision := .finite revision

def fullBegin : Call := fullCall
  (.begin ⟨['a'],List.replicate 64 'a',List.replicate 40 'a',List.replicate 40 'b',.workspaceEdit,none⟩)

def fullEvents (charges : ℕ) : List Event :=
  [.call 0 fullBegin,.write 0 true] ++ (List.range charges).flatMap fun charge =>
    [.call 0 (fullCall (.charge (fullInput charge charge))),.write 0 true]

theorem receipt_counts : countOf (.finite 1) = 1 ∧ countOf (.finite 0) = 0 ∧
    ciRepairCount (.finite 1) = true ∧ ciRepairCount (.finite 0) = true ∧ ciRepairId ['a'] = true := by
  decide +kernel

theorem fixed_values : attemptIdentity (fullAttempt 0) = true ∧ recordShape (fullRecord 0) = true ∧
    validCiRepairLimits (fullRecord 0).limits = true ∧
    validContext fullKey (fullCall .read).context = true ∧
    liveDraft fullKey fullSnapshot fullDraft = true ∧
    fullBegin.context.limits.counts = ⟨1000,1000,1000⟩ ∧ (fullRecord 0).bytes ≤ 2000 ∧
    persistRefusal true ⟨none,fullRecord 0,none,0⟩ none = none ∧
    (match prepare fullKey fullBegin none with
      | .answered _ => false
      | .persists proposal => decide (proposal = ⟨none,fullRecord 0,none,0⟩)) = true := by
  decide +kernel

theorem numberText_identifier (charge : ℕ) (few : charge ≤ 256) : ciRepairId (Text.numberText charge) = true := by
  have alphanumeric : ∀ c ∈ Text.numberText charge, isAlphanumeric c = true := by
    intro c mem
    rw [isAlphanumeric,Text.isDigit_of_mem_numberText mem]
    rfl
  have short : (Text.numberText charge).length ≤ 3 := by
    apply (Nat.length_toDigits_le_iff (by decide) (by decide)).mpr
    omega
  have nonempty := Text.numberText_ne_nil charge
  generalize Text.numberText charge = digits at alphanumeric short nonempty
  cases digits with
  | nil => exact absurd rfl nonempty
  | cons a rest =>
    rw [length_cons] at short
    rw [ciRepairId,isSafeIdentifier,alphanumeric a mem_cons_self,
      decide_eq_true (show rest.length ≤ 127 by omega),Bool.true_and,Bool.true_and,all_eq_true]
    intro c mem
    rw [alphanumeric c (mem_cons_of_mem _ mem),Bool.true_or]

theorem fullAttempt_valid {charges : ℕ} (few : charges ≤ 256) : ValidAttempt (fullAttempt charges) := by
  have members : ∀ charge ∈ (fullAttempt charges).charges, validCharge charge = true := by
    intro charge mem
    obtain ⟨i,inside,rfl⟩ := mem_map.mp mem
    rw [mem_range] at inside
    rw [validCharge,numberText_identifier i (by omega)]
    rfl
  refine ⟨?_,?_,members,?_,?_,?_,?_,?_,?_⟩
  · exact fixed_values.1
  · rw [fullAttempt,length_map,length_range,ciRepairMaxCharges]
    exact few
  · rw [fullAttempt,map_map]
    exact nodup_range.map Text.numberText_injective
  · exact Nat.zero_le _
  · change charges ≤ _
    rw [maxSafeInteger]
    omega
  · exact Nat.zero_le _
  · intro _
    refine ⟨rfl,?_,?_⟩
    · rw [fullAttempt,map_map]
      change charges = ((range charges).map fun _ => 1).sum
      simp
    · rw [fullAttempt,map_map]
      change 0 = ((range charges).map fun _ => 0).sum
      simp
  · exact fun settled => absurd rfl settled

theorem fullRecord_valid {charges : ℕ} (few : charges ≤ 256) : Valid (fullRecord charges) := by
  have attempt := fullAttempt_valid few
  have safe : charges ≤ maxSafeInteger := by
    rw [maxSafeInteger]
    omega
  refine ⟨?_,?_,le_refl _,?_,?_,?_,?_⟩
  · exact fixed_values.2.1
  · exact fixed_values.2.2.1
  · change 1 ≤ ciRepairMaxAttempts
    decide
  · intro other mem
    rw [fullRecord,mem_singleton] at mem
    subst mem
    exact attempt
  · have small : 1000 ≤ maxSafeInteger := by decide
    have n : 1 ≤ maxSafeInteger ∧ 0 < 1 ∧ 1 ≤ 1000000000 := by decide
    exact ⟨safe,n.1,Nat.zero_le _,Nat.zero_le _,small,safe,Nat.zero_le _,Nat.zero_le _,n.2,Nat.le_refl _,rfl⟩
  · have active : (fullRecord charges).attempts.filter isActive = [fullAttempt charges] := rfl
    refine ⟨le_refl _,.inr rfl,nodup_singleton _,?_,rfl,rfl,?_⟩
    · exact (add_zero charges).symm
    · intro other mem
      rw [fullRecord,mem_singleton] at mem
      subst mem
      exact ⟨le_refl _,le_refl _⟩

theorem fullRecord_bytes {charges : ℕ} (few : charges ≤ 256) :
    (fullRecord charges).bytes ≤ ciRepairMaxRecordBytes - ciRepairWriteReserveBytes := by
  obtain ⟨_,_,_,_,_,_,start,_⟩ := fixed_values
  have receipts : ((fullAttempt charges).charges.map CiRepairCharge.json |>.map Text.byteLength).sum ≤
      charges * 204 := by
    rw [map_map]
    apply le_trans (sum_le_card_nsmul _ 204 ?_)
    · rw [length_map,fullAttempt,length_map,length_range]
      exact le_refl _
    · intro size mem
      obtain ⟨charge,inside,rfl⟩ := mem_map.mp mem
      exact charge_bytes ((fullAttempt_valid few).charges charge inside)
  have count := @countSize_le charges (by rw [maxSafeInteger]; omega)
  have commas : charges - 1 ≤ 256 := (Nat.sub_le charges 1).trans few
  rw [record_bytes] at start ⊢
  simp only [fullRecord,fullAttempt,map_cons,map_nil,byteLength_arrayText,attempt_bytes,
    sum_cons,sum_nil,length_cons,length_nil,length_map,length_range,
    range_zero,countSize_zero] at start receipts ⊢
  generalize ((((range charges).map fun charge => (⟨Text.numberText charge,1,0⟩ :
    CiRepairCharge ℕ)).map CiRepairCharge.json).map Text.byteLength).sum = total at receipts ⊢
  generalize charges - 1 = gaps at commas ⊢
  rw [ciRepairMaxRecordBytes,ciRepairWriteReserveBytes]
  linarith

theorem fullScope {charges : ℕ} (few : charges ≤ 256) (operation : Operation) :
    scope fullKey (fullCall operation) (some ⟨charges,fullRecord charges⟩) =
      .ok ⟨fullCall operation,fullSnapshot,fullDraft,⟨1000,1000,1000⟩,0,some (fullRecord charges)⟩ := by
  have loaded : load fullKey fullSnapshot (some ⟨charges,fullRecord charges⟩) = some (some (fullRecord charges)) := by
    have bytes := (fullRecord_bytes few).trans (Nat.sub_le ciRepairMaxRecordBytes _)
    have n : (fullRecord charges).prNumber = countOf fullKey.prNumber :=
      receipt_counts.1.symm
    rw [load]
    exact if_pos ⟨bytes,valid_iff.mpr (fullRecord_valid few),rfl,rfl,n,rfl,rfl⟩
  obtain ⟨_,_,_,valid,live,limits,_⟩ := fixed_values
  obtain ⟨_,clock,_,zero,_⟩ := receipt_counts
  have context : validContext fullKey (fullCall operation).context = true := valid
  have timely : (ciRepairCount (.finite 0) && safeCount (0 + 1000)) = true := by
    rw [zero]
    decide
  rw [scope,context,if_neg (by simp [fullCall]),if_neg (by decide)]
  change (if !liveDraft fullKey fullSnapshot fullDraft then _ else _) = _
  rw [live,if_neg (by decide)]
  change (if !(ciRepairCount (.finite 0) && safeCount (countOf (.finite 0) +
    fullBegin.context.limits.counts.maxRuntimeMs)) then _ else _) = _
  rw [limits,clock,timely,if_neg (by decide),loaded]
  change (if decide (0 < 0) = true then _ else Except.ok (Scope.mk _ _ _
    fullBegin.context.limits.counts (countOf (.finite 0)) _)) = _
  rw [if_neg (by decide),limits,clock]

theorem countOf_natCast (count : ℕ) : countOf (.finite count) = count := by
  change ((count : ℚ)).num.toNat = count
  rw [Rat.num_natCast,Int.toNat_natCast]

theorem fullInput_valid {charge revision : ℕ} (few : charge ≤ 256) (low : revision ≤ 256) :
    validChargeInput (fullInput charge revision) = true ∧
      ciRepairCount (fullInput charge revision).expectedRevision = true := by
  obtain ⟨calls,tokens,one,zero,attempt⟩ := receipt_counts
  have positive : 0 < countOf (.finite 1) + countOf (.finite 0) := by
    rw [calls,tokens]
    exact Nat.one_pos
  have counted : ciRepairCount (.finite revision) = true := by
    have nonnegative : ((0 : ℕ) : ℤ) ≤ revision := Int.natCast_nonneg revision
    have small : (revision : ℤ) ≤ maxSafeInteger := by
      rw [maxSafeInteger]
      omega
    rw [ciRepairCount,isSafeIntegerFrom,Rat.num_natCast,Rat.den_natCast,decide_eq_true nonnegative,decide_eq_true small]
    rfl
  refine ⟨?_,counted⟩
  change (ciRepairId ['a'] && ciRepairId (Text.numberText charge) && ciRepairCount (.finite revision) &&
    ciRepairCount (.finite 1) && ciRepairCount (.finite 0) &&
      decide (0 < countOf (.finite 1) + countOf (.finite 0))) = true
  rw [attempt,numberText_identifier charge few,counted,one,zero,decide_eq_true positive]
  rfl

theorem fullAttempt_find {charges charge : ℕ} : (fullAttempt charges).charges.find?
    (fun prior => prior.chargeId == Text.numberText charge) =
      if charge < charges then some ⟨Text.numberText charge,1,0⟩ else none := by
  split
  next early =>
    have inside : (⟨Text.numberText charge,1,0⟩ : CiRepairCharge ℕ) ∈ (fullAttempt charges).charges :=
      mem_map.mpr ⟨charge,mem_range.mpr early,rfl⟩
    cases hit : (fullAttempt charges).charges.find? (fun prior => prior.chargeId == Text.numberText charge) with
    | none => exact absurd (beq_self_eq_true _) (find?_eq_none.mp hit _ inside)
    | some prior =>
      have named := find?_some hit
      rw [beq_iff_eq] at named
      obtain ⟨i,_,rfl⟩ := mem_map.mp (mem_of_find?_eq_some hit)
      have same := Text.numberText_injective named
      rw [same]
  next post =>
    rw [find?_eq_none]
    intro prior mem
    obtain ⟨i,inside,rfl⟩ := mem_map.mp mem
    rw [beq_iff_eq]
    intro named
    have same := Text.numberText_injective named
    rw [mem_range] at inside
    omega

theorem fullInput_prior {charges charge revision : ℕ} :
    priorChargeResult (fullRecord charges) (fullInput charge revision) =
      if charge < charges then some (.replayed (fullRecord charges)) else none := by
  obtain ⟨calls,tokens,_⟩ := receipt_counts
  rw [priorChargeResult]
  split
  next gone =>
    have gone := (@fullAttempt_find charges charge).symm.trans gone
    split at gone
    · cases gone
    next post => rw [if_neg post]
  next prior hit =>
    have hit := (@fullAttempt_find charges charge).symm.trans hit
    split at hit
    next early =>
      cases hit
      rw [if_pos early]
      change some (if 1 = countOf (.finite 1) ∧ 0 = countOf (.finite 0) then _ else _) = _
      rw [calls,tokens,if_pos ⟨rfl,rfl⟩]
    · cases hit

theorem fullCharge_work {charges charge revision : ℕ} (known : charge ≤ 256) (low : revision ≤ 256) :
    chargeScope ⟨fullCall (.charge (fullInput charge revision)),fullSnapshot,fullDraft,
        ⟨1000,1000,1000⟩,0,some (fullRecord charges)⟩ (fullInput charge revision) =
      if charge < charges then .answered (.replayed (fullRecord charges))
      else if charges ≠ revision then .answered (blocked .staleRevision (some (fullRecord charges)))
      else if 256 ≤ charges then .answered (blocked .storageCapacity (some (fullRecord charges)))
      else .persists (chargeCiRepairAttempt (tightenedCiRepairBudget (fullRecord charges)
        ⟨1000,1000,1000⟩) ['a'] (fullInput charge revision).counts 0) none := by
  obtain ⟨valid,counted⟩ := @fullInput_valid charge revision known low
  rw [chargeScope,valid,if_neg (by decide)]
  refine (if_neg fun differ => differ rfl).trans ?_
  rw [fullInput_prior]
  by_cases early : charge < charges
  · rw [if_pos early,if_pos early]
  · rw [if_neg early,if_neg early]
    have current : expected (some (fullRecord charges))
        (some (fullInput charge revision).expectedRevision) = decide (charges = revision) := by
      rw [expected,counted,Bool.true_and]
      change decide (charges = countOf (.finite revision)) = _
      rw [countOf_natCast]
    have receipts : (fullAttempt charges).charges.length = charges := by
      rw [fullAttempt,length_map,length_range]
    change (if !expected _ _ then _ else if 256 ≤ (fullAttempt charges).charges.length then _ else _) = _
    rw [current,receipts]
    by_cases same : charges = revision
    · have still : ¬ charges ≠ revision := fun differ => differ same
      rw [decide_eq_true same,if_neg (by decide),if_neg still]
      rfl
    · rw [decide_eq_false same]
      exact (if_pos same).symm

theorem fullCharge_prepared {charges charge revision : ℕ} (few : charges ≤ 256) (known : charge ≤ 256)
    (low : revision ≤ 256) :
    prepare fullKey (fullCall (.charge (fullInput charge revision))) (some ⟨charges,fullRecord charges⟩) =
      if charge < charges then .answered (.replayed (fullRecord charges))
      else if charges ≠ revision then .answered (blocked .staleRevision (some (fullRecord charges)))
      else if 256 ≤ charges then .answered (blocked .storageCapacity (some (fullRecord charges)))
      else .persists ⟨some (fullRecord charges),chargeCiRepairAttempt (tightenedCiRepairBudget
        (fullRecord charges) ⟨1000,1000,1000⟩) ['a'] (fullInput charge revision).counts 0,none,0⟩ := by
  have worked : work fullKey ⟨fullCall (.charge (fullInput charge revision)),fullSnapshot,fullDraft,
    ⟨1000,1000,1000⟩,0,some (fullRecord charges)⟩ = _ := fullCharge_work known low
  rw [prepare,fullScope few]
  simp only [worked]
  by_cases early : charge < charges
  · rw [if_pos early,if_pos early]
  · rw [if_neg early,if_neg early]
    by_cases differ : charges ≠ revision
    · rw [if_pos differ,if_pos differ]
    · rw [if_neg differ,if_neg differ]
      by_cases full : 256 ≤ charges
      · rw [if_pos full,if_pos full]
      · rw [if_neg full,if_neg full]

theorem fullRecord_charged (charges : ℕ) : chargeCiRepairAttempt (tightenedCiRepairBudget
    (fullRecord charges) ⟨1000,1000,1000⟩) ['a'] (fullInput charges charges).counts 0 = fullRecord (charges + 1) := by
  obtain ⟨calls,tokens,_⟩ := receipt_counts
  have counts : (fullInput charges charges).counts = ⟨Text.numberText charges,1,0⟩ := by
    change (⟨Text.numberText charges,countOf (.finite 1),countOf (.finite 0)⟩ : CiRepairCharge ℕ) = _
    rw [calls,tokens]
  have attempt : chargeAttempt ⟨Text.numberText charges,1,0⟩ (fullAttempt charges) = fullAttempt (charges + 1) := by
    simp only [chargeAttempt,fullAttempt,range_succ,map_append,map_cons,map_nil]
  have attempts : ([fullAttempt charges].map fun attempt => if attempt.attemptId ≠ ['a'] then attempt
      else chargeAttempt ⟨Text.numberText charges,1,0⟩ attempt) = [fullAttempt (charges + 1)] :=
    congrArg (fun attempt => [attempt]) attempt
  rw [counts,chargeCiRepairAttempt]
  simp only [tightenedCiRepairBudget,fullRecord,attempts,Nat.min_self]

theorem written_row {key : RowKey} {state : State} {call : Call} {proposal : Proposal}
    (prepared : prepare key call state.row = .persists proposal)
    (allowed : persistRefusal true proposal state.row = none) (id : ℕ) :
    ([.call id call,.write id true].foldl (machine key).step state).row =
      some ⟨proposal.record.revision,proposal.record⟩ := by
  have waiting : CiRepairBudget.step key state (.call id call) =
      { state with pending := state.pending.set id ⟨call,proposal⟩ } := by
    rw [CiRepairBudget.step,prepared]
  change (CiRepairBudget.step key (CiRepairBudget.step key state (.call id call)) (.write id true)).row = _
  rw [waiting,CiRepairBudget.step]
  simp only [OrderedMap.get?_set_self]
  rw [persist_allowed allowed]

theorem fullBegin_row : ((machine fullKey).run (fullEvents 0)).row = some ⟨0,fullRecord 0⟩ := by
  have prepared : prepare fullKey fullBegin none = .persists ⟨none,fullRecord 0,none,0⟩ := by
    obtain ⟨_,_,_,_,_,_,_,_,same⟩ := fixed_values
    split at same
    · cases same
    next proposal persists =>
      rw [persists,of_decide_eq_true same]
  obtain ⟨_,_,_,_,_,_,_,allowed,_⟩ := fixed_values
  exact @written_row fullKey ⟨none,.empty⟩ fullBegin _ prepared allowed 0

theorem fullEvents_row {charges : ℕ} (few : charges ≤ 256) :
    ((machine fullKey).run (fullEvents charges)).row = some ⟨charges,fullRecord charges⟩ := by
  induction charges with
  | zero => exact fullBegin_row
  | succ charges ih =>
    have stored := ih (by omega)
    have evs : fullEvents (charges + 1) = fullEvents charges ++
        [.call 0 (fullCall (.charge (fullInput charges charges))),.write 0 true] := by
      simp only [fullEvents,range_succ,flatMap_append,flatMap_cons,flatMap_nil,append_nil,append_assoc]
    have prepared := @fullCharge_prepared charges charges charges (by omega) (by omega) (by omega)
    rw [if_neg (lt_irrefl charges),if_neg (fun differ => differ rfl),
      if_neg (by omega),fullRecord_charged] at prepared
    have allowed : persistRefusal true ⟨some (fullRecord charges),fullRecord (charges + 1),none,0⟩
        (some ⟨charges,fullRecord charges⟩) = none := by
      have valid := valid_iff.mpr (fullRecord_valid few)
      have bytes := (fullRecord_bytes few).trans (Nat.sub_le ciRepairMaxRecordBytes _)
      have same : unchanged (some (fullRecord charges)) (some ⟨charges,fullRecord charges⟩) = true :=
        decide_eq_true rfl
      rw [persistRefusal,if_neg (by decide),valid,if_neg (by decide),if_neg (Nat.not_lt.mpr bytes),same]
      rfl
    rw [← stored] at prepared allowed
    rw [evs,Machine.run_append]
    exact written_row prepared allowed 0

theorem answered_call {key : RowKey} {state : State} {call : Call} {res : CiRepairBudgetResult}
    (answered : prepare key call state.row = .answered res) (id : ℕ) :
    (machine key).notes state (.call id call) = [.answered call res] ∧
      (machine key).step state (.call id call) = state := by
  constructor
  · change CiRepairBudget.notes key state (.call id call) = _
    rw [CiRepairBudget.notes,answered]
  · change CiRepairBudget.step key state (.call id call) = _
    rw [CiRepairBudget.step,answered]

theorem fullInput_safe {charges : ℕ} (few : charges ≤ 256) :
    Safe (fullRecord charges) (fullInput charges charges).counts := by
  obtain ⟨calls,tokens,_⟩ := receipt_counts
  refine ⟨?_,?_,?_⟩
  · change charges + 1 ≤ _
    rw [maxSafeInteger]
    omega
  · change charges + countOf (.finite 1) ≤ _
    rw [calls,maxSafeInteger]
    omega
  · change 0 + countOf (.finite 0) ≤ _
    rw [tokens]
    exact Nat.zero_le _

theorem full_replays {charges : ℕ} (full : charges = 256) :
    let last := fullCall (.charge (fullInput (charges - 1) charges))
    let next := fullCall (.charge (fullInput charges charges))
    let state := (machine fullKey).run (fullEvents charges)
    (machine fullKey).notes state (.call 0 last) = [.answered last (.replayed (fullRecord charges))] ∧
      ((machine fullKey).step state (.call 0 last)).row = some ⟨charges,fullRecord charges⟩ ∧
      Safe (fullRecord charges) (fullInput charges charges).counts ∧
      prepare fullKey next (some ⟨charges,fullRecord charges⟩) =
        .answered (.blocked .storageCapacity (some (fullRecord charges))) := by
  intro last next state
  have stored : state.row = _ := @fullEvents_row charges (by omega)
  have replayed := @fullCharge_prepared charges (charges - 1) charges (by omega) (by omega) (by omega)
  have refused := @fullCharge_prepared charges charges charges (by omega) (by omega) (by omega)
  rw [if_pos (by omega),← stored] at replayed
  rw [if_neg (by omega),if_neg (fun differ => differ rfl),if_pos (by omega)] at refused
  obtain ⟨noted,kept⟩ := answered_call replayed 0
  refine ⟨noted,?_,fullInput_safe (by omega),refused⟩
  rw [kept]
  exact stored

/-- After 256 charges the last of them is answered again, not blocked, and the next one finds no room. -/
theorem replayed_charge_refused :
    let last := fullCall (.charge (fullInput 255 256))
    let next := fullCall (.charge (fullInput 256 256))
    let state := (machine fullKey).run (fullEvents 256)
    (machine fullKey).notes state (.call 0 last) = [.answered last (.replayed (fullRecord 256))] ∧
      ((machine fullKey).step state (.call 0 last)).row = some ⟨256,fullRecord 256⟩ ∧
      Safe (fullRecord 256) (fullInput 256 256).counts ∧
      prepare fullKey next (some ⟨256,fullRecord 256⟩) =
        .answered (.blocked .storageCapacity (some (fullRecord 256))) :=
  full_replays rfl

end FullAttempt

end Keiko.CiRepairBudget
