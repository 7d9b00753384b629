import Keiko.SupervisedApproval

/-! What holds in every run of the approval store: whoever consumes an approval presents the token of
one that was issued for the same binding and still stands. -/
namespace Keiko.SupervisedApproval
open Keiko.Library List OrderedMap

section Standing

variable {notes more : List Note} {binding : Binding} {approval : IssuedApproval} {last : ℚ} {note : Note}

def Note.use? (approvalId : Text) : Note → Option ℚ
  | .consumed input _ => if input.approval.approvalId = approvalId then some input.nowMs else none
  | _ => none

def lastUse (approval : IssuedApproval) (later : List Note) : ℚ :=
  ((later.filterMap (Note.use? approval.approval.approvalId)).getLast?).getD approval.approvedAtMs

def Invalidates (binding : Binding) : Note → Prop
  | .runInvalidated runId => runId = binding.base.runId
  | .policyInvalidated version => ∃ bound, binding.policyVersion = some bound ∧ bound ≠ version
  | _ => False

/-- A use of an approval that may be used once. -/
def Spends (binding : Binding) (approval : IssuedApproval) : Note → Prop
  | .consumed input _ =>
    binding.grantScope = .once ∧ input.approval.approvalId = approval.approval.approvalId
  | _ => False

def Stands (notes : List Note) (binding : Binding) (approval : IssuedApproval) (last : ℚ) : Prop :=
  ∃ earlier later, notes = earlier ++ .issued binding approval :: later ∧
    (∀ note ∈ later, ¬ Invalidates binding note ∧ ¬ Spends binding approval note) ∧
    lastUse approval later = last

theorem Stands.issued (notes : List Note) (binding : Binding) (approval : IssuedApproval) :
    Stands (notes ++ [.issued binding approval]) binding approval approval.approvedAtMs :=
  ⟨notes,[],rfl,nofun,rfl⟩

theorem Stands.snoc (stands : Stands notes binding approval last)
    (valid : ¬ Invalidates binding note) (unspent : ¬ Spends binding approval note) :
    Stands (notes ++ [note]) binding approval ((note.use? approval.approval.approvalId).getD last) := by
  obtain ⟨early,post,rfl,kept,rfl⟩ := stands
  refine ⟨early,post ++ [note],by rw [append_assoc,cons_append],?_,?_⟩
  · intro other mem
    rcases mem_append.mp mem with pre | now
    · exact kept other pre
    · rw [mem_singleton.mp now]
      exact ⟨valid,unspent⟩
  · rw [lastUse,lastUse,filterMap_append,getLast?_append]
    cases used : note.use? approval.approval.approvalId with
    | none =>
      rw [filterMap_cons_none used]
      rfl
    | some time =>
      rw [filterMap_cons_some used]
      rfl

end Standing

section Backing

variable {sha256Hex : Text → Text} {opts : Options} {texts : List Text} {records : Records}
  {notes more : List Note} {binding : Binding} {approval : IssuedApproval} {record : StoredRecord}
  {approvalId : Text} {last : ℚ} {note : Note}

def NoCollision (sha256Hex : Text → Text) (texts : List Text) : Prop :=
  ∀ first ∈ texts, ∀ second ∈ texts, sha256Hex first = sha256Hex second → first = second

def Event.hashed : Event → List Text
  | .issue binding input => [input.drawnToken,(Binding.once binding).text]
  | .issueTaskGrant binding input => [input.drawnToken,(Binding.task binding).text]
  | .consume input => [input.approval.approvalToken,input.binding.text]
  | _ => []

structure Backs (sha256Hex : Text → Text) (texts : List Text) (notes : List Note) (approvalId : Text)
    (record : StoredRecord) (binding : Binding) (approval : IssuedApproval) : Prop where
  stands : Stands notes binding approval record.lastActivityMs
  named : approval.approval.approvalId = approvalId
  hashed : binding.text ∈ texts ∧ approval.approval.approvalToken ∈ texts
  digest : approval.approvalDigest =
    SupervisedApproval.approvalDigest sha256Hex binding (sha256Hex approval.approval.approvalToken)
  same : record = ⟨binding.base.runId,supervisedCodingApprovalBindingHash sha256Hex binding,
    sha256Hex approval.approval.approvalToken,approval.approvedByUserId,approval.approvedAtMs,
    approval.expiresAtMs,binding.grantScope,binding.policyVersion,record.lastActivityMs⟩

def Backed (sha256Hex : Text → Text) (texts : List Text) (records : Records) (notes : List Note) :
    Prop :=
  ∀ approvalId record, records.get? approvalId = some record →
    ∃ binding approval, Backs sha256Hex texts notes approvalId record binding approval

theorem get?_of_prune {nowMs : ℚ} {limit : Number}
    (hit : (pruneExpired nowMs limit records).get? approvalId = some record) :
    records.get? approvalId = some record := by
  rw [← mem_entries] at hit ⊢
  exact (filter_sublist).subset ((dropOldest_suffix limit _).subset hit)

theorem Backs.snoc (backs : Backs sha256Hex texts notes approvalId record binding approval)
    (valid : ¬ Invalidates binding note) (unused : note.use? approvalId = none) :
    Backs sha256Hex texts (notes ++ [note]) approvalId record binding approval := by
  have unspent : ¬ Spends binding approval note := by
    cases note with
    | consumed input ans =>
      intro ⟨_,same⟩
      rw [Note.use?,if_pos (same.trans backs.named)] at unused
      cases unused
    | _ => exact id
  have stands := backs.stands.snoc valid unspent
  rw [backs.named,unused] at stands
  exact ⟨stands,backs.named,backs.hashed,backs.digest,backs.same⟩

theorem Backs.use {input : ConsumeInput}
    (backs : Backs sha256Hex texts notes input.approval.approvalId record binding approval)
    (task : record.grantScope = .task) (ans : ConsumedApproval) :
    Backs sha256Hex texts (notes ++ [.consumed input ans]) input.approval.approvalId
      { record with lastActivityMs := input.nowMs } binding approval := by
  have unspent : ¬ Spends binding approval (.consumed input ans) := by
    intro ⟨once,_⟩
    rw [backs.same,once] at task
    cases task
  have stands := backs.stands.snoc (show ¬ Invalidates binding (.consumed input ans) from id) unspent
  rw [Note.use?,if_pos backs.named.symm] at stands
  refine ⟨stands,backs.named,backs.hashed,backs.digest,?_⟩
  exact congrArg (fun kept => { kept with lastActivityMs := input.nowMs }) backs.same

theorem Backed.persist (backed : Backed sha256Hex texts records notes) {input : IssueInput}
    (hashed : input.drawnToken ∈ texts ∧ binding.text ∈ texts) :
    Backed sha256Hex texts (persistApproval sha256Hex opts binding input records).1
      (notes ++ (persistApproval sha256Hex opts binding input records).2) := by
  intro approvalId record hit
  rw [persistApproval] at hit ⊢
  dsimp only at hit ⊢
  rw [get?_set] at hit
  split at hit
  next here =>
    cases hit
    refine ⟨_,_,Stands.issued notes _ _,here.symm,hashed.symm,rfl,rfl⟩
  next elsewhere =>
    obtain ⟨other,early,backs⟩ := backed approvalId record (get?_of_prune hit)
    exact ⟨other,early,backs.snoc id rfl⟩

theorem consume_cases (sha256Hex : Text → Text) (opts : Options) (input : ConsumeInput) (records : Records) :
    ((consumeApprovalRecord sha256Hex opts input records).2 = [] ∧ ∀ approvalId record,
      (consumeApprovalRecord sha256Hex opts input records).1.get? approvalId = some record →
        records.get? approvalId = some record) ∨
      ∃ record, records.get? input.approval.approvalId = some record ∧
        approvalRecordMatches sha256Hex record input = true ∧
        isIdle opts record input.nowMs = false ∧ isUngrantable record input = false ∧
        (consumeApprovalRecord sha256Hex opts input records).2 = [.consumed input
          ⟨approvalDigest sha256Hex input.binding record.tokenHash,record.approvedByUserId,
            record.approvedAtMs,record.expiresAtMs,record.grantScope⟩] ∧
        ∀ approvalId other, (consumeApprovalRecord sha256Hex opts input records).1.get? approvalId = some other →
            approvalId = input.approval.approvalId ∧ record.grantScope = .task ∧
                other = { record with lastActivityMs := input.nowMs } ∨
              approvalId ≠ input.approval.approvalId ∧ records.get? approvalId = some other := by
  have fewer {approvalId : Text} {other : StoredRecord} {key : Text}
      (hit : ((pruneExpired input.nowMs opts.limit records).delete key).get? approvalId = some other) :
      approvalId ≠ key ∧ records.get? approvalId = some other := by
    rw [get?_delete] at hit
    split at hit
    · cases hit
    next elsewhere => exact ⟨elsewhere,get?_of_prune hit⟩
  rw [consumeApprovalRecord]
  split
  · exact .inl ⟨rfl,fun approvalId other hit => get?_of_prune hit⟩
  next record held =>
    split
    · exact .inl ⟨rfl,fun approvalId other hit => get?_of_prune hit⟩
    next fits =>
      split
      · exact .inl ⟨rfl,fun approvalId other hit => (fewer hit).2⟩
      next active =>
        split
        · exact .inl ⟨rfl,fun approvalId other hit => (fewer hit).2⟩
        next grantable =>
          rw [Bool.not_eq_true,Bool.not_eq_false'] at fits
          refine .inr ⟨record,get?_of_prune held,fits,Bool.eq_false_iff.mpr active,
            Bool.eq_false_iff.mpr grantable,rfl,?_⟩
          intro approvalId other hit
          split at hit
          · exact .inr (fewer hit)
          next task =>
            rw [get?_set] at hit
            split at hit
            next here =>
              cases hit
              exact .inl ⟨here,not_not.mp task,rfl⟩
            next elsewhere => exact .inr ⟨elsewhere,get?_of_prune hit⟩

theorem Backed.consume (backed : Backed sha256Hex texts records notes) (input : ConsumeInput) :
    Backed sha256Hex texts (consumeApprovalRecord sha256Hex opts input records).1
      (notes ++ (consumeApprovalRecord sha256Hex opts input records).2) := by
  rcases consume_cases sha256Hex opts input records with
    ⟨quiet,fewer⟩ | ⟨record,held,_,_,_,noted,stays⟩
  · rw [quiet,append_nil]
    intro approvalId record hit
    exact backed approvalId record (fewer approvalId record hit)
  · intro approvalId other hit
    rw [noted]
    rcases stays approvalId other hit with ⟨rfl,task,rfl⟩ | ⟨elsewhere,pre⟩
    · obtain ⟨binding,approval,backs⟩ := backed _ record held
      exact ⟨binding,approval,backs.use task _⟩
    · obtain ⟨binding,approval,backs⟩ := backed approvalId other pre
      refine ⟨binding,approval,backs.snoc id ?_⟩
      exact if_neg (Ne.symm elsewhere)

theorem Backed.filter (backed : Backed sha256Hex texts records notes) (keep : Text → StoredRecord → Bool) (note : Note)
    (unused : ∀ approvalId, note.use? approvalId = none)
    (valid : ∀ approvalId record binding approval, Backs sha256Hex texts notes approvalId record binding approval →
        keep approvalId record = true → ¬ Invalidates binding note) :
    Backed sha256Hex texts (records.filter keep) (notes ++ [note]) := by
  intro approvalId record hit
  rw [get?_filter,Option.filter_eq_some_iff] at hit
  obtain ⟨pre,kept⟩ := hit
  obtain ⟨binding,approval,backs⟩ := backed approvalId record pre
  exact ⟨binding,approval,backs.snoc (valid _ _ _ _ backs kept) (unused approvalId)⟩

theorem Backed.step (backed : Backed sha256Hex texts records notes) (ev : Event)
    (hashed : ∀ t ∈ ev.hashed, t ∈ texts) :
    Backed sha256Hex texts (effect sha256Hex opts ev records).1
      (notes ++ (effect sha256Hex opts ev records).2) := by
  cases ev with
  | issue binding input =>
    exact backed.persist ⟨hashed _ (by simp [Event.hashed]),hashed _ (by simp [Event.hashed])⟩
  | issueTaskGrant binding input =>
    rw [effect]
    split
    · exact backed.persist ⟨hashed _ (by simp [Event.hashed]),hashed _ (by simp [Event.hashed])⟩
    · rw [Effect.skip,append_nil]
      exact backed
  | consume input => exact backed.consume input
  | invalidateRun runId =>
    apply backed.filter _ _ fun _ => rfl
    intro approvalId record binding approval backs kept same
    rw [backs.same,bne_iff_ne] at kept
    exact kept same.symm
  | invalidateStaleByPolicyVersion v =>
    apply backed.filter _ _ fun _ => rfl
    rintro approvalId record binding approval backs kept ⟨bound,policy,stale⟩
    cases binding with
    | once binding => cases policy
    | task binding =>
      cases policy
      rw [backs.same] at kept
      simp only [Binding.grantScope,Binding.policyVersion,decide_true,Bool.true_and,
        Bool.not_eq_true',bne_eq_false_iff_eq,Option.some.injEq] at kept
      exact stale kept

end Backing

section Runs

variable {sha256Hex : Text → Text} {options : Options} {texts : List Text} {rows : Records}
  {notes : List Note} {events : List Event}

def Reusable (options : Options) (last : ℚ) (input : ConsumeInput) : Prop :=
  isSupervisedActionTaskGrantable input.binding.base.actionKind = true ∧
    ¬ options.idleWindow.Less (.finite (input.nowMs - last))

/-- What an approval is consumed by: its own token, for the binding that it was issued for. -/
structure Covers (options : Options) (before : List Note) (input : ConsumeInput)
    (answer : ConsumedApproval) (binding : Binding) (approval : IssuedApproval) (last : ℚ) : Prop where
  stands : Stands before binding approval last
  presented : input.approval = approval.approval
  same : input.binding.forgetRequest = binding.forgetRequest
  unexpired : Number.Less (.finite input.nowMs) approval.expiresAtMs
  reusable : binding.grantScope = .task → Reusable options last input
  answer : answer = ⟨approval.approvalDigest,approval.approvedByUserId,approval.approvedAtMs,
    approval.expiresAtMs,binding.grantScope⟩

/-- What the store notes: that it issues an approval with a bounded lifetime, and that it lets an
approval be consumed that covers the action. -/
def Permitted (options : Options) (before : List Note) : Note → Prop
  | .issued binding approval =>
    (∃ requestedMs, approval.expiresAtMs = (Number.finite approval.approvedAtMs).add
      (boundedLifetime requestedMs options.lifetime)) ∧
      (binding.grantScope = .task → isSupervisedActionTaskGrantable binding.base.actionKind = true)
  | .consumed input answer => ∃ binding approval last,
      Covers options before input answer binding approval last
  | _ => True

theorem Backed.covers (collision_free : NoCollision sha256Hex texts)
    (backed : Backed sha256Hex texts rows notes) {input : ConsumeInput} {record : StoredRecord}
    (hashed : ∀ t ∈ (Event.consume input).hashed, t ∈ texts)
    (hit : rows.get? input.approval.approvalId = some record)
    (fits : approvalRecordMatches sha256Hex record input = true)
    (active : isIdle options record input.nowMs = false)
    (grantable : isUngrantable record input = false) :
    ∃ binding approval last, Covers options notes input
      ⟨approvalDigest sha256Hex input.binding record.tokenHash,record.approvedByUserId,
        record.approvedAtMs,record.expiresAtMs,record.grantScope⟩ binding approval last := by
  obtain ⟨binding,approval,backs⟩ := backed _ record hit
  have bound := backs.same
  rw [approvalRecordMatches,Bool.and_eq_true,Bool.and_eq_true,Bool.and_eq_true,decide_eq_true_eq,
    decide_eq_true_eq,decide_eq_true_eq,constantTimeHexEqual,Bool.and_eq_true,
    decide_eq_true_eq] at fits
  obtain ⟨⟨⟨unexpired,scope⟩,binding_hash⟩,_,token_hash⟩ := fits
  rw [bound] at unexpired scope binding_hash token_hash
  have t : binding.text = input.binding.text :=
    collision_free _ backs.hashed.1 _ (hashed _ (by simp [Event.hashed])) binding_hash
  have token : approval.approval.approvalToken = input.approval.approvalToken :=
    collision_free _ backs.hashed.2 _ (hashed _ (by simp [Event.hashed])) token_hash
  have written : CanonicalJson.canonicalise input.binding.scope = CanonicalJson.canonicalise binding.scope := by
    rw [canonicalText_eq _ input.binding.scope_canonical,canonicalText_eq _ binding.scope_canonical]
    exact congrArg Except.ok t.symm
  have same := Binding.scope_inj (CanonicalJson.canonicalise_injective
    input.binding.scope_canonical input.binding.scope_plain binding.scope_canonical
    binding.scope_plain written)
  refine ⟨binding,approval,record.lastActivityMs,backs.stands,?_,same,unexpired,?_,?_⟩
  · have named := backs.named
    cases approval_claim : approval.approval with
    | mk approvalId approvalToken =>
      rw [approval_claim] at named token
      cases input_claim : input.approval with
      | mk presentedId presentedToken =>
        rw [input_claim] at named token
        exact congrArg₂ Claim.mk named.symm token.symm
  · intro task
    have reusable : record.grantScope = .task := by
      rw [bound]
      exact task
    rw [isIdle,decide_eq_true reusable,Bool.true_and,decide_eq_false_iff_not] at active
    rw [isUngrantable,decide_eq_true reusable,Bool.true_and,Bool.not_eq_false'] at grantable
    exact ⟨grantable,active⟩
  · have digest : approvalDigest sha256Hex input.binding record.tokenHash = approval.approvalDigest := by
      rw [backs.digest,bound,approvalDigest,approvalDigest]
      simp only [supervisedCodingApprovalBindingHash,t]
    rw [digest,bound]

theorem backed_run (all : ∀ ev ∈ events, ∀ t ∈ ev.hashed, t ∈ texts) :
    Backed sha256Hex texts ((store sha256Hex options).run events) ((store sha256Hex options).noted events) := by
  apply Machine.holds_of_promised (fun ev => ∀ t ∈ ev.hashed, t ∈ texts)
    (Backed sha256Hex texts) _ _ events all
  · intro approvalId record hit
    cases hit
  · intro rows notes ev hashed backed
    exact backed.step ev hashed

theorem Backed.permitted (collision_free : NoCollision sha256Hex texts)
    (backed : Backed sha256Hex texts rows notes) (ev : Event)
    (hashed : ∀ t ∈ ev.hashed, t ∈ texts) :
    ∀ pre note after, (effect sha256Hex options ev rows).2 = pre ++ note :: after →
      Permitted options (notes ++ pre) note := by
  intro pre note after same
  cases ev with
  | issue binding input => exact allowed_of_single same ⟨⟨input.ttlMs,rfl⟩,nofun⟩
  | issueTaskGrant binding input =>
    rw [effect] at same
    split at same
    next grantable => exact allowed_of_single same ⟨⟨input.ttlMs,rfl⟩,fun _ => grantable⟩
    · simp [Effect.skip] at same
  | consume input =>
    rw [effect] at same
    rcases consume_cases sha256Hex options input rows with
      ⟨quiet,_⟩ | ⟨record,held,fits,active,grantable,noted,_⟩
    · rw [quiet] at same
      simp at same
    · rw [noted] at same
      apply allowed_of_single same
      exact backed.covers collision_free hashed held fits active grantable
  | invalidateRun runId => exact allowed_of_single same trivial
  | invalidateStaleByPolicyVersion v => exact allowed_of_single same trivial

theorem permitted_run (collision_free : NoCollision sha256Hex texts)
    (all : ∀ ev ∈ events, ∀ t ∈ ev.hashed, t ∈ texts) :
    Lawful (Permitted options) ((store sha256Hex options).noted events) := by
  induction events using reverseRecOn with
  | nil => exact Lawful.nil
  | append_singleton events ev ih =>
    have early : ∀ ev ∈ events, ∀ t ∈ ev.hashed, t ∈ texts := fun ev mem =>
      all ev (mem_append_left _ mem)
    rw [Machine.noted_snoc]
    apply (ih early).append
    exact (backed_run early).permitted collision_free ev (all ev (mem_append_right _ mem_cons_self))

def isOnceUse (approvalId : Text) : Note → Bool
  | .consumed input answer =>
    decide (answer.grantScope = .once) && decide (input.approval.approvalId = approvalId)
  | _ => false

def Note.issued? : Note → Option Text
  | .issued _ approval => some approval.approval.approvalId
  | _ => none

theorem issued_of_use (lawful : Lawful (Permitted options) notes) {note : Note} {approvalId : Text}
    (mem : note ∈ notes) (use : isOnceUse approvalId note = true) :
    approvalId ∈ notes.filterMap Note.issued? := by
  cases note with
  | consumed input ans =>
    obtain ⟨pre,after,rfl⟩ := append_of_mem mem
    obtain ⟨binding,approval,last,covers⟩ := lawful pre _ after rfl
    obtain ⟨early,post,rfl,_⟩ := covers.stands
    rw [isOnceUse,Bool.and_eq_true,decide_eq_true_eq,decide_eq_true_eq] at use
    apply mem_filterMap.mpr
    refine ⟨.issued binding approval,by simp,?_⟩
    rw [Note.issued?,← covers.presented,use.2]
  | _ => cases use

theorem once_used_once (lawful : Lawful (Permitted options) notes)
    (nodup : (notes.filterMap Note.issued?).Nodup) (approvalId : Text) :
    notes.countP (isOnceUse approvalId) ≤ 1 := by
  induction notes using reverseRecOn with
  | nil => exact Nat.zero_le 1
  | append_singleton notes note ih =>
    rw [filterMap_append] at nodup
    have pre := ih lawful.of_append (nodup.sublist (sublist_append_left _ _))
    rw [countP_append]
    by_cases use : isOnceUse approvalId note = true
    · cases note with
      | consumed input ans =>
        obtain ⟨binding,approval,last,covers⟩ := lawful.last
        obtain ⟨early,post,rfl,kept,_⟩ := covers.stands
        have scope := use
        rw [isOnceUse,Bool.and_eq_true,decide_eq_true_eq,decide_eq_true_eq] at scope
        have named : approval.approval.approvalId = approvalId := by
          rw [← covers.presented]
          exact scope.2
        have once : binding.grantScope = .once := by
          rw [covers.answer] at scope
          exact scope.1
        have unused : (early ++ .issued binding approval :: post).countP (isOnceUse approvalId) = 0 := by
          apply countP_eq_zero.mpr
          intro other mem other_use
          rcases mem_append.mp mem with past | behind
          · -- an earlier use would have had an earlier issue under the same id
            have issued := issued_of_use lawful.of_append.of_append past other_use
            have again : approvalId ∈ (Note.issued binding approval :: post).filterMap
                Note.issued? := mem_filterMap.mpr ⟨_,mem_cons_self,congrArg some named⟩
            rw [filterMap_append,append_assoc] at nodup
            exact (nodup_append.mp nodup).2.2 approvalId issued approvalId (mem_append_left _ again) rfl
          · rcases mem_cons.mp behind with rfl | inside
            · cases other_use
            · cases other with
              | consumed other_input other_answer =>
                rw [isOnceUse,Bool.and_eq_true,decide_eq_true_eq,decide_eq_true_eq] at other_use
                exact (kept _ inside).2 ⟨once,other_use.2.trans named.symm⟩
              | _ => cases other_use
        rw [unused,zero_add]
        exact countP_le_length
      | _ => cases use
    · rw [countP_cons_of_neg use]
      exact pre

theorem boundedLifetime_le {ceiling : Number} (configured : ceiling ≠ .nan) {issuedMs nowMs : ℚ}
    (requested : Option Number)
    (alive : Number.Less (.finite nowMs) ((Number.finite issuedMs).add (boundedLifetime requested ceiling))) :
    Number.Less (.finite nowMs) ((Number.finite issuedMs).add (Number.max 1 ceiling)) := by
  unfold boundedLifetime at alive
  rw [Number.one_eq] at alive ⊢
  split at alive
  · exact alive
  next requested =>
    cases ceiling with
    | nan => exact absurd rfl configured
    | infinity => trivial
    | negInfinity =>
      split at alive
      · exact alive
      next finite =>
        cases requested with
        | finite v =>
          change (Number.finite nowMs).Less ((Number.finite issuedMs).add (Number.min _ (.finite 1))) at alive
          rw [Number.max_finite,Number.min_finite] at alive
          exact lt_of_lt_of_le alive (add_le_add_right (min_le_right _ _) _)
        | _ => exact absurd rfl finite
    | finite longest =>
      rw [Number.max_finite] at alive ⊢
      split at alive
      · exact lt_of_lt_of_le alive (add_le_add_right (le_max_left _ _) _)
      next finite =>
        cases requested with
        | finite v =>
          rw [Number.max_finite,Number.min_finite] at alive
          exact lt_of_lt_of_le alive (add_le_add_right (min_le_right _ _) _)
        | _ => exact absurd rfl finite

/-- Every consumed approval was issued for the same binding, still stands and is presented by its
token; one that may be used once is used once, and none outlives the lifetime of the store. -/
theorem approvals_consumed (sha256Hex : Text → Text) (options : Options) (events : List Event)
    (collision_free : NoCollision sha256Hex (events.flatMap Event.hashed)) :
    let notes := (store sha256Hex options).noted events
    (∀ before input answer after, notes = before ++ .consumed input answer :: after →
        ∃ binding approval last, Covers options before input answer binding approval last) ∧
      ((notes.filterMap Note.issued?).Nodup → ∀ approvalId,
        notes.countP (isOnceUse approvalId) ≤ 1) ∧
      ∀ binding approval, .issued binding approval ∈ notes →
        (binding.grantScope = .task →
          isSupervisedActionTaskGrantable binding.base.actionKind = true) ∧
        (options.lifetime ≠ .nan → ∀ nowMs, Number.Less (.finite nowMs) approval.expiresAtMs →
          Number.Less (.finite nowMs)
            ((Number.finite approval.approvedAtMs).add (Number.max 1 options.lifetime))) := by
  intro notes
  have hashed : ∀ event ∈ events, ∀ text ∈ event.hashed, text ∈ events.flatMap Event.hashed :=
    fun event member text inside => mem_flatMap.mpr ⟨event,member,inside⟩
  have lawful : Lawful (Permitted options) notes := permitted_run collision_free hashed
  refine ⟨?_,once_used_once lawful,?_⟩
  · intro before input answer after same
    exact lawful before _ after same
  · intro binding approval member
    obtain ⟨before,after,same⟩ := append_of_mem member
    obtain ⟨⟨requested,expires⟩,grantable⟩ := lawful before _ after same
    refine ⟨grantable,?_⟩
    intro configured nowMs alive
    rw [expires] at alive
    exact boundedLifetime_le configured requested alive

def sampleBinding : BindingBase :=
  ⟨"run-1".toList,"request-1".toList,.fileEdit,List.replicate 64 'a',[]⟩

def sampleToken : Text := List.replicate 64 '0'

def sampleEvents : List Event :=
  [.issue sampleBinding ⟨"user-1".toList,1000,none,List.replicate 32 '1',sampleToken⟩,
    .consume ⟨⟨"sca_".toList ++ List.replicate 32 '1',sampleToken⟩,.once sampleBinding,1500⟩]

/-- The hashes of the token and of the text of the binding. -/
def sampleSha256Hex (text : Text) : Text :=
  if text = sampleToken then
    "60e05bd1b195af2f94112fa7197a5c88289058840ce7c6df9693756bc6250f55".toList
  else "a492a3770f8855f26f2c7414f65e311fcfdaa18678a4f39423db4e43cbadbe8f".toList

def defaults : Options := ⟨none,none,none⟩

theorem sample_text_ne : (Binding.once sampleBinding).text ≠ sampleToken := by
  have written := canonicalText_eq _ (Binding.once sampleBinding).scope_canonical
  rw [CanonicalJson.canonicalise,CanonicalJson.encode_canonical _
    (Binding.once sampleBinding).scope_canonical] at written
  rw [Binding.text,← Except.ok.inj written]
  exact fun same => absurd (congrArg head? same) (by decide)

theorem sample_collision_free : NoCollision sampleSha256Hex (sampleEvents.flatMap Event.hashed) := by
  have apart : sampleSha256Hex sampleToken ≠ sampleSha256Hex (Binding.once sampleBinding).text := by
    rw [sampleSha256Hex,sampleSha256Hex,if_pos rfl,if_neg sample_text_ne]
    decide
  have hashed (t : Text) (mem : t ∈ sampleEvents.flatMap Event.hashed) :
      t = sampleToken ∨ t = (Binding.once sampleBinding).text := by
    simp only [sampleEvents,Event.hashed,flatMap_cons,flatMap_nil,mem_append,mem_cons,not_mem_nil,or_false] at mem
    exact or_self_iff.mp mem
  intro a first_hashed b second_hashed same
  rcases hashed a first_hashed with rfl | rfl <;>
    rcases hashed b second_hashed with rfl | rfl
  · rfl
  · exact absurd same apart
  · exact absurd same.symm apart
  · rfl

/-- The token of an approval is presented for its binding, half a second behind the issue. -/
theorem approvals_consumed_sample :
    NoCollision sampleSha256Hex (sampleEvents.flatMap Event.hashed) ∧
      ∀ before input answer after,
        (store sampleSha256Hex defaults).noted sampleEvents =
          before ++ .consumed input answer :: after →
        ∃ binding approval last, Covers defaults before input answer binding approval last :=
  ⟨sample_collision_free,
    (approvals_consumed sampleSha256Hex defaults sampleEvents sample_collision_free).1⟩

/-- A store of no lifetime at all still lets its approvals live for a millisecond. -/
theorem approvals_outlive_lifetime : ¬ ∀ (sha256Hex : Text → Text) (options : Options)
    (events : List Event) binding approval,
    .issued binding approval ∈ (store sha256Hex options).noted events →
      approval.expiresAtMs.LessEq
        ((Number.finite approval.approvedAtMs).add options.lifetime) := by
  intro bounded
  have outlived := bounded id ⟨none,some 0,none⟩ [.issue sampleBinding
    ⟨"user-1".toList,1000,none,replicate 32 '1',sampleToken⟩] _ _ mem_cons_self
  change ((Number.finite 1000).add (Number.max (.finite _) (.finite _))).LessEq
    (.finite (1000 + _)) at outlived
  rw [Number.max_finite] at outlived
  change (1000 : ℚ) + _ ≤ 1000 + _ at outlived
  norm_num at outlived

end Runs

end Keiko.SupervisedApproval
