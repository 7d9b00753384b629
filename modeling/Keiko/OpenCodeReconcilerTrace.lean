import Keiko.OpenCodeReconciler

/-! What holds in every run of the reconciler: of an aggregate the events are applied from zero on, one
by one, until its checkpoint is given up; what is critical is not evicted before it is acknowledged;
and a commit takes effect only on the store that it was prepared from. -/
namespace Keiko.OpenCode
open Keiko.Library Keiko.Runtime List OrderedMap

section Identity

variable {ev other : OpenCodeReconciliationEvent}

theorem valid_sequence (well : valid ev = true) :
    ev.sequence = .finite (ev.position : ℤ) ∧ (ev.position : ℤ) ≤ maxSafeInteger := by
  have safe : isSafeIntegerFrom 0 ev.sequence = true := by
    simp only [valid,Bool.and_eq_true] at well
    exact well.1.1.1.2
  rw [OpenCodeReconciliationEvent.position]
  cases sequence : ev.sequence with
  | finite v =>
    rw [sequence] at safe
    simp only [isSafeIntegerFrom,Bool.and_eq_true,decide_eq_true_eq,beq_iff_eq] at safe
    obtain ⟨⟨whole,nonnegative⟩,small⟩ := safe
    simp only
    rw [Int.toNat_of_nonneg nonnegative]
    refine ⟨congrArg Number.finite ?_,small⟩
    exact (Rat.coe_int_num_of_den_eq_one whole).symm
  | infinity =>
    rw [sequence] at safe
    cases safe
  | negInfinity =>
    rw [sequence] at safe
    cases safe
  | nan =>
    rw [sequence] at safe
    cases safe

theorem position_exact (well : valid ev = true) : Binary64.Exact ((ev.position : ℤ) : ℚ) := by
  have small := (valid_sequence well).2
  apply Binary64.exact_intCast
  rw [maxSafeInteger] at small
  rw [abs_of_nonneg (Int.natCast_nonneg _)]
  omega

theorem append_cons_inj {a b left right : Text} {mark : Char} (absent : mark ∉ left)
    (gone : mark ∉ right) (same : a ++ mark :: left = b ++ mark :: right) :
    a = b ∧ left = right := by
  rcases append_eq_append_iff.mp same with ⟨more,longer,rest⟩ | ⟨more,longer,rest⟩
  · cases more with
    | nil =>
      rw [append_nil] at longer
      exact ⟨longer.symm,(cons.inj rest).2⟩
    | cons head more =>
      have tail := (cons.inj rest).2
      rw [tail] at absent
      exact absurd (mem_append_right _ mem_cons_self) absent
  · cases more with
    | nil =>
      rw [append_nil] at longer
      exact ⟨longer,((cons.inj rest).2).symm⟩
    | cons head more =>
      have tail := (cons.inj rest).2
      rw [tail] at gone
      exact absurd (mem_append_right _ mem_cons_self) gone

theorem zero_not_mem_numberText {x : ℚ} (exact : Binary64.Exact x) : Char.ofNat 0 ∉ Decimal.numberText x := by
  have foreign : Decimal.isNumberChar (Char.ofNat 0) = false := by decide
  intro mem
  have n := (Decimal.numberText_shape exact).1 _ mem
  rw [foreign] at n
  cases n

theorem sequenceText_position (well : valid ev = true) :
    sequenceText ev.sequence = Decimal.numberText (ev.position : ℤ) := by
  have seq := (valid_sequence well).1
  generalize ev.position = pos at seq ⊢
  rw [seq]
  rfl

theorem numberText_inj {x y : ℚ} (exact : Binary64.Exact x) (also : Binary64.Exact y)
    (same : Decimal.numberText x = Decimal.numberText y) : x = y := by
  have first := Decimal.readNumber_numberText exact (show Decimal.Ends [] from nofun)
  have b := Decimal.readNumber_numberText also (show Decimal.Ends [] from nofun)
  rw [same,b] at first
  cases first
  rfl

theorem eventIdentity_inj (well : valid ev = true) (also : valid other = true)
    (same : eventIdentity ev = eventIdentity other) :
    ev.aggregateId = other.aggregateId ∧ ev.position = other.position := by
  have exact := position_exact well
  have other_exact := position_exact also
  rw [eventIdentity,eventIdentity,sequenceText_position well,sequenceText_position also] at same
  obtain ⟨aggregate,seq⟩ := append_cons_inj (zero_not_mem_numberText exact)
    (zero_not_mem_numberText other_exact) same
  refine ⟨aggregate,?_⟩
  have numbers := numberText_inj exact other_exact seq
  exact_mod_cast numbers

end Identity

section History

variable {notes more : List Note} {identity aggregateId : Text} {ev : OpenCodeReconciliationEvent}
  {note : Note}

def appliedSince (aggregateId : Text) (notes : List Note) : List ℕ :=
  notes.foldl (fun positions note =>
    match note with
    | .applied ev =>
      if ev.aggregateId = aggregateId then positions ++ [ev.position] else positions
    | .forgotten forgotten => if forgotten = aggregateId then [] else positions
    | _ => positions) []

def Acknowledged (notes : List Note) (identity : Text) : Prop :=
  ∃ before after, notes = before ++ .acknowledged identity :: after ∧
    ∀ ev, .applied ev ∈ after → eventIdentity ev ≠ identity

def Retains (notes : List Note) (ev : OpenCodeReconciliationEvent) : Prop :=
  ∃ before after, notes = before ++ .applied ev :: after ∧ .evicted ev ∉ after

def Undisturbed (notes : List Note) (handle : ℕ) : Prop :=
  ∃ before after, notes = before ++ .prepared handle :: after ∧
    (∀ other, .committed other ∉ after) ∧ ∀ identity, .acknowledged identity ∉ after

def InOrder (before : List Note) : Note → Prop
  | .applied ev => ev.position = (appliedSince ev.aggregateId before).length
  | .projected projection => ∃ earlier ev, before = earlier ++ [.applied ev] ∧
      projection = project ev
  | .evicted ev => ev.kind = .observation ∨ Acknowledged before (eventIdentity ev)
  | .forgotten aggregateId => ∀ ev, Retains before ev → ev.aggregateId ≠ aggregateId
  | .committed handle => Undisturbed before handle
  | _ => True

theorem appliedSince_append : appliedSince aggregateId (notes ++ more) = more.foldl (fun positions note =>
      match note with
      | .applied ev =>
        if ev.aggregateId = aggregateId then positions ++ [ev.position] else positions
      | .forgotten forgotten => if forgotten = aggregateId then [] else positions
      | _ => positions) (appliedSince aggregateId notes) := foldl_append

theorem appliedSince_applied : appliedSince aggregateId (notes ++ [.applied ev]) =
    if ev.aggregateId = aggregateId then appliedSince aggregateId notes ++ [ev.position]
    else appliedSince aggregateId notes := appliedSince_append

theorem appliedSince_forgotten {forgotten : Text} : appliedSince aggregateId (notes ++ [.forgotten forgotten]) =
      if forgotten = aggregateId then [] else appliedSince aggregateId notes := appliedSince_append

theorem snoc_eq {pre after : List Note} {middle : Note}
    (same : notes ++ [note] = pre ++ middle :: after) :
    (after = [] ∧ pre = notes ∧ middle = note) ∨
      ∃ early, after = early ++ [note] ∧ notes = pre ++ middle :: early := by
  rcases eq_nil_or_concat after with rfl | ⟨early,last,rfl⟩
  · obtain ⟨rfl,one⟩ := append_inj' same rfl
    exact .inl ⟨rfl,rfl,(cons.inj one).1.symm⟩
  · rw [concat_eq_append,← cons_append,← append_assoc] at same
    obtain ⟨rest,one⟩ := append_inj' same rfl
    rw [(cons.inj one).1]
    exact .inr ⟨early,concat_eq_append,rest⟩

theorem Acknowledged.snoc (acknowledged : Acknowledged notes identity)
    (other : ∀ ev, note = .applied ev → eventIdentity ev ≠ identity) :
    Acknowledged (notes ++ [note]) identity := by
  obtain ⟨pre,after,rfl,post⟩ := acknowledged
  refine ⟨pre,after ++ [note],by simp,?_⟩
  intro ev mem
  rcases mem_append.mp mem with old | new
  · exact post ev old
  · exact other ev (mem_singleton.mp new).symm

theorem Retains.of_snoc (retains : Retains (notes ++ [note]) ev) :
    note = .applied ev ∨ Retains notes ev ∧ note ≠ .evicted ev := by
  obtain ⟨pre,after,same,kept⟩ := retains
  rcases snoc_eq same with ⟨_,_,here⟩ | ⟨early,rfl,rest⟩
  · exact .inl here.symm
  · rw [mem_append,not_or] at kept
    exact .inr ⟨⟨pre,early,rest,kept.1⟩,fun evicts => kept.2 (by rw [evicts]; simp)⟩

theorem Undisturbed.snoc {handle : ℕ} (undisturbed : Undisturbed notes handle)
    (commits : ∀ other, note ≠ .committed other) (acknowledges : ∀ identity, note ≠ .acknowledged identity) :
    Undisturbed (notes ++ [note]) handle := by
  obtain ⟨pre,after,rfl,uncommitted,unacknowledged⟩ := undisturbed
  refine ⟨pre,after ++ [note],by simp,?_,?_⟩
  · intro other mem
    rcases mem_append.mp mem with old | new
    · exact uncommitted other old
    · exact commits other (mem_singleton.mp new).symm
  · intro identity mem
    rcases mem_append.mp mem with old | new
    · exact unacknowledged identity old
    · exact acknowledges identity (mem_singleton.mp new).symm

end History

section Sound

variable {retained : Retained} {notes : List Note} {ev : OpenCodeReconciliationEvent}

def upcoming (checkpoint : OrderedMap Text ℕ) (aggregateId : Text) : ℕ :=
  ((checkpoint.get? aggregateId).map (· + 1)).getD 0

structure Sound (retained : Retained) (notes : List Note) : Prop where
  lawful : Lawful InOrder notes
  well : ∀ ev ∈ retained.staged, valid ev = true
  distinct : (retained.staged.map eventIdentity).Nodup
  digestsDistinct : (retained.staged.map (·.digest)).Nodup
  identities : ∀ identity digest, retained.identities.get? identity = some digest ↔
    ∃ ev ∈ retained.staged, eventIdentity ev = identity ∧ ev.digest = digest
  digests : ∀ digest, retained.digests.has digest = true ↔ ∃ ev ∈ retained.staged, ev.digest = digest
  acknowledged : ∀ identity, retained.acknowledged.has identity = true →
    (∃ ev ∈ retained.staged, eventIdentity ev = identity) ∧ Acknowledged notes identity
  reached : ∀ ev ∈ retained.staged, ev.position < upcoming retained.checkpoint ev.aggregateId
  since : ∀ aggregateId, appliedSince aggregateId notes = List.range (upcoming retained.checkpoint aggregateId)
  retains : ∀ ev, Retains notes ev → ev ∈ retained.staged

theorem Sound.start : Sound emptyStore.toRetained [] := by
  refine ⟨Lawful.nil,?_,nodup_nil,nodup_nil,?_,?_,?_,?_,?_,?_⟩
  · exact fun ev mem => nomatch mem
  · intro identity digest
    constructor
    · exact fun hit => nomatch hit
    · exact fun ⟨_,mem,_⟩ => nomatch mem
  · intro digest
    constructor
    · exact fun hit => nomatch hit
    · exact fun ⟨_,mem,_⟩ => nomatch mem
  · exact fun identity hit => nomatch hit
  · exact fun ev mem => nomatch mem
  · exact fun aggregateId => rfl
  · intro ev ⟨pre,after,same,_⟩
    simp at same

def Note.isPlain : Note → Bool
  | .prepared _ | .committed _ | .repeated _ | .refused _ | .projected _ => true
  | _ => false

theorem Sound.plain (sound : Sound retained notes) {note : Note} (plain : note.isPlain = true)
    (next : InOrder notes note) : Sound retained (notes ++ [note]) := by
  have unapplied : ∀ ev, note ≠ .applied ev := by
    intro ev same
    rw [same] at plain
    cases plain
  refine { sound with
    lawful := sound.lawful.snoc next, acknowledged := ?_, since := ?_, retains := ?_ }
  · intro identity hit
    obtain ⟨here,acknowledged⟩ := sound.acknowledged identity hit
    exact ⟨here,acknowledged.snoc fun ev same => absurd same (unapplied ev)⟩
  · intro aggregateId
    rw [← sound.since aggregateId,appliedSince_append]
    cases note with
    | applied ev => exact absurd rfl (unapplied ev)
    | forgotten other => cases plain
    | _ => rfl
  · intro ev retains
    rcases retains.of_snoc with applied | ⟨still,_⟩
    · exact absurd applied (unapplied ev)
    · exact sound.retains ev still

def evictOne (retained : Retained) (ev : OpenCodeReconciliationEvent)
    (others : List OpenCodeReconciliationEvent) : Retained :=
  { retained with
    staged := others
    identities := retained.identities.delete (eventIdentity ev)
    acknowledged := retained.acknowledged.delete (eventIdentity ev)
    digests := retained.digests.delete ev.digest }

theorem Sound.evict (sound : Sound retained notes) {others : List OpenCodeReconciliationEvent}
    (taken : retained.staged.Perm (ev :: others))
    (may : ev.kind = .observation ∨ retained.acknowledged.has (eventIdentity ev) = true) :
    Sound (evictOne retained ev others) (notes ++ [.evicted ev]) := by
  have nodup := (taken.map eventIdentity).nodup_iff.mp sound.distinct
  have digestsDistinct := (taken.map (·.digest)).nodup_iff.mp sound.digestsDistinct
  rw [map_cons,nodup_cons] at nodup digestsDistinct
  have inside {other : OpenCodeReconciliationEvent} (mem : other ∈ others) :
      other ∈ retained.staged := taken.mem_iff.mpr (mem_cons_of_mem _ mem)
  have split {other : OpenCodeReconciliationEvent} (mem : other ∈ retained.staged) :
      other = ev ∨ other ∈ others := mem_cons.mp (taken.mem_iff.mp mem)
  have identity_ne {other : OpenCodeReconciliationEvent} (mem : other ∈ others) :
      eventIdentity other ≠ eventIdentity ev :=
    fun same => nodup.1 (mem_map.mpr ⟨other,mem,same⟩)
  have digest_ne {other : OpenCodeReconciliationEvent} (mem : other ∈ others) : other.digest ≠ ev.digest :=
    fun same => digestsDistinct.1 (mem_map.mpr ⟨other,mem,same⟩)
  refine ⟨?_,?_,nodup.2,digestsDistinct.2,?_,?_,?_,?_,?_,?_⟩
  · apply sound.lawful.snoc
    rcases may with observed | acknowledged
    · exact .inl observed
    · exact .inr (sound.acknowledged _ acknowledged).2
  · exact fun other mem => sound.well other (inside mem)
  · intro identity digest
    rw [evictOne,get?_delete]
    constructor
    · intro hit
      split at hit
      · cases hit
      next differ =>
        obtain ⟨other,mem,named,own⟩ := (sound.identities identity digest).mp hit
        rcases split mem with rfl | still
        · exact absurd named.symm differ
        · exact ⟨other,still,named,own⟩
    · rintro ⟨other,mem,named,own⟩
      rw [if_neg]
      · exact (sound.identities identity digest).mpr ⟨other,inside mem,named,own⟩
      · exact fun same => identity_ne mem (named.trans same)
  · intro digest
    rw [evictOne,has,get?_delete]
    constructor
    · intro hit
      split at hit
      · cases hit
      next differ =>
        obtain ⟨other,mem,own⟩ := (sound.digests digest).mp hit
        rcases split mem with rfl | still
        · exact absurd own.symm differ
        · exact ⟨other,still,own⟩
    · rintro ⟨other,mem,own⟩
      rw [if_neg]
      · exact (sound.digests digest).mpr ⟨other,inside mem,own⟩
      · exact fun same => digest_ne mem (own.trans same)
  · intro identity hit
    rw [evictOne,has,get?_delete] at hit
    split at hit
    · cases hit
    next differ =>
      obtain ⟨⟨other,mem,named⟩,acknowledged⟩ := sound.acknowledged identity hit
      refine ⟨?_,acknowledged.snoc fun _ same => by cases same⟩
      rcases split mem with rfl | still
      · exact absurd named.symm differ
      · exact ⟨other,still,named⟩
  · exact fun other mem => sound.reached other (inside mem)
  · intro aggregateId
    rw [appliedSince_append]
    exact sound.since aggregateId
  · intro other retains
    rcases retains.of_snoc with applied | ⟨still,kept⟩
    · cases applied
    · rcases split (sound.retains other still) with rfl | mem
      · exact absurd rfl kept
      · exact mem

end Sound

section Staging

variable {lim : Limits} {retained : Retained} {log : List Note}
  {ev : OpenCodeReconciliationEvent} {s next : PreparedReconciliationState} {clock : ℕ → Number}
  {staged evicted others : List OpenCodeReconciliationEvent} {acknowledged : OrderedMap Text Unit}
  {forgotten : Text}

theorem takeEvictable_taken (taken : takeEvictable acknowledged staged = some (ev,others)) :
    staged.Perm (ev :: others) ∧ (ev.kind = .observation ∨ acknowledged.has (eventIdentity ev) = true) := by
  induction staged generalizing others with
  | nil => cases taken
  | cons a staged ih =>
    rw [takeEvictable] at taken
    split at taken
    next may =>
      cases taken
      exact ⟨List.Perm.refl _,may⟩
    next =>
      obtain ⟨⟨hit,rest⟩,mem,same⟩ := Option.map_eq_some_iff.mp taken
      cases same
      obtain ⟨order,may⟩ := ih mem
      exact ⟨(order.cons a).trans (List.Perm.swap ..),may⟩

theorem releaseEvictedIndexes_cons :
    releaseEvictedIndexes (ev :: evicted) { retained with staged := staged } =
      releaseEvictedIndexes evicted { evictOne retained ev others with staged := staged } := rfl

theorem Sound.makeRoom {incomingBytes : ℤ} {rounds : ℕ} {bytes : ℤ}
    (made : makeRoom lim acknowledged incomingBytes rounds bytes retained.staged =
      some (evicted,staged)) (sound : Sound retained log)
    (agrees : ∀ ev ∈ retained.staged, acknowledged.has (eventIdentity ev) = true →
      retained.acknowledged.has (eventIdentity ev) = true) :
    Sound (releaseEvictedIndexes evicted { retained with staged := staged }) (log ++ evicted.map .evicted) ∧
      (∀ ev ∈ staged, ev ∈ retained.staged) := by
  induction rounds generalizing bytes retained evicted log with
  | zero => cases made
  | succ rounds ih =>
    rw [OpenCode.makeRoom] at made
    split at made
    next full =>
      split at made
      · cases made
      next removed others taken =>
        obtain ⟨⟨post,rest⟩,further,same⟩ := Option.map_eq_some_iff.mp made
        cases same
        obtain ⟨order,may⟩ := takeEvictable_taken taken
        have mem : removed ∈ retained.staged := order.mem_iff.mpr mem_cons_self
        have evictable := may.imp_right (agrees removed mem)
        have nodup := (order.map eventIdentity).nodup_iff.mp sound.distinct
        rw [map_cons,nodup_cons] at nodup
        have step := sound.evict order evictable
        have still : ∀ ev ∈ others, acknowledged.has (eventIdentity ev) = true →
            (evictOne retained removed others).acknowledged.has (eventIdentity ev) = true := by
          intro ev held known
          have kept := agrees ev (order.mem_iff.mpr (mem_cons_of_mem _ held)) known
          rw [evictOne,has,get?_delete_of_ne]
          · exact kept
          · exact fun same => nodup.1 (mem_map.mpr ⟨ev,held,same⟩)
        obtain ⟨final,inside⟩ := @ih (evictOne retained removed others) _ _ _ further step still
        rw [releaseEvictedIndexes_cons,map_cons,append_cons]
        exact ⟨final,fun ev held => order.mem_iff.mpr (mem_cons_of_mem _ (inside ev held))⟩
    · cases made
      rw [map_nil,append_nil]
      exact ⟨sound,fun _ => id⟩

theorem releaseEvictedIndexes_fields (evicted : List OpenCodeReconciliationEvent)
    (retained : Retained) : (releaseEvictedIndexes evicted retained).staged = retained.staged ∧
      (releaseEvictedIndexes evicted retained).checkpoint = retained.checkpoint ∧
      (∀ identity, retained.identities.get? identity = none →
        (releaseEvictedIndexes evicted retained).identities.get? identity = none) ∧
      ∀ digest, retained.digests.has digest = false →
        (releaseEvictedIndexes evicted retained).digests.has digest = false := by
  induction evicted generalizing retained with
  | nil => exact ⟨rfl,rfl,fun _ => id,fun _ => id⟩
  | cons ev evicted ih =>
    obtain ⟨staged,checkpoint,identities,digests⟩ := ih (evictOne retained ev retained.staged)
    refine ⟨staged,checkpoint,?_,?_⟩
    · intro identity absent
      apply identities identity
      rw [evictOne,get?_delete,absent]
      split <;> rfl
    · intro digest absent
      apply digests digest
      rw [has_eq_false] at absent ⊢
      rw [evictOne,get?_delete,absent]
      split <;> rfl

theorem Sound.forget (sound : Sound retained log)
    (idle : ∀ ev ∈ retained.staged, ev.aggregateId ≠ forgotten) :
    Sound { retained with checkpoint := retained.checkpoint.delete forgotten } (log ++ [.forgotten forgotten]) := by
  have elsewhere {aggregateId : Text} (differ : aggregateId ≠ forgotten) :
      upcoming (retained.checkpoint.delete forgotten) aggregateId = upcoming retained.checkpoint aggregateId := by
    rw [upcoming,upcoming,get?_delete_of_ne differ]
  refine { sound with lawful := ?_, acknowledged := ?_, reached := ?_, since := ?_, retains := ?_ }
  · apply sound.lawful.snoc
    exact fun ev retains => idle ev (sound.retains ev retains)
  · intro identity hit
    obtain ⟨here,acknowledged⟩ := sound.acknowledged identity hit
    exact ⟨here,acknowledged.snoc fun _ same => nomatch same⟩
  · intro ev mem
    rw [elsewhere (idle ev mem)]
    exact sound.reached ev mem
  · intro aggregateId
    rw [appliedSince_forgotten]
    split
    next same =>
      subst same
      rw [upcoming,get?_delete_self]
      rfl
    next differ =>
      rw [elsewhere (Ne.symm differ)]
      exact sound.since aggregateId
  · intro ev retains
    rcases retains.of_snoc with applied | ⟨still,_⟩
    · cases applied
    · exact sound.retains ev still

theorem Sound.apply (sound : Sound retained log) (well : valid ev = true)
    (fresh : retained.identities.get? (eventIdentity ev) = none)
    (unknown : retained.digests.has ev.digest = false)
    (inTurn : ev.position = upcoming retained.checkpoint ev.aggregateId) (bytes : ℤ) :
    Sound { retained with
        staged := retained.staged ++ [ev]
        stagedBytes := bytes
        identities := retained.identities.set (eventIdentity ev) ev.digest
        digests := retained.digests.set ev.digest ()
        checkpoint := retained.checkpoint.set ev.aggregateId ev.position }
      (log ++ [.applied ev]) := by
  have identity_ne {other : OpenCodeReconciliationEvent} (mem : other ∈ retained.staged) :
      eventIdentity other ≠ eventIdentity ev := by
    intro same
    rw [(sound.identities _ other.digest).mpr ⟨other,mem,same,rfl⟩] at fresh
    cases fresh
  have digest_ne {other : OpenCodeReconciliationEvent} (mem : other ∈ retained.staged) :
      other.digest ≠ ev.digest := by
    intro same
    rw [(sound.digests _).mpr ⟨other,mem,same⟩] at unknown
    cases unknown
  have own : upcoming (retained.checkpoint.set ev.aggregateId ev.position) ev.aggregateId =
      ev.position + 1 := by
    rw [upcoming,get?_set_self]
    rfl
  have elsewhere {aggregateId : Text} (differ : aggregateId ≠ ev.aggregateId) :
      upcoming (retained.checkpoint.set ev.aggregateId ev.position) aggregateId =
        upcoming retained.checkpoint aggregateId := by
    rw [upcoming,upcoming,get?_set_of_ne _ differ]
  have split {other : OpenCodeReconciliationEvent} (mem : other ∈ retained.staged ++ [ev]) :
      other ∈ retained.staged ∨ other = ev :=
    (mem_append.mp mem).imp_right mem_singleton.mp
  refine ⟨?_,?_,?_,?_,?_,?_,?_,?_,?_,?_⟩
  · apply sound.lawful.snoc
    change ev.position = (appliedSince ev.aggregateId log).length
    rw [sound.since,length_range]
    exact inTurn
  · intro other mem
    rcases split mem with old | rfl
    · exact sound.well other old
    · exact well
  · rw [map_append,map_singleton,nodup_append]
    refine ⟨sound.distinct,nodup_singleton _,?_⟩
    intro identity old other new same
    rw [mem_singleton] at new
    obtain ⟨early,mem,rfl⟩ := mem_map.mp old
    exact identity_ne mem (same.trans new)
  · rw [map_append,map_singleton,nodup_append]
    refine ⟨sound.digestsDistinct,nodup_singleton _,?_⟩
    intro digest old other new same
    rw [mem_singleton] at new
    obtain ⟨early,mem,rfl⟩ := mem_map.mp old
    exact digest_ne mem (same.trans new)
  · intro identity digest
    rw [get?_set]
    constructor
    · intro hit
      split at hit
      next same =>
        cases hit
        exact ⟨ev,mem_append_right _ mem_cons_self,same.symm,rfl⟩
      next =>
        obtain ⟨other,mem,named⟩ := (sound.identities identity digest).mp hit
        exact ⟨other,mem_append_left _ mem,named⟩
    · rintro ⟨other,mem,named,own_digest⟩
      rcases split mem with old | rfl
      · rw [if_neg]
        · exact (sound.identities identity digest).mpr ⟨other,old,named,own_digest⟩
        · exact fun same => identity_ne old (named.trans same)
      · rw [if_pos named.symm,own_digest]
  · intro digest
    rw [has,get?_set]
    constructor
    · intro hit
      split at hit
      next same => exact ⟨ev,mem_append_right _ mem_cons_self,same.symm⟩
      next =>
        obtain ⟨other,mem,own_digest⟩ := (sound.digests digest).mp hit
        exact ⟨other,mem_append_left _ mem,own_digest⟩
    · rintro ⟨other,mem,own_digest⟩
      rcases split mem with old | rfl
      · rw [if_neg]
        · exact (sound.digests digest).mpr ⟨other,old,own_digest⟩
        · exact fun same => digest_ne old (own_digest.trans same)
      · rw [if_pos own_digest.symm]
        rfl
  · intro identity hit
    obtain ⟨⟨other,mem,named⟩,acknowledged⟩ := sound.acknowledged identity hit
    refine ⟨⟨other,mem_append_left _ mem,named⟩,acknowledged.snoc ?_⟩
    intro applied same
    cases same
    exact fun equal => identity_ne mem (named.trans equal.symm)
  · intro other mem
    rcases split mem with old | rfl
    · by_cases same : other.aggregateId = ev.aggregateId
      · have pre := sound.reached other old
        rw [same] at pre ⊢
        change _ < upcoming (retained.checkpoint.set ev.aggregateId ev.position) _
        rw [own]
        omega
      · change _ < upcoming (retained.checkpoint.set ev.aggregateId ev.position) _
        rw [elsewhere same]
        exact sound.reached other old
    · change _ < upcoming (retained.checkpoint.set other.aggregateId other.position) _
      rw [own]
      exact Nat.lt_succ_self _
  · intro aggregateId
    rw [appliedSince_applied]
    split
    next same =>
      subst same
      change _ = range (upcoming (retained.checkpoint.set ev.aggregateId ev.position) _)
      rw [own,range_succ,sound.since,← inTurn]
    next differ =>
      change _ = range (upcoming (retained.checkpoint.set ev.aggregateId ev.position) _)
      rw [elsewhere (Ne.symm differ)]
      exact sound.since aggregateId
  · intro other retains
    rcases retains.of_snoc with applied | ⟨still,_⟩
    · cases applied
      exact mem_append_right _ mem_cons_self
    · exact mem_append_left _ (sound.retains other still)

theorem makeCheckpointRoom_forgets {aggregateId : Text} {maxCheckpoints : ℕ}
    (made : makeCheckpointRoom retained aggregateId maxCheckpoints = some (some forgotten)) :
    (∀ ev ∈ retained.staged, ev.aggregateId ≠ forgotten) ∧ forgotten ≠ aggregateId := by
  rw [makeCheckpointRoom] at made
  split at made
  · cases made
  next full =>
    rw [not_or,Bool.not_eq_true,has_eq_false] at full
    obtain ⟨known,hit,same⟩ := Option.map_eq_some_iff.mp made
    cases same
    have idle := find?_some hit
    rw [Bool.not_eq_true',any_eq_false] at idle
    constructor
    · intro ev mem same
      exact idle ev mem (beq_iff_eq.mpr same)
    · intro same
      subst same
      obtain ⟨pos,held⟩ := mem_keys.mp (mem_of_find?_eq_some hit)
      rw [full.1] at held
      cases held

theorem Sound.project (sound : Sound s.toRetained (log ++ s.trail)) (observedAt : Number)
    (applied : ∃ early, log ++ s.trail = early ++ [.applied ev]) :
    Sound (projectEvent observedAt ev s).toRetained (log ++ (projectEvent observedAt ev s).trail) := by
  rw [projectEvent]
  split
  · exact sound
  · obtain ⟨early,last⟩ := applied
    have plain := sound.plain (show (Note.projected (OpenCode.project ev)).isPlain = true from rfl)
      ⟨early,ev,last,rfl⟩
    rw [append_assoc] at plain
    exact { plain with }

theorem projectEvent_checkpoint (observedAt : Number) :
    (projectEvent observedAt ev s).checkpoint = s.checkpoint := by
  rw [projectEvent]
  split <;> rfl

theorem Sound.admit (sound : Sound s.toRetained (log ++ s.trail)) {observedAt : Number}
    (well : valid ev = true) (fresh : s.identities.get? (eventIdentity ev) = none)
    (unknown : s.digests.has ev.digest = false)
    (inTurn : ev.position = upcoming s.checkpoint ev.aggregateId)
    (admitted : admitEvent lim observedAt s ev = .ok next) :
    Sound next.toRetained (log ++ next.trail) ∧ ev.position < upcoming next.checkpoint ev.aggregateId := by
  rw [admitEvent] at admitted
  split at admitted
  · cases admitted
  next evicted staged made =>
    obtain ⟨evicts,_⟩ := sound.makeRoom made fun _ _ => id
    obtain ⟨staged_eq,checkpoint,identities,digests⟩ :=
      releaseEvictedIndexes_fields evicted { s.toRetained with staged := staged }
    have roomy : Sound (evictEvents evicted staged s).toRetained
        (log ++ (evictEvents evicted staged s).trail) := by
      rw [append_assoc] at evicts
      exact evicts
    have still_fresh : (evictEvents evicted staged s).identities.get? (eventIdentity ev) =
      none := identities (eventIdentity ev) fresh
    have still_unknown : (evictEvents evicted staged s).digests.has ev.digest = false :=
      digests ev.digest unknown
    have still_turn : ev.position = upcoming (evictEvents evicted staged s).checkpoint ev.aggregateId := by
      change _ = upcoming (releaseEvictedIndexes evicted _).checkpoint _
      rw [checkpoint]
      exact inTurn
    simp only at admitted
    split at admitted
    · cases admitted
    next forgotten room =>
      cases admitted
      have forgets : Sound (forgetCheckpoint forgotten (evictEvents evicted staged s)).toRetained
            (log ++ (forgetCheckpoint forgotten (evictEvents evicted staged s)).trail) ∧
          ev.position = upcoming (forgetCheckpoint forgotten
            (evictEvents evicted staged s)).checkpoint ev.aggregateId := by
        cases forgotten with
        | none => exact ⟨roomy,still_turn⟩
        | some aggregateId =>
          obtain ⟨idle,differ⟩ := makeCheckpointRoom_forgets room
          constructor
          · have forget := roomy.forget idle
            rw [append_assoc] at forget
            exact forget
          · change _ = upcoming ((evictEvents evicted staged s).checkpoint.delete aggregateId) _
            rw [upcoming,get?_delete_of_ne (Ne.symm differ)]
            exact still_turn
      have same_identities : (forgetCheckpoint forgotten (evictEvents evicted staged s)).identities =
          (evictEvents evicted staged s).identities := by
        cases forgotten <;> rfl
      have same_digests : (forgetCheckpoint forgotten (evictEvents evicted staged s)).digests =
          (evictEvents evicted staged s).digests := by
        cases forgotten <;> rfl
      generalize forgetCheckpoint forgotten (evictEvents evicted staged s) = ready at *
      rw [← same_identities] at still_fresh
      rw [← same_digests] at still_unknown
      obtain ⟨ready_sound,turn⟩ := forgets
      have applies := ready_sound.apply well still_fresh still_unknown turn
        ((ready.staged.map fun item => (eventBytes item : ℤ)).sum + eventBytes ev)
      rw [append_assoc] at applies
      have applied : Sound (applyEvent ev ready).toRetained (log ++ (applyEvent ev ready).trail) := applies
      constructor
      · apply applied.project
        exact ⟨log ++ ready.trail,(append_assoc ..).symm⟩
      · rw [projectEvent_checkpoint]
        change _ < upcoming (ready.checkpoint.set ev.aggregateId ev.position) _
        rw [upcoming,get?_set_self]
        exact Nat.lt_succ_self _

/-- An event that is let pass is behind the checkpoint of its aggregate, unless it was passed over for
the digest of a retained event of another place. -/
theorem Sound.stage (sound : Sound s.toRetained (log ++ s.trail))
    (staged : stageEvent lim clock s ev = .ok next) :
    Sound next.toRetained (log ++ next.trail) ∧ (ev.position < upcoming next.checkpoint ev.aggregateId ∨
        ∃ other ∈ s.staged, other.digest = ev.digest ∧ eventIdentity other ≠ eventIdentity ev) := by
  rw [stageEvent] at staged
  split at staged
  · cases staged
  next wellformed =>
    rw [Bool.not_eq_true,Bool.not_eq_false'] at wellformed
    split at staged
    next known hit =>
      split at staged
      · cases staged
        obtain ⟨other,mem,named,_⟩ := (sound.identities _ known).mp hit
        obtain ⟨aggregate,pos⟩ := eventIdentity_inj (sound.well other mem) wellformed named
        have behind := sound.reached other mem
        rw [aggregate,pos] at behind
        exact ⟨sound,.inl behind⟩
      · cases staged
    next fresh =>
      split at staged
      · cases staged
      next historical =>
        cases staged
        refine ⟨sound,.inl ?_⟩
        rw [sequenceDisposition] at historical
        split at historical
        · split at historical
          · cases historical
          · cases historical
        next expected hit =>
          split at historical
          · cases historical
          · split at historical
            next below =>
              rw [upcoming,hit]
              exact Nat.lt_succ_of_le below
            · cases historical
      next inTurn =>
        have turn : ev.position = upcoming s.checkpoint ev.aggregateId := by
          rw [sequenceDisposition] at inTurn
          split at inTurn
          next gone =>
            split at inTurn
            · cases inTurn
            next first =>
              rw [upcoming,gone]
              exact not_not.mp first
          next expected hit =>
            split at inTurn
            next follows =>
              rw [upcoming,hit]
              exact follows
            · split at inTurn
              · cases inTurn
              · cases inTurn
        split at staged
        next known =>
          cases staged
          obtain ⟨other,mem,same⟩ := (sound.digests _).mp known
          refine ⟨sound,.inr ⟨other,mem,same,?_⟩⟩
          intro named
          rw [(sound.identities _ other.digest).mpr ⟨other,mem,named,rfl⟩] at fresh
          cases fresh
        next unknown =>
          rw [Bool.not_eq_true] at unknown
          obtain ⟨after,behind⟩ := sound.admit wellformed fresh unknown turn staged
          exact ⟨after,.inl behind⟩

theorem Sound.stages {evs : List OpenCodeReconciliationEvent} (sound : Sound s.toRetained (log ++ s.trail))
    (staged : stageEvents lim clock s evs = .ok next) :
    Sound next.toRetained (log ++ next.trail) := by
  induction evs generalizing s with
  | nil =>
    cases staged
    exact sound
  | cons ev evs ih =>
    rw [stageEvents] at staged
    split at staged
    · cases staged
    next middle a => exact ih (sound.stage a).1 staged

theorem stageEvents_append {a b : List OpenCodeReconciliationEvent}
    (staged : stageEvents lim clock s (a ++ b) = .ok next) :
    ∃ middle, stageEvents lim clock s a = .ok middle ∧
      stageEvents lim clock middle b = .ok next := by
  induction a generalizing s with
  | nil => exact ⟨s,rfl,staged⟩
  | cons ev a ih =>
    rw [cons_append,stageEvents] at staged
    rw [stageEvents]
    split at staged
    · cases staged
    next middle hit => exact ih staged

end Staging

section Runs

variable {limits : Limits} {reconciler : Reconciler} {store : ReconcilerStore} {notes : List Note}

theorem Sound.acknowledge {retained : Retained} (sound : Sound retained notes) {identity digest : Text}
    (known : retained.identities.get? identity = some digest) :
    Sound { retained with acknowledged := retained.acknowledged.set identity () }
      (notes ++ [.acknowledged identity]) := by
  refine { sound with lawful := ?_, acknowledged := ?_, since := ?_, retains := ?_ }
  · exact sound.lawful.snoc trivial
  · intro other hit
    by_cases same : other = identity
    · subst same
      obtain ⟨event,mem,named,_⟩ := (sound.identities other digest).mp known
      refine ⟨⟨event,mem,named⟩,notes,[],rfl,?_⟩
      exact fun event mem => by cases mem
    · rw [has,get?_set_of_ne _ same] at hit
      obtain ⟨here,acknowledged⟩ := sound.acknowledged other hit
      exact ⟨here,acknowledged.snoc fun _ applied => by cases applied⟩
  · intro aggregateId
    rw [appliedSince_append]
    exact sound.since aggregateId
  · intro event retains
    rcases retains.of_snoc with applied | ⟨still,_⟩
    · cases applied
    · exact sound.retains event still

/-- Every preparation that may still take effect is what its events come to on the store as it is. -/
structure Reconciled (limits : Limits) (reconciler : Reconciler) (notes : List Note) : Prop where
  sound : Sound reconciler.store.toRetained notes
  past : ∀ (handle : ℕ) preparation, reconciler.preparations[handle]? = some preparation →
    preparation.preparedRevision ≤ reconciler.store.revision
  current : ∀ (handle : ℕ) preparation, reconciler.preparations[handle]? = some preparation →
    preparation.committed = false → preparation.preparedRevision = reconciler.store.revision →
        (∃ events clock, prepareReconciliation limits events clock reconciler.store =
          .ok preparation.state) ∧ Undisturbed notes handle

theorem Reconciled.start : Reconciled limits ⟨emptyStore,[]⟩ [] := by
  refine ⟨Sound.start,?_,?_⟩
  · exact fun handle preparation hit => nomatch hit
  · exact fun handle preparation hit => nomatch hit

theorem Reconciled.prepare (reconciled : Reconciled limits reconciler notes)
    (evs : List OpenCodeReconciliationEvent) (clock : ℕ → Number) :
    Reconciled limits (prepare limits evs clock reconciler).1
      (notes ++ (prepare limits evs clock reconciler).2) := by
  rw [OpenCode.prepare]
  split
  · rw [append_nil]
    exact reconciled
  next state staged =>
    have split {handle : ℕ} {preparation : Preparation} (hit : (reconciler.preparations ++
        [⟨reconciler.store.revision,state,false⟩])[handle]? = some preparation) :
        reconciler.preparations[handle]? = some preparation ∨ handle = reconciler.preparations.length ∧
            preparation = ⟨reconciler.store.revision,state,false⟩ := by
      rw [getElem?_append] at hit
      split at hit
      · exact .inl hit
      next beyond =>
        have bound := (List.getElem?_eq_some_iff.mp hit).1
        rw [length_singleton] at bound
        exact .inr ⟨by omega,mem_singleton.mp (mem_of_getElem? hit)⟩
    refine ⟨?_,?_,?_⟩
    · exact reconciled.sound.plain rfl trivial
    · intro handle preparation hit
      rcases split hit with early | ⟨_,rfl⟩
      · exact reconciled.past handle preparation early
      · exact le_refl _
    · intro handle preparation hit uncommitted same
      rcases split hit with early | ⟨rfl,rfl⟩
      · obtain ⟨src,undisturbed⟩ := reconciled.current handle preparation early uncommitted same
        exact ⟨src,undisturbed.snoc (fun _ => nofun) fun _ => nofun⟩
      · refine ⟨⟨evs,clock,staged⟩,notes,[],rfl,?_,?_⟩
        · exact fun other mem => nomatch mem
        · exact fun identity mem => nomatch mem

theorem Reconciled.plain (reconciled : Reconciled limits reconciler notes) {note : Note}
    (plain : note.isPlain = true) (next : InOrder notes note) (commits : ∀ other, note ≠ .committed other) :
    Reconciled limits reconciler (notes ++ [note]) := by
  refine ⟨reconciled.sound.plain plain next,reconciled.past,?_⟩
  intro handle preparation hit uncommitted same
  obtain ⟨src,undisturbed⟩ := reconciled.current handle preparation hit uncommitted same
  refine ⟨src,undisturbed.snoc commits ?_⟩
  intro identity acknowledges
  rw [acknowledges] at plain
  cases plain

theorem Reconciled.commit (reconciled : Reconciled limits reconciler notes) (handle : ℕ) :
    Reconciled limits (commit handle reconciler).1 (notes ++ (commit handle reconciler).2) := by
  rw [OpenCode.commit]
  split
  · rw [append_nil]
    exact reconciled
  next preparation hit =>
    split
    · exact reconciled.plain rfl trivial fun _ => nofun
    next pending =>
      rw [Bool.not_eq_true] at pending
      split
      · exact reconciled.plain rfl trivial fun _ => nofun
      next unchanged =>
        have same := (not_not.mp unchanged).symm
        obtain ⟨⟨evs,clock,staged⟩,undisturbed⟩ :=
          reconciled.current handle preparation hit pending same
        have committed := reconciled.sound.plain (show (Note.committed handle).isPlain = true from rfl) undisturbed
        rw [← append_nil (notes ++ [Note.committed handle])] at committed
        have final := @Sound.stages limits _ (transactionalState reconciler.store) _ clock _ committed staged
        rw [append_assoc,singleton_append] at final
        refine ⟨final,?_,?_⟩
        · intro other post here
          change (reconciler.preparations.set handle _)[other]? = _ at here
          change _ ≤ reconciler.store.revision + 1
          rw [getElem?_set] at here
          split at here
          · split at here
            · cases here
              have pre := reconciled.past handle preparation hit
              exact pre.trans (Nat.le_succ _)
            · cases here
          · exact (reconciled.past other post here).trans (Nat.le_succ _)
        · intro other post here uncommitted now
          exfalso
          change (reconciler.preparations.set handle _)[other]? = _ at here
          change _ = reconciler.store.revision + 1 at now
          rw [getElem?_set] at here
          split at here
          · split at here
            · cases here
              cases uncommitted
            · cases here
          · have pre := reconciled.past other post here
            omega

theorem Reconciled.acknowledgeOne (preparations : List Preparation) (projection : OpenCodeProjection) :
    Effect.Keeps (fun store notes => Reconciled limits ⟨store,preparations⟩ notes)
      (acknowledgeProjection projection) := by
  intro store notes reconciled
  rw [acknowledgeProjection]
  split
  · rw [append_nil]
    exact reconciled
  next known =>
    rw [not_or,not_not] at known
    refine ⟨reconciled.sound.acknowledge known.1,?_,?_⟩
    · intro handle preparation hit
      exact (reconciled.past handle preparation hit).trans (Nat.le_succ _)
    · intro handle preparation hit uncommitted now
      have pre := reconciled.past handle preparation hit
      change _ = store.revision + 1 at now
      change _ ≤ store.revision at pre
      omega

theorem Reconciled.step (reconciled : Reconciled limits reconciler notes) (event : Event) :
    Reconciled limits (effect limits event reconciler).1 (notes ++ (effect limits event reconciler).2) := by
  cases event with
  | prepare evs clock => exact reconciled.prepare evs clock
  | commit handle => exact reconciled.commit handle
  | acknowledge projections =>
    exact Effect.Keeps.forEach (Reconciled.acknowledgeOne reconciler.preparations) projections
      reconciler.store notes reconciled

theorem machine_reconciled (evs : List Event) :
    Reconciled limits ((machine limits).run evs) ((machine limits).noted evs) := by
  apply Machine.holds_of_step (Reconciled limits)
  · exact Reconciled.start
  · exact fun reconciler notes event reconciled => reconciled.step event

theorem prepare_store (evs : List OpenCodeReconciliationEvent) (clock : ℕ → Number) :
    (prepare limits evs clock reconciler).1.store = reconciler.store := by
  rw [prepare]
  split <;> rfl

theorem commit_idle {handle : ℕ} (idle : .committed handle ∉ (commit handle reconciler).2) :
    (commit handle reconciler).1 = reconciler := by
  rw [commit] at idle ⊢
  split
  · rfl
  next preparation hit =>
    rw [hit] at idle
    split
    · rfl
    next pending =>
      simp only at idle
      rw [if_neg pending] at idle
      split
      · rfl
      next unchanged =>
        rw [if_neg unchanged] at idle
        exact absurd mem_cons_self idle

theorem follows_no_gap {checkpoint : OrderedMap Text ℕ} {event post : OpenCodeReconciliationEvent}
    (behind : event.position < upcoming checkpoint event.aggregateId)
    (same : post.aggregateId = event.aggregateId) (follows : post.position = event.position + 1) :
    sequenceDisposition checkpoint post ≠ .error .sequenceGap := by
  rw [upcoming] at behind
  rw [sequenceDisposition,same]
  split
  next gone =>
    rw [gone] at behind
    cases behind
  next expected hit =>
    rw [hit] at behind
    simp only [Option.map_some,Option.getD_some] at behind
    split
    · exact nofun
    · split
      · exact nofun
      next beyond further => omega

/-- Since its checkpoint was last given up an aggregate has been applied from zero on without a gap, a
commit takes effect on nothing but the store that it was prepared from, and an event that is let pass
is behind its checkpoint unless its digest stands for another. -/
theorem machine_reconciles (limits : Limits) (events : List Event) :
    let reconciler := (machine limits).run events
    let notes := (machine limits).noted events
    (∀ aggregateId, appliedSince aggregateId notes =
      range (upcoming reconciler.store.checkpoint aggregateId)) ∧
    Lawful InOrder notes ∧
    (∀ batch clock, ((machine limits).step reconciler (.prepare batch clock)).store =
      reconciler.store) ∧
    (∀ handle, .committed handle ∉ (machine limits).notes reconciler (.commit handle) →
      (machine limits).step reconciler (.commit handle) = reconciler) ∧
    ∀ batch clock done, prepareReconciliation limits batch clock reconciler.store = .ok done →
      ∀ before event after, batch = before ++ event :: after → ∃ state next,
        stageEvents limits clock (transactionalState reconciler.store) before = .ok state ∧
        stageEvent limits clock state event = .ok next ∧
        ((∀ other ∈ state.staged, other.digest = event.digest →
            eventIdentity other = eventIdentity event) →
          event.position < upcoming next.checkpoint event.aggregateId ∧
            ∀ later, later.aggregateId = event.aggregateId →
              later.position = event.position + 1 →
                sequenceDisposition next.checkpoint later ≠ .error .sequenceGap) := by
  intro reconciler notes
  have reconciled := @machine_reconciled limits events
  refine ⟨reconciled.sound.since,reconciled.sound.lawful,fun batch clock => prepare_store batch clock,
    fun handle idle => commit_idle idle,?_⟩
  intro batch clock done prepared before event after same
  rw [prepareReconciliation,same] at prepared
  obtain ⟨state,first,rest⟩ := stageEvents_append prepared
  rw [stageEvents] at rest
  split at rest
  · cases rest
  next next staged =>
    refine ⟨state,next,first,staged,?_⟩
    intro single
    have start : Sound (transactionalState reconciler.store).toRetained
        (notes ++ (transactionalState reconciler.store).trail) := by
      change Sound _ (notes ++ [])
      rw [append_nil]
      exact reconciled.sound
    rcases ((start.stages first).stage staged).2 with behind | ⟨other,member,digest,different⟩
    · exact ⟨behind,fun later same follows => follows_no_gap behind same follows⟩
    · exact absurd (single other member digest) different

def sampleEvent (aggregateId : Text) (position : ℕ) (digit : Char) : OpenCodeReconciliationEvent where
  id := ['e']
  aggregateId := aggregateId
  sequence := .finite position
  digest := List.replicate 64 digit
  kind := .observation
  compaction := none
  providerTokenUsage := none

def appliedBy (limits : Limits) (batch : List OpenCodeReconciliationEvent) (reconciler : Reconciler) : Option ℕ :=
  match prepareReconciliation limits batch (fun _ => .finite 0) reconciler.store with
  | .error _ => none
  | .ok state => some state.applied

def timesApplied (aggregateId : Text) (position : ℕ) (notes : List Note) : ℕ :=
  notes.countP fun note =>
    match note with
    | .applied event => decide (event.aggregateId = aggregateId) && decide (event.position = position)
    | _ => false

def ingested (batches : List (List OpenCodeReconciliationEvent)) : List Event :=
  batches.zipIdx.flatMap fun batch => [.prepare batch.1 fun _ => .finite 0,.commit batch.2]

/-- An event with the digest of another place is let pass, and the one behind it is a gap. With room for
one aggregate the first event of another makes the store forget what it applied. -/
theorem passed_over_and_forgotten :
    appliedBy defaultLimits [sampleEvent ['a'] 1 '0']
        ((machine defaultLimits).run (ingested [[sampleEvent ['a'] 0 '0']])) = some 0 ∧
      appliedBy defaultLimits [sampleEvent ['a'] 1 '0',sampleEvent ['a'] 2 '1']
        ((machine defaultLimits).run (ingested [[sampleEvent ['a'] 0 '0']])) = none ∧
      timesApplied ['a'] 0 ((machine ⟨1,1024 * 1024⟩).noted (ingested
        [[sampleEvent ['a'] 0 '0'],[sampleEvent ['b'] 0 '1'],[sampleEvent ['a'] 0 '0']])) = 2 := by
  decide +kernel

end Runs

end Keiko.OpenCode
