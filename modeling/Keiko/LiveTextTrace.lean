import Keiko.LiveText

/-! What the live text of a part shows of the deltas that came since it started. Each delta is
counted by itself, so that the overlay takes the characters that fit of every delta; the history
takes those that fit of the whole text. The two cuts are the same just when the deltas of the
history's cut count within the bound. -/
namespace Keiko.LiveText
open Keiko.Library List OrderedMap

section Cuts

def tokensOf (deltas : List Units) : List Units := deltas.flatMap Units.characters

def kept (bound : Nat) (deltas : List Units) : List Units := Units.fittingFrom bound 0 (tokensOf deltas)

def projected (bound : Nat) (text : Units) : Units :=
  withoutDanglingSurrogate (fittingUtf8Prefix text bound)

/-- The history's cut counts within the bound, delta by delta. Where a half of a pair that stands
alone was cut off behind another, it counts within the bound too; and no half of a pair that two
deltas share stands behind a half that was cut off, unless it counts past the bound. -/
structure CountsWithin (bound : Nat) (deltas : List Units) : Prop where
  cut : Units.countedBytes deltas (projected bound deltas.flatten).length ≤ bound
  half : (∃ c, (projected bound deltas.flatten).getLast? = some c ∧ Units.isHigh c = true) →
    Units.countedBytes deltas ((projected bound deltas.flatten).length + 1) ≤ bound
  shared : (∃ c d after, deltas.flatten = projected bound deltas.flatten ++ c :: d :: after ∧
      Units.isHigh c = true ∧ Units.isHigh d = true) →
    (∃ first last, deltas = first ++ last ∧ first.flatten.length = (projected bound deltas.flatten).length + 2) →
    bound < Units.countedBytes deltas ((projected bound deltas.flatten).length + 2)

variable {bound : Nat} {deltas : List Units} {text : Units}

theorem withoutDangling_concat_high {c : CodeUnit} (high : Units.isHigh c = true) :
    withoutDanglingSurrogate (text ++ [c]) = text := by
  rw [withoutDanglingSurrogate,getLast?_concat]
  simp [high]

theorem withoutDangling_cases (text : Units) :
    withoutDanglingSurrogate text = text ∧ (∀ c, text.getLast? = some c → Units.isHigh c = false) ∨
      ∃ c, text = withoutDanglingSurrogate text ++ [c] ∧ Units.isHigh c = true := by
  rcases eq_nil_or_concat text with rfl | ⟨front,last,rfl⟩
  · exact .inl ⟨rfl,by simp⟩
  · rw [concat_eq_append]
    cases high : Units.isHigh last with
    | true => exact .inr ⟨last,by rw [withoutDangling_concat_high high],high⟩
    | false =>
      refine .inl ⟨?_,?_⟩
      · rw [withoutDanglingSurrogate,getLast?_concat]
        simp [high]
      · intro c last_unit
        rw [getLast?_concat] at last_unit
        rw [← Option.some.inj last_unit,high]

theorem flatten_tokensOf (deltas : List Units) : (tokensOf deltas).flatten = deltas.flatten := by
  rw [tokensOf,flatMap_def,flatten_flatten,map_map]
  congr 1
  conv_rhs => rw [← map_id deltas]
  apply map_congr_left
  intro delta _
  exact Units.flatten_characters delta

theorem tokensOf_ne_nil : ∀ token ∈ tokensOf deltas, token ≠ [] := by
  intro token mem
  obtain ⟨delta,_,inside⟩ := mem_flatMap.mp mem
  exact Units.ne_nil_of_mem_characters inside

theorem kept_start (bound : Nat) (deltas : List Units) : kept bound deltas <+: tokensOf deltas :=
  Units.fittingFrom_prefix

theorem kept_prefix (bound : Nat) (deltas : List Units) : (kept bound deltas).flatten <+: deltas.flatten := by
  obtain ⟨back,same⟩ := kept_start bound deltas
  exact ⟨back.flatten,by rw [← flatten_append,same,flatten_tokensOf]⟩

def IsCut (deltas : List Units) (n : Nat) : Prop :=
  ∃ front, front <+: tokensOf deltas ∧ front.flatten.length = n

theorem isCut_kept (bound : Nat) (deltas : List Units) :
    IsCut deltas (kept bound deltas).flatten.length := ⟨_,kept_start bound deltas,rfl⟩

theorem isCut_of_whole {front : List Units} (start : front <+: Units.characters deltas.flatten) :
    IsCut deltas front.flatten.length := by
  obtain ⟨other,prior,same,_⟩ := (Units.merges_pieces deltas).cut_whole start
  exact ⟨other,prior,by rw [same]⟩

theorem isCut_of_pieces {a last : List Units} (split : deltas = a ++ last) :
    IsCut deltas a.flatten.length := by
  refine ⟨tokensOf a,⟨tokensOf last,?_⟩,by rw [flatten_tokensOf]⟩
  rw [split,tokensOf,tokensOf,tokensOf,flatMap_append]

theorem counted_le_iff {n : Nat} (cut : IsCut deltas n) (bound : Nat) :
    Units.countedBytes deltas n ≤ bound ↔ n ≤ (kept bound deltas).flatten.length := by
  obtain ⟨front,start,rfl⟩ := cut
  rw [Units.countedBytes_cut start]
  constructor
  · intro within
    have mem : front <+: kept bound deltas := Units.prefix_fittingFrom start (by omega)
    obtain ⟨back,same⟩ := mem
    rw [← same,flatten_append,length_append]
    omega
  · intro le
    have mem := Units.prefix_of_flatten tokensOf_ne_nil start (kept_start bound deltas) le
    have fits := Units.fittingFrom_fits (Nat.zero_le bound) (tokensOf deltas)
    have lighter := Units.weight_mono mem
    rw [kept] at lighter
    omega

theorem kept_le_whole (bound : Nat) (deltas : List Units) :
    (kept bound deltas).flatten <+: fittingUtf8Prefix deltas.flatten bound ∨
      ∃ c d after, Units.isHigh c = true ∧ Units.isLow d = true ∧
        (kept bound deltas).flatten = fittingUtf8Prefix deltas.flatten bound ++ [c] ∧
        deltas.flatten = fittingUtf8Prefix deltas.flatten bound ++ c :: d :: after := by
  have fits := Units.fittingFrom_fits (Nat.zero_le bound) (tokensOf deltas)
  have start := @Units.fittingFrom_prefix bound 0 (Units.characters deltas.flatten)
  have fitting {front : List Units} (mem : front <+: Units.characters deltas.flatten)
      (within : Units.weight front ≤ bound) :
      front <+: Units.fittingFrom bound 0 (Units.characters deltas.flatten) :=
    Units.prefix_fittingFrom mem (by omega)
  rcases (Units.merges_pieces deltas).cut_apart (kept_start bound deltas) with
    ⟨other,prior,same,lighter⟩ | ⟨other,c,d,high,low,prior,same,lighter⟩
  · left
    rw [kept] at lighter
    obtain ⟨back,whole⟩ := fitting prior (by omega)
    rw [← same,fittingUtf8Prefix,← whole,flatten_append]
    exact prefix_append _ _
  · have within : Units.weight other ≤ bound := by
      rw [kept] at lighter
      omega
    have mem := fitting ((prefix_append other [[c,d]]).trans prior) within
    have pair (more : other ++ [[c,d]] <+: Units.fittingFrom bound 0 (Units.characters deltas.flatten)) :
        (kept bound deltas).flatten <+: fittingUtf8Prefix deltas.flatten bound := by
      obtain ⟨back,whole⟩ := more
      rw [same,fittingUtf8Prefix,← whole,flatten_append,flatten_append,append_assoc]
      exact (prefix_append_right_inj _).mpr ⟨d :: back.flatten,by simp⟩
    rcases prefix_or_prefix_of_prefix prior start with more | short
    · exact .inl (pair more)
    · rcases prefix_concat_iff.mp short with all | shorter
      · exact .inl (pair (all ▸ prefix_refl _))
      · right
        have whole : Units.fittingFrom bound 0 (Units.characters deltas.flatten) = other :=
          shorter.eq_of_length_le mem.length_le
        obtain ⟨back,after⟩ := prior
        refine ⟨c,d,back.flatten,high,low,?_,?_⟩
        · rw [same,fittingUtf8Prefix,whole]
        · rw [fittingUtf8Prefix,whole,← Units.flatten_characters deltas.flatten,← after]
          simp

theorem projected_cases (bound : Nat) (text : Units) :
    ∃ front, front <+: Units.characters text ∧ front.flatten = projected bound text ∧
      (fittingUtf8Prefix text bound = projected bound text ∧
          (∀ c, (projected bound text).getLast? = some c → Units.isHigh c = false) ∨
        ∃ c, Units.isHigh c = true ∧ fittingUtf8Prefix text bound = projected bound text ++ [c] ∧
          front ++ [[c]] <+: Units.characters text) := by
  have start := @Units.fittingFrom_prefix bound 0 (Units.characters text)
  rcases withoutDangling_cases (fittingUtf8Prefix text bound) with ⟨same,plain⟩ | ⟨c,same,high⟩
  · rw [← projected] at same
    exact ⟨_,start,same.symm,.inl ⟨same.symm,by rw [same]; exact plain⟩⟩
  · rw [← projected] at same
    rcases eq_nil_or_concat (Units.fittingFrom bound 0 (Units.characters text)) with
      empty | ⟨front,token,split⟩
    · rw [fittingUtf8Prefix,empty] at same
      simp at same
    · rw [concat_eq_append] at split
      have mem : token ∈ Units.characters text := start.subset (by rw [split]; simp)
      have ends := same
      rw [fittingUtf8Prefix,split,flatten_append,flatten_singleton] at ends
      obtain rfl : token = [c] := by
        obtain ⟨e,rfl⟩ | ⟨e,f,rfl,_,low⟩ := Units.mem_characters mem
        · cases (append_inj' ends rfl).2
          rfl
        · have last : (front.flatten ++ [e]) ++ [f] = projected bound text ++ [c] := by
            rw [← ends]
            simp
          cases (append_inj' last rfl).2
          rw [Units.isHigh_of_isLow low] at high
          cases high
      rw [split] at start
      exact ⟨front,(prefix_append _ _).trans start,(append_inj' ends rfl).1,.inr ⟨c,high,same,start⟩⟩

theorem shown_iff (bound : Nat) (deltas : List Units) :
    withoutDanglingSurrogate (kept bound deltas).flatten = projected bound deltas.flatten ↔
      CountsWithin bound deltas := by
  obtain ⟨front,start,made,behind⟩ := projected_cases bound deltas.flatten
  have cut := isCut_of_whole start
  rw [made] at cut
  have shown := withoutDangling_cases (kept bound deltas).flatten
  constructor
  · intro same
    rw [same] at shown
    have size : (projected bound deltas.flatten).length ≤ (kept bound deltas).flatten.length ∧
        (kept bound deltas).flatten.length ≤ (projected bound deltas.flatten).length + 1 := by
      rcases shown with ⟨all,_⟩ | ⟨c,all,_⟩
      · rw [← all]
        omega
      · rw [all,length_append,length_singleton]
        omega
    refine ⟨(counted_le_iff cut bound).mpr size.1,?_,?_⟩
    · intro ⟨c,last,high⟩
      rcases shown with ⟨all,plain⟩ | ⟨d,all,_⟩
      · rw [← all] at plain
        rw [plain c last] at high
        cases high
      · have length := congrArg length all
        rw [length_append,length_singleton] at length
        rw [← length]
        exact (counted_le_iff (isCut_kept bound deltas) bound).mpr (le_refl _)
    · intro _ ⟨a,last,split,length⟩
      by_contra within
      have atEnd := isCut_of_pieces split
      rw [length] at atEnd
      have more := (counted_le_iff atEnd bound).mp (by omega)
      omega
  · intro counts
    have least := (counted_le_iff cut bound).mp counts.cut
    obtain ⟨rest,whole⟩ := kept_prefix bound deltas
    rcases behind with ⟨fits,plain⟩ | ⟨c,high,fits,next⟩
    · rcases kept_le_whole bound deltas with short | ⟨c,d,after,high,_,all,_⟩
      · rw [fits] at short
        rw [short.eq_of_length_le least]
        rcases withoutDangling_cases (projected bound deltas.flatten) with ⟨same,_⟩ | ⟨c,same,high⟩
        · exact same
        · have last : (projected bound deltas.flatten).getLast? = some c := by
            rw [same,getLast?_concat]
          rw [plain c last] at high
          cases high
      · rw [all,withoutDangling_concat_high high,fits]
    · have nextCut := isCut_of_whole next
      rw [flatten_append,length_append,made] at nextCut
      rcases kept_le_whole bound deltas with short | ⟨d,e,after,highNext,low,all,text⟩
      · rw [fits] at short
        rcases prefix_concat_iff.mp short with all | shorter
        · rw [all,withoutDangling_concat_high high]
        · have same := shorter.eq_of_length_le least
          rw [same]
          rcases withoutDangling_cases (projected bound deltas.flatten) with ⟨plain,_⟩ | ⟨d,ends,highEnd⟩
          · exact plain
          · have more := (counted_le_iff nextCut bound).mp (counts.half ⟨d,by rw [ends,getLast?_concat],highEnd⟩)
            rw [same] at more
            simp at more
      · exfalso
        rw [fits] at all text
        obtain ⟨a,last,split,atEnd⟩ :=
          Units.ends_piece (kept_start bound deltas) all text highNext low
        have length : (kept bound deltas).flatten.length = (projected bound deltas.flatten).length + 2 := by
          rw [all,length_append,length_append,length_singleton,length_singleton]
        have past := counts.shared ⟨c,d,e :: after,text.trans (by simp),high,highNext⟩
          ⟨a,last,split,by rw [atEnd]; omega⟩
        have within := (counted_le_iff (isCut_kept bound deltas) bound).mpr (le_refl _)
        rw [length] at within
        omega

end Cuts

section Parts

variable {bound : Nat} {delta : Units} {deltas : List Units} {part : LivePart}

structure Follows (bound : Nat) (part : LivePart) (deltas : List Units) : Prop where
  text : part.text = (kept bound deltas).flatten
  bytes : part.bytes = Units.weight (kept bound deltas)
  full : part.full = false ↔ kept bound deltas = tokensOf deltas ∧ part.bytes < bound

theorem tokensOf_append (a b : List Units) :
    tokensOf (a ++ b) = tokensOf a ++ tokensOf b := flatMap_append

theorem tokensOf_single (delta : Units) : tokensOf [delta] = Units.characters delta := by
  rw [tokensOf,flatMap_singleton]

theorem taken_eq (part : LivePart) (delta : Units) {bound : Nat} (room : part.bytes ≤ bound) :
    (if (Units.byteLength delta : ℤ) ≤ (bound : ℤ) - part.bytes then delta
      else fittingUtf8Prefix delta ((bound : ℤ) - part.bytes).toNat) =
        (Units.fittingFrom bound part.bytes (Units.characters delta)).flatten := by
  have left : ((bound : ℤ) - part.bytes).toNat = bound - part.bytes := by omega
  split
  next fits =>
    rw [Units.fittingFrom_all,Units.flatten_characters]
    have same : Units.weight (Units.characters delta) = Units.byteLength delta := rfl
    omega
  next =>
    have moved := Units.fittingFrom_add (bound - part.bytes) 0 part.bytes (Units.characters delta)
    rw [Nat.sub_add_cancel room,zero_add] at moved
    rw [fittingUtf8Prefix,left,moved]

theorem byteLength_fitting (used : Nat) (delta : Units) :
    Units.byteLength (Units.fittingFrom bound used (Units.characters delta)).flatten =
      Units.weight (Units.fittingFrom bound used (Units.characters delta)) := by
  obtain ⟨back,same⟩ := @Units.fittingFrom_prefix bound used (Units.characters delta)
  rw [Units.byteLength,Units.characters_front same.symm]

theorem kept_concat (bound : Nat) (deltas : List Units) (delta : Units) :
    kept bound (deltas ++ [delta]) = if kept bound deltas = tokensOf deltas then
      tokensOf deltas ++ Units.fittingFrom bound (Units.weight (tokensOf deltas)) (Units.characters delta)
    else kept bound deltas := by
  rw [kept,tokensOf_append,tokensOf_single,Units.fittingFrom_append,zero_add]
  rfl

theorem characters_ne_nil (some_units : delta ≠ []) : Units.characters delta ≠ [] := by
  intro empty
  apply some_units
  rw [← Units.flatten_characters delta,empty]
  rfl

theorem fitting_eq_of_length (used : Nat) (le : delta.length ≤
    (Units.fittingFrom bound used (Units.characters delta)).flatten.length) :
    Units.fittingFrom bound used (Units.characters delta) = Units.characters delta := by
  have start := @Units.fittingFrom_prefix bound used (Units.characters delta)
  have some_units : ∀ token ∈ Units.characters delta, token ≠ [] := fun token mem =>
    Units.ne_nil_of_mem_characters mem
  have all := Units.prefix_of_flatten some_units (prefix_refl _) start (by rw [Units.flatten_characters]; exact le)
  exact start.eq_of_length_le all.length_le

theorem Follows.full_kept (follows : Follows bound part deltas) (full : part.full = true)
    (some_units : delta ≠ []) : kept bound (deltas ++ [delta]) = kept bound deltas ∧
      kept bound (deltas ++ [delta]) ≠ tokensOf (deltas ++ [delta]) := by
  have same : kept bound (deltas ++ [delta]) = kept bound (deltas) := by
    rw [kept_concat]
    split
    next all =>
      have room : bound ≤ Units.weight (tokensOf (deltas)) := by
        by_contra less
        have free := follows.full.mpr ⟨all,by rw [follows.bytes,all]; omega⟩
        rw [full] at free
        cases free
      rw [Units.fittingFrom_none room,append_nil,all]
    next => rfl
  refine ⟨same,?_⟩
  intro all
  have start := (kept_start bound (deltas)).length_le
  have more := length_pos_iff.mpr (characters_ne_nil some_units)
  have length := congrArg length (same.symm.trans all)
  rw [tokensOf_append,tokensOf_single,length_append] at length
  omega

theorem append_follows (some_units : delta ≠ []) (follows : Follows bound part deltas) :
    Follows bound (append part delta bound).1 (deltas ++ [delta]) := by
  cases full : part.full with
  | true =>
    obtain ⟨same,more⟩ := follows.full_kept full some_units
    have unchanged : (append part delta bound).1 = part := by simp [append,full]
    rw [unchanged]
    refine ⟨by rw [same,follows.text],by rw [same,follows.bytes],?_⟩
    rw [full]
    simp [more]
  | false =>
    obtain ⟨all,room⟩ := follows.full.mp full
    have used : part.bytes = Units.weight (tokensOf (deltas)) := by rw [follows.bytes,all]
    have next : kept bound (deltas ++ [delta]) = tokensOf (deltas) ++
        Units.fittingFrom bound part.bytes (Units.characters delta) := by
      rw [kept_concat,if_pos all,used]
    have filled : (decide ((Units.fittingFrom bound part.bytes (Units.characters delta)).flatten.length <
          delta.length) || decide (bound ≤ part.bytes + Units.weight
            (Units.fittingFrom bound part.bytes (Units.characters delta)))) = false ↔
        kept bound (deltas ++ [delta]) = tokensOf (deltas ++ [delta]) ∧
          part.bytes + Units.weight (Units.fittingFrom bound part.bytes (Units.characters delta)) <
            bound := by
      rw [Bool.or_eq_false_iff,decide_eq_false_iff_not,decide_eq_false_iff_not,next,tokensOf_append,
        tokensOf_single,append_cancel_left_eq,not_lt,not_le]
      constructor
      · intro ⟨whole,free⟩
        exact ⟨fitting_eq_of_length part.bytes whole,free⟩
      · intro ⟨whole,free⟩
        exact ⟨by rw [whole,Units.flatten_characters],free⟩
    unfold append
    rw [full]
    simp only [Bool.false_eq_true,if_false,taken_eq part delta (le_of_lt room),byteLength_fitting]
    split
    next none_taken =>
      have empty : Units.fittingFrom bound part.bytes (Units.characters delta) = [] := by
        have start := @Units.fittingFrom_prefix bound part.bytes (Units.characters delta)
        cases taken : Units.fittingFrom bound part.bytes (Units.characters delta) with
        | nil => rfl
        | cons token rest =>
          have mem : token ∈ Units.characters delta := start.subset (by rw [taken]; simp)
          rw [taken,length_eq_zero_iff,flatten_cons,append_eq_nil_iff] at none_taken
          exact absurd none_taken.1 (Units.ne_nil_of_mem_characters mem)
      rw [empty,append_nil,← all] at next
      refine ⟨?_,?_,?_⟩
      · rw [next,follows.text]
      · rw [next,follows.bytes]
      · simpa [empty] using filled
    next =>
      refine ⟨?_,?_,?_⟩
      · rw [next,flatten_append,follows.text,all]
      · rw [next,Units.weight_append,used]
      · exact filled

theorem append_lastEventId (part : LivePart) (delta : Units) (bound : Nat) :
    (append part delta bound).1.lastEventId = part.lastEventId := by
  unfold append
  split
  · rfl
  · simp only
    generalize (if (Units.byteLength delta : ℤ) ≤ (bound : ℤ) - part.bytes then delta
      else fittingUtf8Prefix delta ((bound : ℤ) - part.bytes).toNat) = taken
    split
    · rfl
    · rfl

end Parts

section Runs

/-- What has come to every part since it started, by the identities of the events. -/
abbrev Heard := PartKey → List (Option Text × Units)

def deltaOf (event : Event) (key : PartKey) : Option (Option Text × Option Units) :=
  match event with
  | .observe sessionId event =>
    match partEvent sessionId event with
    | some (_,.delta,some named,data) => if named = key then some (event.id,data.delta) else none
    | _ => none
  | _ => none

def hear (live : LiveTextOverlay) (event : Event) (heard : Heard) : Heard := fun key =>
  match live.parts.get? key with
  | none => []
  | some part =>
    match part.frozen, deltaOf event key with
    | false, some (id,some delta) =>
      if delta = [] ∨ (id.isSome = true ∧ id ∈ (heard key).map Prod.fst) then heard key
      else heard key ++ [(id,delta)]
    | _, _ => heard key

def heardFrom (live : LiveTextOverlay) (heard : Heard) : List Event → Heard
  | [] => heard
  | event :: events => heardFrom (step live event) (hear live event heard) events

/-- A delta that comes again is the latest of its part, or finds the part full. -/
def Recognised (live : LiveTextOverlay) (heard : Heard) (event : Event) : Prop :=
  ∀ key part id delta, live.parts.get? key = some part → part.frozen = false →
    deltaOf event key = some (some id,some delta) → delta ≠ [] →
      some id ∈ (heard key).map Prod.fst → part.lastEventId = some id ∨ part.full = true

def RecognisedFrom (live : LiveTextOverlay) (heard : Heard) : List Event → Prop
  | [] => True
  | event :: events => Recognised live heard event ∧
      RecognisedFrom (step live event) (hear live event heard) events

structure Tracks (live : LiveTextOverlay) (heard : Heard) (key : PartKey) (part : LivePart) :
    Prop where
  current : key ∉ live.retired
  follows : Follows (boundOf key.kind) part ((heard key).map Prod.snd)
  latest : ∀ id, part.lastEventId = some id → some id ∈ (heard key).map Prod.fst

def Sound (live : LiveTextOverlay) (heard : Heard) : Prop :=
  ∀ key part, live.parts.get? key = some part → Tracks live heard key part

variable {live : LiveTextOverlay} {heard : Heard} {event : Event} {key : PartKey} {part : LivePart}
  {other : LiveTextOverlay} {named : PartKey} {next : LivePart} {delta : Units} {id : Option Text}

theorem boundOf_pos (kind : LiveTextKind) : 0 < boundOf kind := by
  cases kind <;> decide

theorem hear_other (tracked : live.parts.get? key = some part) (none_brought : deltaOf event key = none) :
    hear live event heard key = heard key := by
  unfold hear
  rw [tracked]
  simp [none_brought]

theorem hear_untracked (gone : live.parts.get? key = none) : hear live event heard key = [] := by
  unfold hear
  rw [gone]

theorem tracks_fresh (cur : key ∉ live.retired) (nothing : heard key = []) :
    Tracks live heard key ⟨[],0,false,false,none,false⟩ := by
  refine ⟨cur,⟨?_,?_,?_⟩,fun id same => by cases same⟩
  · rw [nothing]
    rfl
  · rw [nothing]
    rfl
  · rw [nothing]
    exact ⟨fun _ => ⟨rfl,boundOf_pos key.kind⟩,fun _ => rfl⟩

theorem start_parts (tracked : (start live named).parts.get? key = some part) :
    (start live named).retired = live.retired ∧ (live.parts.get? key = some part ∨
      live.parts.get? key = none ∧ key ∉ live.retired ∧ part = ⟨[],0,false,false,none,false⟩) := by
  unfold start at tracked ⊢
  split
  next => exact ⟨rfl,.inl (by simpa [*] using tracked)⟩
  next fresh =>
    rw [if_neg fresh] at tracked
    rw [not_or,Bool.not_eq_true,has_eq_false] at fresh
    have room : ∀ other, makeRoom live = some other → other.retired = live.retired ∧
        ∀ part, other.parts.get? key = some part → live.parts.get? key = some part := by
      intro other made
      unfold makeRoom at made
      split at made
      · cases made
        exact ⟨rfl,fun part hit => hit⟩
      · obtain ⟨e,_,rfl⟩ := Option.map_eq_some_iff.mp made
        refine ⟨rfl,?_⟩
        intro part hit
        change (live.parts.delete e.1).get? key = some part at hit
        rw [get?_delete] at hit
        split at hit
        · cases hit
        · exact hit
    split at tracked
    next => exact ⟨rfl,.inl tracked⟩
    next other made =>
      obtain ⟨retired,pre⟩ := room other made
      refine ⟨retired,?_⟩
      change (other.parts.set named _).get? key = some part at tracked
      rw [get?_set] at tracked
      split at tracked
      next same =>
        cases tracked
        rw [same]
        exact .inr ⟨fresh.1,fresh.2,rfl⟩
      next => exact .inl (pre part tracked)

theorem Tracks.of_same {deltas : Heard}
    (tracks : Tracks live heard key part) (retired : other.retired = live.retired)
    (same : deltas key = heard key) (text : next.text = part.text) (bytes : next.bytes = part.bytes)
    (full : next.full = part.full)
    (latest : ∀ id, next.lastEventId = some id → some id ∈ (heard key).map Prod.fst) :
    Tracks other deltas key next := by
  obtain ⟨cur,⟨madeText,madeBytes,madeFull⟩,_⟩ := tracks
  refine ⟨by rw [retired]; exact cur,⟨?_,?_,?_⟩,by rw [same]; exact latest⟩
  · rw [text,madeText,same]
  · rw [bytes,madeBytes,same]
  · rw [full,bytes,madeFull,same]

theorem extend_cases (id : Option Text) (cur : key ∉ live.retired)
    (tracked : live.parts.get? key = some part) (open_part : part.frozen = false) :
    (extend live key id (some delta)).retired = live.retired ∧
    (delta = [] ∧ (extend live key id (some delta)).parts = live.parts ∨
      delta ≠ [] ∧ (∃ known, id = some known ∧ part.lastEventId = some known) ∧
        (extend live key id (some delta)).parts = live.parts.set key part ∨
      delta ≠ [] ∧ (∀ known, id = some known → part.lastEventId ≠ some known) ∧
        (extend live key id (some delta)).parts = live.parts.set key
          (append (isRepeatedEvent part id).1 delta (boundOf key.kind)).1) := by
  unfold extend
  rw [if_neg cur,tracked]
  simp only [open_part,Bool.false_eq_true,if_false]
  split
  next empty => exact ⟨rfl,.inl ⟨length_eq_zero_iff.mp empty,rfl⟩⟩
  next some_units =>
    have nonempty : delta ≠ [] := fun empty => some_units (by rw [empty]; rfl)
    split
    next repeated =>
      cases id with
      | none => cases repeated
      | some known =>
        by_cases same : some known = part.lastEventId
        · have unchanged : isRepeatedEvent part (some known) = (part,true) := by
            rw [isRepeatedEvent,if_pos same]
          exact ⟨rfl,.inr (.inl ⟨nonempty,⟨known,rfl,same.symm⟩,by rw [unchanged]⟩)⟩
        · rw [isRepeatedEvent,if_neg same] at repeated
          cases repeated
    next fresh =>
      refine ⟨by split <;> rfl,.inr (.inr ⟨nonempty,?_,by split <;> rfl⟩)⟩
      intro known same latest
      apply fresh
      rw [same,isRepeatedEvent,if_pos latest.symm]

theorem extend_tracks
    (tracks : Tracks live heard key part) (brought : deltaOf event key = some (id,some delta))
    (tracked : live.parts.get? key = some part) (open_part : part.frozen = false)
    (recognised : Recognised live heard event)
    (hit : (extend live key id (some delta)).parts.get? key = some next) :
    Tracks (extend live key id (some delta)) (hear live event heard) key next := by
  have heardNow : hear live event heard key =
      if delta = [] ∨ (id.isSome = true ∧ id ∈ (heard key).map Prod.fst) then heard key
      else heard key ++ [(id,delta)] := by
    unfold hear
    rw [tracked]
    simp [open_part,brought]
  obtain ⟨retired,cases⟩ := @extend_cases live key part delta id tracks.current tracked open_part
  rcases cases with ⟨empty,parts⟩ | ⟨some_units,⟨known,rfl,latest⟩,parts⟩ | ⟨some_units,fresh,parts⟩
  · rw [parts,tracked] at hit
    cases hit
    exact tracks.of_same retired (by rw [heardNow,if_pos (.inl empty)]) rfl rfl rfl tracks.latest
  · rw [parts,get?_set_self] at hit
    cases hit
    have again : hear live event heard key = heard key := by
      rw [heardNow,if_pos (.inr ⟨rfl,tracks.latest known latest⟩)]
    exact tracks.of_same retired again rfl rfl rfl tracks.latest
  · rw [parts,get?_set_self] at hit
    obtain ⟨noted,notedSame⟩ : ∃ noted, (isRepeatedEvent part id).1 = noted := ⟨_,rfl⟩
    have fs : noted.text = part.text ∧ noted.bytes = part.bytes ∧ noted.full = part.full ∧
        noted.lastEventId = id.orElse fun _ => part.lastEventId := by
      rw [← notedSame]
      cases id with
      | none => exact ⟨rfl,rfl,rfl,rfl⟩
      | some known =>
        rw [isRepeatedEvent,if_neg fun same => fresh known rfl same.symm]
        exact ⟨rfl,rfl,rfl,rfl⟩
    obtain ⟨text,bytes,full,latest⟩ := fs
    rw [notedSame] at hit
    cases hit
    by_cases again : id.isSome = true ∧ id ∈ (heard key).map Prod.fst
    · obtain ⟨known,rfl⟩ := Option.isSome_iff_exists.mp again.1
      have filled : part.full = true :=
        (recognised key part known delta tracked open_part brought some_units again.2).resolve_left (fresh known rfl)
      have unchanged : (append noted delta (boundOf key.kind)).1 = noted := by
        simp [append,full,filled]
      rw [unchanged]
      refine tracks.of_same retired (by rw [heardNow,if_pos (.inr again)]) text bytes full ?_
      intro other same
      rw [latest] at same
      cases same
      exact again.2
    · have now : hear live event heard key = heard key ++ [(id,delta)] := by
        rw [heardNow,if_neg]
        intro known
        exact known.elim some_units again
      obtain ⟨madeText,madeBytes,madeFull⟩ := tracks.follows
      have follows : Follows (boundOf key.kind) noted ((heard key).map Prod.snd) :=
        ⟨by rw [text,madeText],by rw [bytes,madeBytes],by rw [full,bytes,madeFull]⟩
      refine ⟨by rw [retired]; exact tracks.current,?_,?_⟩
      · rw [now,map_append]
        exact append_follows some_units follows
      · intro other same
        rw [append_lastEventId,latest] at same
        rw [now,map_append,mem_append]
        cases id with
        | none => exact .inl (tracks.latest other same)
        | some known =>
          cases same
          exact .inr (by simp)

theorem extend_shape (named : PartKey) (id : Option Text) (delta : Option Units) :
    (extend live named id delta).retired = live.retired ∧ ((extend live named id delta).parts = live.parts ∨
        ∃ part, (extend live named id delta).parts = live.parts.set named part) := by
  unfold extend
  split
  · exact ⟨rfl,.inl rfl⟩
  · split
    · exact ⟨rfl,.inl rfl⟩
    next part _ =>
      split
      · exact ⟨rfl,.inl rfl⟩
      · split
        · exact ⟨rfl,.inr ⟨_,rfl⟩⟩
        · split
          · exact ⟨rfl,.inl rfl⟩
          · obtain ⟨noted,repeated⟩ := isRepeatedEvent part id
            cases repeated with
            | true => exact ⟨rfl,.inr ⟨_,rfl⟩⟩
            | false =>
              simp only [Bool.false_eq_true,if_false]
              split
              · exact ⟨rfl,.inr ⟨_,rfl⟩⟩
              · exact ⟨rfl,.inr ⟨_,rfl⟩⟩

theorem Sound.kept_part (sound : Sound live heard)
    (retired : other.retired = live.retired) (tracked : live.parts.get? key = some part)
    (none_brought : deltaOf event key = none) :
    Tracks other (hear live event heard) key part :=
  (sound key part tracked).of_same retired (hear_other tracked none_brought) rfl rfl rfl (sound key part tracked).latest

theorem extend_sound {delta : Option Units}
    (sound : Sound live heard) (recognised : Recognised live heard event)
    (brought : ∀ key, deltaOf event key = if named = key then some (id,delta) else none) :
    Sound (extend live named id delta) (hear live event heard) := by
  intro key next hit
  obtain ⟨retired,shape⟩ := @extend_shape live named id delta
  by_cases same : key = named
  · subst same
    have bring := (brought key).trans (if_pos rfl)
    cases tracked : live.parts.get? key with
    | none =>
      have gone : (extend live key id delta).parts = live.parts := by
        unfold extend
        split
        · rfl
        · rw [tracked]
          rfl
      rw [gone,tracked] at hit
      cases hit
    | some part =>
      have tracks := sound key part tracked
      have cur := tracks.current
      cases frozen : part.frozen with
      | true =>
        have unchanged : (extend live key id delta).parts = live.parts := by
          unfold extend
          rw [if_neg cur,tracked]
          simp [frozen,drop]
        rw [unchanged,tracked] at hit
        cases hit
        have silent : hear live event heard key = heard key := by
          unfold hear
          rw [tracked]
          simp [frozen]
        exact tracks.of_same retired silent rfl rfl rfl tracks.latest
      | false =>
        cases delta with
        | some delta => exact extend_tracks tracks bring tracked frozen recognised hit
        | none =>
          have stopped : (extend live key id none).parts = live.parts.set key { part with frozen := true } := by
            unfold extend
            rw [if_neg cur,tracked]
            simp [frozen,drop]
          rw [stopped,get?_set_self] at hit
          cases hit
          have silent : hear live event heard key = heard key := by
            unfold hear
            rw [tracked]
            simp [frozen,bring]
          exact tracks.of_same retired silent rfl rfl rfl tracks.latest
  · have tracked : live.parts.get? key = some next := by
      rcases shape with unchanged | ⟨part,changed⟩
      · rw [← unchanged,hit]
      · rw [changed,get?_set_of_ne part same] at hit
        exact hit
    exact sound.kept_part retired tracked ((brought key).trans (if_neg fun equal => same equal.symm))

theorem start_sound (named : PartKey) (sound : Sound live heard) (none_brought : ∀ key, deltaOf event key = none) :
    Sound (start live named) (hear live event heard) := by
  intro key next hit
  obtain ⟨retired,tracked | ⟨gone,cur,rfl⟩⟩ := start_parts hit
  · exact sound.kept_part retired tracked (none_brought key)
  · exact tracks_fresh (by rw [retired]; exact cur) (hear_untracked gone)

theorem observe_sound {sessionId : Text} {r : RuntimeEvent} (sound : Sound live heard)
    (recognised : Recognised live heard (.observe sessionId r)) :
    Sound (observe live sessionId r) (hear live (.observe sessionId r) heard) := by
  unfold observe
  cases read : partEvent sessionId r with
  | none =>
    intro key part hit
    exact sound.kept_part rfl hit (by simp [deltaOf,read])
  | some e =>
    obtain ⟨kind,step,key,data⟩ := e
    cases step with
    | started =>
      have none_brought (other : PartKey) : deltaOf (.observe sessionId r) other = none := by
        simp [deltaOf,read]
      cases key with
      | none =>
        intro key part hit
        exact sound.kept_part rfl hit (none_brought key)
      | some named => exact start_sound named sound none_brought
    | delta =>
      cases key with
      | none =>
        intro key part hit
        exact sound.kept_part rfl hit (by simp [deltaOf,read])
      | some named =>
        apply extend_sound sound recognised
        intro other
        simp [deltaOf,read]

theorem step_sound (event : Event) (sound : Sound live heard) (recognised : Recognised live heard event) :
    Sound (step live event) (hear live event heard) := by
  cases event with
  | observe sessionId r => exact observe_sound sound recognised
  | retire named =>
    intro key part hit
    change (retire live named).parts.get? key = some part at hit
    unfold retire at hit
    change Tracks (retire live named) _ key part
    unfold retire
    split at hit
    next known =>
      change (live.parts.delete named).get? key = some part at hit
      rw [get?_delete] at hit
      split at hit
      · cases hit
      next differ =>
        have tracks := sound key part hit
        rw [if_pos known]
        have cur : key ∉ (if named ∈ live.retired then live.retired else live.retired ++ [named]) := by
          split
          · exact tracks.current
          · rw [mem_append,mem_singleton,not_or]
            exact ⟨tracks.current,differ⟩
        obtain ⟨_,follows,latest⟩ := tracks
        have silent : hear live (.retire named) heard key = heard key := hear_other hit rfl
        refine ⟨?_,by rw [silent]; exact follows,by rw [silent]; exact latest⟩
        simp only
        generalize (if named ∈ live.retired then live.retired else live.retired ++ [named]) = all at cur ⊢
        split
        · exact fun mem => cur (mem_of_mem_drop mem)
        · exact cur
    next unknown =>
      rw [if_neg unknown]
      exact sound.kept_part rfl hit rfl
  | markDiverged named =>
    change Sound (markDiverged live named) _
    unfold markDiverged
    split
    · exact fun key part hit => sound.kept_part rfl hit rfl
    next known tracked =>
      split
      · exact fun key part hit => sound.kept_part rfl hit rfl
      next =>
        intro key part hit
        change (live.parts.set named _).get? key = some part at hit
        rw [get?_set] at hit
        split at hit
        next same =>
          cases hit
          subst same
          have tracks := sound key known tracked
          exact tracks.of_same rfl (hear_other tracked rfl) rfl rfl rfl tracks.latest
        next => exact sound.kept_part rfl hit rfl
  | freeze =>
    intro key part hit
    change (live.parts.mapValues _).get? key = some part at hit
    rw [get?_mapValues] at hit
    obtain ⟨known,tracked,rfl⟩ := Option.map_eq_some_iff.mp hit
    have tracks := sound key known tracked
    exact tracks.of_same rfl (hear_other tracked rfl) rfl rfl rfl tracks.latest
  | takeCounts =>
    intro key part hit
    exact sound.kept_part rfl hit rfl

theorem run_sound (evs : List Event) (sound : Sound live heard)
    (recognised : RecognisedFrom live heard evs) :
    Sound (evs.foldl step live) (heardFrom live heard evs) := by
  induction evs generalizing live heard with
  | nil => exact sound
  | cons event evs ih => exact ih (step_sound event sound recognised.1) recognised.2

def unheard : Heard := fun _ => []

/-- A part shows the start of what came to it, and shows the history's cut of it just when the
deltas of that cut count within the bound. -/
theorem liveText_shows (events : List Event) (recognised : RecognisedFrom .empty unheard events)
    (key : PartKey) (shown : Units) (tracked : textOf (liveText.run events) key = some shown) :
    shown <+: ((heardFrom .empty unheard events key).map Prod.snd).flatten ∧
      (shown = projected (boundOf key.kind)
          ((heardFrom .empty unheard events key).map Prod.snd).flatten ↔
        CountsWithin (boundOf key.kind) ((heardFrom .empty unheard events key).map Prod.snd)) := by
  have nothing : Sound .empty unheard := fun key part found => by cases found
  obtain ⟨part,found,rfl⟩ := Option.map_eq_some_iff.mp tracked
  have tracks := run_sound events nothing recognised key part found
  rw [tracks.follows.text]
  refine ⟨?_,shown_iff _ _⟩
  have start := kept_prefix (boundOf key.kind) ((heardFrom .empty unheard events key).map Prod.snd)
  rcases withoutDangling_cases (kept (boundOf key.kind)
      ((heardFrom .empty unheard events key).map Prod.snd)).flatten with ⟨same,_⟩ | ⟨c,same,_⟩
  · rw [same]
    exact start
  · exact (prefix_append _ [c]).trans (same ▸ start)

end Runs

section SharedPair

def samplePart : PartKey := ⟨.text,"msg_a".toList,0⟩

def partEventOf (type : String) (delta : Option Units) : Event :=
  .observe "ses".toList ⟨some type.toList,none,
    some ⟨some "ses".toList,some "msg_a".toList,some (.finite 0),delta⟩⟩

def givenTwo (first second : Units) : List Event :=
  [partEventOf "session.text.started" none,partEventOf "session.text.delta" (some first),
    partEventOf "session.text.delta" (some second)]

theorem step_started : step .empty (partEventOf "session.text.started" none) =
    { LiveTextOverlay.empty with
      parts := OrderedMap.empty.set samplePart ⟨[],0,false,false,none,false⟩ } := rfl

theorem extend_unnamed {overlay : LiveTextOverlay} {part : LivePart} {delta : Units}
    (cur : samplePart ∉ overlay.retired) (tracked : overlay.parts.get? samplePart = some part)
    (open_part : part.frozen = false) (some_units : delta ≠ []) :
    (extend overlay samplePart none (some delta)).parts.get? samplePart =
      some (append part delta maxLiveTextUtf8Bytes).1 := by
  obtain ⟨_,⟨empty,_⟩ | ⟨_,⟨known,no_id,_⟩,_⟩ | ⟨_,_,parts⟩⟩ :=
    @extend_cases overlay samplePart part delta none cur tracked open_part
  · exact absurd empty some_units
  · cases no_id
  · rw [parts,get?_set_self]
    rfl

theorem append_frozen (part : LivePart) (delta : Units) (bound : Nat) :
    (append part delta bound).1.frozen = part.frozen := by
  unfold append
  split
  · rfl
  · simp only
    generalize (if (Units.byteLength delta : ℤ) ≤ (bound : ℤ) - part.bytes then delta
      else fittingUtf8Prefix delta ((bound : ℤ) - part.bytes).toNat) = taken
    split
    · rfl
    · rfl

theorem textOf_givenTwo {a b : Units} (someFirst : a ≠ []) (someSecond : b ≠ []) :
    textOf (liveText.run (givenTwo a b)) samplePart =
      some (withoutDanglingSurrogate (kept maxLiveTextUtf8Bytes [a,b]).flatten) := by
  have fresh : Follows maxLiveTextUtf8Bytes ⟨[],0,false,false,none,false⟩ [] :=
    ⟨rfl,rfl,⟨fun _ => ⟨rfl,boundOf_pos .text⟩,fun _ => rfl⟩⟩
  have one := append_follows someFirst fresh
  have two := append_follows someSecond one
  have started : (step .empty (partEventOf "session.text.started" none)).parts.get? samplePart =
      some ⟨[],0,false,false,none,false⟩ := by
    rw [step_started,get?_set_self]
  have none_retired (overlay : LiveTextOverlay) (delta : Option Units)
      (nothing : overlay.retired = []) : (extend overlay samplePart none delta).retired = [] := by
    rw [(@extend_shape overlay samplePart none delta).1,nothing]
  have firstDelta := extend_unnamed (by rw [step_started]; exact not_mem_nil) started rfl someFirst
  have secondDelta := extend_unnamed
    (by rw [none_retired _ _ (by rw [step_started]; rfl)]; exact not_mem_nil) firstDelta
    (by rw [append_frozen]) someSecond
  have shown : textOf (liveText.run (givenTwo a b)) samplePart =
      (some (append (append ⟨[],0,false,false,none,false⟩ a maxLiveTextUtf8Bytes).1 b
        maxLiveTextUtf8Bytes).1).map fun part => withoutDanglingSurrogate part.text := by
    rw [← secondDelta]
    rfl
  rw [shown,Option.map_some,two.text]
  rfl

theorem recognised_unnamed (overlay : LiveTextOverlay) (heard : Heard) (type : String)
    (delta : Option Units) : Recognised overlay heard (partEventOf type delta) := by
  intro key part id units _ _ brought
  unfold deltaOf partEventOf at brought
  simp only at brought
  split at brought
  · split at brought
    · cases brought
    · cases brought
  · cases brought

theorem recognised_givenTwo (a b : Units) : RecognisedFrom .empty unheard (givenTwo a b) :=
  ⟨recognised_unnamed _ _ _ _,recognised_unnamed _ _ _ _,recognised_unnamed _ _ _ _,trivial⟩

theorem liveText_shows_sample :
    [unit 'a',unit 'b'] <+: ((heardFrom .empty unheard (givenTwo [unit 'a'] [unit 'b'])
        samplePart).map Prod.snd).flatten ∧
      ([unit 'a',unit 'b'] = projected (boundOf samplePart.kind)
          ((heardFrom .empty unheard (givenTwo [unit 'a'] [unit 'b'])
            samplePart).map Prod.snd).flatten ↔
        CountsWithin (boundOf samplePart.kind)
          ((heardFrom .empty unheard (givenTwo [unit 'a'] [unit 'b']) samplePart).map Prod.snd)) :=
  liveText_shows (givenTwo [unit 'a'] [unit 'b']) (recognised_givenTwo _ _) samplePart _ (by
    rw [textOf_givenTwo (cons_ne_nil _ _) (cons_ne_nil _ _)]
    rfl)

def highHalf : CodeUnit := 0xd83d

def lowHalf : CodeUnit := 0xde00

theorem byteLength_plain (n : Nat) (text : Units) :
    Units.byteLength (List.replicate n (unit 'x') ++ text) = n + Units.byteLength text := by
  induction n with
  | zero => simp
  | succ n ih =>
    have plain : Units.isHigh (unit 'x') = false := by decide
    have one : Units.characterBytes [unit 'x'] = 1 := by decide
    rw [replicate_succ,cons_append,Units.byteLength,Units.characters_plain plain,Units.weight_cons,one]
    change 1 + Units.byteLength _ = _
    rw [ih]
    omega

theorem projected_fitting {bound : Nat} {text : Units} {last : CodeUnit}
    (fits : Units.byteLength (text ++ [last]) ≤ bound) (whole : Units.isHigh last = false) :
    projected bound (text ++ [last]) = text ++ [last] := by
  have weight : 0 + Units.weight (Units.characters (text ++ [last])) ≤ bound := by
    rw [zero_add]
    exact fits
  rw [projected,fittingUtf8Prefix,Units.fittingFrom_all weight,Units.flatten_characters,
    withoutDanglingSurrogate,getLast?_concat]
  simp [whole]

theorem countedBytes_shared (plain : Units) :
    Units.countedBytes [plain ++ [highHalf],[lowHalf]] (plain ++ [highHalf] ++ [lowHalf]).length =
      Units.byteLength (plain ++ [highHalf]) + 3 := by
  have size : (plain ++ [highHalf] ++ [lowHalf]).length = (plain ++ [highHalf]).length + 1 :=
    length_append
  have one : Units.byteLength [lowHalf] = 3 := by decide
  rw [size,Units.countedBytes_cons,Units.countedBytes_cons,take_of_length_le (Nat.le_succ _),Nat.add_sub_cancel_left,
    take_of_length_le (le_refl 1),one]
  rfl

theorem shown_ne_of_shared {bound : Nat} {plain : Units}
    (fits : Units.byteLength (plain ++ [highHalf] ++ [lowHalf]) ≤ bound)
    (counted : bound < Units.byteLength (plain ++ [highHalf]) + 3) :
    withoutDanglingSurrogate (kept bound [plain ++ [highHalf],[lowHalf]]).flatten ≠
      projected bound (plain ++ [highHalf] ++ [lowHalf]) := by
  intro same
  have whole : [plain ++ [highHalf],[lowHalf]].flatten = plain ++ [highHalf] ++ [lowHalf] := by
    rw [flatten_cons,flatten_singleton]
  rw [← whole] at same
  have cut := ((shown_iff bound _).mp same).cut
  rw [whole,projected_fitting fits (by decide),countedBytes_shared] at cut
  omega

/-- A pair that two deltas share at the bound is not shown, though the history shows it: both
halves count three bytes, and the pair has four. -/
theorem liveText_shows_less : ∃ first second : Units,
    textOf (liveText.run (givenTwo first second)) samplePart ≠
      some (projected maxLiveTextUtf8Bytes (first ++ second)) := by
  refine ⟨replicate 65531 (unit 'x') ++ [highHalf],[lowHalf],?_⟩
  rw [textOf_givenTwo (append_ne_nil_of_right_ne_nil _ (cons_ne_nil _ _))
    (cons_ne_nil _ _)]
  have pair : Units.byteLength [highHalf,lowHalf] = 4 := by decide
  have half : Units.byteLength [highHalf] = 3 := by decide
  have bound : maxLiveTextUtf8Bytes = 65536 := rfl
  have fits : Units.byteLength (replicate 65531 (unit 'x') ++ [highHalf] ++ [lowHalf]) ≤
      maxLiveTextUtf8Bytes := by
    rw [append_assoc,byteLength_plain,singleton_append,pair,bound]
    omega
  have counted : maxLiveTextUtf8Bytes <
      Units.byteLength (replicate 65531 (unit 'x') ++ [highHalf]) + 3 := by
    rw [byteLength_plain,half,bound]
    omega
  intro same
  exact shown_ne_of_shared fits counted (Option.some.inj same)

end SharedPair

end Keiko.LiveText
