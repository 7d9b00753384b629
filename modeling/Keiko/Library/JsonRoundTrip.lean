import Keiko.Library.JsonText

/-! Reading back what was written. A plain value is one that a program can hold as data: its
numbers belong to the format, and its objects list their fields in the enumeration order. -/
namespace Keiko.Library.Json
open List Option

section Plain

structure Enumerated {α : Type*} (fields : List (Text × α)) : Prop where
  distinct : (fields.map Prod.fst).Nodup
  ordered : (fields.map Prod.fst).Pairwise fun left right => precedes right left = false

section Over

variable (numbers : Number → Prop)

mutual

/-- Values whose objects list their fields in order and whose numbers are of a kind. -/
def Over : Json → Prop
  | .number value => numbers value
  | .array items => OverItems items
  | .object fields => Enumerated fields ∧ OverFields fields
  | _ => True

def OverItems : List Json → Prop
  | [] => True
  | item :: items => Over item ∧ OverItems items

def OverFields : List (Text × Json) → Prop
  | [] => True
  | field :: fields => Over field.2 ∧ OverFields fields

end

variable {numbers}

theorem overItems_iff {xs : List Json} : OverItems numbers xs ↔ ∀ item ∈ xs, Over numbers item := by
  induction xs with
  | nil => simp [OverItems]
  | cons item xs ih => simp [OverItems,ih]

theorem overFields_iff {fs : List (Text × Json)} :
    OverFields numbers fs ↔ ∀ field ∈ fs, Over numbers field.2 := by
  induction fs with
  | nil => simp [OverFields]
  | cons field fs ih =>
    rw [OverFields,ih]
    simp

end Over

/-- The numbers that a program can hold, and those among them that are written as numerals. -/
def HeldNumber (value : Number) : Prop := ∀ x, value = .finite x → Binary64.Exact x

def PlainNumber (value : Number) : Prop := ∃ x, value = .finite x ∧ Binary64.Exact x

abbrev Held : Json → Prop := Over HeldNumber
abbrev Plain : Json → Prop := Over PlainNumber
abbrev PlainItems : List Json → Prop := OverItems PlainNumber
abbrev PlainFields : List (Text × Json) → Prop := OverFields PlainNumber

theorem objectOf_enumerated {fs : List (Text × Json)} (enumerated : Enumerated fs) :
    objectOf fs = .object fs := by
  have copied := Record.fromEntries_entries ⟨fs,enumerated.distinct,enumerated.ordered⟩
  exact congrArg (fun r => Json.object r.entries) copied

theorem enumerated_record {α : Type*} (r : Record α) : Enumerated r.entries :=
  ⟨r.distinct,r.ordered⟩

end Plain

section Reading

theorem heldNumber_round (q : ℚ) : HeldNumber (Binary64.round q) :=
  fun _ rounded => Binary64.exact_of_round rounded

theorem heldNumber_neg {v : Number} (held : HeldNumber v) : HeldNumber v.neg := by
  intro x negated
  cases v with
  | finite y =>
    obtain rfl := Number.finite.inj negated
    exact (held y rfl).neg
  | infinity => cases negated
  | negInfinity => cases negated
  | nan => cases negated

theorem heldNumber_readNumber {t rest : Text} {v : Number}
    (read : Decimal.readNumber t = some ⟨v,rest⟩) : HeldNumber v := by
  unfold Decimal.readNumber at read
  split at read
  · obtain ⟨_,_,same⟩ := map_eq_some_iff.mp read
    cases same
    exact heldNumber_neg (heldNumber_round _)
  · obtain ⟨_,_,same⟩ := map_eq_some_iff.mp read
    cases same
    exact heldNumber_round _

theorem held_readScalar {t rest : Text} {v : Json}
    (read : readScalar t = some ⟨v,rest⟩) : Held v := by
  unfold readScalar at read
  split at read
  · next literal hit =>
    have mem := mem_of_find?_eq_some hit
    cases read
    have constants : ∀ literal ∈ literals, Held literal.2 := by
      intro literal mem
      simp only [literals,mem_cons,not_mem_nil,or_false] at mem
      rcases mem with rfl | rfl | rfl <;> trivial
    exact constants literal mem
  · obtain ⟨n,hit,same⟩ := map_eq_some_iff.mp read
    cases same
    exact @heldNumber_readNumber _ n.2 _ hit

theorem held_readField {reader : Text → Option (Json × Text)}
    (held : ∀ t v rest, reader t = some ⟨v,rest⟩ → Held v) {t rest : Text}
    {field : Text × Json} (read : readField reader t = some ⟨field,rest⟩) : Held field.2 := by
  unfold readField at read
  split at read
  · cases read
  · split at read
    · obtain ⟨named,_,read⟩ := bind_eq_some_iff.mp read
      dsimp only at read
      split at read
      · obtain ⟨valued,hit,same⟩ := map_eq_some_iff.mp read
        cases same
        exact held _ valued.1 valued.2 hit
      · cases read
    · cases read

theorem held_objectOf {fs : List (Text × Json)} (held : ∀ field ∈ fs, Held field.2) :
    Held (objectOf fs) := by
  refine ⟨enumerated_record _,overFields_iff.mpr ?_⟩
  intro field mem
  exact held field (Record.of_mem_fromEntries mem)

theorem held_read (turns : Nat) : (∀ t v rest, readValue turns t = some ⟨v,rest⟩ → Held v) ∧
      (∀ t xs rest, readLaterItems turns t = some ⟨xs,rest⟩ → ∀ item ∈ xs, Held item) ∧
        ∀ t fs rest, readLaterFields turns t = some ⟨fs,rest⟩ → ∀ field ∈ fs, Held field.2 := by
  induction turns with
  | zero => simp [readValue,readLaterItems,readLaterFields]
  | succ turns ih =>
    obtain ⟨values,xs,fs⟩ := ih
    refine ⟨?_,?_,?_⟩
    · intro t v rest read
      rw [readValue] at read
      split at read
      · cases read
      split at read
      · obtain ⟨_,_,same⟩ := map_eq_some_iff.mp read
        cases same
        trivial
      split at read
      · split at read
        · cases read
          trivial
        · obtain ⟨a,hit,read⟩ := bind_eq_some_iff.mp read
          obtain ⟨post,found',read⟩ := bind_eq_some_iff.mp read
          cases read
          refine overItems_iff.mpr ?_
          intro item mem
          rcases mem_cons.mp mem with rfl | inside
          · exact values _ _ a.2 hit
          · exact xs _ _ post.2 found' item inside
      split at read
      · split at read
        · cases read
          exact ⟨⟨nodup_nil,List.Pairwise.nil⟩,trivial⟩
        · obtain ⟨a,hit,read⟩ := bind_eq_some_iff.mp read
          obtain ⟨post,found',read⟩ := bind_eq_some_iff.mp read
          cases read
          apply held_objectOf
          intro field mem
          rcases mem_cons.mp mem with rfl | inside
          · exact @held_readField _ values _ a.2 _ hit
          · exact fs _ _ post.2 found' field inside
      · exact held_readScalar read
    · intro t items' rest read
      rw [readLaterItems] at read
      split at read
      · cases read
      split at read
      · cases read
        simp
      split at read
      · obtain ⟨a,hit,read⟩ := bind_eq_some_iff.mp read
        obtain ⟨post,found',read⟩ := bind_eq_some_iff.mp read
        cases read
        intro item mem
        rcases mem_cons.mp mem with rfl | inside
        · exact values _ _ a.2 hit
        · exact xs _ _ post.2 found' item inside
      · cases read
    · intro t fields' rest read
      rw [readLaterFields] at read
      split at read
      · cases read
      split at read
      · cases read
        simp
      split at read
      · obtain ⟨a,hit,read⟩ := bind_eq_some_iff.mp read
        obtain ⟨post,found',read⟩ := bind_eq_some_iff.mp read
        cases read
        intro field mem
        rcases mem_cons.mp mem with rfl | inside
        · exact @held_readField _ values _ a.2 _ hit
        · exact fs _ _ post.2 found' field inside
      · cases read

theorem held_parse {t : Text} {v : Json} (parsed : parse t = some v) : Held v := by
  unfold parse at parsed
  split at parsed
  · next read hit =>
    split at parsed
    · cases parsed
      exact (held_read t.length).1 _ _ read.2 hit
    · cases parsed
  · cases parsed

end Reading

section Same

mutual

/-- Equal values, the order of the fields of every object aside. -/
inductive Same : Json → Json → Prop where
  | null : Same .null .null
  | bool (value : Bool) : Same (.bool value) (.bool value)
  | number (value : Number) : Same (.number value) (.number value)
  | string (text : Text) : Same (.string text) (.string text)
  | array {items items' : List Json} (same : SameItems items items') :
    Same (.array items) (.array items')
  | object {fields fields' fields'' : List (Text × Json)} (same : SameFields fields fields')
    (perm : fields'.Perm fields'') : Same (.object fields) (.object fields'')

inductive SameItems : List Json → List Json → Prop where
  | nil : SameItems [] []
  | cons {item item' : Json} {items items' : List Json} (same : Same item item')
    (later : SameItems items items') : SameItems (item :: items) (item' :: items')

inductive SameFields : List (Text × Json) → List (Text × Json) → Prop where
  | nil : SameFields [] []
  | cons {value value' : Json} {fields fields' : List (Text × Json)} (key : Text)
    (same : Same value value') (later : SameFields fields fields') :
    SameFields ((key,value) :: fields) ((key,value') :: fields')

end

theorem sameItems_map {xs : List Json} {f : Json → Json}
    (same : ∀ item ∈ xs, Same item (f item)) : SameItems xs (xs.map f) := by
  induction xs with
  | nil => exact .nil
  | cons item xs ih =>
    exact .cons (same item (by simp)) (ih fun item mem => same item (by simp [mem]))

theorem sameFields_map {fs : List (Text × Json)} {f : Json → Json}
    (same : ∀ field ∈ fs, Same field.2 (f field.2)) :
    SameFields fs (fs.map fun field => (field.1,f field.2)) := by
  induction fs with
  | nil => exact .nil
  | cons field fs ih =>
    exact .cons field.1 (same field (by simp)) (ih fun field mem => same field (by simp [mem]))

end Same

section RoundTrip

variable {rest : Text}

theorem stringify_head {v : Json} (plain : Plain v) :
    ∃ c t, stringify v = c :: t ∧ isBlank c = false ∧ c ≠ ']' := by
  cases v with
  | null => exact ⟨'n',_,rfl,rfl,by decide⟩
  | bool v => cases v <;> exact ⟨_,_,rfl,rfl,by decide⟩
  | string t => exact ⟨quotationMark,_,rfl,rfl,by decide⟩
  | array items => cases items <;> exact ⟨'[',_,rfl,rfl,by decide⟩
  | object fs => cases fs <;> exact ⟨'\x7b',_,rfl,rfl,by decide⟩
  | number v =>
    obtain ⟨x,rfl,exact⟩ := plain
    obtain ⟨_,c,t,written,a⟩ := Decimal.numberText_shape exact
    refine ⟨c,t,written,?_,?_⟩
    · rcases a with rfl | digit
      · rfl
      · simp only [isBlank,contains_eq_mem,decide_eq_false_iff_not]
        intro blank
        simp only [mem_cons,not_mem_nil,or_false] at blank
        rcases blank with rfl | rfl | rfl | rfl <;> cases digit
    · rcases a with rfl | digit
      · decide
      · intro same
        subst same
        cases digit

theorem skipSpace_cons {c : Char} (t : Text) (dark : isBlank c = false) :
    skipSpace (c :: t) = c :: t := dropWhile_cons_of_neg (by simp [dark])

theorem skipSpace_stringify {v : Json} (plain : Plain v) (rest : Text) :
    skipSpace (stringify v ++ rest) = stringify v ++ rest := by
  obtain ⟨c,t,written,dark,_⟩ := stringify_head plain
  rw [written,cons_append,skipSpace_cons _ dark]

theorem readValue_scalar {t : Text} {turns : Nat} {c : Char}
    (dark : isBlank c = false) (other : c ≠ quotationMark ∧ c ≠ '[' ∧ c ≠ '\x7b') :
    readValue (turns + 1) (c :: t) = readScalar (c :: t) := by
  rw [readValue,skipSpace_cons _ dark]
  dsimp only
  rw [if_neg other.1,if_neg other.2.1,if_neg other.2.2]

theorem readScalar_numberText {x : ℚ} (exact : Binary64.Exact x) (ends : Decimal.Ends rest) :
    readScalar (Decimal.numberText x ++ rest) = some ⟨.number (.finite x),rest⟩ := by
  obtain ⟨_,c,t,written,a⟩ := Decimal.numberText_shape exact
  have no_literal : literals.find? (fun literal =>
      literal.1.isPrefixOf (Decimal.numberText x ++ rest)) = none := by
    rw [find?_eq_none]
    have heads : ∀ literal ∈ literals, ∃ d word, literal.1 = d :: word ∧ d ≠ '-' ∧ Text.isDigit d = false := by
      simp [literals,Text.isDigit]
    intro literal mem starts
    obtain ⟨d,word,named,no_sign,no_digit⟩ := heads literal mem
    rw [named,written,cons_append,List.isPrefixOf_iff_prefix,cons_prefix_cons] at starts
    obtain ⟨rfl,_⟩ := starts
    rcases a with sign | digit
    · exact no_sign sign
    · rw [digit] at no_digit
      contradiction
  rw [readScalar,no_literal]
  dsimp only
  rw [Decimal.readNumber_numberText exact ends]
  rfl

theorem ends_laterItems (xs : List Json) (rest : Text) : Decimal.Ends (laterItems xs ++ rest) := by
  intro c first
  cases xs <;>
    · obtain rfl := some.inj first
      exact ⟨rfl,by decide,by decide,by decide⟩

theorem ends_laterFields (fs : List (Text × Json)) (rest : Text) : Decimal.Ends (laterFields fs ++ rest) := by
  intro c first
  cases fs <;>
    · obtain rfl := some.inj first
      exact ⟨rfl,by decide,by decide,by decide⟩

theorem readValue_quote {turns : Nat} (t rest : Text) :
    readValue (turns + 1) (quote t ++ rest) = some ⟨.string t,rest⟩ := by
  rw [quote,cons_append,readValue,skipSpace_cons _ rfl]
  dsimp only
  rw [if_pos rfl,append_assoc,singleton_append,readString_quote]
  rfl

theorem readField_quote {read : Text → Option (Json × Text)} {v : Json} {key t rest : Text}
    (hit : read t = some ⟨v,rest⟩) :
    readField read (quote key ++ ':' :: t) = some ⟨(key,v),rest⟩ := by
  have colon : skipSpace (':' :: t) = ':' :: t := skipSpace_cons _ rfl
  rw [quote,cons_append,readField,skipSpace_cons _ rfl]
  dsimp only
  rw [if_pos rfl,append_assoc,singleton_append,readString_quote]
  simp only [bind_eq_bind,bind_some,colon,hit,map_some]

theorem exists_turn {c : Char} {t : Text} {turns : Nat} (enough : (c :: t).length ≤ turns) :
    ∃ left, turns = left + 1 ∧ t.length ≤ left :=
  ⟨turns - 1,by rw [length_cons] at enough; omega,by rw [length_cons] at enough; omega⟩

theorem length_le_of_append {a b : Text} {turns : Nat} (enough : (a ++ b).length ≤ turns) :
    a.length ≤ turns ∧ b.length ≤ turns := by
  rw [length_append] at enough
  omega

mutual

theorem readValue_stringify : ∀ (v : Json) (turns : Nat) (rest : Text), Plain v →
    (stringify v).length ≤ turns → Decimal.Ends rest → readValue turns (stringify v ++ rest) = some ⟨v,rest⟩
  | .null, turns, rest, _, enough, _ => by
    obtain ⟨left,rfl,_⟩ := exists_turn enough
    exact readValue_scalar rfl (by decide)
  | .bool true, turns, rest, _, enough, _ => by
    obtain ⟨left,rfl,_⟩ := exists_turn enough
    exact readValue_scalar rfl (by decide)
  | .bool false, turns, rest, _, enough, _ => by
    obtain ⟨left,rfl,_⟩ := exists_turn enough
    exact readValue_scalar rfl (by decide)
  | .string t, turns, rest, _, enough, _ => by
    obtain ⟨left,rfl,_⟩ := exists_turn enough
    exact readValue_quote t rest
  | .number v, turns, rest, plain, enough, ends => by
    obtain ⟨x,rfl,exact⟩ := plain
    obtain ⟨_,c,t,written,a⟩ := Decimal.numberText_shape exact
    have shape : stringify (.number (.finite x)) = c :: t := written
    obtain ⟨left,rfl,_⟩ := exists_turn (shape ▸ enough)
    obtain ⟨d,text',head,dark,_⟩ := @stringify_head (.number (.finite x)) ⟨x,rfl,exact⟩
    obtain ⟨rfl,rfl⟩ := cons.inj (head.symm.trans shape)
    have plainly : d ≠ quotationMark ∧ d ≠ '[' ∧ d ≠ '\x7b' := by
      rcases a with rfl | digit
      · decide
      · refine ⟨?_,?_,?_⟩ <;>
          · intro same
            subst same
            cases digit
    rw [shape,cons_append,readValue_scalar dark plainly,← cons_append,← written]
    exact readScalar_numberText exact ends
  | .array [], turns, rest, _, enough, _ => by
    obtain ⟨left,rfl,_⟩ := exists_turn enough
    rfl
  | .array (item :: xs), turns, rest, plain, enough, _ => by
    obtain ⟨left,rfl,mem⟩ := exists_turn enough
    obtain ⟨enoughFirst,enoughLater⟩ := length_le_of_append mem
    obtain ⟨c,t,written,dark,notEnd⟩ := stringify_head plain.1
    have a := readValue_stringify item left (laterItems xs ++ rest) plain.1 enoughFirst
      (ends_laterItems xs rest)
    have post := readLaterItems_laterItems xs left rest plain.2 enoughLater
    have more : (skipSpace (stringify item ++ (laterItems xs ++ rest))).head? ≠ some ']' := by
      rw [skipSpace_stringify plain.1,written]
      intro same
      exact notEnd (some.inj same)
    rw [stringify,cons_append,append_assoc,readValue,skipSpace_cons _ rfl]
    dsimp only
    rw [if_neg (by decide),if_pos rfl,if_neg more,a]
    simp only [bind_eq_bind,bind_some,post]
  | .object [], turns, rest, _, enough, _ => by
    obtain ⟨left,rfl,_⟩ := exists_turn enough
    rfl
  | .object ((key,v) :: fs), turns, rest, plain, enough, _ => by
    obtain ⟨enumerated,plainFirst,plainLater⟩ := plain
    obtain ⟨left,rfl,mem⟩ := exists_turn enough
    have enoughInside := (length_le_of_append mem).2
    rw [length_cons] at enoughInside
    obtain ⟨enoughFirst,enoughLater⟩ := length_le_of_append (Nat.le_of_succ_le enoughInside)
    have a := readValue_stringify v left (laterFields fs ++ rest) plainFirst enoughFirst
      (ends_laterFields fs rest)
    have post := readLaterFields_laterFields fs left rest plainLater enoughLater
    have more : (skipSpace (quote key ++ ':' :: (stringify v ++
        (laterFields fs ++ rest)))).head? ≠ some '\x7d' := by
      rw [quote,cons_append,skipSpace_cons _ rfl]
      exact fun same => absurd (some.inj same) (by decide)
    rw [stringify,cons_append,append_assoc,cons_append,append_assoc,readValue,skipSpace_cons _ rfl]
    dsimp only
    rw [if_neg (by decide),if_neg (by decide),if_pos rfl,if_neg more,readField_quote a]
    simp only [bind_eq_bind,bind_some,post]
    rw [objectOf_enumerated enumerated]

theorem readLaterItems_laterItems : ∀ (xs : List Json) (turns : Nat) (rest : Text),
    PlainItems xs → (laterItems xs).length ≤ turns →
      readLaterItems turns (laterItems xs ++ rest) = some ⟨xs,rest⟩
  | [], turns, rest, _, enough => by
    obtain ⟨left,rfl,_⟩ := exists_turn enough
    rfl
  | item :: xs, turns, rest, plain, enough => by
    obtain ⟨left,rfl,mem⟩ := exists_turn enough
    obtain ⟨enoughFirst,enoughLater⟩ := length_le_of_append mem
    have a := readValue_stringify item left (laterItems xs ++ rest) plain.1 enoughFirst
      (ends_laterItems xs rest)
    have post := readLaterItems_laterItems xs left rest plain.2 enoughLater
    rw [laterItems,cons_append,append_assoc,readLaterItems,skipSpace_cons _ rfl]
    dsimp only
    rw [if_neg (by decide),if_pos rfl,a]
    simp only [bind_eq_bind,bind_some,post]

theorem readLaterFields_laterFields : ∀ (fs : List (Text × Json)) (turns : Nat) (rest : Text),
    PlainFields fs → (laterFields fs).length ≤ turns →
      readLaterFields turns (laterFields fs ++ rest) = some ⟨fs,rest⟩
  | [], turns, rest, _, enough => by
    obtain ⟨left,rfl,_⟩ := exists_turn enough
    rfl
  | (key,v) :: fs, turns, rest, plain, enough => by
    obtain ⟨left,rfl,mem⟩ := exists_turn enough
    have enoughInside := (length_le_of_append mem).2
    rw [length_cons] at enoughInside
    obtain ⟨enoughFirst,enoughLater⟩ := length_le_of_append (Nat.le_of_succ_le enoughInside)
    have a := readValue_stringify v left (laterFields fs ++ rest) plain.1 enoughFirst
      (ends_laterFields fs rest)
    have post := readLaterFields_laterFields fs left rest plain.2 enoughLater
    rw [laterFields,cons_append,append_assoc,cons_append,append_assoc,readLaterFields,skipSpace_cons _ rfl]
    dsimp only
    rw [if_neg (by decide),if_pos rfl,readField_quote a]
    simp only [bind_eq_bind,bind_some,post]

end

theorem parse_stringify {v : Json} (plain : Plain v) : parse (stringify v) = some v := by
  have ends : Decimal.Ends [] := fun c first => by cases first
  have read := readValue_stringify v _ [] plain (le_refl _) ends
  rw [append_nil] at read
  rw [parse,read]
  rfl

end RoundTrip

end Keiko.Library.Json
