import Keiko.TemplateSimulation

/-! The language of a pattern and its agreement with the compiled program. A
fragment of a program realizes a relation on positions when the runs that enter
it are those that leave it at a related position; each constructor of the syntax
tree is one rule about realized relations. -/
namespace Keiko.TemplatePattern
open Keiko.Library Option

variable (input : List Int)

def WordBefore (position : Nat) : Prop :=
  ∃ before unit, position = before + 1 ∧ input[before]? = some unit ∧ isWord unit = true

def WordAfter (position : Nat) : Prop :=
  ∃ unit, input[position]? = some unit ∧ isWord unit = true

def AssertionMeaning (position : Nat) : Assertion → Prop
  | .start => position = 0
  | .stop => position = input.length
  | .boundary => ¬(WordBefore input position ↔ WordAfter input position)
  | .notBoundary => WordBefore input position ↔ WordAfter input position

mutual
def Matches (input : List Int) : PatternNode → Nat → Nat → Prop
  | .empty => Eq
  | .unit test => fun start stop =>
    stop = start + 1 ∧ ∃ unit, input[start]? = some unit ∧ test unit = true
  | .assert assertion => fun start stop =>
    start = stop ∧ AssertionMeaning input start assertion
  | .seq items => MatchesSequence input items
  | .alt items => MatchesSome input items
  | .repetition body min max => fun start stop =>
    ∃ count, min ≤ count ∧ (∀ bound ∈ max, count ≤ bound) ∧ Power (Matches input body) count start stop

def MatchesSequence (input : List Int) : List PatternNode → Nat → Nat → Prop
  | [] => Eq
  | item :: items => Relation.Comp (Matches input item) (MatchesSequence input items)

def MatchesSome (input : List Int) : List PatternNode → Nat → Nat → Prop
  | [] => fun _ _ => False
  | item :: items => fun start stop =>
    Matches input item start stop ∨ MatchesSome input items start stop
end

theorem wordAt_before (pos : Nat) : wordAt input (pos - 1 : Int) = true ↔ WordBefore input pos := by
  unfold wordAt WordBefore
  cases pos with
  | zero => simp
  | succ pre =>
    have nonnegative : ¬((pre + 1 : Nat) - 1 : Int) < 0 := by omega
    have same : ((pre + 1 : Nat) - 1 : Int).toNat = pre := by omega
    rw [if_neg nonnegative,same]
    constructor
    · intro word
      cases read : input[pre]? with
      | none => simp [read] at word
      | some unit => exact ⟨pre,unit,rfl,read,by simpa [read] using word⟩
    · rintro ⟨other,unit,equal,read,word⟩
      obtain rfl : pre = other := by omega
      simpa [read] using word

theorem wordAt_after (pos : Nat) : wordAt input pos = true ↔ WordAfter input pos := by
  unfold wordAt WordAfter
  rw [if_neg (by omega),Int.toNat_natCast]
  cases input[pos]? <;> simp

theorem holds_iff (assertion : Assertion) (input : List Int) (pos : Nat) :
    holds assertion input pos = true ↔ AssertionMeaning input pos assertion := by
  cases assertion with
  | start => simp [holds,AssertionMeaning]
  | stop => simp [holds,AssertionMeaning]
  | boundary =>
    simp only [holds,AssertionMeaning,← wordAt_before,← wordAt_after]
    cases wordAt input (pos - 1 : Int) <;> cases wordAt input pos <;> simp
  | notBoundary =>
    simp only [holds,AssertionMeaning,← wordAt_before,← wordAt_after]
    cases wordAt input (pos - 1 : Int) <;> cases wordAt input pos <;> simp

def Forward (start stop : Nat) : Prop :=
  start ≤ stop ∧ (start ≤ input.length → stop ≤ input.length)

theorem Forward.refl (pos : Nat) : Forward input pos pos :=
  ⟨le_refl _,fun mem => mem⟩

theorem Forward.trans {input : List Int} {a b c : Nat} (first : Forward input a b)
    (second : Forward input b c) : Forward input a c :=
  ⟨le_trans first.1 second.1,fun mem => second.2 (first.2 mem)⟩

mutual
theorem Matches.forward {input : List Int} : ∀ (n : PatternNode) (start stop : Nat),
    Matches input n start stop → Forward input start stop
  | .empty, _, _, same => same ▸ Forward.refl input _
  | .unit _, start, _, ⟨last,_,read,_⟩ => by
    have := (List.getElem?_eq_some_iff.mp read).1
    exact ⟨by omega,fun _ => by omega⟩
  | .assert _, _, _, ⟨same,_⟩ => same ▸ Forward.refl input _
  | .seq xs, _, _, hit => MatchesSequence.forward xs _ _ hit
  | .alt xs, _, _, hit => MatchesSome.forward xs _ _ hit
  | .repetition body _ _, _, _, ⟨_,_,_,chain⟩ =>
    chain.least (Forward.refl input) (fun a b _ first rest => (Matches.forward body a b first).trans rest)

theorem MatchesSequence.forward {input : List Int} : ∀ (xs : List PatternNode)
    (start stop : Nat), MatchesSequence input xs start stop → Forward input start stop
  | [], _, _, same => same ▸ Forward.refl input _
  | item :: xs, _, _, ⟨_,first,rest⟩ =>
    (Matches.forward item _ _ first).trans (MatchesSequence.forward xs _ _ rest)

theorem MatchesSome.forward {input : List Int} : ∀ (xs : List PatternNode)
    (start stop : Nat), MatchesSome input xs start stop → Forward input start stop
  | item :: _, _, _, .inl hit => Matches.forward item _ _ hit
  | _ :: xs, _, _, .inr hit => MatchesSome.forward xs _ _ hit
end

/-! Runs that accept, and the fragments they pass through. -/

def Move (program : Program) (input : List Int) (pc position next place : Nat) : Prop :=
  Silent program input position pc next ∧ place = position ∨
    Consumes program input position pc ∧ next = pc + 1 ∧ place = position + 1

def AcceptsIn (program : Program) (input : List Int) : Nat → Nat → Nat → Prop
  | 0, pc, _ => program[pc]? = some .accept
  | steps + 1, pc, position =>
    ∃ next place, Move program input pc position next place ∧ AcceptsIn program input steps next place

section
variable {program : Program} {input : List Int} {pos steps count pc : Nat}

theorem live_of_acceptsIn (live : Live program input pc pos)
    (accepts : AcceptsIn program input steps pc pos) :
    ∃ goal place, Live program input goal place ∧ program[goal]? = some .accept := by
  induction steps generalizing pc pos with
  | zero => exact ⟨pc,pos,live,accepts⟩
  | succ steps ih =>
    obtain ⟨next,place,move,rest⟩ := accepts
    rcases move with ⟨silent,rfl⟩ | ⟨consumes,rfl,rfl⟩
    · exact ih (live.silent silent) rest
    · exact ih (live.consume consumes) rest

theorem acceptsIn_of_live (live : Live program input pc pos) :
    ∀ steps, AcceptsIn program input steps pc pos →
      ∃ start ≤ input.length, ∃ steps, AcceptsIn program input steps 0 start := by
  induction live with
  | enter mem => exact fun steps accepts => ⟨_,mem,steps,accepts⟩
  | silent _ move ih => exact fun steps accepts => ih (steps + 1) ⟨_,_,.inl ⟨move,rfl⟩,accepts⟩
  | consume _ move ih =>
    exact fun steps accepts => ih (steps + 1) ⟨_,_,.inr ⟨move,rfl,rfl⟩,accepts⟩

theorem acceptsIn_silent {instruction : Instruction}
    (hit : program[pc]? = some instruction) (other : instruction ≠ .accept)
    (reads : ∀ test, instruction ≠ .unit test) :
    AcceptsIn program input steps pc pos ↔ ∃ rest next, steps = rest + 1 ∧ Silent program input pos pc next ∧
        AcceptsIn program input rest next pos := by
  cases steps with
  | zero => simp [AcceptsIn,hit,other]
  | succ steps =>
    constructor
    · rintro ⟨next,place,⟨silent,rfl⟩ | ⟨⟨test,_,unit,_⟩,_⟩,rest⟩
      · exact ⟨steps,next,rfl,silent,rest⟩
      · exact absurd (some.inj (hit.symm.trans unit)) (reads test)
    · rintro ⟨rest,next,same,silent,accepts⟩
      cases same
      exact ⟨next,pos,.inl ⟨silent,rfl⟩,accepts⟩

theorem acceptsIn_jump {tgt : Nat} (hit : program[pc]? = some (.jump tgt)) : AcceptsIn program input steps pc pos ↔
      ∃ rest, steps = rest + 1 ∧ AcceptsIn program input rest tgt pos := by
  rw [acceptsIn_silent hit (by simp) (by simp)]
  simp [Silent,hit]

theorem acceptsIn_split {first second : Nat} (hit : program[pc]? = some (.split first second)) :
    AcceptsIn program input steps pc pos ↔ ∃ rest, steps = rest + 1 ∧ (AcceptsIn program input rest first pos ∨
        AcceptsIn program input rest second pos) := by
  rw [acceptsIn_silent hit (by simp) (by simp)]
  simp only [Silent,hit]
  constructor
  · rintro ⟨rest,next,same,rfl | rfl,accepts⟩
    · exact ⟨rest,same,.inl accepts⟩
    · exact ⟨rest,same,.inr accepts⟩
  · rintro ⟨rest,same,accepts | accepts⟩
    · exact ⟨rest,first,same,.inl rfl,accepts⟩
    · exact ⟨rest,second,same,.inr rfl,accepts⟩

/-- Runs entering at `start` are the runs leaving at `stop`, a related position later. -/
structure Realizes (program : Program) (input : List Int) (relation : Nat → Nat → Prop)
    (start stop : Nat) : Prop where
  sound : ∀ steps position, AcceptsIn program input steps start position →
    ∃ place rest, rest ≤ steps ∧ relation position place ∧ AcceptsIn program input rest stop place
  complete : ∀ position place, relation position place → (∃ steps, AcceptsIn program input steps stop place) →
    ∃ steps, AcceptsIn program input steps start position

variable {first second : Nat → Nat → Prop} {start middle stop : Nat}

theorem Realizes.refl (address : Nat) : Realizes program input Eq address address where
  sound := fun steps pos accepts => ⟨pos,steps,le_refl _,rfl,accepts⟩
  complete := by
    rintro pos _ rfl accepts
    exact accepts

theorem Realizes.comp (left : Realizes program input first start middle)
    (right : Realizes program input second middle stop) :
    Realizes program input (Relation.Comp first second) start stop where
  sound := by
    intro steps pos accepts
    obtain ⟨between,rest,less,one,accepts⟩ := left.sound steps pos accepts
    obtain ⟨place,last,fewer,two,accepts⟩ := right.sound rest between accepts
    exact ⟨place,last,le_trans fewer less,⟨between,one,two⟩,accepts⟩
  complete := by
    rintro pos place ⟨between,one,two⟩ accepts
    exact left.complete pos between one (right.complete between place two accepts)

theorem Realizes.congr {relation : Nat → Nat → Prop} (realizes : Realizes program input first start stop)
    (same : ∀ pos place, first pos place ↔ relation pos place) :
    Realizes program input relation start stop where
  sound := by
    intro steps pos accepts
    obtain ⟨place,rest,less,related,accepts⟩ := realizes.sound steps pos accepts
    exact ⟨place,rest,less,(same pos place).mp related,accepts⟩
  complete := fun pos place related =>
    realizes.complete pos place ((same pos place).mpr related)

theorem Realizes.jump (hit : program[start]? = some (.jump stop)) : Realizes program input Eq start stop where
  sound := by
    intro steps pos accepts
    obtain ⟨rest,rfl,after⟩ := (acceptsIn_jump hit).mp accepts
    exact ⟨pos,rest,Nat.le_succ _,rfl,after⟩
  complete := by
    rintro pos _ rfl ⟨steps,accepts⟩
    exact ⟨steps + 1,(acceptsIn_jump hit).mpr ⟨steps,rfl,accepts⟩⟩

theorem Realizes.split {other : Nat} (hit : program[start]? = some (.split middle other))
    (left : Realizes program input first middle stop)
    (right : Realizes program input second other stop) :
    Realizes program input (fun pos place => first pos place ∨ second pos place) start stop where
  sound := by
    intro steps pos accepts
    obtain ⟨rest,rfl,accepts | accepts⟩ := (acceptsIn_split hit).mp accepts
    · obtain ⟨place,last,less,related,accepts⟩ := left.sound rest pos accepts
      exact ⟨place,last,Nat.le_succ_of_le less,.inl related,accepts⟩
    · obtain ⟨place,last,less,related,accepts⟩ := right.sound rest pos accepts
      exact ⟨place,last,Nat.le_succ_of_le less,.inr related,accepts⟩
  complete := by
    rintro pos place (related | related) accepts
    · obtain ⟨steps,accepts⟩ := left.complete pos place related accepts
      exact ⟨steps + 1,(acceptsIn_split hit).mpr ⟨steps,rfl,.inl accepts⟩⟩
    · obtain ⟨steps,accepts⟩ := right.complete pos place related accepts
      exact ⟨steps + 1,(acceptsIn_split hit).mpr ⟨steps,rfl,.inr accepts⟩⟩

theorem Realizes.power (copies : Power (Realizes program input first) count start stop) :
    Realizes program input (Power first count) start stop := by
  induction count generalizing start with
  | zero =>
    cases copies
    exact Realizes.refl _
  | succ count ih =>
    obtain ⟨middle,one,rest⟩ := copies
    exact one.comp (ih rest)

theorem power_succ_or_zero {place : Nat} : (∃ taken ≤ count + 1, Power first taken pos place) ↔
      Relation.Comp first (fun a b => ∃ taken ≤ count, Power first taken a b) pos place ∨ pos = place := by
  constructor
  · rintro ⟨taken,less,chain⟩
    cases taken with
    | zero => exact .inr chain
    | succ taken =>
      obtain ⟨between,one,rest⟩ := chain
      exact .inl ⟨between,one,taken,Nat.le_of_succ_le_succ less,rest⟩
  · rintro (⟨between,one,taken,less,rest⟩ | same)
    · exact ⟨taken + 1,Nat.succ_le_succ less,between,one,rest⟩
    · exact ⟨0,Nat.zero_le _,same⟩

theorem Realizes.optionals (copies : Optionals program (Realizes program input first) count start stop) :
    Realizes program input (fun pos place => ∃ taken ≤ count, Power first taken pos place) start stop := by
  induction count generalizing start with
  | zero =>
    cases copies
    refine (Realizes.refl _).congr fun pos place => ?_
    exact ⟨fun same => ⟨0,le_refl _,same⟩,fun ⟨taken,less,chain⟩ => by
      obtain rfl := Nat.le_zero.mp less
      exact chain⟩
  | succ count ih =>
    obtain ⟨middle,enter,one,rest⟩ := copies
    exact ((one.comp (ih rest)).split enter (Realizes.refl stop)).congr fun pos place => power_succ_or_zero.symm

/-- A loop realizes all powers of its body: a round takes at least the step of the
entering split, so the remaining steps decrease even when the body reads nothing. -/
theorem Realizes.loop {back : Nat} (enter : program[start]? = some (.split (start + 1) stop))
    (body : Realizes program input first (start + 1) back)
    (again : program[back]? = some (.jump start)) :
    Realizes program input (fun pos place => ∃ taken, Power first taken pos place) start stop where
  sound := by
    intro steps
    induction steps using Nat.strong_induction_on with
    | _ steps ih =>
      intro pos accepts
      obtain ⟨rest,rfl,accepts | accepts⟩ := (acceptsIn_split enter).mp accepts
      · obtain ⟨between,left,less,one,accepts⟩ := body.sound rest pos accepts
        obtain ⟨left,rfl,entered⟩ := (acceptsIn_jump again).mp accepts
        obtain ⟨place,last,fewer,⟨taken,chain⟩,leaves⟩ := ih left (by omega) between entered
        exact ⟨place,last,by omega,⟨taken + 1,between,one,chain⟩,leaves⟩
      · exact ⟨pos,rest,Nat.le_succ _,⟨0,rfl⟩,accepts⟩
  complete := by
    rintro pos place ⟨taken,chain⟩ accepts
    induction taken generalizing pos with
    | zero =>
      obtain ⟨steps,accepts⟩ := accepts
      cases chain
      exact ⟨steps + 1,(acceptsIn_split enter).mpr ⟨steps,rfl,.inr accepts⟩⟩
    | succ taken ih =>
      obtain ⟨between,one,rest⟩ := chain
      obtain ⟨steps,accepts⟩ := ih between rest
      obtain ⟨steps,accepts⟩ := body.complete pos between one ⟨steps + 1,(acceptsIn_jump again).mpr ⟨steps,rfl,accepts⟩⟩
      exact ⟨steps + 1,(acceptsIn_split enter).mpr ⟨steps,rfl,.inl accepts⟩⟩

theorem Realizes.unit {test : UnitTest} (hit : program[start]? = some (.unit test)) :
    Realizes program input (Matches input (.unit test)) start (start + 1) where
  sound := by
    intro steps pos accepts
    cases steps with
    | zero => simp [AcceptsIn,hit] at accepts
    | succ steps =>
      obtain ⟨next,place,⟨silent,_⟩ | ⟨⟨test',unit,code,read,passes⟩,rfl,rfl⟩,rest⟩ := accepts
      · simp [Silent,hit] at silent
      · cases hit.symm.trans code
        exact ⟨pos + 1,steps,Nat.le_succ _,⟨rfl,unit,read,passes⟩,rest⟩
  complete := by
    rintro pos _ ⟨rfl,unit,read,passes⟩ ⟨steps,accepts⟩
    exact ⟨steps + 1,_,_,.inr ⟨⟨test,unit,hit,read,passes⟩,rfl,rfl⟩,accepts⟩

theorem Realizes.assert {assertion : Assertion} (hit : program[start]? = some (.assert assertion)) :
    Realizes program input (Matches input (.assert assertion)) start (start + 1) where
  sound := by
    intro steps pos accepts
    obtain ⟨rest,next,rfl,silent,after⟩ :=
      (acceptsIn_silent hit (by simp) (by simp)).mp accepts
    simp only [Silent,hit] at silent
    obtain ⟨true,rfl⟩ := silent
    exact ⟨pos,rest,Nat.le_succ _,⟨rfl,(holds_iff _ _ _).mp true⟩,after⟩
  complete := by
    rintro pos _ ⟨rfl,true⟩ ⟨steps,accepts⟩
    refine ⟨steps + 1,(acceptsIn_silent hit (by simp) (by simp)).mpr ⟨steps,start + 1,rfl,?_,accepts⟩⟩
    simpa [Silent,hit] using (holds_iff _ _ _).mpr true

theorem Optionals.imp {first second : Nat → Nat → Prop} (imp : ∀ a b, first a b → second a b)
    {start stop : Nat} (copies : Optionals program first count start stop) :
    Optionals program second count start stop := by
  induction count generalizing start with
  | zero => exact copies
  | succ count ih =>
    obtain ⟨middle,enter,one,rest⟩ := copies
    exact ⟨middle,enter,imp _ _ one,ih rest⟩

mutual
theorem Fragment.realizes : ∀ (n : PatternNode) (start stop : Nat), WellFormed n →
    Fragment program n start stop → Realizes program input (Matches input n) start stop
  | .empty, _, _, _, same => same ▸ Realizes.refl _
  | .unit _, _, _, _, ⟨hit,last⟩ => last ▸ Realizes.unit hit
  | .assert _, _, _, _, ⟨hit,last⟩ => last ▸ Realizes.assert hit
  | .seq xs, _, _, valid, code => FragmentSequence.realizes xs _ _ valid code
  | .alt xs, _, _, valid, code => FragmentAlternatives.realizes xs _ _ valid.1 valid.2 code
  | .repetition body min max, _, _, valid, ⟨head,copies,rest⟩ => by
    have inner := fun a b => Fragment.realizes body a b valid.1
    have least := Realizes.power (copies.mono inner)
    cases max with
    | none =>
      obtain ⟨back,enter,loop,again,_⟩ := rest
      refine (least.comp (Realizes.loop enter (inner _ _ loop) again)).congr ?_
      intro pos place
      constructor
      · rintro ⟨between,one,taken,chain⟩
        exact ⟨min + taken,Nat.le_add_right _ _,by simp,one.add chain⟩
      · rintro ⟨count,less,_,chain⟩
        obtain ⟨taken,rfl⟩ := Nat.exists_eq_add_of_le less
        obtain ⟨between,one,more⟩ := chain.split
        exact ⟨between,one,taken,more⟩
    | some max =>
      refine (least.comp (Realizes.optionals (Optionals.imp inner rest))).congr ?_
      intro pos place
      have ordered : min ≤ max := valid.2 max rfl
      constructor
      · rintro ⟨between,one,taken,less,chain⟩
        refine ⟨min + taken,Nat.le_add_right _ _,?_,one.add chain⟩
        rintro _ ⟨⟩
        omega
      · rintro ⟨count,less,bounded,chain⟩
        have := bounded max rfl
        obtain ⟨taken,rfl⟩ := Nat.exists_eq_add_of_le less
        obtain ⟨between,one,more⟩ := chain.split
        exact ⟨between,one,taken,by omega,more⟩

theorem FragmentSequence.realizes : ∀ (xs : List PatternNode) (start stop : Nat),
    AllWellFormed xs → FragmentSequence program xs start stop →
    Realizes program input (MatchesSequence input xs) start stop
  | [], _, _, _, same => same ▸ Realizes.refl _
  | item :: xs, _, _, valid, ⟨_,first,rest⟩ =>
    (Fragment.realizes item _ _ valid.1 first).comp (FragmentSequence.realizes xs _ _ valid.2 rest)

theorem FragmentAlternatives.realizes : ∀ (xs : List PatternNode) (start stop : Nat),
    xs ≠ [] → AllWellFormed xs → FragmentAlternatives program xs start stop →
    Realizes program input (MatchesSome input xs) start stop
  | [], _, _, nonempty, _, _ => absurd rfl nonempty
  | [last], _, _, _, valid, code =>
    (Fragment.realizes last _ _ valid.1 code).congr (by simp [MatchesSome])
  | item :: next :: rest, _, stop, _, valid, ⟨_,enter,first,leave,more⟩ => by
    have exits : Realizes program input Eq _ stop := Realizes.jump leave
    have left := (Fragment.realizes item _ _ valid.1 first).comp exits
    have right := FragmentAlternatives.realizes (next :: rest) _ _ (by simp) valid.2 more
    exact (left.split enter right).congr fun pos place => by
      simp [MatchesSome,Relation.Comp]
end

end

/-- The program of an accepted pattern answers whether the pattern matches between
some two positions of the text. -/
theorem simulate_iff_matches {src : Text} {tree : PatternNode} {program : Program}
    (read : parse src = some tree) (compiled : compileProgram src = some program)
    (t : Text) :
    simulate program t = true ↔ ∃ start stop, start ≤ stop ∧ stop ≤ t.length ∧
        Matches (codePoints t) tree start stop := by
  have valid := parse_wellFormed read
  have length : (codePoints t).length = t.length := List.length_map _
  obtain ⟨small,rfl⟩ : overflowed program = false ∧ emit tree [] ++ [.accept] = program := by
    unfold compileProgram at compiled
    split at compiled
    · cases compiled
    · simp only [read,bind,bind_some] at compiled
      split at compiled
      · cases compiled
      · next fits =>
        cases compiled
        exact ⟨Bool.not_eq_true _ ▸ fits,rfl⟩
  have sub := List.prefix_append (emit tree []) [Instruction.accept]
  have code := emit_fragment tree [] valid (overflowed_of_extends sub small)
  have realizes : Realizes _ (codePoints t) (Matches (codePoints t) tree) _ _ :=
    Fragment.realizes tree _ _ valid (Fragment.frame tree _ _ (Agrees.of_extends sub _) code)
  have last : (emit tree [] ++ [Instruction.accept])[(emit tree []).length]? = some .accept := by
    simp
  rw [simulate_iff_live]
  constructor
  · rintro ⟨pc,place,live,accepts⟩
    obtain ⟨start,mem,steps,run⟩ := acceptsIn_of_live live 0 accepts
    obtain ⟨stop,_,_,hit,_⟩ := realizes.sound steps start run
    have forward := Matches.forward tree start stop hit
    exact ⟨start,stop,forward.1,length ▸ forward.2 mem,hit⟩
  · rintro ⟨start,stop,ordered,mem,hit⟩
    obtain ⟨steps,run⟩ := realizes.complete start stop hit ⟨0,last⟩
    exact live_of_acceptsIn (.enter (by omega)) run

def jiraTemplatePatternIssue (source : Text) : Option String :=
  if source = [] ∨ patternCharsMax < Text.utf16Length source then some "pattern length"
  else if (compileProgram source).isNone then some "pattern structure" else none

def compileJiraTemplatePattern (source : Text) : Except String (Text → Bool) :=
  match compileProgram source with
  | none => .error ((jiraTemplatePatternIssue source).getD "pattern")
  | some program => .ok (simulate program)

/-- Every accepted pattern has a tree and a matcher, and the matcher answers for
every text whether the tree matches between some two of its positions. -/
theorem compileJiraTemplatePattern_decides (source : Text)
    (accepted : jiraTemplatePatternIssue source = none) :
    ∃ tree matcher, parse source = some tree ∧ compileJiraTemplatePattern source = .ok matcher ∧
      ∀ text, matcher text = true ↔ ∃ start stop, start ≤ stop ∧ stop ≤ text.length ∧
        Matches (codePoints text) tree start stop := by
  cases compiled : compileProgram source with
  | none =>
    simp only [jiraTemplatePatternIssue,compiled,isNone_none,if_true] at accepted
    split at accepted <;> cases accepted
  | some program =>
    cases read : parse source with
    | none =>
      unfold compileProgram at compiled
      split at compiled
      · cases compiled
      · simp [read] at compiled
    | some tree =>
      refine ⟨tree,simulate program,rfl,?_,simulate_iff_matches read compiled⟩
      simp [compileJiraTemplatePattern,compiled]

theorem compileJiraTemplatePattern_decides_issueKey :
    ∃ tree matcher, parse "^(?:[A-Z]+-\\d{1,3}|\\b)$".toList = some tree ∧
      compileJiraTemplatePattern "^(?:[A-Z]+-\\d{1,3}|\\b)$".toList = .ok matcher ∧
      ∀ text, matcher text = true ↔ ∃ start stop, start ≤ stop ∧ stop ≤ text.length ∧
        Matches (codePoints text) tree start stop :=
  compileJiraTemplatePattern_decides _ (by decide +kernel)

end Keiko.TemplatePattern
