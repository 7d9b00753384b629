import Mathlib.Order.Nat
import Keiko.Library.Power
import Keiko.TemplatePattern

/-! The automaton program of a pattern and where each part of the syntax tree
lies in it. Targets that the source patches after emission are patched here by
index; `Fragment` is what remains true of the finished program. -/
namespace Keiko.TemplatePattern
open Keiko.Library List Bool

inductive Instruction where
  | unit (test : UnitTest)
  | assert (assertion : Assertion)
  | accept
  | split (first second : Nat)
  | jump (target : Nat)

abbrev Program := List Instruction

def overflowed (program : Program) : Bool := programMax < program.length

def patch (addresses : List Nat) (instruction : Nat → Instruction) (program : Program) : Program :=
  addresses.foldl (fun code address => code.set address (instruction address)) program

def closeExits (exits : List Nat) (program : Program) : Program :=
  patch exits (fun _ => .jump program.length) program

def closeSplits (splits : List Nat) (program : Program) : Program :=
  patch splits (fun split => .split (split + 1) program.length) program

def emitCopies (emitBody : Program → Program) : Nat → Program → Program
  | 0, program => program
  | count + 1, program =>
    if overflowed program then program else emitCopies emitBody count (emitBody program)

def emitLoop (emitBody : Program → Program) (program : Program) : Program :=
  let head := program.length
  let body := emitBody (program ++ [Instruction.split (head + 1) 0])
  (body ++ [Instruction.jump head]).set head (.split (head + 1) (body.length + 1))

def emitOptional (emitBody : Program → Program) : Nat → Program → List Nat → Program
  | 0, program, splits => closeSplits splits program
  | count + 1, program, splits =>
    if overflowed program then closeSplits splits program
    else
      let split := program.length
      emitOptional emitBody count (emitBody (program ++ [Instruction.split (split + 1) 0])) (splits ++ [split])

mutual
def emit (node : PatternNode) (program : Program) : Program :=
  if overflowed program then program
  else match node with
    | .empty => program
    | .unit test => program ++ [.unit test]
    | .assert assertion => program ++ [.assert assertion]
    | .seq items => emitSequence items program
    | .alt items => emitAlternatives items program []
    | .repetition body min max =>
      let copies := emitCopies (fun program => emit body program) min program
      match max with
      | none => emitLoop (fun program => emit body program) copies
      | some max => emitOptional (fun program => emit body program) (max - min) copies []

def emitSequence : List PatternNode → Program → Program
  | [], program => program
  | item :: items, program => emitSequence items (emit item program)

def emitAlternatives : List PatternNode → Program → List Nat → Program
  | [], program, exits => closeExits exits program
  | [last], program, exits => closeExits exits (emit last program)
  | item :: next :: rest, program, exits =>
    let split := program.length
    let body := emit item (program ++ [Instruction.split (split + 1) 0])
    let exit := body.length
    emitAlternatives (next :: rest) ((body ++ [Instruction.jump 0]).set split (.split (split + 1) (exit + 1)))
      (exits ++ [exit])
end

def compileProgram (source : Text) : Option Program :=
  if source = [] ∨ patternCharsMax < Text.utf16Length source then none
  else do
    let tree ← parse source
    let program := emit tree [] ++ [.accept]
    if overflowed program then none else some program

/-! Where the parts of a tree lie in a finished program. -/

/-- Optional copies of a body, each entered by a split that leaves to `stop`. -/
def Optionals (program : Program) (body : Nat → Nat → Prop) : Nat → Nat → Nat → Prop
  | 0, start, stop => start = stop
  | count + 1, start, stop => ∃ middle, program[start]? = some (.split (start + 1) stop) ∧
      body (start + 1) middle ∧ Optionals program body count middle stop

mutual
/-- The code of a node fills the addresses from `start` up to `stop`. -/
def Fragment (program : Program) : PatternNode → Nat → Nat → Prop
  | .empty, start, stop => start = stop
  | .unit test, start, stop => program[start]? = some (.unit test) ∧ stop = start + 1
  | .assert assertion, start, stop =>
    program[start]? = some (.assert assertion) ∧ stop = start + 1
  | .seq items, start, stop => FragmentSequence program items start stop
  | .alt items, start, stop => FragmentAlternatives program items start stop
  | .repetition body min max, start, stop =>
    ∃ head, Power (Fragment program body) min start head ∧ match max with
      | none => ∃ back, program[head]? = some (.split (head + 1) stop) ∧
          Fragment program body (head + 1) back ∧
          program[back]? = some (.jump head) ∧ stop = back + 1
      | some max => Optionals program (Fragment program body) (max - min) head stop

def FragmentSequence (program : Program) : List PatternNode → Nat → Nat → Prop
  | [], start, stop => start = stop
  | item :: items, start, stop =>
    ∃ middle, Fragment program item start middle ∧ FragmentSequence program items middle stop

def FragmentAlternatives (program : Program) : List PatternNode → Nat → Nat → Prop
  | [], start, stop => start = stop
  | [last], start, stop => Fragment program last start stop
  | item :: next :: rest, start, stop => ∃ exit,
      program[start]? = some (.split (start + 1) (exit + 1)) ∧
      Fragment program item (start + 1) exit ∧ program[exit]? = some (.jump stop) ∧
      FragmentAlternatives program (next :: rest) (exit + 1) stop
end

variable {program a b base : Program} {start stop : Nat}

theorem Optionals.le {body : Nat → Nat → Prop} (sub : ∀ i j, body i j → i ≤ j) {count : Nat}
    (copies : Optionals program body count start stop) : start ≤ stop := by
  induction count generalizing start with
  | zero => exact le_of_eq copies
  | succ count ih =>
    obtain ⟨middle,_,first,rest⟩ := copies
    have := sub _ _ first
    have := ih rest
    omega

mutual
theorem Fragment.le (program : Program) : ∀ (n : PatternNode) (start stop : Nat),
    Fragment program n start stop → start ≤ stop
  | .empty, _, _, same => Nat.le_of_eq same
  | .unit _, _, _, ⟨_,stop⟩ => by omega
  | .assert _, _, _, ⟨_,stop⟩ => by omega
  | .seq xs, _, _, code => FragmentSequence.le program xs _ _ code
  | .alt xs, _, _, code => FragmentAlternatives.le program xs _ _ code
  | .repetition body min max, start, stop, code => by
    have sub := Fragment.le program body
    obtain ⟨head,copies,rest⟩ := code
    have pre := copies.le sub
    cases max with
    | none =>
      obtain ⟨back,_,loop,_,last⟩ := rest
      have := sub _ _ loop
      omega
    | some max =>
      have := Optionals.le sub rest
      omega

theorem FragmentSequence.le (program : Program) : ∀ (xs : List PatternNode) (start stop : Nat),
    FragmentSequence program xs start stop → start ≤ stop
  | [], _, _, same => Nat.le_of_eq same
  | item :: xs, _, _, ⟨_,a,rest⟩ =>
    (Fragment.le program item _ _ a).trans (FragmentSequence.le program xs _ _ rest)

theorem FragmentAlternatives.le (program : Program) : ∀ (xs : List PatternNode) (start stop : Nat),
    FragmentAlternatives program xs start stop → start ≤ stop
  | [], _, _, same => Nat.le_of_eq same
  | [last], _, _, code => Fragment.le program last _ _ code
  | item :: next :: rest, _, _, ⟨_,_,first,_,more⟩ => by
    have := Fragment.le program item _ _ first
    have := FragmentAlternatives.le program (next :: rest) _ _ more
    omega
end

/-! A fragment only depends on the addresses it fills. -/

def Agrees (first second : Program) (start stop : Nat) : Prop :=
  ∀ address, start ≤ address → address < stop → second[address]? = first[address]?

theorem Agrees.mono {start' stop' : Nat}
    (same : Agrees a b start stop) (left : start ≤ start') (right : stop' ≤ stop) :
    Agrees a b start' stop' :=
  fun address low high => same address (left.trans low) (high.trans_le right)

theorem Agrees.of_extends (sub : a <+: b) (start : Nat) :
    Agrees a b start a.length := by
  intro address _ mem
  obtain ⟨rest,rfl⟩ := sub
  exact getElem?_append_left mem

section
variable {prog other : Program} {body : Nat → Nat → Prop} {shape : Nat → Nat → Prop}

theorem Power.frame (sub : ∀ i j, body i j → i ≤ j) {count start stop : Nat}
    (imp : ∀ i j, start ≤ i → j ≤ stop → body i j → shape i j)
    (copies : Power body count start stop) : Power shape count start stop := by
  induction count generalizing start with
  | zero => exact copies
  | succ count ih =>
    obtain ⟨middle,first,rest⟩ := copies
    have pre := sub _ _ first
    have after := rest.le sub
    exact ⟨middle,imp _ _ le_rfl after first,ih (fun i j low high => imp i j (pre.trans low) high) rest⟩

theorem Optionals.frame (sub : ∀ i j, body i j → i ≤ j) {count start stop : Nat}
    (same : Agrees prog other start stop)
    (imp : ∀ i j, start ≤ i → j ≤ stop → body i j → shape i j)
    (copies : Optionals prog body count start stop) :
    Optionals other shape count start stop := by
  induction count generalizing start with
  | zero => exact copies
  | succ count ih =>
    obtain ⟨middle,enter,first,rest⟩ := copies
    have pre := sub _ _ first
    have after := rest.le sub
    refine ⟨middle,?_,imp _ _ (by omega) after first,?_⟩
    · rw [same start le_rfl (by omega),enter]
    · exact ih (same.mono (by omega) le_rfl) (fun i j low high => imp i j (by omega) high) rest

end

mutual
theorem Fragment.frame {program other : Program} : ∀ (n : PatternNode) (start stop : Nat),
    Agrees program other start stop → Fragment program n start stop →
    Fragment other n start stop
  | .empty, _, _, _, code => code
  | .unit _, start, _, same, ⟨code,stop⟩ => ⟨by rw [same start le_rfl (by omega),code],stop⟩
  | .assert _, start, _, same, ⟨code,stop⟩ => ⟨by rw [same start le_rfl (by omega),code],stop⟩
  | .seq xs, _, _, same, code => FragmentSequence.frame xs _ _ same code
  | .alt xs, _, _, same, code => FragmentAlternatives.frame xs _ _ same code
  | .repetition body min max, start, stop, same, code => by
    have sub := Fragment.le program body
    have move (i j : Nat) (low : start ≤ i) (high : j ≤ stop)
        (inner : Fragment program body i j) : Fragment other body i j :=
      Fragment.frame body i j (same.mono low high) inner
    obtain ⟨head,copies,rest⟩ := code
    have pre := copies.le sub
    cases max with
    | none =>
      obtain ⟨back,enter,loop,leave,last⟩ := rest
      have mem := sub _ _ loop
      refine ⟨head,Power.frame sub (fun i j low high => move i j low (by omega)) copies,
        back,?_,move _ _ (by omega) (by omega) loop,?_,last⟩
      · rw [same head (by omega) (by omega),enter]
      · rw [same back (by omega) (by omega),leave]
    | some max =>
      have after := Optionals.le sub rest
      exact ⟨head,Power.frame sub (fun i j low high => move i j low (by omega)) copies,
        Optionals.frame sub (same.mono pre le_rfl) (fun i j low high => move i j (by omega) high) rest⟩

theorem FragmentSequence.frame {program other : Program} :
    ∀ (xs : List PatternNode) (start stop : Nat), Agrees program other start stop →
    FragmentSequence program xs start stop → FragmentSequence other xs start stop
  | [], _, _, _, code => code
  | item :: xs, _, _, same, ⟨middle,first,rest⟩ => by
    have pre := Fragment.le program item _ _ first
    have after := FragmentSequence.le program xs _ _ rest
    exact ⟨middle,Fragment.frame item _ _ (same.mono le_rfl after) first,
      FragmentSequence.frame xs _ _ (same.mono pre le_rfl) rest⟩

theorem FragmentAlternatives.frame {program other : Program} :
    ∀ (xs : List PatternNode) (start stop : Nat), Agrees program other start stop →
    FragmentAlternatives program xs start stop → FragmentAlternatives other xs start stop
  | [], _, _, _, code => code
  | [last], _, _, same, code => Fragment.frame last _ _ same code
  | item :: next :: rest, start, stop, same, ⟨exit,enter,first,leave,more⟩ => by
    have pre := Fragment.le program item _ _ first
    have after := FragmentAlternatives.le program (next :: rest) _ _ more
    refine ⟨exit,?_,Fragment.frame item _ _ (same.mono (by omega) (by omega)) first,?_,
      FragmentAlternatives.frame (next :: rest) _ _ (same.mono (by omega) le_rfl) more⟩
    · rw [same start le_rfl (by omega),enter]
    · rw [same exit (by omega) (by omega),leave]
end

/-! Emission only appends to the program it is given. -/

@[simp] theorem patch_length (addresses : List Nat) (instruction : Nat → Instruction)
    (program : Program) : (patch addresses instruction program).length = program.length := by
  induction addresses generalizing program with
  | nil => rfl
  | cons address rest ih => simpa [patch] using ih (program.set address (instruction address))

theorem patch_getElem? (addresses : List Nat) (instruction : Nat → Instruction)
    (program : Program) (address : Nat) (mem : address < program.length) :
    (patch addresses instruction program)[address]? =
      if address ∈ addresses then some (instruction address) else program[address]? := by
  induction addresses generalizing program with
  | nil => simp [patch]
  | cons first rest ih =>
    have step : patch (first :: rest) instruction program =
        patch rest instruction (program.set first (instruction first)) := rfl
    rw [step,ih _ (by simpa using mem)]
    by_cases post : address ∈ rest
    · simp [post]
    · by_cases same : address = first
      · subst address
        simp [post,mem]
      · simp [post,same,getElem?_set_ne (Ne.symm same)]

theorem prefix_set (sub : base <+: program) (address : Nat)
    (outside : base.length ≤ address) (instruction : Instruction) :
    base <+: program.set address instruction := by
  obtain ⟨rest,rfl⟩ := sub
  rw [set_append_right _ _ outside]
  exact prefix_append ..

theorem patch_extends (sub : base <+: program) (addresses : List Nat)
    (instruction : Nat → Instruction) (outside : ∀ address ∈ addresses, base.length ≤ address) :
    base <+: patch addresses instruction program := by
  induction addresses generalizing program with
  | nil => exact sub
  | cons a rest ih =>
    exact ih (prefix_set sub a (outside a (by simp)) _) (fun address post => outside address (by simp [post]))

section
variable {emitBody : Program → Program} (grows : ∀ program, program <+: emitBody program)
include grows

theorem emitCopies_extends (count : Nat) (program : Program) : program <+: emitCopies emitBody count program := by
  induction count generalizing program with
  | zero => exact prefix_refl _
  | succ count ih =>
    unfold emitCopies
    split
    · exact prefix_refl _
    · exact (grows program).trans (ih _)

theorem emitLoop_extends (program : Program) : program <+: emitLoop emitBody program := by
  have entered := (prefix_append program [Instruction.split (program.length + 1) 0]).trans (grows _)
  exact prefix_set (entered.trans (prefix_append ..)) _ le_rfl _

theorem emitOptional_extends {base : Program} (count : Nat) (program : Program)
    (splits : List Nat) (sub : base <+: program) (outside : ∀ split ∈ splits, base.length ≤ split) :
    base <+: emitOptional emitBody count program splits := by
  induction count generalizing program splits with
  | zero => exact patch_extends sub _ _ outside
  | succ count ih =>
    unfold emitOptional
    split
    · exact patch_extends sub _ _ outside
    · apply ih
      · exact (sub.trans (prefix_append ..)).trans (grows _)
      · intro split mem
        rcases mem_append.mp mem with old | new
        · exact outside split old
        · simpa [mem_singleton.mp new] using sub.length_le

end

mutual
theorem emit_extends : ∀ (n : PatternNode) (program : Program), program <+: emit n program
  | n, program => by
    unfold emit
    split
    · exact List.prefix_refl _
    · cases n with
      | empty => exact List.prefix_refl _
      | unit test => exact List.prefix_append ..
      | assert assertion => exact List.prefix_append ..
      | seq xs => exact emitSequence_extends xs program
      | alt xs => exact emitAlternatives_extends xs program [] (List.prefix_refl _) (by simp)
      | repetition body min max =>
        have grows := emit_extends body
        have copies := emitCopies_extends grows min program
        cases max with
        | none => exact copies.trans (emitLoop_extends grows _)
        | some max => exact emitOptional_extends grows _ _ [] copies (by simp)

theorem emitSequence_extends : ∀ (xs : List PatternNode) (program : Program), program <+: emitSequence xs program
  | [], _ => List.prefix_refl _
  | item :: xs, program => (emit_extends item program).trans (emitSequence_extends xs _)

theorem emitAlternatives_extends {base : Program} : ∀ (xs : List PatternNode)
    (program : Program) (exits : List Nat), base <+: program →
    (∀ exit ∈ exits, base.length ≤ exit) → base <+: emitAlternatives xs program exits
  | [], _, _, sub, outside => patch_extends sub _ _ outside
  | [last], program, _, sub, outside =>
    patch_extends (sub.trans (emit_extends last program)) _ _ outside
  | item :: next :: rest, program, exits, sub, outside => by
    have entered := (sub.trans (prefix_append program
      [Instruction.split (program.length + 1) 0])).trans (emit_extends item _)
    apply emitAlternatives_extends (next :: rest)
    · exact prefix_set (entered.trans (prefix_append ..)) _ sub.length_le _
    · intro exit mem
      rcases mem_append.mp mem with old | new
      · exact outside exit old
      · simpa [mem_singleton.mp new] using entered.length_le
end

/-! A program that did not overflow holds the whole tree. -/

theorem overflowed_of_le (shorter : a.length ≤ b.length)
    (small : overflowed b = false) : overflowed a = false := by
  simp only [overflowed,decide_eq_false_iff_not] at small ⊢
  omega

theorem overflowed_of_extends (sub : a <+: b)
    (small : overflowed b = false) : overflowed a = false :=
  overflowed_of_le sub.length_le small

section
variable {body : PatternNode} (meets : ∀ program, overflowed (emit body program) = false →
    Fragment (emit body program) body program.length (emit body program).length)
include meets

theorem emitCopies_fragment (count : Nat) (program final : Program)
    (res : emitCopies (fun program => emit body program) count program = final)
    (small : overflowed final = false) :
    Power (Fragment final body) count program.length final.length := by
  induction count generalizing program with
  | zero => exact congrArg length res
  | succ count ih =>
    have grows := emit_extends body
    have fits := overflowed_of_extends (res ▸ emitCopies_extends grows _ program) small
    simp only [emitCopies,fits,false_eq_true,if_false] at res
    have sub : emit body program <+: final := res ▸ emitCopies_extends grows count _
    have a := meets program (overflowed_of_extends sub small)
    exact ⟨_,Fragment.frame body _ _ (Agrees.of_extends sub _) a,ih _ res⟩

theorem emitLoop_fragment (program final : Program)
    (res : emitLoop (fun program => emit body program) program = final)
    (small : overflowed final = false) :
    ∃ back, final[program.length]? = some (.split (program.length + 1) final.length) ∧
      Fragment final body (program.length + 1) back ∧
      final[back]? = some (.jump program.length) ∧ final.length = back + 1 := by
  generalize e : emit body (program ++ [Instruction.split (program.length + 1) 0]) = loop at res
  have size : program.length + 1 ≤ loop.length := by
    simpa [e] using (emit_extends body (program ++ [Instruction.split (program.length + 1) 0])).length_le
  have final_eq : final = (loop ++ [Instruction.jump program.length]).set program.length
      (.split (program.length + 1) (loop.length + 1)) := by
    rw [← res,← e]
    rfl
  have length : final.length = loop.length + 1 := by simp [final_eq]
  have fits := overflowed_of_le (by omega : loop.length ≤ final.length) small
  have inner := meets (program ++ [Instruction.split (program.length + 1) 0]) (e ▸ fits)
  rw [e,length_append,length_singleton] at inner
  refine ⟨loop.length,?_,?_,?_,length⟩
  · rw [final_eq,getElem?_set_self (by simp; omega)]
    simp
  · apply Fragment.frame body _ _ _ inner
    intro address low high
    rw [final_eq,getElem?_set_ne (by omega),getElem?_append_left high]
  · rw [final_eq,getElem?_set_ne (by omega)]
    simp

theorem emitOptional_fragment (count : Nat) (program final : Program) (splits : List Nat)
    (res : emitOptional (fun program => emit body program) count program splits = final)
    (old : ∀ split ∈ splits, split < program.length) (small : overflowed final = false) :
    (∀ address < program.length, address ∉ splits → final[address]? = program[address]?) ∧
    (∀ split ∈ splits, final[split]? = some (.split (split + 1) final.length)) ∧
    Optionals final (Fragment final body) count program.length final.length := by
  induction count generalizing program splits with
  | zero =>
    have length : final.length = program.length := by
      rw [← res]
      exact patch_length ..
    rw [length]
    subst res
    refine ⟨?_,?_,rfl⟩
    · intro address inside other
      exact (patch_getElem? _ _ _ _ inside).trans (if_neg other)
    · intro split mem
      exact (patch_getElem? _ _ _ _ (old split mem)).trans (if_pos mem)
  | succ count ih =>
    have fits : overflowed program = false := by
      by_contra large
      have length : final.length = program.length := by
        rw [← res]
        simp only [emitOptional,not_eq_false _ ▸ large,if_true]
        exact patch_length ..
      exact large (by simpa only [overflowed,length] using small)
    simp only [emitOptional,fits,false_eq_true,if_false] at res
    generalize e : emit body (program ++ [Instruction.split (program.length + 1) 0]) = next at res
    have entered : program ++ [Instruction.split (program.length + 1) 0] <+: next :=
      e ▸ emit_extends body _
    have size : program.length + 1 ≤ next.length := by simpa using entered.length_le
    have inside : ∀ split ∈ splits ++ [program.length], split < next.length := by
      intro split mem
      rcases mem_append.mp mem with pre | new
      · have := old split pre
        omega
      · have := mem_singleton.mp new
        omega
    obtain ⟨same,patched,rest⟩ := ih next _ res inside
    have program_of_next (address : Nat) (low : address < program.length) :
        next[address]? = program[address]? := by
      rw [Agrees.of_extends entered 0 address (by omega) (by simp; omega),getElem?_append_left low]
    have small_next := overflowed_of_le (Optionals.le (Fragment.le final body) rest) small
    have inner := meets (program ++ [Instruction.split (program.length + 1) 0]) (e ▸ small_next)
    rw [e,length_append,length_singleton] at inner
    refine ⟨?_,?_,next.length,patched _ (by simp),?_,rest⟩
    · intro address low other
      rw [same address (by omega) (by simp [other]; omega),program_of_next address low]
    · intro split mem
      exact patched split (by simp [mem])
    · apply Fragment.frame body _ _ _ inner
      intro address low high
      apply same address high
      intro mem
      rcases mem_append.mp mem with pre | new
      · have := old address pre
        omega
      · have := mem_singleton.mp new
        omega

end

mutual
theorem emit_fragment : ∀ (n : PatternNode) (program : Program), WellFormed n →
    overflowed (emit n program) = false →
    Fragment (emit n program) n program.length (emit n program).length
  | n, program, valid, small => by
    have fits := overflowed_of_extends (emit_extends n program) small
    generalize res : emit n program = final at small ⊢
    unfold emit at res
    simp only [fits,false_eq_true,if_false] at res
    cases n with
    | empty => exact congrArg length res
    | unit test => subst res; simp [Fragment]
    | assert assertion => subst res; simp [Fragment]
    | seq xs => exact emitSequence_fragment xs program final valid res small
    | alt xs =>
      exact (emitAlternatives_fragment xs program final [] valid.1 valid.2 res (by simp) small).2.2
    | repetition body min max =>
      have meets := fun program => emit_fragment body program valid.1
      have grows := emit_extends body
      cases max with
      | none =>
        change emitLoop (emit body) (emitCopies (emit body) min program) = final at res
        have sub := emitLoop_extends grows (emitCopies (emit body) min program)
        rw [res] at sub
        have copies := emitCopies_fragment meets min program _ rfl (overflowed_of_extends sub small)
        have loop := emitLoop_fragment meets _ final res small
        exact ⟨_,Power.frame (Fragment.le _ body) (fun i j _ high => Fragment.frame body i j
            ((Agrees.of_extends sub 0).mono (by omega) high)) copies,loop⟩
      | some max =>
        change emitOptional (emit body) (max - min) (emitCopies (emit body) min program) [] = final at res
        have sub := emitOptional_extends grows (max - min)
          (emitCopies (emit body) min program) [] (prefix_refl _) (by simp)
        rw [res] at sub
        have copies := emitCopies_fragment meets min program _ rfl (overflowed_of_extends sub small)
        have optional := emitOptional_fragment meets (max - min) _ final [] res (by simp) small
        exact ⟨_,Power.frame (Fragment.le _ body) (fun i j _ high => Fragment.frame body i j
            ((Agrees.of_extends sub 0).mono (by omega) high)) copies,optional.2.2⟩

theorem emitSequence_fragment : ∀ (xs : List PatternNode) (program final : Program),
    AllWellFormed xs → emitSequence xs program = final → overflowed final = false →
    FragmentSequence final xs program.length final.length
  | [], _, _, _, res, _ => congrArg List.length res
  | item :: xs, program, final, valid, res, small => by
    have sub : emit item program <+: final := res ▸ emitSequence_extends xs _
    have a := emit_fragment item program valid.1 (overflowed_of_extends sub small)
    exact ⟨_,Fragment.frame item _ _ (Agrees.of_extends sub _) a,
      emitSequence_fragment xs _ final valid.2 res small⟩

theorem emitAlternatives_fragment : ∀ (xs : List PatternNode) (program final : Program)
    (exits : List Nat), xs ≠ [] → AllWellFormed xs →
    emitAlternatives xs program exits = final →
    (∀ exit ∈ exits, exit < program.length) → overflowed final = false →
    (∀ address < program.length, address ∉ exits → final[address]? = program[address]?) ∧
    (∀ exit ∈ exits, final[exit]? = some (.jump final.length)) ∧
    FragmentAlternatives final xs program.length final.length
  | [], _, _, _, nonempty, _, _, _, _ => absurd rfl nonempty
  | [last], program, final, exits, _, valid, res, old, small => by
    have sub := emit_extends last program
    have length : final.length = (emit last program).length := by
      rw [← res]
      exact patch_length ..
    have code := emit_fragment last program valid.1 (overflowed_of_le (le_of_eq length.symm) small)
    have kept (address : Nat) (inside : address < (emit last program).length)
        (other : address ∉ exits) : final[address]? = (emit last program)[address]? := by
      rw [← res]
      exact (patch_getElem? _ _ _ _ inside).trans (if_neg other)
    refine ⟨?_,?_,?_⟩
    · intro address low other
      rw [kept address (low.trans_le sub.length_le) other,Agrees.of_extends sub 0 address (by omega) low]
    · intro exit mem
      rw [length,← res]
      exact (patch_getElem? _ _ _ _ ((old exit mem).trans_le sub.length_le)).trans (if_pos mem)
    · rw [length]
      apply Fragment.frame last _ _ _ code
      intro address low high
      exact kept address high (fun mem => absurd (old address mem) (by omega))
  | item :: next :: rest, program, final, exits, _, valid, res, old, small => by
    simp only [emitAlternatives] at res
    generalize e : emit item (program ++ [Instruction.split (program.length + 1) 0]) = body at res
    have entered : program ++ [Instruction.split (program.length + 1) 0] <+: body :=
      e ▸ emit_extends item _
    have size : program.length + 1 ≤ body.length := by simpa using entered.length_le
    generalize middle_eq : (body ++ [Instruction.jump 0]).set program.length
      (.split (program.length + 1) (body.length + 1)) = middle at res
    have length : middle.length = body.length + 1 := by simp [← middle_eq]
    have inside : ∀ exit ∈ exits ++ [body.length], exit < middle.length := by
      intro exit mem
      rcases mem_append.mp mem with pre | new
      · have := old exit pre
        omega
      · have := mem_singleton.mp new
        omega
    obtain ⟨same,patched,more⟩ := emitAlternatives_fragment (next :: rest) middle final _
      (by simp) valid.2 res inside small
    have shorter := FragmentAlternatives.le final (next :: rest) _ _ more
    have kept (address : Nat) (low : address < body.length) (other : address ∉ exits)
        (patch : address ≠ program.length) : final[address]? = body[address]? := by
      rw [same address (by omega) (by simp [other]; omega),← middle_eq,
        getElem?_set_ne (Ne.symm patch),getElem?_append_left low]
    have inner := emit_fragment item (program ++ [Instruction.split (program.length + 1) 0])
      valid.1 (e ▸ overflowed_of_le (by omega) small)
    rw [e,length_append,length_singleton] at inner
    refine ⟨?_,fun exit mem => patched exit (by simp [mem]),body.length,?_,?_,patched _ (by simp),?_⟩
    · intro address low other
      rw [kept address (by omega) other (by omega),Agrees.of_extends entered 0 address (by omega) (by simp; omega),
        getElem?_append_left low]
    · have fresh : program.length ∉ exits ++ [body.length] := by
        intro mem
        rcases mem_append.mp mem with pre | new
        · exact absurd (old _ pre) (lt_irrefl _)
        · have := mem_singleton.mp new
          omega
      rw [same _ (by omega) fresh,← middle_eq,getElem?_set_self (by simp; omega)]
    · apply Fragment.frame item _ _ _ inner
      intro address low high
      exact kept address high (fun mem => absurd (old address mem) (by omega)) (by omega)
    · rw [← length]
      exact more
end

end Keiko.TemplatePattern
