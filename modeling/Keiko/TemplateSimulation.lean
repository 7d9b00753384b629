import Keiko.TemplateProgram
import Mathlib.Data.List.Basic

/-! The simulation of a program over a text, and the runs it decides. The set of
visited addresses is the source's stamped array: an address counts as visited at
a position when it holds that position's stamp, so no clearing is needed. -/
namespace Keiko.TemplatePattern
open Keiko.Library List

def wordAt (input : List Int) (index : Int) : Bool :=
  if index < 0 then false
  else match input[index.toNat]? with
    | some unit => isWord unit
    | none => false

def holds (assertion : Assertion) (input : List Int) (position : Nat) : Bool :=
  match assertion with
  | .start => position == 0
  | .stop => position == input.length
  | .boundary => wordAt input (position - 1 : Int) != wordAt input position
  | .notBoundary => wordAt input (position - 1 : Int) == wordAt input position

section
variable (prog : Program) (input : List Int)

/-- The loop of `follow`; the answer, the stamps and the collected unit addresses. -/
def followLoop (position : Nat) : Nat → List Nat → List Nat → List Nat → Bool × List Nat × List Nat
  | _, [], seen, out => (false, seen, out)
  | 0, _ :: _, seen, out => (false, seen, out)
  | rounds + 1, pc :: stack, seen, out =>
    if seen[pc]? = some (position + 1) then followLoop position rounds stack seen out
    else
      let seen := seen.set pc (position + 1)
      match prog[pc]? with
      | none => followLoop position rounds stack seen out
      | some .accept => (true, seen, out)
      | some (.unit _) => followLoop position rounds stack seen (out ++ [pc])
      | some (.jump target) => followLoop position rounds (target :: stack) seen out
      | some (.split first second) =>
        followLoop position rounds (first :: second :: stack) seen out
      | some (.assert assertion) =>
        if holds assertion input position then followLoop position rounds ((pc + 1) :: stack) seen out
        else followLoop position rounds stack seen out

/-- Every address is marked once and pushes at most two, which bounds the rounds. -/
def follow (start position : Nat) (seen out : List Nat) : Bool × List Nat × List Nat :=
  followLoop prog input position (2 * prog.length + 1) [start] seen out

def step (position : Nat) (unit : Int) : List Nat → List Nat → List Nat → Bool × List Nat × List Nat
  | [], seen, next => (false, seen, next)
  | pc :: current, seen, next =>
    match prog[pc]? with
    | some (.unit test) =>
      if test unit then match follow prog input (pc + 1) (position + 1) seen next with
        | (true, seen, next) => (true, seen, next)
        | (false, seen, next) => step position unit current seen next
      else step position unit current seen next
    | _ => step position unit current seen next

def simulateFrom : Nat → Nat → List Nat → List Nat → Bool
  | 0, _, _, _ => false
  | rounds + 1, position, current, seen =>
    match follow prog input 0 position seen current with
    | (true, _, _) => true
    | (false, seen, current) =>
      match input[position]? with
      | none => false
      | some unit =>
        match step prog input position unit current seen [] with
        | (true, _, _) => true
        | (false, seen, next) => simulateFrom rounds (position + 1) next seen

end

def codePoints (text : Text) : List Int := text.map fun c => (c.toNat : Int)

def simulate (program : Program) (text : Text) : Bool :=
  let input := codePoints text
  simulateFrom program input (input.length + 1) 0 [] (List.replicate program.length 0)

/-! Runs of a program. -/

def Silent (program : Program) (input : List Int) (position pc next : Nat) : Prop :=
  match program[pc]? with
  | some (.jump target) => next = target
  | some (.split first second) => next = first ∨ next = second
  | some (.assert assertion) => holds assertion input position = true ∧ next = pc + 1
  | _ => False

def Consumes (program : Program) (input : List Int) (position pc : Nat) : Prop :=
  ∃ test unit, program[pc]? = some (.unit test) ∧ input[position]? = some unit ∧ test unit = true

inductive Live (program : Program) (input : List Int) : Nat → Nat → Prop
  | enter {position} (inside : position ≤ input.length) : Live program input 0 position
  | silent {pc next position} (before : Live program input pc position)
      (move : Silent program input position pc next) : Live program input next position
  | consume {pc position} (before : Live program input pc position)
      (move : Consumes program input position pc) : Live program input (pc + 1) (position + 1)

theorem Live.inside {program : Program} {input : List Int} {pc pos : Nat}
    (live : Live program input pc pos) : pos ≤ input.length := by
  induction live with
  | enter mem => exact mem
  | silent _ _ ih => exact ih
  | consume _ move _ =>
    obtain ⟨_,unit,_,read,_⟩ := move
    exact (List.getElem?_eq_some_iff.mp read).1

/-! One position: the marked addresses are closed under silent moves up to the
stack, hold no accepting address, and their unit addresses are the ones collected. -/

section
variable {prog : Program} {input : List Int} {position : Nat} {live : Nat → Prop}
  {seen stack out moves : List Nat} {res : Bool × List Nat × List Nat} {pc other : Nat}

def Marked (position : Nat) (seen : List Nat) (pc : Nat) : Prop := seen[pc]? = some (position + 1)

def Visited (position : Nat) (seen : List Nat) (pc : Nat) : Prop :=
  Marked position seen pc ∨ seen.length ≤ pc

structure Frontier (prog : Program) (input : List Int) (position : Nat) (live : Nat → Prop)
    (seen out stack : List Nat) : Prop where
  size : seen.length = prog.length
  closed : ∀ pc next, Marked position seen pc → Silent prog input position pc next →
    Visited position seen next ∨ next ∈ stack
  safe : ∀ pc, Marked position seen pc → prog[pc]? ≠ some .accept
  collected : ∀ pc, pc ∈ out ↔ Marked position seen pc ∧ ∃ test, prog[pc]? = some (.unit test)
  alive : ∀ pc, Marked position seen pc → live pc
  pending : ∀ pc ∈ stack, live pc

/-- What `follow` does to the stamps, whichever way it ends. -/
structure Extends (position : Nat) (seen after : List Nat) : Prop where
  kept : ∀ pc, Visited position seen pc → Visited position after pc
  stamps : ∀ pc stamp : Nat, after[pc]? = some stamp → stamp = position + 1 ∨ seen[pc]? = some stamp

theorem Extends.refl (seen : List Nat) : Extends pos seen seen :=
  ⟨fun _ old => old,fun _ _ stamp => .inr stamp⟩

theorem Extends.trans {a b third : List Nat} (left : Extends pos a b)
    (right : Extends pos b third) : Extends pos a third := by
  refine ⟨fun pc old => right.kept pc (left.kept pc old),fun pc stamp read => ?_⟩
  rcases right.stamps pc stamp read with new | old
  · exact .inl new
  · exact left.stamps pc stamp old

theorem marked_set (mem : pc < seen.length) :
    Marked pos (seen.set pc (pos + 1)) other ↔ other = pc ∨ Marked pos seen other := by
  unfold Marked
  by_cases same : other = pc
  · subst other
    simp [mem]
  · rw [getElem?_set_ne (Ne.symm same)]
    simp [same]

theorem visited_set : Visited pos (seen.set pc (pos + 1)) other ↔
      other = pc ∨ Visited pos seen other := by
  by_cases mem : pc < seen.length
  · simp only [Visited,marked_set mem,length_set,or_assoc]
  · rw [set_eq_of_length_le (by omega)]
    constructor
    · exact .inr
    · rintro (rfl | old)
      · exact .inr (by omega)
      · exact old

theorem Extends.set (seen : List Nat) (pc : Nat) : Extends pos seen (seen.set pc (pos + 1)) := by
  refine ⟨fun other old => visited_set.mpr (.inr old),fun other stamp read => ?_⟩
  by_cases same : other = pc
  · subst other
    rw [getElem?_set_self'] at read
    cases found : seen[pc]? <;> simp [found] at read
    exact .inl read.symm
  · rw [getElem?_set_ne (Ne.symm same)] at read
    exact .inr read

theorem Frontier.visit {out' : List Nat}
    (advance : ∀ pc next, live pc → Silent prog input pos pc next → live next)
    (ready : Frontier prog input pos live seen out (pc :: stack))
    (inside : pc < seen.length) (other : prog[pc]? ≠ some .accept)
    (cover : ∀ next, Silent prog input pos pc next ↔ next ∈ moves)
    (collect : ∀ address, address ∈ out' ↔ address ∈ out ∨ address = pc ∧ ∃ test, prog[pc]? = some (.unit test)) :
    Frontier prog input pos live (seen.set pc (pos + 1)) out' (moves ++ stack) where
  size := by simpa using ready.size
  closed := by
    intro address next marked move
    rw [visited_set,mem_append]
    rcases (marked_set inside).mp marked with rfl | old
    · exact .inr (.inl ((cover next).mp move))
    · rcases ready.closed address next old move with visited | waiting
      · exact .inl (.inr visited)
      · rcases mem_cons.mp waiting with same | post
        · exact .inl (.inl same)
        · exact .inr (.inr post)
  safe := by
    intro address marked
    rcases (marked_set inside).mp marked with rfl | old
    · exact other
    · exact ready.safe address old
  collected := by
    intro address
    rw [collect,marked_set inside,ready.collected]
    constructor
    · rintro (⟨old,unit⟩ | ⟨rfl,unit⟩)
      · exact ⟨.inr old,unit⟩
      · exact ⟨.inl rfl,unit⟩
    · rintro ⟨rfl | old,unit⟩
      · exact .inr ⟨rfl,unit⟩
      · exact .inl ⟨old,unit⟩
  alive := by
    intro address marked
    rcases (marked_set inside).mp marked with rfl | old
    · exact ready.pending _ (by simp)
    · exact ready.alive address old
  pending := by
    intro address mem
    rcases mem_append.mp mem with new | old
    · exact advance pc address (ready.pending pc (by simp)) ((cover address).mpr new)
    · exact ready.pending address (by simp [old])

/-- What the loop of `follow` establishes for the addresses on its stack. -/
def Explored (prog : Program) (input : List Int) (position : Nat) (live : Nat → Prop)
    (seen stack : List Nat) (result : Bool × List Nat × List Nat) : Prop :=
  match result with
  | (true, _, _) => ∃ goal, live goal ∧ prog[goal]? = some .accept
  | (false, after, out) => Frontier prog input position live after out [] ∧
      Extends position seen after ∧ ∀ pc ∈ stack, Visited position after pc

theorem Explored.visit
    (explored : Explored prog input pos live (seen.set pc (pos + 1)) (moves ++ stack) res) :
    Explored prog input pos live seen (pc :: stack) res := by
  obtain ⟨matched,after,out⟩ := res
  cases matched with
  | true => exact explored
  | false =>
    obtain ⟨frontier,extends_,visited⟩ := explored
    refine ⟨frontier,(Extends.set seen pc).trans extends_,fun address mem => ?_⟩
    rcases mem_cons.mp mem with rfl | post
    · exact extends_.kept _ (visited_set.mpr (.inl rfl))
    · exact visited address (by simp [post])

theorem Frontier.skip (ready : Frontier prog input pos live seen out (pc :: stack))
    (visited : Visited pos seen pc) :
    Frontier prog input pos live seen out stack where
  size := ready.size
  closed := by
    intro address next marked move
    rcases ready.closed address next marked move with old | waiting
    · exact .inl old
    · rcases mem_cons.mp waiting with rfl | post
      · exact .inl visited
      · exact .inr post
  safe := ready.safe
  collected := ready.collected
  alive := ready.alive
  pending := fun address mem => ready.pending address (by simp [mem])

theorem Explored.skip (visited : Visited pos seen pc)
    (explored : Explored prog input pos live seen stack res) :
    Explored prog input pos live seen (pc :: stack) res := by
  obtain ⟨matched,after,out⟩ := res
  cases matched with
  | true => exact explored
  | false =>
    obtain ⟨frontier,extends_,rest⟩ := explored
    refine ⟨frontier,extends_,fun address mem => ?_⟩
    rcases mem_cons.mp mem with rfl | post
    · exact extends_.kept _ visited
    · exact rest address post

def unseen (position : Nat) (seen : List Nat) : Nat := seen.countP (· != position + 1)

theorem unseen_set (mem : pc < seen.length) (fresh : ¬Marked pos seen pc) :
    unseen pos (seen.set pc (pos + 1)) + 1 = unseen pos seen := by
  have differs : seen[pc] ≠ pos + 1 := fun same => fresh (List.getElem?_eq_some_iff.mpr ⟨mem,same⟩)
  have here : 0 < seen.countP (· != pos + 1) :=
    countP_pos_iff.mpr ⟨seen[pc],getElem_mem mem,by simpa using differs⟩
  simp only [unseen,countP_set mem]
  simp [differs]
  omega

theorem followLoop_explored (advance : ∀ pc next, live pc → Silent prog input pos pc next → live next)
    (rounds : Nat) (seen out stack : List Nat)
    (ready : Frontier prog input pos live seen out stack)
    (n : stack.length + 2 * unseen pos seen ≤ rounds) :
    Explored prog input pos live seen stack (followLoop prog input pos rounds stack seen out) := by
  induction rounds generalizing seen out stack with
  | zero =>
    cases stack with
    | nil => exact ⟨ready,Extends.refl seen,by simp⟩
    | cons pc stack => simp at n
  | succ rounds ih =>
    cases stack with
    | nil => exact ⟨ready,Extends.refl seen,by simp⟩
    | cons pc stack =>
      rw [length_cons] at n
      unfold followLoop
      split
      · next marked =>
        exact (ih seen out stack (ready.skip (.inl marked)) (by omega)).skip (.inl marked)
      · next fresh =>
        by_cases mem : pc < seen.length
        · have fewer := unseen_set mem fresh
          -- Each instruction replaces the address by its silent moves, at most two.
          have visit (moves out' : List Nat) (other : prog[pc]? ≠ some .accept)
              (cover : ∀ next, Silent prog input pos pc next ↔ next ∈ moves)
              (collect : ∀ address, address ∈ out' ↔
                address ∈ out ∨ address = pc ∧ ∃ test, prog[pc]? = some (.unit test))
              (short : moves.length ≤ 2) :=
            (ih _ out' (moves ++ stack) (ready.visit advance mem other cover collect)
              (by rw [length_append]; omega)).visit
          cases hit : prog[pc]? with
          | none =>
            have := getElem?_eq_none_iff.mp hit
            have := ready.size
            omega
          | some instruction =>
            cases instruction with
            | accept => exact ⟨pc,ready.pending pc (by simp),hit⟩
            | unit test =>
              exact visit [] (out ++ [pc]) (by simp [hit]) (by simp [Silent,hit]) (by simp [hit]) (by simp)
            | jump tgt =>
              exact visit [tgt] out (by simp [hit]) (by simp [Silent,hit]) (by simp [hit]) (by simp)
            | split a b =>
              exact visit [a,b] out (by simp [hit]) (by simp [Silent,hit]) (by simp [hit]) (by simp)
            | assert assertion =>
              dsimp only
              split
              · next true =>
                exact visit [pc + 1] out (by simp [hit]) (by simp [Silent,hit,true]) (by simp [hit]) (by simp)
              · next false =>
                exact visit [] out (by simp [hit]) (by simp [Silent,hit,false]) (by simp [hit]) (by simp)
        · have outside : Visited pos seen pc := .inr (by omega)
          have absent : prog[pc]? = none :=
            getElem?_eq_none_iff.mpr (by have := ready.size; omega)
          simp only [absent]
          rw [set_eq_of_length_le (by omega)]
          exact (ih seen out stack (ready.skip outside) (by omega)).skip outside

theorem follow_explored (advance : ∀ pc next, live pc → Silent prog input pos pc next → live next) {start : Nat}
    (ready : Frontier prog input pos live seen out []) (alive : live start) :
    Explored prog input pos live seen [start] (follow prog input start pos seen out) := by
  apply followLoop_explored advance
  · refine { ready with closed := ?_, pending := by simpa using alive }
    intro pc next marked move
    rcases ready.closed pc next marked move with old | none
    · exact .inl old
    · cases none
  · have bounded : unseen pos seen ≤ seen.length := countP_le_length
    have := ready.size
    rw [length_singleton]
    omega

end

/-! All positions: a run is found exactly when some live address accepts. -/

section
variable {prog : Program} {input : List Int} {position : Nat} {seen out : List Nat} {pc : Nat}

abbrev LiveAt (prog : Program) (input : List Int) (position : Nat) : Nat → Prop :=
  fun pc => Live prog input pc position

theorem liveAt_advance (pos pc next : Nat) (live : LiveAt prog input pos pc)
    (move : Silent prog input pos pc next) : LiveAt prog input pos next :=
  live.silent move

theorem Frontier.fresh (size : seen.length = prog.length)
    (stamps : ∀ pc stamp : Nat, seen[pc]? = some stamp → stamp ≤ pos) (live : Nat → Prop) :
    Frontier prog input pos live seen [] [] := by
  have unmarked : ∀ pc, ¬Marked pos seen pc := by
    intro pc marked
    have := stamps pc _ marked
    omega
  exact ⟨size,fun pc _ marked => absurd marked (unmarked pc),fun pc marked => absurd marked (unmarked pc),
    fun pc => ⟨by simp,fun both => absurd both.1 (unmarked pc)⟩,
    fun pc marked => absurd marked (unmarked pc),by simp⟩

/-- What reading one character establishes for the unit addresses it is read at. -/
def Stepped (prog : Program) (input : List Int) (position : Nat) (seen current : List Nat)
    (result : Bool × List Nat × List Nat) : Prop :=
  match result with
  | (true, _, _) => ∃ goal, LiveAt prog input (position + 1) goal ∧
      prog[goal]? = some .accept
  | (false, after, out) =>
      Frontier prog input (position + 1) (LiveAt prog input (position + 1)) after out [] ∧
      Extends (position + 1) seen after ∧
      ∀ pc ∈ current, Consumes prog input position pc → Visited (position + 1) after (pc + 1)

theorem Stepped.idle {cur : List Nat} {res : Bool × List Nat × List Nat}
    (idle : ¬Consumes prog input pos pc) (stepped : Stepped prog input pos seen cur res) :
    Stepped prog input pos seen (pc :: cur) res := by
  obtain ⟨matched,after,out⟩ := res
  cases matched with
  | true => exact stepped
  | false =>
    obtain ⟨frontier,extends_,rest⟩ := stepped
    refine ⟨frontier,extends_,fun address mem moves => ?_⟩
    rcases mem_cons.mp mem with rfl | post
    · exact absurd moves idle
    · exact rest address post moves

theorem step_stepped {unit : Int} (read : input[pos]? = some unit) (cur seen next : List Nat)
    (ready : Frontier prog input (pos + 1) (LiveAt prog input (pos + 1)) seen next [])
    (alive : ∀ pc ∈ cur, LiveAt prog input pos pc) :
    Stepped prog input pos seen cur (step prog input pos unit cur seen next) := by
  induction cur generalizing seen next with
  | nil => exact ⟨ready,Extends.refl seen,by simp⟩
  | cons pc cur ih =>
    have post : ∀ pc ∈ cur, LiveAt prog input pos pc :=
      fun address mem => alive address (by simp [mem])
    have skip (idle : ¬Consumes prog input pos pc) :=
      (ih seen next ready post).idle idle
    unfold step
    split
    · next test hit =>
      split
      · next passes =>
        have consumes : Consumes prog input pos pc := ⟨test,unit,hit,read,passes⟩
        have e : LiveAt prog input (pos + 1) (pc + 1) :=
          (alive pc (by simp)).consume consumes
        have explored := follow_explored (liveAt_advance (pos + 1)) ready e
        split
        · next res =>
          rw [res] at explored
          exact explored
        · next after out res =>
          rw [res] at explored
          obtain ⟨frontier,extends_,visited⟩ := explored
          have rest := ih after out frontier post
          generalize step prog input pos unit cur after out = final at rest ⊢
          obtain ⟨matched,last,units⟩ := final
          cases matched with
          | true => exact rest
          | false =>
            obtain ⟨frontier,more,moves⟩ := rest
            refine ⟨frontier,extends_.trans more,fun address mem move => ?_⟩
            rcases mem_cons.mp mem with rfl | post
            · exact more.kept _ (visited _ (by simp))
            · exact moves address post move
      · next fails =>
        apply skip
        rintro ⟨test',unit',found',read',passes⟩
        rw [hit] at found'
        rw [read] at read'
        cases found'
        cases read'
        exact fails passes
    · next other =>
      apply skip
      rintro ⟨test,unit',hit,_,_⟩
      exact other test hit

/-- The state of `simulate` when it comes to a position. -/
structure Ready (prog : Program) (input : List Int) (position : Nat)
    (current seen : List Nat) : Prop where
  frontier : Frontier prog input position (LiveAt prog input position) seen current []
  stamps : ∀ pc stamp : Nat, seen[pc]? = some stamp → stamp ≤ position + 1
  entered : ∀ pc before, position = before + 1 → LiveAt prog input before pc →
    Consumes prog input before pc → Visited position seen (pc + 1)
  past : ∀ pc before, before < position → LiveAt prog input before pc → prog[pc]? ≠ some .accept

theorem visited_of_live (frontier : Frontier prog input pos (LiveAt prog input pos) seen out [])
    (start : Visited pos seen 0) (entered : ∀ pc pre, pos = pre + 1 → LiveAt prog input pre pc →
      Consumes prog input pre pc → Visited pos seen (pc + 1)) (live : LiveAt prog input pos pc) : Visited pos seen pc := by
  generalize same : pos = place at live
  induction live with
  | enter _ =>
    subst same
    exact start
  | @silent pc next place _ move ih =>
    subst same
    rcases ih rfl with marked | outside
    · rcases frontier.closed pc next marked move with visited | none
      · exact visited
      · cases none
    · -- An address outside the program has no move.
      have absent : prog[pc]? = none :=
        getElem?_eq_none_iff.mpr (by have := frontier.size; omega)
      simp [Silent,absent] at move
  | consume pre move _ =>
    subst same
    exact entered _ _ rfl pre move

theorem not_accept_of_visited
    (frontier : Frontier prog input pos (LiveAt prog input pos) seen out []) (visited : Visited pos seen pc) : prog[pc]? ≠ some .accept := by
  rcases visited with marked | outside
  · exact frontier.safe pc marked
  · rw [getElem?_eq_none_iff.mpr (by have := frontier.size; omega)]
    simp

theorem simulateFrom_iff (rounds : Nat) (cur seen : List Nat)
    (ready : Ready prog input pos cur seen) (inside : pos ≤ input.length)
    (n : input.length + 1 ≤ rounds + pos) :
    simulateFrom prog input rounds pos cur seen = true ↔
      ∃ pc place, Live prog input pc place ∧ prog[pc]? = some .accept := by
  induction rounds generalizing pos cur seen with
  | zero => omega
  | succ rounds ih =>
    unfold simulateFrom
    have explored := follow_explored (liveAt_advance pos) ready.frontier (.enter inside)
    split
    · next res =>
      rw [res] at explored
      obtain ⟨goal,live,accepts⟩ := explored
      exact ⟨fun _ => ⟨goal,pos,live,accepts⟩,fun _ => rfl⟩
    · next after out res =>
      rw [res] at explored
      obtain ⟨frontier,extends_,visited⟩ := explored
      have entered : ∀ pc pre, pos = pre + 1 → LiveAt prog input pre pc →
          Consumes prog input pre pc → Visited pos after (pc + 1) :=
        fun pc pre same live move => extends_.kept _ (ready.entered pc pre same live move)
      have past : ∀ pc pre, pre < pos + 1 → LiveAt prog input pre pc → prog[pc]? ≠ some .accept := by
        intro pc pre early live
        rcases lt_or_eq_of_le (Nat.le_of_lt_succ early) with less | rfl
        · exact ready.past pc pre less live
        · exact not_accept_of_visited frontier (visited_of_live frontier (visited 0 (by simp)) entered live)
      cases read : input[pos]? with
      | none =>
        have last := getElem?_eq_none_iff.mp read
        simp only [Bool.false_eq_true,false_iff]
        rintro ⟨pc,place,live,accepts⟩
        exact past pc place (by have := live.inside; omega) live accepts
      | some unit =>
        have stamps : ∀ pc stamp : Nat, after[pc]? = some stamp → stamp ≤ pos + 1 := by
          intro pc stamp hit
          rcases extends_.stamps pc stamp hit with new | old
          · omega
          · exact ready.stamps pc stamp old
        have stepped := step_stepped read out after [] (Frontier.fresh frontier.size stamps _)
          (fun pc mem => frontier.alive pc ((frontier.collected pc).mp mem).1)
        dsimp only
        split
        · next result' =>
          rw [result'] at stepped
          obtain ⟨goal,live,accepts⟩ := stepped
          exact ⟨fun _ => ⟨goal,pos + 1,live,accepts⟩,fun _ => rfl⟩
        · next last next result' =>
          rw [result'] at stepped
          obtain ⟨frontier',more,moves⟩ := stepped
          apply ih
          · refine ⟨frontier',?_,?_,past⟩
            · intro pc stamp hit
              rcases more.stamps pc stamp hit with new | old
              · omega
              · have := stamps pc stamp old
                omega
            · intro pc pre same live move
              obtain rfl : pos = pre := by omega
              have seenPc := visited_of_live frontier (visited 0 (by simp)) entered live
              obtain ⟨test,_,hit,_,_⟩ := id move
              have mem : pc ∈ out := by
                refine (frontier.collected pc).mpr ⟨?_,test,hit⟩
                rcases seenPc with marked | outside
                · exact marked
                · have := (List.getElem?_eq_some_iff.mp hit).1
                  have := frontier.size
                  omega
              exact moves pc mem move
          · exact (List.getElem?_eq_some_iff.mp read).1
          · omega

theorem simulate_iff_live (prog : Program) (t : Text) : simulate prog t = true ↔
      ∃ pc place, Live prog (codePoints t) pc place ∧ prog[pc]? = some .accept := by
  apply simulateFrom_iff
  · have stamps : ∀ pc stamp : Nat, (replicate prog.length 0)[pc]? = some stamp → stamp ≤ 0 := by
      intro pc stamp hit
      have := (mem_replicate.mp (mem_of_getElem? hit)).2
      omega
    exact ⟨Frontier.fresh (by simp) stamps _,fun pc stamp hit => Nat.le_succ_of_le (stamps pc stamp hit),
      fun _ _ same => absurd same (by omega),fun _ _ less => absurd less (by omega)⟩
  · omega
  · omega

end

end Keiko.TemplatePattern
