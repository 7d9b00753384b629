import Keiko.Library.Utf16
import Mathlib.Algebra.BigOperators.Group.List.Basic

/-! Cuts of a JavaScript string on its characters, by the bytes of their UTF-8 encoding. A string
that comes in pieces has more characters than the whole where a piece ends between the halves of a
surrogate pair, and they are encoded in more bytes. -/
namespace Keiko.Library.Units
open List Bool

section Characters

/-- The characters that a loop over a string visits: a pair is one, half of a pair alone another. -/
def characters : Units → List Units
  | [] => []
  | [c] => [[c]]
  | c :: d :: rest =>
    if isHigh c && isLow d then [c,d] :: characters rest else [c] :: characters (d :: rest)

/-- The bytes of a character; half of a pair alone is replaced by a character of three. -/
def characterBytes : Units → Nat
  | [c] => if c.toNat < 0x80 then 1 else if c.toNat < 0x800 then 2 else 3
  | _ => 4

def weight (tokens : List Units) : Nat := (tokens.map characterBytes).sum

/-- `Buffer.byteLength(text, "utf8")`. -/
def byteLength (text : Units) : Nat := weight (characters text)

variable {text : Units} {front back : List Units} {c : CodeUnit} {token pre : Units}

theorem isHigh_of_isLow (low : isLow c = true) : isHigh c = false := by
  simp only [isLow,and_eq_true,decide_eq_true_eq] at low
  rw [isHigh,and_eq_false_iff,decide_eq_false_iff_not,decide_eq_false_iff_not]
  omega

theorem characterBytes_pos (token : Units) : 0 < characterBytes token := by
  unfold characterBytes
  split
  · split
    · omega
    · split
      · omega
      · omega
  · omega

theorem characterBytes_half (half : isHigh c = true ∨ isLow c = true) : characterBytes [c] = 3 := by
  simp only [isHigh,isLow,and_eq_true,decide_eq_true_eq] at half
  rw [characterBytes,if_neg (by omega),if_neg (by omega)]

@[simp] theorem weight_nil : weight [] = 0 := rfl

@[simp] theorem weight_cons (token : Units) (tokens : List Units) :
    weight (token :: tokens) = characterBytes token + weight tokens := by simp [weight]

@[simp] theorem weight_append (a b : List Units) :
    weight (a ++ b) = weight a + weight b := by simp [weight]

theorem flatten_characters (text : Units) : (characters text).flatten = text := by
  fun_induction characters text with
  | case1 => rfl
  | case2 c => rfl
  | case3 c d rest _ ih => simp [ih]
  | case4 c d rest _ ih => simp [ih]

theorem characters_plain (plain : isHigh c = false) (rest : Units) :
    characters (c :: rest) = [c] :: characters rest := by
  cases rest with
  | nil => rfl
  | cons d rest => simp [characters,plain]

theorem mem_characters (mem : token ∈ characters text) :
    (∃ c, token = [c]) ∨ ∃ c d, token = [c,d] ∧ isHigh c = true ∧ isLow d = true := by
  fun_induction characters text with
  | case1 => cases mem
  | case2 c => exact .inl ⟨c,mem_singleton.mp mem⟩
  | case3 c d rest both ih =>
    rcases mem_cons.mp mem with rfl | post
    · rw [and_eq_true] at both
      exact .inr ⟨c,d,rfl,both.1,both.2⟩
    · exact ih post
  | case4 c d rest _ ih =>
    rcases mem_cons.mp mem with rfl | post
    · exact .inl ⟨c,rfl⟩
    · exact ih post

theorem ne_nil_of_mem_characters (mem : token ∈ characters text) : token ≠ [] := by
  obtain ⟨c,rfl⟩ | ⟨c,d,rfl,_⟩ := mem_characters mem
  · simp
  · simp

theorem characters_front (split : characters text = front ++ back) : characters front.flatten = front := by
  fun_induction characters text generalizing front with
  | case1 =>
    obtain ⟨rfl,_⟩ := append_eq_nil_iff.mp split.symm
    rfl
  | case2 c =>
    rcases singleton_eq_append_iff.mp split with ⟨rfl,_⟩ | ⟨rfl,_⟩
    · rfl
    · rfl
  | case3 c d rest both ih =>
    rcases cons_eq_append_iff.mp split with ⟨rfl,_⟩ | ⟨more,rfl,others⟩
    · rfl
    · have behind := ih others
      rw [flatten_cons,cons_append,cons_append,nil_append,characters,if_pos both,behind]
  | case4 c d rest apart ih =>
    rcases cons_eq_append_iff.mp split with ⟨rfl,_⟩ | ⟨more,rfl,others⟩
    · rfl
    · have behind := ih others
      rw [flatten_cons,cons_append,nil_append]
      cases a : more.flatten with
      | nil =>
        rw [a] at behind
        rw [← behind]
        rfl
      | cons e post =>
        have whole := congrArg flatten others
        rw [flatten_characters,flatten_append,a,cons_append] at whole
        cases whole
        rw [characters,if_neg apart,← a,behind]

theorem ends_later {more : List Units} (ends : (token :: more).flatten = pre ++ [c]) :
    (more.flatten = [] ∧ token = pre ++ [c]) ∨ ∃ rest, more.flatten = rest ++ [c] := by
  rw [flatten_cons] at ends
  rcases eq_nil_or_concat more.flatten with empty | ⟨rest,last,same⟩
  · rw [empty,append_nil] at ends
    exact .inl ⟨empty,ends⟩
  · rw [same,concat_eq_append,← append_assoc] at ends
    cases (append_inj' ends rfl).2
    exact .inr ⟨rest,by rw [same,concat_eq_append]⟩

theorem apart_of_characters (split : characters text = front ++ back) {after : Units}
    {d : CodeUnit} (ends : front.flatten = pre ++ [c]) (starts : back.flatten = d :: after)
    (high : isHigh c = true) : isLow d = false := by
  fun_induction characters text generalizing front pre with
  | case1 =>
    obtain ⟨rfl,_⟩ := append_eq_nil_iff.mp split.symm
    simp at ends
  | case2 e =>
    rcases singleton_eq_append_iff.mp split with ⟨rfl,_⟩ | ⟨_,rfl⟩
    · simp at ends
    · simp at starts
  | case3 e f rest both ih =>
    rcases cons_eq_append_iff.mp split with ⟨rfl,_⟩ | ⟨more,rfl,others⟩
    · simp at ends
    · rcases ends_later ends with ⟨_,whole⟩ | ⟨inner,same⟩
      · rw [and_eq_true] at both
        have same : [e] ++ [f] = pre ++ [c] := whole
        cases (append_inj' same rfl).2
        rw [isHigh_of_isLow both.2] at high
        cases high
      · exact ih others same
  | case4 e f rest apart ih =>
    rcases cons_eq_append_iff.mp split with ⟨rfl,_⟩ | ⟨more,rfl,others⟩
    · simp at ends
    · rcases ends_later ends with ⟨empty,whole⟩ | ⟨inner,same⟩
      · have single : [] ++ [e] = pre ++ [c] := whole
        cases (append_inj' single rfl).2
        have following := congrArg flatten others
        rw [flatten_characters,flatten_append,empty,starts] at following
        cases following
        simpa [high] using apart
      · exact ih others same

end Characters

section Fitting

def fittingFrom (room used : Nat) : List Units → List Units
  | [] => []
  | character :: rest =>
    let used := used + characterBytes character
    if room < used then [] else character :: fittingFrom room used rest

variable {room used : Nat} {tokens front : List Units}

theorem fittingFrom_prefix : fittingFrom room used tokens <+: tokens := by
  induction tokens generalizing used with
  | nil => exact prefix_refl []
  | cons token tokens ih =>
    rw [fittingFrom]
    split
    · exact List.nil_prefix
    · exact prefix_cons_iff.mpr (.inr ⟨_,rfl,ih⟩)

theorem fittingFrom_fits {used : Nat} (within : used ≤ room) (tokens : List Units) :
    used + weight (fittingFrom room used tokens) ≤ room := by
  induction tokens generalizing used with
  | nil => simpa [fittingFrom] using within
  | cons token tokens ih =>
    rw [fittingFrom]
    split
    · simpa using within
    next fits =>
      have rest := @ih (used + characterBytes token) (by omega)
      rw [weight_cons]
      omega

theorem fittingFrom_add (room used more : Nat) (tokens : List Units) :
    fittingFrom (room + more) (used + more) tokens = fittingFrom room used tokens := by
  induction tokens generalizing used with
  | nil => rfl
  | cons token tokens ih =>
    have moved : used + more + characterBytes token = used + characterBytes token + more := by omega
    rw [fittingFrom,fittingFrom,moved,ih]
    by_cases over_room : room < used + characterBytes token
    · rw [if_pos (by omega),if_pos over_room]
    · rw [if_neg (by omega),if_neg over_room]

theorem prefix_fittingFrom (start : front <+: tokens) (fits : used + weight front ≤ room) :
    front <+: fittingFrom room used tokens := by
  induction tokens generalizing front used with
  | nil =>
    rw [prefix_nil.mp start]
    exact List.nil_prefix
  | cons token tokens ih =>
    rcases prefix_cons_iff.mp start with rfl | ⟨more,rfl,rest⟩
    · exact List.nil_prefix
    · rw [weight_cons,← add_assoc] at fits
      rw [fittingFrom,if_neg (by omega)]
      exact prefix_cons_iff.mpr (.inr ⟨_,rfl,ih rest fits⟩)

theorem fittingFrom_all (fits : used + weight tokens ≤ room) : fittingFrom room used tokens = tokens :=
  fittingFrom_prefix.eq_of_length_le (prefix_fittingFrom (prefix_refl tokens) fits).length_le

theorem fittingFrom_append (more : List Units) : fittingFrom room used (tokens ++ more) =
    if fittingFrom room used tokens = tokens then tokens ++ fittingFrom room (used + weight tokens) more
    else fittingFrom room used tokens := by
  induction tokens generalizing used with
  | nil => simp [fittingFrom]
  | cons token tokens ih =>
    rw [cons_append,fittingFrom,fittingFrom]
    split
    next => rw [if_neg (by simp)]
    next =>
      rw [ih,weight_cons,← add_assoc]
      by_cases all : fittingFrom room (used + characterBytes token) tokens = tokens
      · simp [all]
      · simp [all]

theorem fittingFrom_none (full : room ≤ used) : fittingFrom room used tokens = [] := by
  cases tokens with
  | nil => rfl
  | cons token tokens =>
    have some_bytes := characterBytes_pos token
    rw [fittingFrom,if_pos (by omega)]

theorem weight_mono (start : front <+: tokens) : weight front ≤ weight tokens := by
  obtain ⟨back,rfl⟩ := start
  rw [weight_append]
  omega

theorem prefix_of_flatten {other : List Units} (some_units : ∀ token ∈ tokens, token ≠ [])
    (one : front <+: tokens) (two : other <+: tokens)
    (le : front.flatten.length ≤ other.flatten.length) : front <+: other := by
  rcases prefix_or_prefix_of_prefix one two with short | long
  · exact short
  · obtain ⟨back,rfl⟩ := long
    rw [flatten_append,length_append] at le
    have empty : back = [] := by
      cases back with
      | nil => rfl
      | cons token back =>
        have mem : token ∈ tokens := one.subset (mem_append_right _ mem_cons_self)
        have length := length_pos_iff.mpr (some_units token mem)
        rw [flatten_cons,length_append] at le
        omega
    rw [empty]
    exact ⟨[],by rw [append_nil,append_nil]⟩

theorem prefix_append_cases {α : Type*} {front a b : List α} (start : front <+: a ++ b) :
    front <+: a ∨ ∃ more, front = a ++ more ∧ more <+: b := by
  obtain ⟨back,same⟩ := start
  rcases append_eq_append_iff.mp same with ⟨more,whole,_⟩ | ⟨more,whole,rest⟩
  · exact .inl ⟨more,whole.symm⟩
  · exact .inr ⟨more,whole,⟨back,rest.symm⟩⟩

end Fitting

section Pieces

/-- The characters of pieces against those of the whole: two halves may make a pair. -/
inductive Merges : List Units → List Units → Prop where
  | nil : Merges [] []
  | same {apart whole : List Units} (token : Units) (rest : Merges apart whole) :
      Merges (token :: apart) (token :: whole)
  | pair {apart whole : List Units} {c d : CodeUnit} (high : isHigh c = true) (low : isLow d = true)
      (rest : Merges apart whole) : Merges ([c] :: [d] :: apart) ([c,d] :: whole)

variable {apart whole front : List Units}

theorem Merges.append (piece : Units) {text : Units} (merges : Merges apart (characters text)) :
    Merges (characters piece ++ apart) (characters (piece ++ text)) := by
  fun_induction characters piece with
  | case1 => exact merges
  | case2 c =>
    cases text with
    | nil =>
      cases merges
      exact .same [c] .nil
    | cons d rest =>
      rw [singleton_append,singleton_append,characters]
      split
      next both =>
        rw [and_eq_true] at both
        rw [characters_plain (isHigh_of_isLow both.2)] at merges
        cases merges with
        | same _ rest => exact .pair both.1 both.2 rest
      next => exact .same [c] merges
  | case3 c d rest both ih =>
    rw [cons_append,cons_append,cons_append,characters,if_pos both]
    exact .same [c,d] ih
  | case4 c d rest alone ih =>
    rw [cons_append,cons_append,cons_append,characters,if_neg alone]
    exact .same [c] ih

theorem merges_pieces (pieces : List Units) : Merges (pieces.flatMap characters) (characters pieces.flatten) := by
  induction pieces with
  | nil => exact .nil
  | cons piece pieces ih =>
    rw [flatMap_cons,flatten_cons]
    exact ih.append piece

theorem Merges.cut_whole (merges : Merges apart whole) (start : front <+: whole) :
    ∃ other, other <+: apart ∧ other.flatten = front.flatten ∧ weight front ≤ weight other := by
  induction merges generalizing front with
  | nil =>
    rw [prefix_nil.mp start]
    exact ⟨[],prefix_refl [],rfl,Nat.le_refl _⟩
  | same token rest ih =>
    rcases prefix_cons_iff.mp start with rfl | ⟨more,rfl,mem⟩
    · exact ⟨[],List.nil_prefix,rfl,Nat.le_refl _⟩
    · obtain ⟨other,prior,same,le⟩ := ih mem
      refine ⟨token :: other,prefix_cons_iff.mpr (.inr ⟨_,rfl,prior⟩),?_,?_⟩
      · rw [flatten_cons,flatten_cons,same]
      · rw [weight_cons,weight_cons]
        omega
  | @pair apart whole c d high low rest ih =>
    rcases prefix_cons_iff.mp start with rfl | ⟨more,rfl,mem⟩
    · exact ⟨[],List.nil_prefix,rfl,Nat.le_refl _⟩
    · obtain ⟨other,prior,same,le⟩ := ih mem
      refine ⟨[c] :: [d] :: other,?_,?_,?_⟩
      · exact prefix_cons_iff.mpr (.inr ⟨_,rfl,prefix_cons_iff.mpr (.inr ⟨_,rfl,prior⟩)⟩)
      · simp [same]
      · rw [weight_cons,weight_cons,weight_cons,characterBytes_half (.inl high),
          characterBytes_half (.inr low),characterBytes]
        · omega
        · simp

theorem Merges.cut_apart (merges : Merges apart whole) (start : front <+: apart) :
    (∃ other, other <+: whole ∧ other.flatten = front.flatten ∧ weight other ≤ weight front) ∨
      ∃ other c d, isHigh c = true ∧ isLow d = true ∧ other ++ [[c,d]] <+: whole ∧
        front.flatten = other.flatten ++ [c] ∧ weight other + 3 ≤ weight front := by
  induction merges generalizing front with
  | nil =>
    rw [prefix_nil.mp start]
    exact Or.inl ⟨[],prefix_refl [],rfl,Nat.le_refl _⟩
  | same token rest ih =>
    rcases prefix_cons_iff.mp start with rfl | ⟨more,rfl,mem⟩
    · exact Or.inl ⟨[],List.nil_prefix,rfl,Nat.le_refl _⟩
    · rcases ih mem with ⟨other,prior,same,le⟩ | ⟨other,c,d,high,low,prior,same,le⟩
      · refine .inl ⟨token :: other,prefix_cons_iff.mpr (.inr ⟨_,rfl,prior⟩),?_,?_⟩
        · rw [flatten_cons,flatten_cons,same]
        · rw [weight_cons,weight_cons]
          omega
      · refine .inr ⟨token :: other,c,d,high,low,?_,?_,?_⟩
        · exact prefix_cons_iff.mpr (.inr ⟨_,rfl,prior⟩)
        · rw [flatten_cons,flatten_cons,same,append_assoc]
        · rw [weight_cons,weight_cons]
          omega
  | @pair apart whole c d high low rest ih =>
    have half := characterBytes_half (.inl high)
    have other_half := characterBytes_half (.inr low)
    have both : characterBytes [c,d] = 4 := rfl
    rcases prefix_cons_iff.mp start with rfl | ⟨a,rfl,behind⟩
    · exact Or.inl ⟨[],List.nil_prefix,rfl,Nat.le_refl _⟩
    · rcases prefix_cons_iff.mp behind with rfl | ⟨more,rfl,mem⟩
      · refine .inr ⟨[],c,d,high,low,?_,rfl,?_⟩
        · exact prefix_cons_iff.mpr (.inr ⟨_,rfl,List.nil_prefix⟩)
        · rw [weight_cons,half]
          simp
      · rcases ih mem with ⟨other,prior,same,le⟩ | ⟨other,e,f,high,low,prior,same,le⟩
        · refine .inl ⟨[c,d] :: other,prefix_cons_iff.mpr (.inr ⟨_,rfl,prior⟩),?_,?_⟩
          · simp [same]
          · rw [weight_cons,weight_cons,weight_cons,half,other_half,both]
            omega
        · refine .inr ⟨[c,d] :: other,e,f,high,low,?_,?_,?_⟩
          · exact prefix_cons_iff.mpr (.inr ⟨_,rfl,prior⟩)
          · simp [same]
          · rw [weight_cons,weight_cons,weight_cons,half,other_half,both]
            omega

def piecesUpTo : List Units → Nat → List Units
  | [], _ => []
  | piece :: pieces, n => piece.take n :: piecesUpTo pieces (n - piece.length)

/-- The bytes of the first units of some pieces, counted in each piece by itself. -/
def countedBytes (pieces : List Units) (n : Nat) : Nat :=
  ((piecesUpTo pieces n).map byteLength).sum

theorem countedBytes_zero (pieces : List Units) : countedBytes pieces 0 = 0 := by
  induction pieces with
  | nil => rfl
  | cons piece pieces ih =>
    simp only [countedBytes,piecesUpTo,take_zero,map_cons,sum_cons] at ih ⊢
    rw [Nat.zero_sub,ih]
    rfl

theorem countedBytes_cons (piece : Units) (pieces : List Units) (n : Nat) : countedBytes (piece :: pieces) n =
      byteLength (piece.take n) + countedBytes pieces (n - piece.length) := by
  simp [countedBytes,piecesUpTo]

theorem countedBytes_cut {pieces : List Units} (start : front <+: pieces.flatMap characters) :
    countedBytes pieces front.flatten.length = weight front := by
  induction pieces generalizing front with
  | nil =>
    rw [prefix_nil.mp start]
    rfl
  | cons piece pieces ih =>
    rw [flatMap_cons] at start
    rw [countedBytes_cons]
    rcases prefix_append_cases start with mem | ⟨more,rfl,behind⟩
    · obtain ⟨back,same⟩ := mem
      have text : piece = front.flatten ++ back.flatten := by
        rw [← flatten_append,same,flatten_characters]
      have length := congrArg length text
      rw [length_append] at length
      rw [text,take_left,byteLength,characters_front same.symm,← text]
      have none_left : front.flatten.length - piece.length = 0 := by omega
      rw [none_left,countedBytes_zero,add_zero]
    · rw [flatten_append,flatten_characters,length_append,weight_append,
        take_of_length_le (by omega),Nat.add_sub_cancel_left,ih behind]
      rfl

theorem ends_piece {pieces : List Units} (start : front <+: pieces.flatMap characters)
    {pre after : Units} {c d : CodeUnit} (ends : front.flatten = pre ++ [c])
    (whole : pieces.flatten = pre ++ c :: d :: after) (high : isHigh c = true)
    (low : isLow d = true) : ∃ a last, pieces = a ++ last ∧ a.flatten = front.flatten := by
  induction pieces generalizing front pre with
  | nil => simp at whole
  | cons piece pieces ih =>
    rw [flatMap_cons] at start
    rcases prefix_append_cases start with mem | ⟨more,rfl,behind⟩
    · obtain ⟨back,same⟩ := mem
      have text : piece = front.flatten ++ back.flatten := by
        rw [← flatten_append,same,flatten_characters]
      cases rest : back.flatten with
      | nil => exact ⟨[piece],pieces,rfl,by rw [text,rest]; simp⟩
      | cons e more =>
        rw [flatten_cons,text,ends,rest] at whole
        simp only [append_assoc,cons_append,nil_append,append_cancel_left_eq,cons.injEq] at whole
        have next : e = d := whole.2.1
        subst next
        have alone := apart_of_characters same.symm ends rest high
        rw [low] at alone
        cases alone
    · rcases eq_nil_or_concat more.flatten with empty | ⟨rest,last,same⟩
      · refine ⟨[piece],pieces,rfl,?_⟩
        rw [flatten_append,flatten_characters,empty]
        simp
      · rw [concat_eq_append] at same
        rw [flatten_append,flatten_characters,same,← append_assoc] at ends
        obtain ⟨front_same,last_same⟩ := append_inj' ends rfl
        cases last_same
        rw [flatten_cons,← front_same,append_assoc] at whole
        obtain ⟨a,others,split,made⟩ := ih behind same (append_cancel_left whole)
        refine ⟨piece :: a,others,by rw [split]; rfl,?_⟩
        rw [flatten_cons,made,flatten_append,flatten_characters]

end Pieces

end Keiko.Library.Units
