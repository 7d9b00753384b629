import Keiko.Library.Binary64
import Keiko.Library.Text
import Mathlib.Data.List.TakeWhile
import Mathlib.Tactic.FieldSimp
import Mathlib.Tactic.IntervalCases
import Mathlib.Tactic.Linarith

/-! Decimal texts of binary64 numbers. A number is written with the fewest digits that are
rounded to it again, in one of the four layouts of the language; reading a numeral takes its
exact value and rounds it, so every number of the format is read back from its text. -/
namespace Keiko.Library.Decimal
open List Option

section Numeral

structure Numeral where
  whole : Text
  fraction : Text
  exponent : Option ℤ

def exponentText : Option ℤ → Text
  | none => []
  | some exponent =>
    'e' :: (if exponent < 0 then '-' else '+') :: Text.numberText exponent.natAbs

def Numeral.text (numeral : Numeral) : Text :=
  numeral.whole ++ ((if numeral.fraction = [] then [] else '.' :: numeral.fraction) ++ exponentText numeral.exponent)

def Numeral.value (numeral : Numeral) : ℚ :=
  Text.decimal (numeral.whole ++ numeral.fraction) * 10 ^ (numeral.exponent.getD 0 - numeral.fraction.length)

structure Numeral.Valid (numeral : Numeral) : Prop where
  whole : ∀ c ∈ numeral.whole, Text.isDigit c = true
  fraction : ∀ c ∈ numeral.fraction, Text.isDigit c = true
  some_digit : numeral.whole ≠ []
  no_zero : numeral.whole.head? = some '0' → numeral.whole = ['0']

def readDigits (text : Text) : Option (Text × Text) :=
  match text.takeWhile Text.isDigit with
  | [] => none
  | digits => some ⟨digits,text.dropWhile Text.isDigit⟩

def readWhole : Text → Option (Text × Text)
  | '0' :: text => some ⟨['0'],text⟩
  | text => readDigits text

def readFraction : Text → Option (Text × Text)
  | '.' :: text => readDigits text
  | text => some ⟨[],text⟩

def readSign : Text → Bool × Text
  | '-' :: text => ⟨true,text⟩
  | '+' :: text => ⟨false,text⟩
  | text => ⟨false,text⟩

def readExponent (text : Text) : Option (Option ℤ × Text) :=
  match text with
  | [] => some ⟨none,[]⟩
  | c :: rest =>
    if c = 'e' ∨ c = 'E' then do
      let ⟨digits,after⟩ ← readDigits (readSign rest).2
      let magnitude : ℤ := Text.decimal digits
      some ⟨some (if (readSign rest).1 then -magnitude else magnitude),after⟩
    else some ⟨none,text⟩

def readNumeral (text : Text) : Option (Numeral × Text) := do
  let ⟨whole,text⟩ ← readWhole text
  let ⟨fraction,text⟩ ← readFraction text
  let ⟨exponent,text⟩ ← readExponent text
  some ⟨⟨whole,fraction,exponent⟩,text⟩

def Ends (rest : Text) : Prop :=
  ∀ c ∈ rest.head?, Text.isDigit c = false ∧ c ≠ '.' ∧ c ≠ 'e' ∧ c ≠ 'E'

theorem readDigits_append {digits rest : Text} (all : ∀ c ∈ digits, Text.isDigit c = true)
    (some_digit : digits ≠ []) (stops : ∀ c ∈ rest.head?, Text.isDigit c = false) :
    readDigits (digits ++ rest) = some ⟨digits,rest⟩ := by
  have nothing : rest.takeWhile Text.isDigit = [] ∧ rest.dropWhile Text.isDigit = rest := by
    cases rest with
    | nil => exact ⟨rfl,rfl⟩
    | cons c rest =>
      have stop : ¬ Text.isDigit c = true := by simp [stops c rfl]
      exact ⟨takeWhile_cons_of_neg stop,dropWhile_cons_of_neg stop⟩
  unfold readDigits
  rw [takeWhile_append_of_pos all,dropWhile_append_of_pos all,nothing.1,nothing.2,append_nil]
  cases digits with
  | nil => exact absurd rfl some_digit
  | cons c digits => rfl

theorem readWhole_append {whole rest : Text} (all : ∀ c ∈ whole, Text.isDigit c = true)
    (some_digit : whole ≠ []) (no_zero : whole.head? = some '0' → whole = ['0'])
    (stops : ∀ c ∈ rest.head?, Text.isDigit c = false) :
    readWhole (whole ++ rest) = some ⟨whole,rest⟩ := by
  cases whole with
  | nil => exact absurd rfl some_digit
  | cons c digits =>
    by_cases zero : c = '0'
    · subst zero
      obtain rfl := (cons.inj (no_zero rfl)).2
      rfl
    · have digitwise : readWhole (c :: digits ++ rest) = readDigits (c :: digits ++ rest) := by
        rw [cons_append,readWhole.eq_2]
        intro t same
        exact zero (cons.inj same).1
      rw [digitwise,readDigits_append all (cons_ne_nil _ _) stops]

theorem readExponent_append {exponent : Option ℤ} {rest : Text} (ends : Ends rest) :
    readExponent (exponentText exponent ++ rest) = some ⟨exponent,rest⟩ := by
  cases exponent with
  | none =>
    cases rest with
    | nil => rfl
    | cons c rest =>
      obtain ⟨_,_,low,high⟩ := ends c rfl
      unfold readExponent exponentText
      rw [nil_append]
      dsimp only
      rw [if_neg (by simp [low,high])]
  | some exponent =>
    have digits := @readDigits_append (Text.numberText exponent.natAbs) rest
      (fun c mem => Text.isDigit_of_mem_numberText mem) (Text.numberText_ne_nil _)
      fun c a => (ends c a).1
    unfold readExponent exponentText
    by_cases negative : exponent < 0
    · simp only [negative,if_true,cons_append,true_or,readSign,digits]
      simp only [bind_eq_bind,bind_some,Text.decimal_numberText,some.injEq,Prod.mk.injEq,and_true]
      omega
    · simp only [negative,if_false,cons_append,true_or,if_true,readSign,digits]
      simp only [bind_eq_bind,bind_some,Text.decimal_numberText,some.injEq,
        Prod.mk.injEq,and_true,Bool.false_eq_true,if_false]
      omega

theorem readNumeral_text {numeral : Numeral} (valid : numeral.Valid) {rest : Text}
    (ends : Ends rest) : readNumeral (numeral.text ++ rest) = some ⟨numeral,rest⟩ := by
  obtain ⟨whole,fraction,exponent⟩ := numeral
  have tail_stops : ∀ c ∈ (exponentText exponent ++ rest).head?, Text.isDigit c = false := by
    cases exponent with
    | none => exact fun c first => (ends c first).1
    | some exponent =>
      intro c first
      obtain rfl := some.inj first
      rfl
  have read_fraction : readFraction ((if fraction = [] then [] else '.' :: fraction) ++
      (exponentText exponent ++ rest)) = some ⟨fraction,exponentText exponent ++ rest⟩ := by
    by_cases none_after : fraction = []
    · subst none_after
      rw [if_pos rfl,nil_append]
      unfold readFraction
      split
      case h_1 t starts =>
        cases exponent with
        | none => exact absurd rfl (ends '.' (by rw [show rest = '.' :: t from starts]; rfl)).2.1
        | some exponent => cases (cons.inj starts).1
      case h_2 => rfl
    · rw [if_neg none_after,cons_append,readFraction,readDigits_append valid.fraction none_after tail_stops]
  have whole_stops : ∀ c ∈ ((if fraction = [] then [] else '.' :: fraction) ++
      (exponentText exponent ++ rest)).head?, Text.isDigit c = false := by
    by_cases none_after : fraction = []
    · rw [if_pos none_after,nil_append]
      exact tail_stops
    · rw [if_neg none_after]
      intro c first
      obtain rfl := some.inj first
      rfl
  unfold readNumeral Numeral.text
  simp only [append_assoc]
  rw [readWhole_append valid.whole valid.some_digit valid.no_zero whole_stops]
  simp only [bind_eq_bind,bind_some,read_fraction,readExponent_append ends]

end Numeral

section Layout

/-- The layouts of the language for digits whose point stands behind the `point`-th. -/
def layout (digits : Text) (point : ℤ) : Numeral :=
  let size := digits.length
  if size ≤ point ∧ point ≤ 21 then ⟨digits ++ List.replicate (point - size).toNat '0',[],none⟩
  else if 0 < point ∧ point ≤ 21 then ⟨digits.take point.toNat,digits.drop point.toNat,none⟩
  else if -6 < point ∧ point ≤ 0 then ⟨['0'],List.replicate (-point).toNat '0' ++ digits,none⟩
  else ⟨digits.take 1,digits.drop 1,some (point - 1)⟩

variable {digits : Text}

theorem decimal_foldl (digits : Text) (start : Nat) :
    digits.foldl (fun v digit => 10 * v + (digit.toNat - '0'.toNat)) start =
      start * 10 ^ digits.length + Text.decimal digits := by
  induction digits generalizing start with
  | nil => simp [Text.decimal]
  | cons digit digits ih =>
    rw [Text.decimal,foldl_cons,foldl_cons,ih,ih,length_cons,pow_succ]
    ring

theorem decimal_append (a b : Text) : Text.decimal (a ++ b) =
    Text.decimal a * 10 ^ b.length + Text.decimal b := by
  rw [Text.decimal,foldl_append,decimal_foldl]
  rfl

theorem decimal_zeros (n : Nat) : Text.decimal (List.replicate n '0') = 0 := by
  induction n with
  | zero => rfl
  | succ n ih =>
    have zero : Text.decimal ['0'] = 0 := rfl
    rw [replicate_succ,← singleton_append,decimal_append,ih,zero,Nat.zero_mul]

theorem isDigit_zeros {n : Nat} {c : Char} (mem : c ∈ List.replicate n '0') : Text.isDigit c = true := by
  rw [eq_of_mem_replicate mem]
  rfl

theorem layout_valid (all : ∀ c ∈ digits, Text.isDigit c = true) (some_digit : digits ≠ [])
    (no_zero : digits.head? ≠ some '0') (point : ℤ) : (layout digits point).Valid := by
  obtain ⟨c,rest,rfl⟩ := exists_cons_of_ne_nil some_digit
  unfold layout
  dsimp only
  split
  · refine ⟨?_,by simp,by simp,?_⟩
    · intro d mem
      exact (mem_append.mp mem).elim (all d) isDigit_zeros
    · intro zero
      exact absurd (by simpa using zero) no_zero
  split
  · next after inside =>
    obtain ⟨place,rfl⟩ := Int.eq_ofNat_of_zero_le inside.1.le
    obtain ⟨place,rfl⟩ := Nat.exists_eq_succ_of_ne_zero (by omega : place ≠ 0)
    refine ⟨fun d mem => all d (mem_of_mem_take mem),fun d mem => all d (mem_of_mem_drop mem),by simp,?_⟩
    intro zero
    exact absurd (by simpa using zero) no_zero
  split
  · refine ⟨by simp [Text.isDigit],?_,by simp,by simp⟩
    intro d mem
    exact (mem_append.mp mem).elim isDigit_zeros (all d)
  · refine ⟨fun d mem => all d (mem_of_mem_take mem),fun d mem => all d (mem_of_mem_drop mem),by simp,?_⟩
    intro zero
    exact absurd (by simpa using zero) no_zero

theorem layout_value (some_digit : digits ≠ []) (point : ℤ) :
    (layout digits point).value = Text.decimal digits * 10 ^ (point - digits.length) := by
  unfold layout Numeral.value
  dsimp only
  split
  · next mem =>
    obtain ⟨zeros,count⟩ := Int.eq_ofNat_of_zero_le (sub_nonneg.mpr mem.1)
    rw [count]
    simp only [Int.toNat_natCast,append_nil,decimal_append,decimal_zeros,
      length_replicate,add_zero,getD_none,length_nil]
    push_cast
    rw [zpow_natCast]
    simp
  split
  · next mem =>
    obtain ⟨place,rfl⟩ := Int.eq_ofNat_of_zero_le mem.1.le
    simp only [Int.toNat_natCast,take_append_drop,getD_none,length_drop]
    congr 2
    omega
  split
  · next mem =>
    obtain ⟨zeros,count⟩ := Int.eq_ofNat_of_zero_le (neg_nonneg.mpr mem.2)
    rw [count]
    simp only [Int.toNat_natCast,getD_none,length_append,length_replicate]
    have leading : Text.decimal (['0'] ++ (replicate zeros '0' ++ digits)) = Text.decimal digits := by
      rw [decimal_append,decimal_append,decimal_zeros]
      have zero : Text.decimal ['0'] = 0 := rfl
      rw [zero,Nat.zero_mul,Nat.zero_mul,zero_add,zero_add]
    rw [leading]
    congr 2
    push_cast
    omega
  · obtain ⟨c,rest,rfl⟩ := exists_cons_of_ne_nil some_digit
    simp only [take_append_drop,getD_some,length_drop,length_cons,Nat.add_sub_cancel]
    congr 2
    push_cast
    ring

end Layout

section Shortest

/-- The unit of `size` significant digits. -/
def digitUnit (x : ℚ) (size : Nat) : ℤ := Int.log 10 x + 1 - size

/-- The decimal of so many digits that is rounded to a number, the closer where two are. -/
def digitsAt (x : ℚ) (size : Nat) : Option Nat :=
  let unit := (10 : ℚ) ^ digitUnit x size
  let low := ⌊x / unit⌋₊
  let fits := fun digits : Nat => Binary64.round (digits * unit) = .finite x
  let nearer := x - low * unit < (low + 1) * unit - x ∨ (x - low * unit = (low + 1) * unit - x ∧ low % 2 = 0)
  if fits low ∧ (nearer ∨ ¬ fits (low + 1)) then some low
  else if fits (low + 1) then some (low + 1)
  else none

/-- The fewest digits. Seventeen always do; the exact expansion stands in for the others. -/
def shortest (x : ℚ) : Nat → Nat → Nat × ℤ
  | 0, _ =>
    let exact := min 0 (Binary64.lastPlace x)
    ⟨⌊x / (10 : ℚ) ^ exact⌋₊,exact⟩
  | left + 1, size =>
    match digitsAt x size with
    | some digits => ⟨digits,digitUnit x size⟩
    | none => shortest x left (size + 1)

def stripZeros : Nat → Nat × ℤ → Nat × ℤ
  | 0, decimal => decimal
  | left + 1, decimal =>
    if decimal.1 % 10 = 0 then stripZeros left ⟨decimal.1 / 10,decimal.2 + 1⟩ else decimal

def positiveNumeral (x : ℚ) : Numeral :=
  let decimal := stripZeros 17 (shortest x 17 1)
  let digits := Text.numberText decimal.1
  layout digits (decimal.2 + digits.length)

/-- `String(x)` of a finite number. -/
def numberText (x : ℚ) : Text :=
  if x = 0 then ['0']
  else if x < 0 then '-' :: (positiveNumeral (-x)).text
  else (positiveNumeral x).text

def readNumber : Text → Option (Number × Text)
  | '-' :: text => (readNumeral text).map fun read => ⟨(Binary64.round read.1.value).neg,read.2⟩
  | text => (readNumeral text).map fun read => ⟨Binary64.round read.1.value,read.2⟩

variable {x : ℚ} {numeral : Numeral} {rest : Text}

def Reads (x : ℚ) (decimal : Nat × ℤ) : Prop :=
  Binary64.round (decimal.1 * (10 : ℚ) ^ decimal.2) = .finite x

theorem digitsAt_reads {size digits : Nat} (hit : digitsAt x size = some digits) :
    Reads x ⟨digits,digitUnit x size⟩ := by
  unfold digitsAt at hit
  dsimp only at hit
  split at hit
  case isTrue fits =>
    obtain rfl := some.inj hit
    exact fits.1
  case isFalse =>
    split at hit
    case isTrue fits =>
      obtain rfl := some.inj hit
      unfold Reads
      push_cast
      exact_mod_cast fits
    case isFalse => contradiction

theorem exact_reads (exact : Binary64.Exact x) (positive : 0 < x) :
    Reads x ⟨⌊x / (10 : ℚ) ^ min 0 (Binary64.lastPlace x)⌋₊,min 0 (Binary64.lastPlace x)⟩ := by
  obtain ⟨m,multiple⟩ := exact.eq_mul
  generalize Binary64.lastPlace x = place at multiple ⊢
  have whole : ∃ n : ℤ, x / (10 : ℚ) ^ min 0 place = n := by
    rcases le_total 0 place with large | small
    · obtain ⟨k,rfl⟩ := Int.eq_ofNat_of_zero_le large
      refine ⟨m * 2 ^ k,?_⟩
      rw [min_eq_left large,zpow_zero,div_one,multiple]
      push_cast
      rfl
    · obtain ⟨k,inverse⟩ := Int.eq_ofNat_of_zero_le (neg_nonneg.mpr small)
      obtain rfl : place = -(k : ℤ) := by omega
      have split : (10 : ℚ) ^ k = 2 ^ k * 5 ^ k := by rw [← mul_pow]; norm_num
      refine ⟨m * 5 ^ k,?_⟩
      rw [min_eq_right small,multiple,zpow_neg,zpow_neg,zpow_natCast,zpow_natCast,split]
      push_cast
      field_simp
  obtain ⟨n,quotient⟩ := whole
  have unit : (0 : ℚ) < 10 ^ min 0 place := zpow_pos (by norm_num) _
  have sign : 0 ≤ n := by
    have quotient_pos : 0 < x / (10 : ℚ) ^ min 0 place := div_pos positive unit
    rw [quotient] at quotient_pos
    exact_mod_cast quotient_pos.le
  obtain ⟨k,rfl⟩ := Int.eq_ofNat_of_zero_le sign
  have cast : x / (10 : ℚ) ^ min 0 place = (k : ℚ) := quotient
  unfold Reads
  dsimp only
  rw [cast,Nat.floor_natCast,← cast,div_mul_cancel₀ _ unit.ne']
  exact exact

theorem shortest_reads (exact : Binary64.Exact x) (positive : 0 < x) (left size : Nat) :
    Reads x (shortest x left size) := by
  induction left generalizing size with
  | zero => exact exact_reads exact positive
  | succ left ih =>
    change Reads x (match digitsAt x size with
      | some digits => ⟨digits,digitUnit x size⟩
      | none => shortest x left (size + 1))
    cases found : digitsAt x size with
    | none => exact ih (size + 1)
    | some digits => exact digitsAt_reads found

theorem stripZeros_value (left : Nat) (decimal : Nat × ℤ) :
    ((stripZeros left decimal).1 : ℚ) * 10 ^ (stripZeros left decimal).2 = decimal.1 * 10 ^ decimal.2 := by
  induction left generalizing decimal with
  | zero => rfl
  | succ left ih =>
    unfold stripZeros
    split
    case isTrue zero =>
      rw [ih,zpow_add₀ (by norm_num)]
      have tens : ((decimal.1 / 10 : Nat) : ℚ) * 10 = decimal.1 := by
        exact_mod_cast Nat.div_mul_cancel (Nat.dvd_of_mod_eq_zero zero)
      rw [← tens]
      push_cast
      ring
    case isFalse => rfl

theorem numberText_head {n : Nat} (positive : 0 < n) : (Text.numberText n).head? ≠ some '0' := by
  induction n using Nat.strong_induction_on with
  | _ n ih =>
    unfold Text.numberText at ih ⊢
    rcases lt_or_ge n 10 with small | large
    · rw [Nat.toDigits_of_lt_base small]
      interval_cases n <;> simp [Nat.digitChar] at positive ⊢
    · rw [Nat.toDigits_of_base_le (by norm_num) large]
      obtain ⟨c,digits,starts⟩ := exists_cons_of_ne_nil (@Nat.toDigits_ne_nil (n / 10) 10)
      have higher := ih (n / 10) (by omega) (by omega)
      rw [starts] at higher ⊢
      exact higher

theorem positiveNumeral_spec (exact : Binary64.Exact x) (positive : 0 < x) :
    (positiveNumeral x).Valid ∧ Binary64.round (positiveNumeral x).value = .finite x := by
  have reads := shortest_reads exact positive 17 1
  unfold Reads at reads
  rw [← stripZeros_value 17] at reads
  have nonzero : 0 < (stripZeros 17 (shortest x 17 1)).1 := by
    apply pos_of_ne_zero
    intro zero
    rw [zero,Nat.cast_zero,zero_mul] at reads
    have same := Number.finite.inj (Binary64.exact_zero.symm.trans reads)
    exact positive.ne same
  unfold positiveNumeral
  constructor
  · exact layout_valid (fun c mem => Text.isDigit_of_mem_numberText mem)
      (Text.numberText_ne_nil _) (numberText_head nonzero) _
  · dsimp only
    rw [layout_value (Text.numberText_ne_nil _),Text.decimal_numberText,add_sub_cancel_right]
    exact reads

theorem readNumber_text (valid : numeral.Valid) (ends : Ends rest) :
    readNumber (numeral.text ++ rest) = some ⟨Binary64.round numeral.value,rest⟩ := by
  obtain ⟨c,digits,starts⟩ := exists_cons_of_ne_nil valid.some_digit
  have digit : Text.isDigit c = true := valid.whole c (by simp [starts])
  have unsigned : readNumber (numeral.text ++ rest) = (readNumeral (numeral.text ++ rest)).map fun read =>
        ⟨Binary64.round read.1.value,read.2⟩ := by
    apply readNumber.eq_2
    intro t same
    rw [Numeral.text,starts] at same
    rw [(cons.inj same).1] at digit
    contradiction
  rw [unsigned,readNumeral_text valid ends]
  rfl

theorem readNumber_numberText (exact : Binary64.Exact x) (ends : Ends rest) :
    readNumber (numberText x ++ rest) = some ⟨.finite x,rest⟩ := by
  unfold numberText
  split
  case isTrue zero =>
    subst zero
    have valid : (⟨['0'],[],none⟩ : Numeral).Valid := ⟨by simp [Text.isDigit],by simp,by simp,by simp⟩
    have v : (⟨['0'],[],none⟩ : Numeral).value = 0 := by simp [Numeral.value,Text.decimal]
    have read := readNumber_text valid ends
    rw [v,Binary64.exact_zero] at read
    exact read
  case isFalse nonzero =>
    split
    case isTrue negative =>
      obtain ⟨valid,reads⟩ := positiveNumeral_spec exact.neg (neg_pos.mpr negative)
      rw [cons_append,readNumber,readNumeral_text valid ends,map_some]
      simp only [reads,Number.neg,neg_neg]
    case isFalse nonneg =>
      have positive : 0 < x := lt_of_le_of_ne (not_lt.mp nonneg) (Ne.symm nonzero)
      obtain ⟨valid,reads⟩ := positiveNumeral_spec exact positive
      rw [readNumber_text valid ends,reads]

def isNumberChar (c : Char) : Bool := Text.isDigit c || c ∈ ['-','+','.','e']

theorem Numeral.Valid.isNumberChar_text (valid : numeral.Valid) {c : Char}
    (mem : c ∈ numeral.text) : isNumberChar c = true := by
  have digits : ∀ {d : Char}, Text.isDigit d = true → isNumberChar d = true := by
    intro d digit
    simp [isNumberChar,digit]
  unfold Numeral.text at mem
  rcases mem_append.mp mem with whole | after
  · exact digits (valid.whole c whole)
  rcases mem_append.mp after with fraction | exponent
  · split at fraction
    · cases fraction
    · rcases mem_cons.mp fraction with rfl | digit
      · rfl
      · exact digits (valid.fraction c digit)
  · cases power : numeral.exponent with
    | none => simp [power,exponentText] at exponent
    | some power' =>
      rw [power] at exponent
      rcases mem_cons.mp exponent with rfl | post
      · rfl
      rcases mem_cons.mp post with rfl | digit
      · split <;> rfl
      · exact digits (Text.isDigit_of_mem_numberText digit)

theorem numberText_shape (exact : Binary64.Exact x) : (∀ c ∈ numberText x, isNumberChar c = true) ∧
      ∃ c rest, numberText x = c :: rest ∧ (c = '-' ∨ Text.isDigit c = true) := by
  have starts : ∀ {numeral : Numeral}, numeral.Valid → ∃ c rest, numeral.text = c :: rest ∧ Text.isDigit c = true := by
    intro numeral valid
    obtain ⟨c,digits,whole⟩ := exists_cons_of_ne_nil valid.some_digit
    exact ⟨c,_,by rw [Numeral.text,whole]; rfl,valid.whole c (by simp [whole])⟩
  unfold numberText
  split
  case isTrue zero => exact ⟨by simp [isNumberChar,Text.isDigit],'0',[],rfl,.inr rfl⟩
  case isFalse nonzero =>
    split
    case isTrue negative =>
      obtain ⟨valid,_⟩ := positiveNumeral_spec exact.neg (neg_pos.mpr negative)
      refine ⟨?_,'-',_,rfl,.inl rfl⟩
      intro c mem
      rcases mem_cons.mp mem with rfl | post
      · rfl
      · exact valid.isNumberChar_text post
    case isFalse nonneg =>
      have positive : 0 < x := lt_of_le_of_ne (not_lt.mp nonneg) (Ne.symm nonzero)
      obtain ⟨valid,_⟩ := positiveNumeral_spec exact positive
      obtain ⟨c,rest,split,digit⟩ := starts valid
      exact ⟨fun c mem => valid.isNumberChar_text mem,c,rest,split,.inr digit⟩

end Shortest

end Keiko.Library.Decimal
