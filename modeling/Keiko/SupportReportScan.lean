import Keiko.SupportReportCanonical

/-! The scan of a support report and the reader. On a written value the scan charges what the
writer charged and refuses the same shapes, so the texts that the reader accepts are exactly
the canonical texts of the values that the writer accepts. -/
namespace Keiko.SupportReport
open Keiko.Library List Option Json

section Steps

variable {scan : JsonShapeScan}

def bump : List (Nat × Nat) → List (Nat × Nat)
  | [] => []
  | (entries,limit) :: frames => (entries + 1,limit) :: frames

theorem bump_cons (es limit : Nat) (frames : List (Nat × Nat)) :
    bump ((es,limit) :: frames) = (es + 1,limit) :: frames := rfl

@[simp] theorem bump_length (frames : List (Nat × Nat)) : (bump frames).length = frames.length := by
  rcases frames with _ | ⟨⟨es,limit⟩,frames⟩ <;> rfl

def Room (frames : List (Nat × Nat)) : Prop := ∀ frame ∈ frames.head?, frame.1 < frame.2

theorem value_eq_ok {container : Bool} {res : JsonShapeScan} : scan.value container = .ok res ↔
      Room scan.frames ∧ (scan.budget.plus (.one container)).Within ∧
        res = ⟨bump scan.frames,scan.budget.plus (.one container)⟩ := by
  obtain ⟨frames,n⟩ := scan
  unfold JsonShapeScan.value
  rw [bind_eq_ok]
  simp only [charge_eq_ok]
  rcases frames with _ | ⟨⟨es,limit⟩,frames⟩
  · constructor
    · intro hit
      obtain ⟨_,⟨within,rfl⟩,same⟩ := hit
      exact ⟨by simp [Room],within,(pure_eq_ok.mp same).symm⟩
    · intro accepted
      obtain ⟨_,within,rfl⟩ := accepted
      exact ⟨_,⟨within,rfl⟩,rfl⟩
  · constructor
    · intro hit
      obtain ⟨_,⟨within,rfl⟩,same⟩ := hit
      dsimp only at same
      split at same
      · cases same
      · next few =>
        refine ⟨?_,within,(pure_eq_ok.mp same).symm⟩
        intro frame first
        obtain rfl := some.inj first
        exact Nat.lt_of_succ_le (Nat.le_of_not_lt few)
    · intro accepted
      obtain ⟨room,within,rfl⟩ := accepted
      have few : ¬ limit < es + 1 := Nat.not_lt.mpr (Nat.succ_le_of_lt (room (es,limit) rfl))
      refine ⟨_,⟨within,rfl⟩,?_⟩
      dsimp only
      rw [if_neg few]
      rfl

def containerLimit (object : Bool) : Nat :=
  if object then 2 * maxSupportReportObjectKeys else maxSupportReportRecords

theorem openContainer_eq_ok {object : Bool} {res : JsonShapeScan} : scan.openContainer object = .ok res ↔
      Room scan.frames ∧ (scan.budget.plus (.one true)).Within ∧ scan.frames.length < maxSupportReportDepth ∧
          res = ⟨(0,containerLimit object) :: bump scan.frames,scan.budget.plus (.one true)⟩ := by
  unfold JsonShapeScan.openContainer
  rw [bind_eq_ok]
  simp only [value_eq_ok]
  constructor
  · intro hit
    obtain ⟨_,⟨room,within,rfl⟩,same⟩ := hit
    split at same
    · cases same
    · next shallow =>
      rw [bump_length] at shallow
      exact ⟨room,within,Nat.lt_of_not_le shallow,(pure_eq_ok.mp same).symm⟩
  · intro accepted
    obtain ⟨room,within,shallow,rfl⟩ := accepted
    refine ⟨_,⟨room,within,rfl⟩,?_⟩
    rw [bump_length,if_neg (Nat.not_le.mpr shallow)]
    rfl

end Steps

section Characters

variable (scan : JsonShapeScan) (rest : Text)

theorem stringEnd_mark (text : Text) : stringEnd (Json.quotationMark :: text) = text := by
  rw [stringEnd.eq_def]
  exact if_pos rfl

theorem stringEnd_escaped (c : Char) (text : Text) : stringEnd (Json.backslash :: c :: text) = stringEnd text := by
  rw [stringEnd.eq_def]
  rfl

theorem stringEnd_plain {c : Char} (text : Text) (plain : c ≠ Json.quotationMark ∧ c ≠ Json.backslash) :
    stringEnd (c :: text) = stringEnd text := by
  rw [stringEnd.eq_def]
  dsimp only
  rw [if_neg plain.1,if_neg plain.2]

theorem stringEnd_escapeChar (c : Char) (text : Text) : stringEnd (Json.escapeChar c ++ text) = stringEnd text := by
  unfold escapeChar
  cases found : shortEscapes.find? fun escape => escape.1 = c with
  | some escape => exact stringEnd_escaped escape.2 text
  | none =>
    have special : c ≠ quotationMark ∧ c ≠ backslash := by
      constructor
      · intro same
        subst same
        contradiction
      · intro same
        subst same
        contradiction
    dsimp only
    split
    case isTrue control =>
      have ds : ∀ n < 0x20, (Nat.digitChar (n / 16) ≠ quotationMark ∧
          Nat.digitChar (n / 16) ≠ backslash) ∧ Nat.digitChar (n % 16) ≠ quotationMark ∧
            Nat.digitChar (n % 16) ≠ backslash := by decide
      obtain ⟨high,low⟩ := ds c.toNat control
      have zero : '0' ≠ quotationMark ∧ '0' ≠ backslash := by decide
      simp only [cons_append,nil_append]
      rw [stringEnd_escaped,stringEnd_plain _ zero,stringEnd_plain _ zero,stringEnd_plain _ high,stringEnd_plain _ low]
    case isFalse => exact stringEnd_plain text special

theorem scanShape_quote (text : Text) : scanShape scan (Json.quote text ++ rest) =
      scan.value false >>= fun scan => scanShape scan rest := by
  have ended : stringEnd (text.flatMap escapeChar ++ quotationMark :: rest) = rest := by
    induction text with
    | nil => rw [flatMap_nil,nil_append,stringEnd_mark]
    | cons c text ih => rw [flatMap_cons,append_assoc,stringEnd_escapeChar,ih]
  rw [quote,cons_append,append_assoc,singleton_append,scanShape,if_pos rfl,ended]

def StopsScalar (rest : Text) : Prop := ∀ c ∈ rest.head?, endsScalar c = true

theorem scanShape_scalar {c : Char} {text : Text} (starts : isScalarStart c = true)
    (inside : ∀ d ∈ text, endsScalar d = false) (stops : StopsScalar rest) :
    scanShape scan (c :: (text ++ rest)) = scan.value false >>= fun scan => scanShape scan rest := by
  have ended : scalarEnd (text ++ rest) = rest := by
    unfold scalarEnd
    rw [dropWhile_append_of_pos fun d mem => by simp [inside d mem]]
    cases rest with
    | nil => rfl
    | cons d rest => exact dropWhile_cons_of_neg (by simp [stops d rfl])
  have other : c ≠ quotationMark ∧ ¬ (c = '\x7b' ∨ c = '[') ∧ ¬ (c = '\x7d' ∨ c = ']') := by
    refine ⟨?_,?_,?_⟩
    · intro same
      subst same
      cases starts
    · intro same
      rcases same with rfl | rfl <;> cases starts
    · intro same
      rcases same with rfl | rfl <;> cases starts
  rw [scanShape,if_neg other.1,if_neg other.2.1,if_neg other.2.2,if_pos starts,ended]

theorem scanShape_comma : scanShape scan (',' :: rest) = scanShape scan rest := by
  rw [scanShape,if_neg (by decide),if_neg (by decide),if_neg (by decide),if_neg (by decide)]

theorem scanShape_colon : scanShape scan (':' :: rest) = scanShape scan rest := by
  rw [scanShape,if_neg (by decide),if_neg (by decide),if_neg (by decide),if_neg (by decide)]

theorem scanShape_closeArray : scanShape scan (']' :: rest) = scanShape scan.closeContainer rest := by
  rw [scanShape,if_neg (by decide),if_neg (by decide),if_pos (by decide)]

theorem scanShape_closeObject : scanShape scan ('\x7d' :: rest) = scanShape scan.closeContainer rest := by
  rw [scanShape,if_neg (by decide),if_neg (by decide),if_pos (by decide)]

theorem scanShape_openArray : scanShape scan ('[' :: rest) =
    scan.openContainer false >>= fun scan => scanShape scan rest := by
  rw [scanShape,if_neg (by decide),if_pos (by decide)]
  rfl

theorem scanShape_openObject : scanShape scan ('\x7b' :: rest) =
    scan.openContainer true >>= fun scan => scanShape scan rest := by
  rw [scanShape,if_neg (by decide),if_pos (by decide)]
  rfl

end Characters

section Values

open JsonShapeBudget

variable {scan res : JsonShapeScan} {rest : Text} {c : Char}

theorem bind_value_eq_ok {container : Bool} :
    (scan.value container >>= fun scan => scanShape scan rest) = .ok res ↔
      Room scan.frames ∧ (scan.budget.plus (one container)).Within ∧
        scanShape ⟨bump scan.frames,scan.budget.plus (one container)⟩ rest = .ok res := by
  rw [bind_eq_ok]
  simp only [value_eq_ok]
  constructor
  · intro hit
    obtain ⟨_,⟨room,within,rfl⟩,post⟩ := hit
    exact ⟨room,within,post⟩
  · intro accepted
    obtain ⟨room,within,post⟩ := accepted
    exact ⟨_,⟨room,within,rfl⟩,post⟩

theorem bind_openContainer_eq_ok {object : Bool} :
    (scan.openContainer object >>= fun scan => scanShape scan rest) = .ok res ↔
      Room scan.frames ∧ (scan.budget.plus (one true)).Within ∧ scan.frames.length < maxSupportReportDepth ∧
          scanShape ⟨(0,containerLimit object) :: bump scan.frames,scan.budget.plus (one true)⟩ rest = .ok res := by
  rw [bind_eq_ok]
  simp only [openContainer_eq_ok]
  constructor
  · intro hit
    obtain ⟨_,⟨room,within,shallow,rfl⟩,post⟩ := hit
    exact ⟨room,within,shallow,post⟩
  · intro accepted
    obtain ⟨room,within,shallow,post⟩ := accepted
    exact ⟨_,⟨room,within,shallow,rfl⟩,post⟩

theorem room_cons {es limit : Nat} {frames : List (Nat × Nat)} :
    Room ((es,limit) :: frames) ↔ es < limit := by
  simp [Room]

theorem stopsScalar_laterItems (xs : List Json) (rest : Text) : StopsScalar (Json.laterItems xs ++ rest) := by
  intro c first
  cases xs <;>
    · obtain rfl := some.inj first
      rfl

theorem stopsScalar_laterFields (fs : List (Text × Json)) (rest : Text) :
    StopsScalar (Json.laterFields fs ++ rest) := by
  intro c first
  cases fs <;>
    · obtain rfl := some.inj first
      rfl

theorem isScalarStart_number (starts : c = '-' ∨ Text.isDigit c = true) : isScalarStart c = true := by
  unfold isScalarStart
  rcases starts with rfl | digit
  · rfl
  · simp [digit]

theorem endsScalar_number (mem : Decimal.isNumberChar c = true) : endsScalar c = false := by
  simp only [Decimal.isNumberChar,Bool.or_eq_true,decide_eq_true_eq] at mem
  rcases mem with digit | sign
  · simp only [Text.isDigit,Bool.and_eq_true,decide_eq_true_eq,Char.le_def,UInt32.le_iff_toNat_le] at digit
    have low : 48 ≤ c.toNat := digit.1
    have high : c.toNat ≤ 57 := digit.2
    have other : ∀ d : Char, ¬ (48 ≤ d.toNat ∧ d.toNat ≤ 57) → c ≠ d := by
      intro d outside same
      exact outside (same ▸ ⟨low,high⟩)
    simp [endsScalar,other ',' (by decide),other '\x7d' (by decide),other ']' (by decide)]
    omega
  · simp only [mem_cons,not_mem_nil,or_false] at sign
    rcases sign with rfl | rfl | rfl | rfl <;> rfl

theorem scanShape_number (scan : JsonShapeScan) {x : ℚ} (exact : Binary64.Exact x)
    (stops : StopsScalar rest) : scanShape scan (Decimal.numberText x ++ rest) =
      scan.value false >>= fun scan => scanShape scan rest := by
  obtain ⟨inside,c,text,written,starts⟩ := Decimal.numberText_shape exact
  rw [written,cons_append]
  apply scanShape_scalar _ _ (isScalarStart_number starts) _ stops
  intro d mem
  exact endsScalar_number (inside d (by rw [written]; simp [mem]))

mutual

theorem scanShape_stringify : ∀ (value : Json) (frames : List (Nat × Nat))
    (n : JsonShapeBudget) (rest : Text) (res : JsonShapeScan), Json.Plain value →
    StopsScalar rest → (scanShape ⟨frames,n⟩ (Json.stringify value ++ rest) = .ok res ↔
        Room frames ∧ Shaped frames.length value ∧ (n.plus (cost value)).Within ∧
          scanShape ⟨bump frames,n.plus (cost value)⟩ rest = .ok res)
  | .null, frames, n, rest, res, _, stops => by
    rw [Json.stringify,List.cons_append,scanShape_scalar _ _ rfl (fun _ => Text.of_all (endsScalar · = false) (by decide)) stops,
      bind_value_eq_ok]
    exact and_congr_right fun _ => (iff_of_eq (true_and _)).symm
  | .bool true, frames, n, rest, res, _, stops => by
    rw [Json.stringify,List.cons_append,scanShape_scalar _ _ rfl (fun _ => Text.of_all (endsScalar · = false) (by decide)) stops,
      bind_value_eq_ok]
    exact and_congr_right fun _ => (iff_of_eq (true_and _)).symm
  | .bool false, frames, n, rest, res, _, stops => by
    rw [Json.stringify,List.cons_append,scanShape_scalar _ _ rfl (fun _ => Text.of_all (endsScalar · = false) (by decide)) stops,
      bind_value_eq_ok]
    exact and_congr_right fun _ => (iff_of_eq (true_and _)).symm
  | .string text, frames, n, rest, res, _, _ => by
    rw [Json.stringify,scanShape_quote,bind_value_eq_ok]
    exact and_congr_right fun _ => (iff_of_eq (true_and _)).symm
  | .number value, frames, n, rest, res, plain, stops => by
    obtain ⟨x,rfl,exact⟩ := plain
    rw [stringify,numberText,scanShape_number _ exact stops,bind_value_eq_ok]
    exact and_congr_right fun _ => (iff_of_eq (true_and _)).symm
  | .array [], frames, n, rest, res, _, _ => by
    rw [stringify,cons_append,singleton_append,scanShape_openArray,bind_openContainer_eq_ok,scanShape_closeArray]
    constructor
    · intro hit
      obtain ⟨room,within,shallow,post⟩ := hit
      exact ⟨room,⟨shallow,Nat.zero_le _,trivial⟩,within,post⟩
    · intro accepted
      obtain ⟨room,⟨shallow,_⟩,within,post⟩ := accepted
      exact ⟨room,within,shallow,post⟩
  | .array (item :: xs), frames, n, rest, res, plain, _ => by
    have a := fun n => scanShape_stringify item ((0,containerLimit false) :: bump frames)
      n (laterItems xs ++ rest) res plain.1 (stopsScalar_laterItems xs rest)
    have start : 0 + 1 ≤ containerLimit false := by decide
    rw [stringify,cons_append,append_assoc,scanShape_openArray,bind_openContainer_eq_ok]
    simp only [a,room_cons,length_cons,bump_length,bump_cons]
    constructor
    · intro hit
      obtain ⟨room,_,shallow,_,shaped,within,post⟩ := hit
      rw [scanShape_laterItems xs _ _ _ _ _ _ plain.2 start within] at post
      obtain ⟨few,shapedLater,whole,post⟩ := post
      rw [bump_length] at shapedLater
      rw [plus_assoc,plus_assoc] at whole post
      refine ⟨room,⟨shallow,?_,shaped,shapedLater⟩,whole,post⟩
      rw [length_cons,add_comm]
      exact zero_add 1 ▸ few
    · intro accepted
      obtain ⟨room,⟨shallow,few,shaped,shapedLater⟩,whole,post⟩ := accepted
      rw [length_cons,add_comm] at few
      rw [cost,itemsCost,← plus_assoc,← plus_assoc] at whole post
      refine ⟨room,whole.left.left,shallow,start,shaped,whole.left,?_⟩
      rw [scanShape_laterItems xs _ _ _ _ _ _ plain.2 start whole.left,bump_length]
      exact ⟨(zero_add 1).symm ▸ few,shapedLater,whole,post⟩
  | .object [], frames, n, rest, res, _, _ => by
    rw [stringify,cons_append,singleton_append,scanShape_openObject,bind_openContainer_eq_ok,scanShape_closeObject]
    constructor
    · intro hit
      obtain ⟨room,within,shallow,post⟩ := hit
      exact ⟨room,⟨shallow,Nat.zero_le _,trivial⟩,within,post⟩
    · intro accepted
      obtain ⟨room,⟨shallow,_⟩,within,post⟩ := accepted
      exact ⟨room,within,shallow,post⟩
  | .object ((key,value) :: fs), frames, n, rest, res, plain, _ => by
    have a := fun frames n => scanShape_stringify value frames
      n (laterFields fs ++ rest) res plain.2.1 (stopsScalar_laterFields fs rest)
    have start : 0 + 1 + 1 ≤ containerLimit true := by decide
    rw [stringify,cons_append,append_assoc,cons_append,append_assoc,scanShape_openObject,bind_openContainer_eq_ok]
    simp only [scanShape_quote,bind_value_eq_ok,scanShape_colon,a,room_cons,length_cons,bump_length,bump_cons]
    constructor
    · intro hit
      obtain ⟨room,_,shallow,_,_,_,shaped,within,post⟩ := hit
      rw [scanShape_laterFields fs _ _ _ _ _ _ plain.2.2 start within] at post
      obtain ⟨few,shapedLater,whole,post⟩ := post
      rw [bump_length] at shapedLater
      rw [plus_assoc,plus_assoc,plus_assoc] at whole post
      refine ⟨room,⟨shallow,?_,shaped,shapedLater⟩,whole,post⟩
      rw [length_cons]
      have limit : containerLimit true = 2 * maxSupportReportObjectKeys := rfl
      omega
    · intro accepted
      obtain ⟨room,⟨shallow,few,shaped,shapedLater⟩,whole,post⟩ := accepted
      rw [length_cons] at few
      rw [cost,fieldsCost,← plus_assoc,← plus_assoc,← plus_assoc] at whole post
      refine ⟨room,whole.left.left.left,shallow,by decide,whole.left.left,by decide,shaped,whole.left,?_⟩
      rw [scanShape_laterFields fs _ _ _ _ _ _ plain.2.2 start whole.left,bump_length]
      have limit : containerLimit true = 2 * maxSupportReportObjectKeys := rfl
      exact ⟨by omega,shapedLater,whole,post⟩

theorem scanShape_laterItems : ∀ (xs : List Json) (es limit : Nat)
    (frames : List (Nat × Nat)) (n : JsonShapeBudget) (rest : Text) (res : JsonShapeScan),
    Json.PlainItems xs → es ≤ limit → n.Within →
      (scanShape ⟨(es,limit) :: frames,n⟩ (Json.laterItems xs ++ rest) = .ok res ↔
        es + xs.length ≤ limit ∧ ShapedItems (frames.length + 1) xs ∧
          (n.plus (itemsCost xs)).Within ∧ scanShape ⟨frames,n.plus (itemsCost xs)⟩ rest = .ok res)
  | [], es, limit, frames, n, rest, res, _, fits, within => by
    rw [Json.laterItems,List.singleton_append,scanShape_closeArray]
    simp only [List.length_nil,Nat.add_zero,fits,ShapedItems,true_and]
    exact (and_iff_right within).symm
  | item :: xs, es, limit, frames, n, rest, res, plain, fits, within => by
    rw [Json.laterItems,List.cons_append,List.append_assoc,scanShape_comma,
      scanShape_stringify item _ _ _ _ plain.1 (stopsScalar_laterItems xs rest),room_cons]
    constructor
    · intro hit
      obtain ⟨room,shaped,within,post⟩ := hit
      rw [bump_cons,scanShape_laterItems xs _ _ _ _ _ _ plain.2 room within] at post
      obtain ⟨few,shapedLater,whole,post⟩ := post
      rw [plus_assoc] at whole post
      refine ⟨?_,⟨shaped,shapedLater⟩,whole,post⟩
      rw [length_cons]
      omega
    · intro accepted
      obtain ⟨few,⟨shaped,shapedLater⟩,whole,post⟩ := accepted
      rw [length_cons] at few
      rw [itemsCost,← plus_assoc] at whole post
      refine ⟨by omega,shaped,whole.left,?_⟩
      rw [bump_cons,scanShape_laterItems xs _ _ _ _ _ _ plain.2 (by omega) whole.left]
      exact ⟨by omega,shapedLater,whole,post⟩

theorem scanShape_laterFields : ∀ (fs : List (Text × Json)) (es limit : Nat)
    (frames : List (Nat × Nat)) (n : JsonShapeBudget) (rest : Text) (res : JsonShapeScan),
    Json.PlainFields fs → es ≤ limit → n.Within →
      (scanShape ⟨(es,limit) :: frames,n⟩ (Json.laterFields fs ++ rest) = .ok res ↔
        es + 2 * fs.length ≤ limit ∧ ShapedFields (frames.length + 1) fs ∧
          (n.plus (fieldsCost fs)).Within ∧
            scanShape ⟨frames,n.plus (fieldsCost fs)⟩ rest = .ok res)
  | [], es, limit, frames, n, rest, res, _, fits, within => by
    rw [Json.laterFields,List.singleton_append,scanShape_closeObject]
    simp only [List.length_nil,Nat.mul_zero,Nat.add_zero,fits,ShapedFields,true_and]
    exact (and_iff_right within).symm
  | (key,value) :: fs, es, limit, frames, n, rest, res, plain, fits, within => by
    have a := fun frames n => scanShape_stringify value frames
      n (laterFields fs ++ rest) res plain.1 (stopsScalar_laterFields fs rest)
    rw [laterFields,cons_append,append_assoc,cons_append,append_assoc,scanShape_comma]
    simp only [scanShape_quote,bind_value_eq_ok,scanShape_colon,a,room_cons,length_cons,bump_cons]
    constructor
    · intro hit
      obtain ⟨_,_,room,shaped,within,post⟩ := hit
      rw [scanShape_laterFields fs _ _ _ _ _ _ plain.2 room within] at post
      obtain ⟨few,shapedLater,whole,post⟩ := post
      rw [plus_assoc,plus_assoc] at whole post
      exact ⟨by omega,⟨shaped,shapedLater⟩,whole,post⟩
    · intro accepted
      obtain ⟨few,⟨shaped,shapedLater⟩,whole,post⟩ := accepted
      rw [fieldsCost,← plus_assoc,← plus_assoc] at whole post
      refine ⟨by omega,whole.left.left,by omega,shaped,whole.left,?_⟩
      rw [scanShape_laterFields fs _ _ _ _ _ _ plain.2 (by omega) whole.left]
      exact ⟨by omega,shapedLater,whole,post⟩

end

end Values

section Reader

theorem cost_within {value : Json} : ((⟨0,0⟩ : JsonShapeBudget).plus (cost value)).Within ↔ (cost value).Within := by
  have same : (⟨0,0⟩ : JsonShapeBudget).plus (cost value) = cost value := by
    ext
    · exact zero_add _
    · exact zero_add _
  rw [same]

theorem canonicalSupportJson_eq_ok {value : Json} {text : Text} : canonicalSupportJson value = .ok text ↔
      (Shaped 0 value ∧ Safe value) ∧ (cost value).Within ∧ text = Json.stringify (canonical value) := by
  unfold canonicalSupportJson
  rw [bind_eq_ok]
  simp only [canonicalValue_copies value 0 ⟨0,0⟩,cost_within,Prod.exists]
  constructor
  · intro hit
    obtain ⟨_,_,⟨admitted,within,same⟩,written⟩ := hit
    cases same
    exact ⟨admitted,within,(pure_eq_ok.mp written).symm⟩
  · intro accepted
    obtain ⟨admitted,within,rfl⟩ := accepted
    exact ⟨_,_,⟨admitted,within,rfl⟩,rfl⟩

theorem checkJsonShape_stringify {value : Json} (plain : Json.Plain value) :
    checkJsonShape (Json.stringify value) = .ok () ↔ Shaped 0 value ∧ (cost value).Within := by
  have scanned := fun res => scanShape_stringify value [] ⟨0,0⟩ [] res plain fun c first => by cases first
  simp only [append_nil,cost_within] at scanned
  unfold checkJsonShape
  rw [bind_eq_ok]
  simp only [scanned]
  constructor
  · intro hit
    obtain ⟨_,⟨_,shaped,within,_⟩,_⟩ := hit
    exact ⟨shaped,within⟩
  · intro accepted
    obtain ⟨shaped,within⟩ := accepted
    exact ⟨_,⟨by simp [Room],shaped,within,by rw [scanShape]⟩,rfl⟩

mutual

theorem plain_of_safe : ∀ value : Json, Json.Held value → Safe value → Json.Plain value
  | .null, _, _ => trivial
  | .bool _, _, _ => trivial
  | .string _, _, _ => trivial
  | .number (.finite x), held, _ => ⟨x,rfl,held x rfl⟩
  | .number .infinity, _, safe => by cases safe
  | .number .negInfinity, _, safe => by cases safe
  | .number .nan, _, safe => by cases safe
  | .array xs, held, safe => plainItems_of_safe xs held safe
  | .object fs, held, safe => ⟨held.1,plainFields_of_safe fs held.2 safe⟩

theorem plainItems_of_safe : ∀ xs : List Json, Json.OverItems Json.HeldNumber xs →
    SafeItems xs → Json.PlainItems xs
  | [], _, _ => trivial
  | item :: xs, held, safe =>
    ⟨plain_of_safe item held.1 safe.1,plainItems_of_safe xs held.2 safe.2⟩

theorem plainFields_of_safe : ∀ fs : List (Text × Json),
    Json.OverFields Json.HeldNumber fs → SafeFields fs → Json.PlainFields fs
  | [], _, _ => trivial
  | (_,value) :: fs, held, safe =>
    ⟨plain_of_safe value held.1 safe.1.2,plainFields_of_safe fs held.2 safe.2⟩

end

variable {value : Json} {text : Text} {maxBytes : Nat}

theorem parseCanonicalSupportJson_canonical (held : Json.Held value)
    (written : canonicalSupportJson value = .ok text) (short : Text.byteLength text ≤ maxBytes) :
    parseCanonicalSupportJson text maxBytes = .ok (canonical value) := by
  obtain ⟨⟨shaped,safe⟩,within,rfl⟩ := canonicalSupportJson_eq_ok.mp written
  have copy := canonical_spec value (plain_of_safe value held safe)
  have scanned : checkJsonShape (stringify (canonical value)) = .ok () := by
    rw [checkJsonShape_stringify copy.plain,copy.shaped,copy.cost]
    exact ⟨shaped,within⟩
  have again : canonicalSupportJson (canonical value) = .ok (stringify (canonical value)) := by
    rw [canonicalSupportJson_eq_ok,copy.shaped,copy.safe,copy.cost,copy.again]
    exact ⟨⟨shaped,safe⟩,within,rfl⟩
  have units := le_trans (Text.utf16Length_le_byteLength _) short
  have fits : ¬ (maxBytes < Text.utf16Length (stringify (canonical value)) ∨
      maxBytes < Text.byteLength (stringify (canonical value))) := by omega
  unfold parseCanonicalSupportJson
  rw [if_neg fits]
  refine bind_eq_ok.mpr ⟨(),scanned,?_⟩
  rw [parse_stringify copy.plain]
  refine bind_eq_ok.mpr ⟨_,again,?_⟩
  rw [if_neg (by simp)]
  rfl

theorem canonicalSupportJson_parsed (accepted : parseCanonicalSupportJson text maxBytes = .ok value) :
    Json.Held value ∧ canonicalSupportJson value = .ok text ∧ Text.byteLength text ≤ maxBytes := by
  unfold parseCanonicalSupportJson at accepted
  split at accepted
  · cases accepted
  · next short =>
    obtain ⟨_,_,accepted⟩ := bind_eq_ok.mp accepted
    split at accepted
    · cases accepted
    · next parsed hit =>
      obtain ⟨written,rewritten,accepted⟩ := bind_eq_ok.mp accepted
      split at accepted
      · cases accepted
      · next same =>
        cases pure_eq_ok.mp accepted
        rw [not_not] at same
        exact ⟨held_parse hit,same ▸ rewritten,by omega⟩

/-- The reader accepts exactly the canonical texts within its limit and returns the value they
were written from; the scan refuses what exceeds the budget of the writer and nothing else. -/
theorem parseCanonicalSupportJson_exact (text : Text) (maxBytes : Nat) :
    ((∃ value, parseCanonicalSupportJson text maxBytes = .ok value) ↔
      ∃ value, Json.Held value ∧ canonicalSupportJson value = .ok text ∧
        Text.byteLength text ≤ maxBytes) ∧
    (∀ value returned, Json.Held value → canonicalSupportJson value = .ok text →
      parseCanonicalSupportJson text maxBytes = .ok returned → Json.Same value returned) ∧
    ∀ value, Json.Held value → Safe value →
      ((∃ written, canonicalSupportJson value = .ok written) ↔
        checkJsonShape (Json.stringify value) = .ok ()) := by
  refine ⟨⟨?_,?_⟩,?_,?_⟩
  · intro accepted
    obtain ⟨value,accepted⟩ := accepted
    exact ⟨value,canonicalSupportJson_parsed accepted⟩
  · intro written
    obtain ⟨value,held,written,short⟩ := written
    exact ⟨canonical value,parseCanonicalSupportJson_canonical held written short⟩
  · intro value returned held written accepted
    obtain ⟨_,_,short⟩ := canonicalSupportJson_parsed accepted
    have same := parseCanonicalSupportJson_canonical held written short
    obtain ⟨⟨_,safe⟩,_⟩ := canonicalSupportJson_eq_ok.mp written
    rw [accepted] at same
    rw [Except.ok.inj same]
    exact (canonical_spec value (plain_of_safe value held safe)).same
  · intro value held safe
    rw [checkJsonShape_stringify (plain_of_safe value held safe)]
    simp only [canonicalSupportJson_eq_ok]
    constructor
    · intro written
      obtain ⟨_,⟨shaped,_⟩,within,_⟩ := written
      exact ⟨shaped,within⟩
    · intro accepted
      exact ⟨_,⟨accepted.1,safe⟩,accepted.2,rfl⟩

end Reader

end Keiko.SupportReport
