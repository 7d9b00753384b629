import Keiko.Library.Distinct
import Keiko.Library.UnitDecimal

/-! The ids of the tool calls in one answer of a provider. A usable id stays where it comes first;
every other call gets an id of the same shape that no call of the answer holds. -/
namespace Keiko.ToolCallIds
open Keiko.Library List

structure NormalizedToolCall (α : Type) where
  id : Units
  name : Units
  arguments : α

/-- An array, which has fewer than `2 ^ 32` items. -/
structure ToolCalls (α : Type) where
  list : List (NormalizedToolCall α)
  bounded : list.length < 2 ^ 32

structure RandomBytes (size : ℕ) where
  bytes : List UInt8
  sized : bytes.length = size

/-- `toString("hex")`. -/
def RandomBytes.hex {size : ℕ} (random : RandomBytes size) : Units :=
  random.bytes.flatMap fun byte => CodeUnit.hex 2 byte.toUInt16

def synthesizedToolCallIdPrefix : Units := units "keiko-call-"

def isIdUnit (c : CodeUnit) : Bool :=
  CodeUnit.isLetter c || CodeUnit.isDigit c || (units "_.:-").contains c

def isUsableToolCallId (id : Units) : Bool :=
  id.all isIdUnit && 1 ≤ id.length && id.length ≤ 128

def suffixed (minted : Units) (attempt : ℕ) : Units :=
  minted ++ units "-" ++ UnitDecimal.ofNat attempt

/-- The search for a suffix meets a free one before its budget ends, see `freeToolCallId_free`. -/
def freeToolCallId (minted : Units) (taken : List Units) : Units :=
  if minted ∉ taken then minted
  else suffixed minted (Distinct.freeIndex taken (suffixed minted) taken.length 1)

def mintedId (response : Units) (position : ℕ) : Units :=
  synthesizedToolCallIdPrefix ++ response ++ units "-" ++ UnitDecimal.ofNat position

/-- The calls from a position on, given the ids that are usable somewhere and those given out. -/
def assignIds {α : Type} (response : Units) (kept : List Units) :
    ℕ → List Units → List (NormalizedToolCall α) → List (NormalizedToolCall α)
  | _, _, [] => []
  | position, held, call :: calls =>
    if isUsableToolCallId call.id = true ∧ call.id ∉ held then
      call :: assignIds response kept (position + 1) (call.id :: held) calls
    else
      let id := freeToolCallId (mintedId response position) (kept ++ held)
      { call with id } :: assignIds response kept (position + 1) (id :: held) calls

def normalizeToolCallIds {α : Type} (random : RandomBytes 6) (calls : ToolCalls α) : List (NormalizedToolCall α) :=
  assignIds random.hex ((calls.list.map (·.id)).filter isUsableToolCallId) 0 [] calls.list

section Minting

variable {minted resp : Units} {taken : List Units} {pos : ℕ} {c : CodeUnit} {size n : ℕ}

theorem suffixed_injective (minted : Units) : Function.Injective (suffixed minted) := by
  intro a b same
  have numerals := append_cancel_left same
  rw [← UnitDecimal.value_ofNat a,numerals,UnitDecimal.value_ofNat]

theorem freeToolCallId_free (minted : Units) (taken : List Units) : freeToolCallId minted taken ∉ taken := by
  rw [freeToolCallId]
  split
  next free => exact free
  next => exact Distinct.freeIndex_free (suffixed_injective minted) (le_refl _) 1

theorem length_numeral (small : n < 10 ^ 10) : (UnitDecimal.ofNat n).length ≤ 10 := by
  rcases Nat.eq_zero_or_pos n with rfl | positive
  · decide
  · exact UnitDecimal.length_ofNat_le positive small

theorem isIdUnit_numeral (mem : c ∈ UnitDecimal.ofNat n) : isIdUnit c = true := by
  simp [isIdUnit,UnitDecimal.isDigit_of_mem_ofNat mem]

theorem isIdUnit_hexDigit : ∀ digit < 16, isIdUnit (CodeUnit.hexDigit digit) = true := by
  decide

theorem isIdUnit_hex {random : RandomBytes size} (mem : c ∈ random.hex) : isIdUnit c = true := by
  obtain ⟨byte,_,inside⟩ := mem_flatMap.mp mem
  obtain ⟨place,_,rfl⟩ := mem_map.mp inside
  exact isIdUnit_hexDigit _ (Nat.mod_lt _ (by omega))

theorem length_hex (random : RandomBytes size) : random.hex.length = size * 2 := by
  simp [RandomBytes.hex,random.sized]

theorem isIdUnit_fixed : (∀ c ∈ synthesizedToolCallIdPrefix, isIdUnit c = true) ∧
    ∀ c ∈ units "-", isIdUnit c = true :=
  ⟨all_eq_true.mp (by decide +kernel),all_eq_true.mp (by decide +kernel)⟩

theorem mintedId_shape (random : RandomBytes 6) (small : pos < 10 ^ 10) :
    (∀ c ∈ mintedId random.hex pos, isIdUnit c = true) ∧
      1 ≤ (mintedId random.hex pos).length ∧ (mintedId random.hex pos).length ≤ 34 := by
  refine ⟨?_,?_,?_⟩
  · intro c mem
    simp only [mintedId,mem_append] at mem
    rcases mem with ((start | part) | dash) | numeral
    · exact isIdUnit_fixed.1 c start
    · exact isIdUnit_hex part
    · exact isIdUnit_fixed.2 c dash
    · exact isIdUnit_numeral numeral
  · simp [mintedId,synthesizedToolCallIdPrefix,units]
  · have numeral := length_numeral small
    have start : synthesizedToolCallIdPrefix.length = 11 := by decide
    have dash : (units "-").length = 1 := by decide
    simp only [mintedId,length_append,length_hex,start,dash]
    omega

theorem isUsable_freeToolCallId (shaped : ∀ c ∈ minted, isIdUnit c = true)
    (nonempty : 1 ≤ minted.length) (short : minted.length ≤ 34) (few : taken.length + 1 < 10 ^ 10) :
    isUsableToolCallId (freeToolCallId minted taken) = true := by
  rw [freeToolCallId,isUsableToolCallId,Bool.and_eq_true,Bool.and_eq_true,all_eq_true,
    decide_eq_true_eq,decide_eq_true_eq]
  split
  · exact ⟨⟨shaped,nonempty⟩,by omega⟩
  · have attempt := Distinct.freeIndex_le taken (suffixed minted) taken.length 1
    have numeral := length_numeral (n := Distinct.freeIndex taken (suffixed minted) taken.length 1) (by omega)
    have dash : (units "-").length = 1 := by decide
    refine ⟨⟨?_,?_⟩,?_⟩
    · intro c mem
      simp only [suffixed,mem_append] at mem
      rcases mem with (inside | dash) | numeral
      · exact shaped c inside
      · exact isIdUnit_fixed.2 c dash
      · exact isIdUnit_numeral numeral
    · simp only [suffixed,length_append]
      omega
    · simp only [suffixed,length_append,dash]
      omega

end Minting

section Assigning

variable {α : Type} {resp : Units} {kept held : List Units} {pos : ℕ} {calls : List (NormalizedToolCall α)}

theorem assignIds_cons (call : NormalizedToolCall α) : ∃ id, assignIds resp kept pos held (call :: calls) =
        { call with id } :: assignIds resp kept (pos + 1) (id :: held) calls ∧
      id ∉ held ∧
      (id = call.id ∧ isUsableToolCallId id = true ∨ (isUsableToolCallId call.id = false ∨ call.id ∈ held) ∧ id ∉ kept ∧
          id = freeToolCallId (mintedId resp pos) (kept ++ held)) := by
  rw [assignIds]
  split
  next own => exact ⟨call.id,rfl,own.2,.inl ⟨rfl,own.1⟩⟩
  next other =>
    have free := freeToolCallId_free (mintedId resp pos) (kept ++ held)
    rw [mem_append,not_or] at free
    refine ⟨_,rfl,free.2,.inr ⟨?_,free.1,rfl⟩⟩
    by_cases usable : isUsableToolCallId call.id = true
    · exact .inr (not_not.mp fun new => other ⟨usable,new⟩)
    · exact .inl (Bool.not_eq_true _ ▸ usable)

theorem assignIds_data : (assignIds resp kept pos held calls).map
    (fun call => (call.name,call.arguments)) = calls.map fun call => (call.name,call.arguments) := by
  induction calls generalizing pos held with
  | nil => rfl
  | cons call calls ih =>
    obtain ⟨id,same,_⟩ := @assignIds_cons α resp kept held pos calls call
    rw [same,map_cons,map_cons,ih]

theorem assignIds_distinct : ((assignIds resp kept pos held calls).map (·.id)).Nodup ∧
    ∀ id ∈ (assignIds resp kept pos held calls).map (·.id), id ∉ held := by
  induction calls generalizing pos held with
  | nil => exact ⟨nodup_nil,fun id mem => absurd mem not_mem_nil⟩
  | cons call calls ih =>
    obtain ⟨id,same,free,_⟩ := @assignIds_cons α resp kept held pos calls call
    obtain ⟨nodup,fresh⟩ := @ih (id :: held) (pos + 1)
    rw [same,map_cons]
    refine ⟨nodup_cons.mpr ⟨fun again => fresh id again mem_cons_self,nodup⟩,?_⟩
    intro other mem
    rcases mem_cons.mp mem with rfl | post
    · exact free
    · exact fun pre => fresh other post (mem_cons_of_mem _ pre)

theorem assignIds_usable (random : RandomBytes 6) (few : pos + calls.length < 2 ^ 32)
    (small : kept.length + held.length + calls.length < 2 ^ 33) :
    ∀ call ∈ assignIds random.hex kept pos held calls, isUsableToolCallId call.id = true := by
  induction calls generalizing pos held with
  | nil => exact fun call mem => absurd mem not_mem_nil
  | cons call calls ih =>
    rw [length_cons] at few small
    obtain ⟨id,same,_,origin⟩ := @assignIds_cons α random.hex kept held pos calls call
    rw [same]
    intro other mem
    rcases mem_cons.mp mem with rfl | post
    · rcases origin with ⟨_,usable⟩ | ⟨_,_,minted⟩
      · exact usable
      · obtain ⟨shaped,nonempty,short⟩ := mintedId_shape random (show pos < 10 ^ 10 by omega)
        rw [minted]
        exact isUsable_freeToolCallId shaped nonempty short (by rw [length_append]; omega)
    · exact ih (by omega) (by rw [length_cons]; omega) other post

theorem assignIds_keeps {i : ℕ} {call : NormalizedToolCall α} (here : calls[i]? = some call)
    (usable : isUsableToolCallId call.id = true) (known : call.id ∈ kept) (free : call.id ∉ held)
    (first : call.id ∉ (calls.take i).map (·.id)) :
    (assignIds resp kept pos held calls)[i]? = some call := by
  induction calls generalizing pos held i with
  | nil => cases here
  | cons head calls ih =>
    cases i with
    | zero =>
      rw [getElem?_cons_zero,Option.some_inj] at here
      subst here
      rw [assignIds,if_pos ⟨usable,free⟩]
      rfl
    | succ i =>
      rw [take_succ_cons,map_cons,mem_cons,not_or] at first
      obtain ⟨id,same,_,origin⟩ := @assignIds_cons α resp kept held pos calls head
      have new : call.id ≠ id := by
        intro own
        subst own
        rcases origin with ⟨own,_⟩ | ⟨_,unknown,_⟩
        · exact first.1 own
        · exact unknown known
      rw [same,getElem?_cons_succ]
      exact ih here (not_mem_cons_of_ne_of_not_mem new free) first.2

end Assigning

theorem normalizeToolCallIds_normalizes {α : Type} (random : RandomBytes 6) (calls : ToolCalls α) :
    let answer := normalizeToolCallIds random calls
    answer.map (fun call => (call.name,call.arguments)) =
        calls.list.map (fun call => (call.name,call.arguments)) ∧
      (answer.map (·.id)).Nodup ∧ (∀ call ∈ answer, isUsableToolCallId call.id = true) ∧
      ∀ index call, calls.list[index]? = some call → isUsableToolCallId call.id = true →
        call.id ∉ (calls.list.take index).map (·.id) → answer[index]? = some call := by
  have bounded := calls.bounded
  have kept := length_filter_le isUsableToolCallId (calls.list.map (·.id))
  rw [length_map] at kept
  refine ⟨assignIds_data,assignIds_distinct.1,?_,?_⟩
  · exact assignIds_usable random (by omega) (by rw [length_nil]; omega)
  · intro index call here usable first
    have member := mem_map_of_mem (f := (·.id)) (mem_of_getElem? here)
    exact assignIds_keeps here usable (mem_filter.mpr ⟨member,usable⟩) not_mem_nil first

end Keiko.ToolCallIds
