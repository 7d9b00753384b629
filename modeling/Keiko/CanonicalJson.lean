import Keiko.Library.Except
import Keiko.Library.JsonRoundTrip
import Mathlib.Data.List.Sort

/-! Canonical JSON of the contracts: the fields of an object are written in the order of their names.
A value whose fields stand in that order is written as any JSON writer writes it, so that what was
written can be read back. -/
namespace Keiko.CanonicalJson
open Keiko.Library Json

section Writer

def compareStrings (left right : Text) : ℤ :=
  if left.flatMap Json.codeUnits < right.flatMap Json.codeUnits then -1
  else if right.flatMap Json.codeUnits < left.flatMap Json.codeUnits then 1
  else 0

def byName {α : Type*} (left right : Text × α) : Bool := decide (compareStrings left.1 right.1 ≤ 0)

def enclose (opening closing : Char) (parts : List Text) : Text :=
  opening :: (List.intercalate [','] parts ++ [closing])

def encodeEntry (entry : Text × Text) : Text := Json.quote entry.1 ++ ':' :: entry.2

mutual

def encode : Json → Except Text Text
  | .null => .ok (Json.stringify .null)
  | .bool value => .ok (Json.stringify (.bool value))
  | .string text => .ok (Json.stringify (.string text))
  | .number value =>
    if value.isFinite then .ok (Json.numberText value)
    else .error "Canonical JSON requires a finite number.".toList
  | .array items => (enclose '[' ']') <$> encodeItems items
  | .object fields => do
    let entries ← encodeFields fields
    return enclose '\x7b' '\x7d' ((entries.mergeSort byName).map encodeEntry)

def encodeItems : List Json → Except Text (List Text)
  | [] => .ok []
  | item :: items => do
    let text ← encode item
    let texts ← encodeItems items
    return text :: texts

def encodeFields : List (Text × Json) → Except Text (List (Text × Text))
  | [] => .ok []
  | (key,value) :: fields => do
    let text ← encode value
    let texts ← encodeFields fields
    return (key,text) :: texts

end

def canonicalise (value : Json) : Except Text Text := encode value

end Writer

section Canonical

mutual

/-- Values whose fields stand in the order of their names, and whose numbers are finite. -/
def Canonical : Json → Prop
  | .number value => value.isFinite = true
  | .array items => CanonicalItems items
  | .object fields =>
    (fields.map Prod.fst).Pairwise (fun left right => compareStrings left right ≤ 0) ∧ CanonicalFields fields
  | _ => True

def CanonicalItems : List Json → Prop
  | [] => True
  | item :: items => Canonical item ∧ CanonicalItems items

def CanonicalFields : List (Text × Json) → Prop
  | [] => True
  | (_,value) :: fields => Canonical value ∧ CanonicalFields fields

end

theorem intercalate_cons (separator : Char) (part : Text) (parts : List Text) :
    List.intercalate [separator] (part :: parts) = part ++ parts.flatMap fun part => separator :: part := by
  induction parts generalizing part with
  | nil =>
    rw [List.intercalate_singleton,List.flatMap_nil,List.append_nil]
  | cons next parts ih =>
    rw [List.intercalate_cons_cons,ih,List.flatMap_cons,List.append_assoc,List.singleton_append,List.cons_append]

theorem laterItems_eq (xs : List Json) : Json.laterItems xs =
    (xs.map Json.stringify).flatMap (fun part => ',' :: part) ++ [']'] := by
  induction xs with
  | nil => rfl
  | cons item xs ih =>
    rw [Json.laterItems,ih,List.map_cons,List.flatMap_cons,List.cons_append,List.cons_append,List.append_assoc]

def stringifyEntry (field : Text × Json) : Text := encodeEntry (field.1,Json.stringify field.2)

theorem laterFields_eq (fs : List (Text × Json)) : Json.laterFields fs =
    (fs.map stringifyEntry).flatMap (fun part => ',' :: part) ++ ['\x7d'] := by
  induction fs with
  | nil => rfl
  | cons field fs ih =>
    rw [laterFields,ih,List.map_cons,List.flatMap_cons,stringifyEntry,encodeEntry]
    simp

theorem stringify_array (xs : List Json) :
    Json.stringify (.array xs) = enclose '[' ']' (xs.map Json.stringify) := by
  cases xs with
  | nil => rfl
  | cons item xs =>
    rw [stringify,laterItems_eq,enclose,List.map_cons,intercalate_cons,List.append_assoc]

theorem stringify_object (fs : List (Text × Json)) :
    Json.stringify (.object fs) = enclose '\x7b' '\x7d' (fs.map stringifyEntry) := by
  cases fs with
  | nil => rfl
  | cons field fs =>
    rw [stringify,laterFields_eq,enclose,List.map_cons,intercalate_cons,stringifyEntry,encodeEntry]
    simp

mutual

theorem encode_canonical : ∀ v, Canonical v → encode v = .ok (Json.stringify v)
  | .null, _ => by rw [encode]
  | .bool _, _ => by rw [encode]
  | .string _, _ => by rw [encode]
  | .number v, finite => by
    rw [Canonical] at finite
    rw [encode,if_pos finite,Json.stringify]
  | .array xs, canonical => by
    rw [Canonical] at canonical
    rw [encode,encodeItems_canonical xs canonical,stringify_array]
    rfl
  | .object fs, canonical => by
    rw [Canonical] at canonical
    obtain ⟨sorted,canonical⟩ := canonical
    have ordered : (fs.map fun field => (field.1,stringify field.2)).Pairwise fun left right =>
        byName left right = true := by
      rw [List.pairwise_map] at sorted ⊢
      exact sorted.imp decide_eq_true
    rw [encode,encodeFields_canonical fs canonical]
    change Except.ok (enclose _ _ ((List.mergeSort _ byName).map encodeEntry)) = _
    rw [List.mergeSort_of_pairwise ordered,List.map_map,stringify_object]
    rfl

theorem encodeItems_canonical : ∀ xs, CanonicalItems xs → encodeItems xs = .ok (xs.map Json.stringify)
  | [], _ => by
    rw [encodeItems]
    rfl
  | item :: xs, canonical => by
    rw [CanonicalItems] at canonical
    rw [encodeItems,encode_canonical item canonical.1,encodeItems_canonical xs canonical.2]
    rfl

theorem encodeFields_canonical : ∀ fs, CanonicalFields fs →
    encodeFields fs = .ok (fs.map fun field => (field.1,Json.stringify field.2))
  | [], _ => by
    rw [encodeFields]
    rfl
  | (key,v) :: fs, canonical => by
    rw [CanonicalFields] at canonical
    rw [encodeFields,encode_canonical v canonical.1,encodeFields_canonical fs canonical.2]
    rfl

end

theorem canonicalise_injective {a b : Json} (first_canonical : Canonical a)
    (first_plain : Json.Plain a) (second_canonical : Canonical b)
    (second_plain : Json.Plain b) (same : canonicalise a = canonicalise b) :
    a = b := by
  rw [canonicalise,canonicalise,encode_canonical a first_canonical,encode_canonical b second_canonical] at same
  have read := congrArg parse (Except.ok.inj same)
  rw [parse_stringify first_plain,parse_stringify second_plain] at read
  exact Option.some.inj read

end Canonical

end Keiko.CanonicalJson
