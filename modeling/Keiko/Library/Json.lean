import Keiko.Library.Number
import Keiko.Library.Text

/-! Values of the JSON data model, with the fields of an object in the order in
which the language enumerates them. An absent field reads as `none`. -/
namespace Keiko.Library

inductive Json where
  | null
  | bool (value : Bool)
  | number (value : Number)
  | string (text : Text)
  | array (items : List Json)
  | object (fields : List (Text × Json))

namespace Json

abbrev Fields := List (Text × Json)

def field (fields : Fields) (name : Text) : Option Json :=
  (fields.find? fun entry => entry.1 = name).map Prod.snd

def text? : Option Json → Option Text
  | some (.string text) => some text
  | _ => none

def items? : Option Json → Option (List Json)
  | some (.array items) => some items
  | _ => none

def finite? : Option Json → Option Number
  | some (.number value) => if value.isFinite then some value else none
  | _ => none

end Json

end Keiko.Library
