import Keiko.Library.Utf8Cut

/-! `JSON.stringify` of a JavaScript string: what has to be escaped is escaped, and half of a
surrogate pair alone is written by its hexadecimal digits. -/
namespace Keiko.Library.UnitJson

def quoteCharacter (token : Units) : Units :=
  match token with
  | [c] =>
    if c = 34 then units "\\\""
    else if c = 92 then units "\\\\"
    else if c = 8 then units "\\b"
    else if c = 9 then units "\\t"
    else if c = 10 then units "\\n"
    else if c = 12 then units "\\f"
    else if c = 13 then units "\\r"
    else if c < 32 || CodeUnit.isSurrogate c then units "\\u" ++ CodeUnit.hex 4 c
    else [c]
  | pair => pair

def quote (text : Units) : Units :=
  unit '\x22' :: (Units.characters text).flatMap quoteCharacter ++ [unit '\x22']

end Keiko.Library.UnitJson
