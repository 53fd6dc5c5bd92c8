import Seedbed.Value
import Seedbed.Binary64.Text
import Seedbed.Text.Utf8
/-! The text of a value, as it stands in messages, in labels and in the registry. -/

namespace Seedbed

namespace Value

mutual

/-- The text of a value. The items of a list are joined by commas, except a list around them, and
other collections do not show what they hold. -/
def toText : Value → String
  | .absent => "undefined"
  | .null => "null"
  | .bool true => "true"
  | .bool false => "false"
  | .number x => x.text
  | .integer n => toString n
  | .text s => s
  | .symbol name => "Symbol(" ++ name ++ ")"
  | .instant t => t.long
  | .bytes bs => Utf8.decode bs
  | .list items => ",".intercalate (itemTexts items)
  | .record _ => "[object Object]"
  | .set _ => "[object Set]"
  | .dictionary _ => "[object Map]"
  | .enclosing _ => ""

/-- The texts of the items of a list, in which null and absent items leave a gap. -/
def itemTexts : List Value → List String
  | [] => []
  | .absent :: rest => "" :: itemTexts rest
  | .null :: rest => "" :: itemTexts rest
  | item :: rest => item.toText :: itemTexts rest

end

end Value

end Seedbed
