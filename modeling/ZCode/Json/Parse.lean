/-
  Reading JSON.

  `Json.parse?` follows the tokens of a text with a list of the arrays and objects that are open
  around the value being read.  It accepts one value with nothing behind it, nested at most 10000
  deep.
-/
import ZCode.Json.Token

namespace ZCode.Json

/-- An open array or object with a place for the value being read.  Lists have their last element
first. -/
inductive Slot where
  | item (before : List Json)
  | field (before : List (List Char × Json)) (key : List Char)
  deriving Inhabited

/-- What may come next, and the slots around it, the innermost first. -/
inductive Parse where
  /-- A value. -/
  | value (slots : List Slot)
  /-- A value, or the end of an empty array. -/
  | firstItem (slots : List Slot)
  /-- A key, or the end of an empty object. -/
  | firstKey (slots : List Slot)
  /-- A key behind other fields. -/
  | nextKey (before : List (List Char × Json)) (slots : List Slot)
  /-- The colon behind a key. -/
  | colon (before : List (List Char × Json)) (key : List Char) (slots : List Slot)
  /-- What follows a complete value. -/
  | after (value : Json) (slots : List Slot)
  deriving Inhabited

/-- The greatest depth of arrays and objects within each other. -/
def maxDepth : Nat := 10000

/-- Takes the first token of a value. -/
def Parse.startValue (slots : List Slot) : Token → Option Parse
  | .null => some (.after .null slots)
  | .bool b => some (.after (.bool b) slots)
  | .number literal => some (.after (.number literal) slots)
  | .text chars => some (.after (.text chars) slots)
  | .leftBracket => if slots.length < maxDepth then some (.firstItem slots) else none
  | .leftBrace => if slots.length < maxDepth then some (.firstKey slots) else none
  | _ => none

/-- Takes the next token. -/
def Parse.step : Parse → Token → Option Parse
  | .value slots, t => startValue slots t
  | .firstItem slots, .rightBracket => some (.after (.array []) slots)
  | .firstItem slots, t => startValue (.item [] :: slots) t
  | .firstKey slots, .rightBrace => some (.after (.object []) slots)
  | .firstKey slots, .text key => some (.colon [] key slots)
  | .nextKey before slots, .text key => some (.colon before key slots)
  | .colon before key slots, .colon => some (.value (.field before key :: slots))
  | .after v (.item before :: slots), .comma => some (.value (.item (v :: before) :: slots))
  | .after v (.item before :: slots), .rightBracket =>
    some (.after (.array (v :: before).reverse) slots)
  | .after v (.field before key :: slots), .comma => some (.nextKey ((key, v) :: before) slots)
  | .after v (.field before key :: slots), .rightBrace =>
    some (.after (.object ((key, v) :: before).reverse) slots)
  | _, _ => none

/-- The value of a sequence of tokens. -/
def ofTokens? (tokens : List Token) : Option Json := do
  match ← tokens.foldlM Parse.step (.value []) with
  | .after v [] => some v
  | _ => none

/-- The value of a text. -/
def parse? (chars : List Char) : Option Json := do ofTokens? (← tokens? chars)

end ZCode.Json
