/-
  JSON values and their compact written form.
-/
import ZCode.Text.Numeral

namespace ZCode

/-- A JSON value.  Numbers are kept as they are written, and the fields of an object in order, so that
a reader can tell what was there. -/
inductive Json where
  | null
  | bool (b : Bool)
  | number (literal : List Char)
  | text (chars : List Char)
  | array (items : List Json)
  | object (fields : List (List Char × Json))
  deriving Inhabited

namespace Json

/-- A character in a written string.  Besides what must be escaped, so are the characters that mean
something in a web page or end a line in a script. -/
def escape (c : Char) : List Char :=
  if c = '"' then ['\\', '"']
  else if c = '\\' then ['\\', '\\']
  else match c.toNat with
    | 8 => ['\\', 'b']
    | 9 => ['\\', 't']
    | 10 => ['\\', 'n']
    | 12 => ['\\', 'f']
    | 13 => ['\\', 'r']
    | n =>
      if n < 0x20 ∨ c = '<' ∨ c = '>' ∨ c = '&' ∨ n = 0x2028 ∨ n = 0x2029 then
        '\\' :: 'u' :: (hexLower n 4).toList
      else [c]

/-- A written string. -/
def renderText (chars : List Char) : List Char := '"' :: chars.flatMap escape ++ ['"']

mutual

/-- The written form, without blanks. -/
def render : Json → List Char
  | null => ['n', 'u', 'l', 'l']
  | bool true => ['t', 'r', 'u', 'e']
  | bool false => ['f', 'a', 'l', 's', 'e']
  | number literal => literal
  | text chars => renderText chars
  | array items => '[' :: renderItems items ++ [']']
  | object fields => '{' :: renderFields fields ++ ['}']

/-- The items of an array, with commas between them. -/
def renderItems : List Json → List Char
  | [] => []
  | [item] => item.render
  | item :: items => item.render ++ ',' :: renderItems items

/-- The fields of an object, with commas between them. -/
def renderFields : List (List Char × Json) → List Char
  | [] => []
  | [(key, value)] => renderText key ++ ':' :: value.render
  | (key, value) :: fields => renderText key ++ ':' :: value.render ++ ',' :: renderFields fields

end

end Json

end ZCode
