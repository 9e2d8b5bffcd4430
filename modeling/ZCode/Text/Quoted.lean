/-
  Quoted text, as the disassembly and the fault messages show it: printable characters stand for
  themselves, all others are written as escapes.
-/
import ZCode.Text.Numeral
import ZCode.Text.Printable

namespace ZCode

/-- One character of a text that stands between two `quote` signs. -/
def quotedChar (quote : Char) (c : Char) : String :=
  if c = quote ∨ c = '\\' then String.ofList ['\\', c]
  else if isPrintable c then String.singleton c
  else match c.toNat with
    | 7 => "\\a"
    | 8 => "\\b"
    | 9 => "\\t"
    | 10 => "\\n"
    | 11 => "\\v"
    | 12 => "\\f"
    | 13 => "\\r"
    | n =>
      if n < 0x80 then "\\x" ++ hexLower n 2
      else if n < 0x10000 then "\\u" ++ hexLower n 4
      else "\\U" ++ hexLower n 8

/-- A text in double quotes. -/
def quoteText (text : List Char) : String :=
  "\"" ++ String.join (text.map (quotedChar '"')) ++ "\""

/-- A character in single quotes. -/
def quoteChar (c : Char) : String := "'" ++ quotedChar '\'' c ++ "'"

end ZCode
