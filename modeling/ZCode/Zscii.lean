/-
  ZSCII, the character codes of stories: the printable ASCII codes, 13 for a new line, and the extra
  characters from 155 on.
-/
import ZCode.Fault

namespace ZCode.Zscii

/-- The extra characters, whose codes start at 155. -/
def extra : List Char := [
  'ä', 'ö', 'ü', 'Ä', 'Ö', 'Ü', 'ß', '»', '«', 'ë', 'ï', 'ÿ', 'Ë', 'Ï', 'á',
  'é', 'í', 'ó', 'ú', 'ý', 'Á', 'É', 'Í', 'Ó', 'Ú', 'Ý', 'à', 'è', 'ì', 'ò',
  'ù', 'À', 'È', 'Ì', 'Ò', 'Ù', 'â', 'ê', 'î', 'ô', 'û', 'Â', 'Ê', 'Î', 'Ô',
  'Û', 'å', 'Å', 'ø', 'Ø', 'ã', 'ñ', 'õ', 'Ã', 'Ñ', 'Õ', 'æ', 'Æ', 'ç', 'Ç',
  'þ', 'ð', 'Þ', 'Ð', '£', 'œ', 'Œ', '¡', '¿']

/-- The code of the first extra character. -/
def firstExtra : Nat := 155

/-- The text printed for a code: nothing for 0, otherwise one character. -/
def text (code : UInt16) : Except Fault (List Char) :=
  let n := code.toNat
  if n = 0 then .ok []
  else if n = 13 then .ok ['\n']
  else if 32 ≤ n ∧ n ≤ 126 then .ok [Char.ofNat n]
  else if n < firstExtra then .error (.text (.undefinedZscii code))
  else match extra[n - firstExtra]? with
    | some c => .ok [c]
    | none => .error (.text (.undefinedZscii code))

/-- The code under which a typed character is stored.  A new line has none. -/
def code? (c : Char) : Option UInt8 :=
  if 32 ≤ c.toNat ∧ c.toNat ≤ 126 then some (UInt8.ofNat c.toNat)
  else (extra.idxOf? c).map fun i => UInt8.ofNat (firstExtra + i)

/-- The code of a question mark, which stands for characters that have none. -/
def unknown : UInt8 := 63

end ZCode.Zscii
