import Microcomputer.Text.Unprintable

/-! Quoted text as messages show it, and hexadecimal numbers. -/

namespace Microcomputer.Text

/-- The spelling of a character between quotes. A character without a glyph is written
as its code point. -/
def quoteChar (c : Char) : String :=
  match c with
  | '"' => "\\\""
  | '\\' => "\\\\"
  | '\n' => "\\n"
  | '\t' => "\\t"
  | '\r' => "\\r"
  | '\x00' => "\\0"
  | c =>
    if isUnprintable c then
      "\\u\x7b" ++ String.ofList (Nat.toDigits 16 c.toNat) ++ "\x7d"
    else c.toString

/-- A text between quotes, on one line and in visible characters. -/
def quote (s : String) : String := "\"" ++ String.join (s.toList.map quoteChar) ++ "\""

/-- A number in upper-case hexadecimal digits, at least `width` of them. -/
def hexadecimal (width n : Nat) : String :=
  String.ofList (((Nat.toDigits 16 n).map Char.toUpper).leftpad width '0')

end Microcomputer.Text
