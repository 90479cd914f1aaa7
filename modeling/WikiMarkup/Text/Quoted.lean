import WikiMarkup.Text.Unprintable

/-!
# Quoted text

A text in quotation marks, in which a quotation mark, a backslash and the characters that cannot be
printed are written as escapes. Apostrophes stand for themselves.
-/

namespace WikiMarkup.Text

/-- The number in lower-case hexadecimal digits, without leading zeros. -/
def hex (n : Nat) : String := String.ofList (Nat.toDigits 16 n)

/-- One character of a quoted text. -/
def quoteChar (c : Char) : String :=
  match c with
  | '"' => "\\\""
  | '\\' => "\\\\"
  | '\n' => "\\n"
  | '\r' => "\\r"
  | '\t' => "\\t"
  | '\x00' => "\\0"
  | c => if isUnprintable c then "\\u\x7b" ++ hex c.toNat ++ "\x7d" else c.toString

def quote (s : String) : String :=
  (s.toList.foldl (fun out c => out ++ quoteChar c) "\"") ++ "\""

end WikiMarkup.Text
