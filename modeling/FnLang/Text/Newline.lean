/- # FnLang.Text.Newline — one spelling for the end of a line.

Files come with line feeds, carriage returns or both; the language knows the line feed alone.
-/

namespace FnLang.Text

/-- Makes a line feed of every carriage return and of every carriage return with its line feed. -/
def unifyNewlines : List Char → List Char
  | '\r' :: '\n' :: rest => '\n' :: unifyNewlines rest
  | '\r' :: rest => '\n' :: unifyNewlines rest
  | c :: rest => c :: unifyNewlines rest
  | [] => []

end FnLang.Text
