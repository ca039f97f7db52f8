/-!
# Text in single quotes

Between single quotes every single quote is written twice, and all else once.
-/

namespace AzurePipelines.Text

/-- Every single quote of the text, twice. -/
def doubleQuotes (text : List Char) : List Char :=
  text.flatMap fun c => if c == '\x27' then ['\x27', '\x27'] else [c]

/-- The text between single quotes. -/
def quoted (text : List Char) : List Char := '\x27' :: doubleQuotes text ++ ['\x27']

example : quoted "it's".toList = "'it''s'".toList := by decide

end AzurePipelines.Text
