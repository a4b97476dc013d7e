import EndpointBindings.Text.Blank

/-!
Free text inside a docstring: its words on one line, and nothing that would end the docstring.
-/

namespace EndpointBindings.Emission

open EndpointBindings.Text

/-- The words of a text with one blank between them. -/
def oneLine (cs : List Char) : List Char := [' '].intercalate (words cs)

/-- Backslashes are doubled, and every three quotes in a row are escaped. -/
def escapeDoc : List Char → List Char
  | [] => []
  | '"' :: '"' :: '"' :: rest => '\\' :: '"' :: '\\' :: '"' :: '\\' :: '"' :: escapeDoc rest
  | '\\' :: rest => '\\' :: '\\' :: escapeDoc rest
  | c :: rest => c :: escapeDoc rest

/-- A blank keeps a last quote from the quotes that close the docstring. -/
def guardEnd (cs : List Char) : List Char :=
  if cs.getLast? = some '"' then cs ++ [' '] else cs

def docstringText (text : String) : String :=
  String.ofList (guardEnd (escapeDoc (oneLine text.toList)))

end EndpointBindings.Emission
