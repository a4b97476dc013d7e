import EndpointBindings.Text.Word

/-!
Names of documents as identifiers of Python source: words of lower-case ASCII letters and digits
joined by single underscores, and never a keyword.
-/

namespace EndpointBindings.Naming

def isWordStart (c : Char) (rest : List Char) : Bool :=
  match rest with
  | [] => false
  | d :: more =>
    d.isUpper && (c.isLower || c.isDigit ||
      (c.isUpper && match more with | [] => false | e :: _ => e.isLower))

/-- A text with an underscore wherever a capital starts a new word: after a small letter or a digit,
and where it ends a run of capitals before a small letter. -/
def splitCapitals : List Char → List Char
  | [] => []
  | c :: rest =>
    if isWordStart c rest then c :: '_' :: splitCapitals rest else c :: splitCapitals rest

/-- A character in lower case, with an underscore for all but ASCII letters and digits. Two letters
outside ASCII have an ASCII letter in lower case. -/
def plainChar (c : Char) : List Char :=
  if c.isAlphanum then [c.toLower]
  else if c = '\u212a' then ['k']
  else if c = '\u0130' then ['i', '_']
  else ['_']

/-- The words between underscores. -/
def wordsOf (cs : List Char) : List (List Char) := Text.runs (· == '_') cs

/-- The words of a name. -/
def nameWords (name : String) : List (List Char) :=
  wordsOf ((splitCapitals name.toList).flatMap plainChar)

def joinWords : List (List Char) → List Char
  | [] => []
  | [w] => w
  | w :: ws => w ++ '_' :: joinWords ws

/-- The words that Python keeps for itself. -/
def keywords : List String :=
  ["False", "None", "True", "and", "as", "assert", "async", "await", "break", "class", "continue",
   "def", "del", "elif", "else", "except", "finally", "for", "from", "global", "if", "import", "in",
   "is", "lambda", "nonlocal", "not", "or", "pass", "raise", "return", "try", "while", "with",
   "yield"]

/-- What stands for a name without words. -/
def noName : List (List Char) := ["param".toList]

/-- An underscore keeps a digit from the start of an identifier. -/
def guardDigit (cs : List Char) : List Char :=
  match cs with
  | c :: _ => if c.isDigit then '_' :: cs else cs
  | [] => []

/-- An underscore tells an identifier from a keyword. -/
def guardKeyword (cs : List Char) : List Char :=
  if String.ofList cs ∈ keywords then cs ++ ['_'] else cs

/-- The identifier of a name. -/
def identifier (name : String) : String :=
  let ws := nameWords name
  String.ofList (guardKeyword (guardDigit (joinWords (if ws.isEmpty then noName else ws))))

end EndpointBindings.Naming
