/-!
Failures that nothing recovers from. A bad document is an error of that document; a defect ends the
whole run, whichever document or file it came from.
-/

namespace EndpointBindings

inductive Defect where
  /-- An integer default of a fractional type is larger than every float. -/
  | integerBeyondFloat
  /-- An integer has more decimal digits than are read. -/
  | tooManyDigits
  /-- A text nests deeper than is read. -/
  | tooDeep
  | notUtf8
  /-- A scalar tagged as a flag is none of the words for one. -/
  | unknownFlagWord
  /-- A scalar tagged as a number is empty. -/
  | emptyNumber
  /-- A scalar tagged as a time does not look like one. -/
  | notTimestamp
  /-- A node tagged as a time has its text inside. -/
  | timeWithoutText
  | endpointWithoutName
  | paramsWithoutName
  | endpointWithoutVerbs (name : String)
  | endpointWithoutPaths (name : String)
  | invalidPattern
  /-- A range of characters in a pattern runs backwards. -/
  | backwardRange
  /-- A value that is spread into a list is no sequence. -/
  | notSequence
  | isDirectory
  | fileExists
  | notDirectory
  | noSuchFile
  /-- A name has more octets than a file system takes. -/
  | nameTooLong
  /-- A name holds the character that ends names. -/
  | nulInName
  /-- A file cannot be moved to a place that has no name of its own. -/
  | unnamedPlace
  /-- The home directory of the user is not known. -/
  | noHome
  deriving DecidableEq, Repr

/-- What happened, for the log of the run. -/
def Defect.message : Defect → String
  | integerBeyondFloat => "integer default larger than every float"
  | tooManyDigits => "integer with too many digits"
  | tooDeep => "text nested too deep"
  | notUtf8 => "text is not UTF-8"
  | unknownFlagWord => "unknown word for a flag"
  | emptyNumber => "empty number"
  | notTimestamp => "not a time"
  | timeWithoutText => "time without a text of its own"
  | endpointWithoutName => "registry endpoint without a name"
  | paramsWithoutName => "parameters of an endpoint without a name"
  | endpointWithoutVerbs name => "endpoint without verbs: " ++ name
  | endpointWithoutPaths name => "endpoint without paths: " ++ name
  | invalidPattern => "invalid pattern"
  | backwardRange => "range of characters that runs backwards"
  | notSequence => "value that is no sequence"
  | isDirectory => "is a directory"
  | fileExists => "exists already"
  | notDirectory => "not a directory"
  | noSuchFile => "no such file or directory"
  | nameTooLong => "file name too long"
  | nulInName => "file name with a character of code zero"
  | unnamedPlace => "place without a name"
  | noHome => "home directory not known"

end EndpointBindings
