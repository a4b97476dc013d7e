/-!
The words of a command line, split into options and the rest. An option's value is the next word, or
follows it in the same word; letters of options without values may share a dash. After two dashes
alone every word counts as it stands.
-/

namespace EndpointBindings.CommandLine

inductive OptionName where
  | version
  | json
  | plain
  | noColor
  | quiet
  | verbose
  | out
  | strict
  | noStrict
  | workers
  | exclude
  | verb
  | help
  deriving DecidableEq, Repr

namespace OptionName

def long : OptionName → String
  | version => "--version"
  | json => "--json"
  | plain => "--plain"
  | noColor => "--no-color"
  | quiet => "--quiet"
  | verbose => "--verbose"
  | out => "--out"
  | strict => "--strict"
  | noStrict => "--no-strict"
  | workers => "--workers"
  | exclude => "--exclude"
  | verb => "--verb"
  | help => "--help"

def letter? : OptionName → Option Char
  | quiet => some 'q'
  | verbose => some 'v'
  | out => some 'o'
  | workers => some 'w'
  | exclude => some 'x'
  | _ => none

def takesValue : OptionName → Bool
  | out | workers | exclude | verb => true
  | _ => false

end OptionName

/-- What is wrong with a command line. -/
inductive UsageFault where
  | unknownOption (word : String)
  | unexpectedValue (o : OptionName)
  | missingValue (o : OptionName)
  | notCount (o : OptionName) (text : String)
  | missingCommand
  | unknownCommand (name : String)
  | missingArgument (name : String)
  | extraArguments (words : List String)
  deriving DecidableEq, Repr

structure Arguments where
  /-- Options in their order, with the empty text for the value of those that take none. -/
  options : List (OptionName × String)
  words : List String
  deriving DecidableEq, Repr

namespace Arguments

def has (a : Arguments) (o : OptionName) : Bool := a.options.any (·.1 = o)

def valuesOf (a : Arguments) (o : OptionName) : List String :=
  (a.options.filter (·.1 = o)).map (·.2)

/-- The value that counts of an option that may be given again. -/
def value? (a : Arguments) (o : OptionName) : Option String := (a.valuesOf o).getLast?

/-- The first option of those that end the reading. -/
def firstOf? (a : Arguments) (among : List OptionName) : Option OptionName :=
  (a.options.map (·.1)).find? (among.contains ·)

/-- The last option of those that undo each other. -/
def lastOf? (a : Arguments) (among : List OptionName) : Option OptionName :=
  ((a.options.map (·.1)).filter (among.contains ·)).getLast?

def withOptions (more : List (OptionName × String)) (a : Arguments) : Arguments :=
  { a with options := more ++ a.options }

def withWord (word : String) (a : Arguments) : Arguments := { a with words := word :: a.words }

end Arguments

/-- The options of one word, and the one whose value is the next word. -/
structure OptionWord where
  options : List (OptionName × String)
  pending : Option OptionName

/-- A word led by two dashes is one option, with a value behind an equals sign. -/
def readLong (known : List OptionName) (word : List Char) : Except UsageFault OptionWord :=
  match known.find? (·.long.toList == word.takeWhile (· != '=')) with
  | none => .error (.unknownOption (String.ofList word))
  | some o =>
    match word.dropWhile (· != '=') with
    | _ :: value =>
      if o.takesValue then .ok ⟨[(o, String.ofList value)], none⟩ else .error (.unexpectedValue o)
    | [] => if o.takesValue then .ok ⟨[], some o⟩ else .ok ⟨[(o, "")], none⟩

/-- The letters behind one dash; what follows the letter of an option with a value is the value. -/
def readLetters (known : List OptionName) : List Char → Except UsageFault OptionWord
  | [] => .ok ⟨[], none⟩
  | c :: rest =>
    match known.find? (·.letter? == some c) with
    | none => .error (.unknownOption (String.ofList ['-', c]))
    | some o =>
      if o.takesValue then
        .ok (if rest.isEmpty then ⟨[], some o⟩ else ⟨[(o, String.ofList rest)], none⟩)
      else do
        let w ← readLetters known rest
        return { w with options := (o, "") :: w.options }

def readOptionWord (known : List OptionName) (word : List Char) : Except UsageFault OptionWord :=
  match word with
  | '-' :: '-' :: _ => readLong known word
  | _ => readLetters known (word.drop 1)

/-- A dash alone is no option. -/
def isOption (word : List Char) : Bool := word.head? == some '-' && 1 < word.length

/-- Reads words with the known options, of which one may still wait for its value. Where options
must come first, the first other word ends them. -/
def readWords (known : List OptionName) (optionsFirst : Bool) :
    (pending : Option OptionName) → List String → Except UsageFault Arguments
  | none, [] => .ok ⟨[], []⟩
  | some o, [] => .error (.missingValue o)
  | some o, value :: rest => do
    return (← readWords known optionsFirst none rest).withOptions [(o, value)]
  | none, word :: rest =>
    if word = "--" then .ok ⟨[], rest⟩
    else if isOption word.toList then do
      let w ← readOptionWord known word.toList
      return (← readWords known optionsFirst w.pending rest).withOptions w.options
    else if optionsFirst then .ok ⟨[], word :: rest⟩
    else do return (← readWords known optionsFirst none rest).withWord word

def readArguments (known : List OptionName) (optionsFirst : Bool) (words : List String) :
    Except UsageFault Arguments :=
  readWords known optionsFirst none words

/-- Without a dash in front nothing is an option. -/
theorem readArguments_of_no_option {known : List OptionName} {words : List String}
    (h : ∀ w ∈ words, w ≠ "--" ∧ isOption w.toList = false) :
    readArguments known false words = .ok ⟨[], words⟩ := by
  induction words with
  | nil => rfl
  | cons w rest ih =>
    obtain ⟨hw, hrest⟩ := List.forall_mem_cons.1 h
    have := ih hrest
    rw [readArguments] at this
    simp [readArguments, readWords, hw.1, hw.2, this, bind, Except.bind, pure, Except.pure,
      Arguments.withWord]

end EndpointBindings.CommandLine
