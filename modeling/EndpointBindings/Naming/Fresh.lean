/-!
Names that are not taken. Of a sequence of candidates without repetition, the first that is not
taken stands within as many places as there are taken names, so the search ends.
-/

namespace EndpointBindings.Naming

/-- The first candidate from number `k` on that is not taken; gives up after `fuel` candidates. -/
def firstFree (candidate : Nat → String) (taken : List String) : (fuel : Nat) → Nat → String
  | 0, k => candidate k
  | fuel + 1, k =>
    if candidate k ∈ taken then firstFree candidate taken fuel (k + 1) else candidate k

/-- The first candidate that is not taken. -/
def fresh (candidate : Nat → String) (taken : List String) : String :=
  firstFree candidate taken taken.length 0

/-- A name with underscores at its end. -/
def underscored (name : String) (k : Nat) : String :=
  name ++ String.ofList (List.replicate k '_')

/-- A name, then the name with `_2`, `_3` and so on. -/
def numbered (name : String) (k : Nat) : String :=
  if k = 0 then name else name ++ "_" ++ toString (k + 1)

def uniqueIdentifier (name : String) (taken : List String) : String :=
  fresh (underscored name) taken

def uniqueFunctionName (name : String) (taken : List String) : String := fresh (numbered name) taken

/-- Things in turn, each put together with a name that is chosen for it and taken from then on. -/
def nameInTurn {α β : Type} (choose : α → List String → String) (make : α → String → β)
    (taken : List String) : List α → List β
  | [] => []
  | a :: rest =>
    let name := choose a taken
    make a name :: nameInTurn choose make (name :: taken) rest

/-- A free name for each candidate in turn, none of them twice. -/
def uniqueIdentifiers (taken names : List String) : List String :=
  nameInTurn uniqueIdentifier (fun _ name => name) taken names

end EndpointBindings.Naming
