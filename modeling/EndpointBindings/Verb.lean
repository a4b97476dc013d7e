/-!
The methods of a request, in the order in which bindings are emitted.
-/

namespace EndpointBindings

inductive Verb where
  | head
  | get
  | post
  | put
  | delete
  deriving DecidableEq, Repr

namespace Verb

/-- All verbs in canonical order. -/
def all : List Verb := [head, get, post, put, delete]

def token : Verb → String
  | head => "HEAD"
  | get => "GET"
  | post => "POST"
  | put => "PUT"
  | delete => "DELETE"

/-- The verb as the first word of a function name. -/
def word : Verb → String
  | head => "head"
  | get => "get"
  | post => "post"
  | put => "put"
  | delete => "delete"

/-- The place of a verb in the canonical order. -/
def rank : Verb → Nat
  | head => 0
  | get => 1
  | post => 2
  | put => 3
  | delete => 4

/-- Tokens are matched exactly, capitals included. -/
def ofToken? (s : String) : Option Verb := all.find? (·.token == s)

theorem mem_all (v : Verb) : v ∈ all := by cases v <;> simp [all]

theorem rank_injective {v w : Verb} (h : v.rank = w.rank) : v = w := by
  cases v <;> cases w <;> simp_all [rank]

@[simp] theorem ofToken?_token (v : Verb) : ofToken? v.token = some v := by
  cases v <;> decide

theorem token_of_ofToken? {s : String} {v : Verb} (h : ofToken? s = some v) : v.token = s := by
  simpa using List.find?_some h

/-- The listed verbs in canonical order, each once. -/
def canonical (vs : List Verb) : List Verb := all.filter (· ∈ vs)

@[simp] theorem mem_canonical {v : Verb} {vs : List Verb} : v ∈ canonical vs ↔ v ∈ vs := by
  simp [canonical, mem_all]

end Verb

end EndpointBindings
