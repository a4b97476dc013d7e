import Mathlib.Tactic.SplitIfs
import EndpointBindings.Number.Reading
import EndpointBindings.Emission.Literal

/-!
Reading literals of source, as they are evaluated when it is run. A text is given by its code
points, which may be surrogates: a literal has them one by one.
-/

namespace EndpointBindings.Emission

open EndpointBindings.Text EndpointBindings.Number

/-- What an expression stands for. -/
inductive Meaning where
  | text (points : List Nat)
  | flag (b : Bool)
  | integer (i : Int)
  | tuple (items : List (List Nat))
  deriving DecidableEq, Repr

section Reading

/-- The code point of an escape of one character. -/
def shortPoint? (c : Char) : Option Nat :=
  match c with
  | '\\' | '\'' | '"' => some c.toNat
  | 'a' => some 7
  | 'b' => some 8
  | 't' => some 9
  | 'n' => some 10
  | 'v' => some 11
  | 'f' => some 12
  | 'r' => some 13
  | _ => none

/-- A code point of so many hexadecimal digits, and what follows it. -/
def readPoint? (width : Nat) (cs : List Char) : Option (Nat × List Char) := do
  let n ← hexValue (cs.take width)
  if width ≤ cs.length ∧ n ≤ 0x10ffff then some (n, cs.drop width) else none

def isOctal (c : Char) : Bool := '0' ≤ c && c ≤ '7'

/-- A code point of at most three octal digits, of which the first is given, and what follows it. -/
def readOctal (c : Char) (rest : List Char) : Nat × List Char :=
  let more := (rest.take 2).takeWhile isOctal
  (ofDigits 8 ((c :: more).map fun d => d.toNat - '0'.toNat), rest.drop more.length)

/-- A character between braces by its name, and what follows it. -/
def readNamed? (named : String → Option Nat) : List Char → Option (Nat × List Char)
  | '{' :: cs =>
    match cs.dropWhile (· ≠ '}') with
    | '}' :: rest => (named (String.ofList (cs.takeWhile (· ≠ '}')))).map (·, rest)
    | _ => none
  | _ => none

/-- The code point of an escape that tells it by a number or a name, if `c` starts such a one. -/
def readCode? (named : String → Option Nat) (c : Char) (rest : List Char) :
    Option (Option (Nat × List Char)) :=
  match c with
  | 'x' => some (readPoint? 2 rest)
  | 'u' => some (readPoint? 4 rest)
  | 'U' => some (readPoint? 8 rest)
  | 'N' => some (readNamed? named rest)
  | _ => if isOctal c then some (some (readOctal c rest)) else none

/-- The code points of an escape from behind its backslash, and what follows it. The end of a line
is left out; a character that means nothing there is kept, with the backslash. -/
def readEscape? (named : String → Option Nat) : List Char → Option (List Nat × List Char)
  | [] => none
  | c :: rest =>
    match shortPoint? c, readCode? named c rest with
    | some n, _ => some ([n], rest)
    | none, some code => code.map fun r => ([r.1], r.2)
    | none, none =>
      if c = '\n' then some ([], rest)
      else if c = '\r' then some ([], if rest.head? = some '\n' then rest.tail else rest)
      else if c = '\x00' then none
      else some (['\\'.toNat, c.toNat], rest)

variable {named : String → Option Nat} {cs rest more : List Char} {points : List Nat}

theorem length_of_readPoint? {width n : Nat} (h : readPoint? width cs = some (n, rest)) :
    rest.length ≤ cs.length := by
  simp only [readPoint?, Option.bind_eq_bind, Option.bind_eq_some_iff] at h
  obtain ⟨m, -, h⟩ := h
  split_ifs at h
  obtain ⟨-, rfl⟩ := Prod.mk.inj (Option.some.inj h)
  simp

theorem length_of_readNamed? {n : Nat} (h : readNamed? named cs = some (n, rest)) :
    rest.length ≤ cs.length := by
  fun_cases readNamed? named cs with
  | case1 cs tail htail =>
      simp only [readNamed?, htail, Option.map_eq_some_iff, Prod.mk.injEq] at h
      obtain ⟨_, -, -, rfl⟩ := h
      have hdrop := (List.dropWhile_sublist (l := cs) (· ≠ '}')).length_le
      rw [htail] at hdrop
      simp only [List.length_cons] at hdrop ⊢
      omega
  | case2 cs htail => simp_all [readNamed?]
  | case3 => simp_all [readNamed?]

theorem length_of_readCode? {c : Char} {n : Nat}
    (h : readCode? named c cs = some (some (n, rest))) : rest.length ≤ cs.length := by
  unfold readCode? at h
  split at h
  · exact length_of_readPoint? (Option.some.inj h)
  · exact length_of_readPoint? (Option.some.inj h)
  · exact length_of_readPoint? (Option.some.inj h)
  · exact length_of_readNamed? (Option.some.inj h)
  · split at h
    · obtain rfl := (Prod.mk.inj (Option.some.inj (Option.some.inj h))).2
      simp
    · simp at h

theorem length_of_readEscape? (h : readEscape? named cs = some (points, rest)) :
    rest.length < cs.length := by
  cases cs with
  | nil => simp [readEscape?] at h
  | cons c more =>
      rw [List.length_cons, Nat.lt_succ_iff]
      rw [readEscape?] at h
      split at h
      · simp_all
      · rename_i code hcode
        obtain ⟨r, rfl, hr⟩ := Option.map_eq_some_iff.mp h
        obtain rfl := (Prod.mk.inj hr).2
        exact length_of_readCode? hcode
      · split_ifs at h
        · simp_all
        · obtain rfl := (Prod.mk.inj (Option.some.inj h)).2
          simp
        · simp_all
        · simp_all

/-- The code points of a literal from behind its first quote, and what follows the last one. -/
def readBody? (named : String → Option Nat) : List Char → Option (List Nat × List Char)
  | [] => none
  | c :: rest =>
    if c = '"' then some ([], rest)
    else if c = '\\' then
      match _ : readEscape? named rest with
      | none => none
      | some (points, more) => (readBody? named more).map fun r => (points ++ r.1, r.2)
    else if c = '\n' ∨ c = '\r' ∨ c = '\x00' then none
    else (readBody? named rest).map fun r => (c.toNat :: r.1, r.2)
termination_by cs => cs.length
decreasing_by
  · have hless := length_of_readEscape? ‹readEscape? _ _ = _›
    simp only [List.length_cons]
    omega
  · exact Nat.lt_succ_self _

/-- The code points of a literal between double quotes, and what follows it. -/
def readText? (named : String → Option Nat) : List Char → Option (List Nat × List Char)
  | '"' :: '"' :: '"' :: _ => none
  | '"' :: rest => readBody? named rest
  | _ => none

theorem length_of_readBody? (h : readBody? named cs = some (points, rest)) :
    rest.length < cs.length := by
  fun_induction readBody? named cs generalizing points with
  | case1 => simp at h
  | case2 => simp_all
  | case3 => simp at h
  | case4 rest read more hescape _ ih =>
      obtain ⟨⟨tail, after⟩, htail, hr⟩ := Option.map_eq_some_iff.mp h
      obtain rfl := (Prod.mk.inj hr).2
      have hless := ih htail
      have hescape := length_of_readEscape? hescape
      rw [List.length_cons]
      omega
  | case5 => simp at h
  | case6 c rest hquote hslash hend ih =>
      obtain ⟨⟨tail, after⟩, htail, hr⟩ := Option.map_eq_some_iff.mp h
      obtain rfl := (Prod.mk.inj hr).2
      exact Nat.lt_succ_of_lt (ih htail)

theorem length_of_readText? (h : readText? named cs = some (points, rest)) :
    rest.length < cs.length := by
  fun_cases readText? named cs with
  | case1 => simp [readText?] at h
  | case2 more hmore =>
      rw [readText?] at h
      · exact Nat.lt_succ_of_lt (length_of_readBody? h)
      · exact hmore
  | case3 => simp_all [readText?]

def dropSpaces (cs : List Char) : List Char := cs.dropWhile (· = ' ')

theorem length_dropSpaces_le : (dropSpaces cs).length ≤ cs.length :=
  (List.dropWhile_sublist _).length_le

/-- The texts from behind an opening bracket to the closing one, which ends the expression, and
whether a comma stands after the last of them. -/
def readItems? (named : String → Option Nat) (cs : List Char) : Option (List (List Nat) × Bool) :=
  if dropSpaces cs = [')'] then some ([], true)
  else
    match _ : readText? named (dropSpaces cs) with
    | none => none
    | some (points, more) =>
      match _ : dropSpaces more with
      | [')'] => some ([points], false)
      | ',' :: rest => (readItems? named rest).map fun r => (points :: r.1, r.2)
      | _ => none
termination_by cs.length
decreasing_by
  have htext := length_of_readText? ‹readText? _ _ = _›
  have hspaces := @length_dropSpaces_le cs
  have hrest := @length_dropSpaces_le more
  rw [‹dropSpaces more = _›, List.length_cons] at hrest
  omega

/-- A decimal integer behind its sign, with a zero in front only of other zeros. -/
def readInteger? (negative : Bool) (cs : List Char) : Option Int :=
  if cs ≠ [] ∧ cs.all Char.isDigit ∧ (cs.head? = some '0' → cs.all (· = '0')) ∧
      cs.length ≤ maxDigits then
    some (signed negative (Nat.ofDigitChars 10 cs 0))
  else none

/-- What an expression stands for: a text, a tuple of texts, a truth value or an integer. A text
alone between brackets stands for itself. -/
def evaluate? (named : String → Option Nat) (source : String) : Option Meaning :=
  match source.toList with
  | 'T' :: rest => if rest = ['r', 'u', 'e'] then some (.flag true) else none
  | 'F' :: rest => if rest = ['a', 'l', 's', 'e'] then some (.flag false) else none
  | '(' :: rest =>
    match readItems? named rest with
    | some ([points], false) => some (.text points)
    | items => items.map fun r => .tuple r.1
  | '-' :: digits => (readInteger? true digits).map .integer
  | '"' :: rest =>
    match readText? named ('"' :: rest) with
    | some (points, []) => some (.text points)
    | _ => none
  | digits => (readInteger? false digits).map .integer

end Reading

end EndpointBindings.Emission
