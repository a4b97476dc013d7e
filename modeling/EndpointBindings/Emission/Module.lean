import EndpointBindings.Emission

/-!
The text of one endpoint's module, and of the package of all modules.
-/

namespace EndpointBindings.Emission

open EndpointBindings.Naming

/-- The module, inside the package, that declares the transport. -/
def transportModule : String := "_transport"

/-- The names that a module imports from `typing`. -/
def typingImports (e : Endpoint) : List String :=
  sortTypingNames (["Any", "Optional"] ++
    (e.params.map (·.2.type) ++ e.parts.map (·.type)).flatMap fun t =>
      (TypeHint.ofType t).typingNames)

def documentationLines (e : Endpoint) : List String :=
  let text := docstringText (e.documentation.getD "")
  if text.isEmpty then [] else ["", "Documentation: " ++ text]

def moduleLines (e : Endpoint) (paramsClass : String) : List String :=
  let name := docstringText (e.name.getD "")
  ["\"\"\"Client bindings for the \x60\x60" ++ name ++ "\x60\x60 endpoint."] ++
    documentationLines e ++
    ["", "Generated by " ++ generator ++ ". Do not edit.", "\"\"\"", "",
      "from __future__ import annotations", "", "import dataclasses",
      "from typing import " ++ ", ".intercalate (typingImports e), "",
      "from ." ++ transportModule ++ " import Transport", "", "", paramsClass]

/-- The module of an endpoint with the given bindings. -/
def moduleText (e : Endpoint) (bindings : List Binding) : Except Defect String := do
  let cls ← paramsClass e
  return endLines (moduleLines e cls ++ bindings.flatMap fun b => ["", "", b.body])

def transportText : String :=
  endLines
    ["\"\"\"Transport protocol consumed by the generated bindings.", "",
      "Generated by " ++ generator ++ ". Do not edit.", "\"\"\"", "",
      "from __future__ import annotations", "",
      "from typing import Any, Mapping, Optional, Protocol", "", "",
      "class Transport(Protocol):",
      "    \"\"\"Executes a request described by a generated binding.", "",
      "    Implementations substitute \x60\x60parts\x60\x60 into the \x60\x60\x7bname\x7d\x60\x60 placeholders of",
      "    \x60\x60path\x60\x60 (joining list values with commas and URL-encoding them), encode",
      "    the fields of \x60\x60params\x60\x60 as the query string under each field's",
      "    \x60\x60metadata[\"wire\"]\x60\x60 name while skipping \x60\x60None\x60\x60 values, and send",
      "    \x60\x60body\x60\x60 serialised according to \x60\x60serialize\x60\x60 (\x60\x60\"bulk\"\x60\x60 means",
      "    newline-delimited JSON, anything else plain JSON).",
      "    \"\"\"", "",
      "    def request(",
      "        self,",
      "        method: str,",
      "        path: str,",
      "        *,",
      "        parts: Optional[Mapping[str, Any]] = None,",
      "        params: Any = None,",
      "        body: Any = None,",
      "        serialize: Optional[str] = None,",
      "    ) -> Any:",
      "        ..."]

/-- The modules of a package, each with its endpoint's name. -/
structure ModuleName where
  name : String
  endpoint : String
  deriving DecidableEq, Repr

/-- Free module names for endpoint names. -/
def nameModules (taken names : List String) : List ModuleName :=
  nameInTurn (fun endpoint => uniqueIdentifier (moduleName endpoint))
    (fun endpoint name => ⟨name, endpoint⟩) taken names

/-- The module names that the package itself uses. -/
def reservedModules : List String := [transportModule, "__init__"]

def packageInitText (modules : List ModuleName) : String :=
  endLines (
    ["\"\"\"Client bindings generated by " ++ generator ++ ". Do not edit."] ++
    (if modules.isEmpty then []
      else ["", "Endpoints:"] ++ modules.map fun m =>
        "    " ++ m.name ++ ": \x60\x60" ++ docstringText m.endpoint ++ "\x60\x60") ++
    ["\"\"\"", "", "from ._transport import Transport"] ++
    (if modules.isEmpty then []
      else ["from . import ("] ++ modules.map (fun m => "    " ++ m.name ++ ",") ++ [")"]) ++
    ["", "__all__ = [", "    \"Transport\","] ++
    modules.map (fun m => "    \"" ++ m.name ++ "\",") ++ ["]"])

def fileName (module : String) : String := module ++ ".py"

/-- The module files of a registry's endpoints. -/
def moduleFiles (r : Registry) (bindings : List Binding) :
    List ModuleName → Except Defect (List (String × String))
  | [] => .ok []
  | m :: rest =>
    match r.get? m.endpoint with
    | none => moduleFiles r bindings rest
    | some e => do
      let text ← moduleText e (bindings.filter (·.endpoint == m.endpoint))
      return (fileName m.name, text) :: (← moduleFiles r bindings rest)

/-- Every file of the package with its text: the transport, a module for each endpoint in the order
of their names, and the list of the modules. -/
def package (r : Registry) : Except Defect (List (String × String)) := do
  let bindings ← emit r
  let modules := nameModules reservedModules r.names
  let files ← moduleFiles r bindings modules
  return (fileName transportModule, transportText) :: files ++
    [(fileName "__init__", packageInitText modules)]

end EndpointBindings.Emission
