import EndpointBindings.Yaml.Name

/-!
The signs and scalars of a YAML text in order. Indentation is made explicit: a block opens at a
deeper column and is closed when a line goes back.
-/

namespace EndpointBindings.Yaml

inductive Token where
  | directive (d : Directive)
  | documentStart
  | documentEnd
  | sequenceStart
  | mappingStart
  | blockEnd
  | flowSequenceStart
  | flowSequenceEnd
  | flowMappingStart
  | flowMappingEnd
  | entry
  | separator
  | key
  | value
  | alias (name : String)
  | anchor (name : String)
  | tag (tag : WrittenTag)
  | scalar (text : String) (plain : Bool)
  deriving DecidableEq, Repr

end EndpointBindings.Yaml
