import EndpointBindings.Assembly
import EndpointBindings.Calendar
import EndpointBindings.CommandLine
import EndpointBindings.CommandLine.Arguments
import EndpointBindings.CommandLine.Usage
import EndpointBindings.Compilation
import EndpointBindings.Config
import EndpointBindings.Config.Fault
import EndpointBindings.Config.Layer
import EndpointBindings.Config.Places
import EndpointBindings.Config.Reading
import EndpointBindings.Config.Resolution
import EndpointBindings.Console
import EndpointBindings.Default
import EndpointBindings.Defect
import EndpointBindings.Discovery
import EndpointBindings.Document
import EndpointBindings.Emission
import EndpointBindings.Emission.Docstring
import EndpointBindings.Emission.Function
import EndpointBindings.Emission.Literal
import EndpointBindings.Emission.Module
import EndpointBindings.Emission.ParamsClass
import EndpointBindings.Emission.Source
import EndpointBindings.Emission.TypeHint
import EndpointBindings.Endpoint
import EndpointBindings.ErrorKind
import EndpointBindings.FilePath
import EndpointBindings.FileSystem
import EndpointBindings.FileSystem.Writing
import EndpointBindings.Json.Fault
import EndpointBindings.Json.Reader
import EndpointBindings.Json.Writer
import EndpointBindings.Main
import EndpointBindings.NameMap
import EndpointBindings.Naming
import EndpointBindings.Naming.Fresh
import EndpointBindings.Naming.Identifier
import EndpointBindings.Number.Arithmetic
import EndpointBindings.Number.Binary64
import EndpointBindings.Number.Count
import EndpointBindings.Number.Reading
import EndpointBindings.Number.Shortest
import EndpointBindings.Param
import EndpointBindings.Path
import EndpointBindings.Pattern
import EndpointBindings.Pattern.Atom
import EndpointBindings.Program
import EndpointBindings.Program.Reach
import EndpointBindings.Proofs.AssemblyDefects
import EndpointBindings.Proofs.AssemblyOrder
import EndpointBindings.Proofs.AssemblySuccess
import EndpointBindings.Proofs.AtomicWriting
import EndpointBindings.Proofs.BindingOrder
import EndpointBindings.Proofs.BoundNames
import EndpointBindings.Proofs.CanonicalIdentifiers
import EndpointBindings.Proofs.ChoiceDefaults
import EndpointBindings.Proofs.ClassBody
import EndpointBindings.Proofs.ClassFields
import EndpointBindings.Proofs.ClassNames
import EndpointBindings.Proofs.ClassSkeleton
import EndpointBindings.Proofs.CompileOutcome
import EndpointBindings.Proofs.ConfigDefects
import EndpointBindings.Proofs.ConfigPrecedence
import EndpointBindings.Proofs.DeclarationGrammar
import EndpointBindings.Proofs.DeclarationOutline
import EndpointBindings.Proofs.DefaultFits
import EndpointBindings.Proofs.DefaultReading
import EndpointBindings.Proofs.DefaultTyping
import EndpointBindings.Proofs.DiagnosticFlags
import EndpointBindings.Proofs.DirectoryMaking
import EndpointBindings.Proofs.DirectoryWalk
import EndpointBindings.Proofs.DocstringCharacters
import EndpointBindings.Proofs.DocstringReading
import EndpointBindings.Proofs.DocumentGrammar
import EndpointBindings.Proofs.DocumentSelection
import EndpointBindings.Proofs.DocumentShapes
import EndpointBindings.Proofs.EndpointAgreement
import EndpointBindings.Proofs.ExceptResults
import EndpointBindings.Proofs.ExpressionNames
import EndpointBindings.Proofs.ExtraPatterns
import EndpointBindings.Proofs.FileIsolation
import EndpointBindings.Proofs.FileTree
import EndpointBindings.Proofs.FileWriting
import EndpointBindings.Proofs.FloatRange
import EndpointBindings.Proofs.FractionText
import EndpointBindings.Proofs.FreshNames
import EndpointBindings.Proofs.FunctionNames
import EndpointBindings.Proofs.FunctionSkeleton
import EndpointBindings.Proofs.Identifiers
import EndpointBindings.Proofs.JsonDecoded
import EndpointBindings.Proofs.JsonRoundTrip
import EndpointBindings.Proofs.Listings
import EndpointBindings.Proofs.LiteralMeaning
import EndpointBindings.Proofs.LiteralReading
import EndpointBindings.Proofs.MergeOwnership
import EndpointBindings.Proofs.ModuleOrder
import EndpointBindings.Proofs.ModuleOutline
import EndpointBindings.Proofs.ModuleSkeleton
import EndpointBindings.Proofs.NameLoops
import EndpointBindings.Proofs.NameMapLookup
import EndpointBindings.Proofs.NestingRoom
import EndpointBindings.Proofs.PackageFiles
import EndpointBindings.Proofs.PackageModules
import EndpointBindings.Proofs.PackageOrder
import EndpointBindings.Proofs.PackageWriting
import EndpointBindings.Proofs.PathPlaceholders
import EndpointBindings.Proofs.PlainText
import EndpointBindings.Proofs.RegisteredEmission
import EndpointBindings.Proofs.RelatedLists
import EndpointBindings.Proofs.Reordering
import EndpointBindings.Proofs.Scheduling
import EndpointBindings.Proofs.Sessions
import EndpointBindings.Proofs.Signatures
import EndpointBindings.Proofs.SingleFile
import EndpointBindings.Proofs.SourceCharacters
import EndpointBindings.Proofs.SourceForms
import EndpointBindings.Proofs.SourceLines
import EndpointBindings.Proofs.SourceOutline
import EndpointBindings.Proofs.SourceSkeleton
import EndpointBindings.Proofs.SurrogatePairs
import EndpointBindings.Proofs.TemplateGrammar
import EndpointBindings.Proofs.TemplateSegments
import EndpointBindings.Proofs.TextUnits
import EndpointBindings.Proofs.TransportCall
import EndpointBindings.Proofs.TypingImports
import EndpointBindings.Publishing
import EndpointBindings.Registry
import EndpointBindings.Run
import EndpointBindings.Run.Compile
import EndpointBindings.Run.CrashLog
import EndpointBindings.Run.Inspect
import EndpointBindings.Run.Show
import EndpointBindings.RunError
import EndpointBindings.SpecError
import EndpointBindings.Text.Base64
import EndpointBindings.Text.Blank
import EndpointBindings.Text.Case
import EndpointBindings.Text.Digit
import EndpointBindings.Text.Escaped
import EndpointBindings.Text.LineEnd
import EndpointBindings.Text.Printable
import EndpointBindings.Text.Quoted
import EndpointBindings.Text.Utf8
import EndpointBindings.Text.Word
import EndpointBindings.Value
import EndpointBindings.Value.Display
import EndpointBindings.ValueType
import EndpointBindings.Verb
import EndpointBindings.World
import EndpointBindings.Yaml.Block
import EndpointBindings.Yaml.Cursor
import EndpointBindings.Yaml.Document
import EndpointBindings.Yaml.Merge
import EndpointBindings.Yaml.Name
import EndpointBindings.Yaml.Node
import EndpointBindings.Yaml.Object
import EndpointBindings.Yaml.Plain
import EndpointBindings.Yaml.Quoted
import EndpointBindings.Yaml.Scalar
import EndpointBindings.Yaml.Tag
import EndpointBindings.Yaml.Token
import EndpointBindings.Yaml.Token.Reader
