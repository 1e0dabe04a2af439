import ThriftCatalog.ClassSet
import ThriftCatalog.CommandLine.Arguments
import ThriftCatalog.CommandLine.Files
import ThriftCatalog.CommandLine.Path
import ThriftCatalog.CommandLine.Report
import ThriftCatalog.CommandLine.Run
import ThriftCatalog.CommandLine.Summary
import ThriftCatalog.Config.Basic
import ThriftCatalog.Config.Reader
import ThriftCatalog.Config.Template
import ThriftCatalog.Descriptor
import ThriftCatalog.Document.Node
import ThriftCatalog.Document.Reader
import ThriftCatalog.Document.Tag
import ThriftCatalog.Document.Text
import ThriftCatalog.Generation.Basic
import ThriftCatalog.Generation.Binding
import ThriftCatalog.Generation.Error
import ThriftCatalog.Generation.Resolver
import ThriftCatalog.Generation.Service
import ThriftCatalog.Json.Basic
import ThriftCatalog.Json.Member
import ThriftCatalog.Json.Numeral
import ThriftCatalog.Json.Parser
import ThriftCatalog.Json.Printer
import ThriftCatalog.Json.Token
import ThriftCatalog.Main
import ThriftCatalog.Model.ClassInfo
import ThriftCatalog.Model.JsonForm
import ThriftCatalog.Model.Service
import ThriftCatalog.Model.TypeInfo
import ThriftCatalog.Naming
import ThriftCatalog.Number.Binary64
import ThriftCatalog.Number.Notation
import ThriftCatalog.Number.Shortest
import ThriftCatalog.Proofs.Accounting
import ThriftCatalog.Proofs.Acyclicity
import ThriftCatalog.Proofs.Addition
import ThriftCatalog.Proofs.AliasChain
import ThriftCatalog.Proofs.AliasSearch
import ThriftCatalog.Proofs.Answer
import ThriftCatalog.Proofs.Closure
import ThriftCatalog.Proofs.Coherence
import ThriftCatalog.Proofs.Collection
import ThriftCatalog.Proofs.CommandAgreement
import ThriftCatalog.Proofs.Conflict
import ThriftCatalog.Proofs.Conservation
import ThriftCatalog.Proofs.Consistency
import ThriftCatalog.Proofs.CutReference
import ThriftCatalog.Proofs.CycleBreaking
import ThriftCatalog.Proofs.Declaration
import ThriftCatalog.Proofs.DeclaredType
import ThriftCatalog.Proofs.DepthCap
import ThriftCatalog.Proofs.Description
import ThriftCatalog.Proofs.DocFiling
import ThriftCatalog.Proofs.DocIndependence
import ThriftCatalog.Proofs.Documentation
import ThriftCatalog.Proofs.Expansion
import ThriftCatalog.Proofs.Exposure
import ThriftCatalog.Proofs.Extension
import ThriftCatalog.Proofs.Fallible
import ThriftCatalog.Proofs.FieldReference
import ThriftCatalog.Proofs.FileOrder
import ThriftCatalog.Proofs.FloatReading
import ThriftCatalog.Proofs.Generation
import ThriftCatalog.Proofs.Grouping
import ThriftCatalog.Proofs.Isolation
import ThriftCatalog.Proofs.JsonForm
import ThriftCatalog.Proofs.JsonReading
import ThriftCatalog.Proofs.JsonText
import ThriftCatalog.Proofs.KeyText
import ThriftCatalog.Proofs.LastMember
import ThriftCatalog.Proofs.Lowering
import ThriftCatalog.Proofs.Merging
import ThriftCatalog.Proofs.NumberReading
import ThriftCatalog.Proofs.NumberText
import ThriftCatalog.Proofs.NumeralText
import ThriftCatalog.Proofs.Occurrence
import ThriftCatalog.Proofs.ParameterDocs
import ThriftCatalog.Proofs.Reachability
import ThriftCatalog.Proofs.Recording
import ThriftCatalog.Proofs.RegistryFileText
import ThriftCatalog.Proofs.Reordering
import ThriftCatalog.Proofs.Resolution
import ThriftCatalog.Proofs.Respelling
import ThriftCatalog.Proofs.ReturnType
import ThriftCatalog.Proofs.Rounding
import ThriftCatalog.Proofs.SamplePositions
import ThriftCatalog.Proofs.SampleText
import ThriftCatalog.Proofs.Service
import ThriftCatalog.Proofs.ShortestDecimal
import ThriftCatalog.Proofs.Signature
import ThriftCatalog.Proofs.Stability
import ThriftCatalog.Proofs.Strictness
import ThriftCatalog.Proofs.Table
import ThriftCatalog.Proofs.Tour
import ThriftCatalog.Proofs.Truthfulness
import ThriftCatalog.Proofs.TypeGrammar
import ThriftCatalog.Proofs.TypeReading
import ThriftCatalog.Proofs.TypeRendering
import ThriftCatalog.Proofs.TypeSlicing
import ThriftCatalog.Proofs.Undocumented
import ThriftCatalog.Proofs.Validation
import ThriftCatalog.Proofs.ValueReading
import ThriftCatalog.Proofs.Walk
import ThriftCatalog.Proofs.WalkInvariant
import ThriftCatalog.Provider
import ThriftCatalog.Registry.AddFile
import ThriftCatalog.Registry.Alias
import ThriftCatalog.Registry.Basic
import ThriftCatalog.Registry.CycleCut
import ThriftCatalog.Registry.Definitions
import ThriftCatalog.Registry.Error
import ThriftCatalog.Registry.Lowering
import ThriftCatalog.Registry.Reference
import ThriftCatalog.Registry.Validation
import ThriftCatalog.RegistryFile.Basic
import ThriftCatalog.RegistryFile.Reader
import ThriftCatalog.RegistryFile.Text
import ThriftCatalog.RegistryFile.Writer
import ThriftCatalog.Requirement
import ThriftCatalog.Sample.Conformance
import ThriftCatalog.Sample.Encoder
import ThriftCatalog.Table.Basic
import ThriftCatalog.Table.Lemmas
import ThriftCatalog.Text.Blank
import ThriftCatalog.TypeExpr.Basic
import ThriftCatalog.TypeExpr.Parser
import ThriftCatalog.Yaml.CoreSchema
import ThriftCatalog.Yaml.Cursor
import ThriftCatalog.Yaml.Printer
import ThriftCatalog.Yaml.Property
import ThriftCatalog.Yaml.Scalar
import ThriftCatalog.Yaml.Token
import ThriftCatalog.Yaml.Token.Lexer
import ThriftCatalog.Yaml.Tree
