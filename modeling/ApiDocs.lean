import ApiDocs.CommandLine
import ApiDocs.Declaration.OfSource
import ApiDocs.Definition.OfDeclaration
import ApiDocs.Directive.OfOperation
import ApiDocs.Document.OfOperations
import ApiDocs.Generation
import ApiDocs.Json
import ApiDocs.Main
import ApiDocs.Manifest
import ApiDocs.Package
import ApiDocs.Schema.OfDefinition
import ApiDocs.Yaml
import ApiDocs.Proofs.Resolution
import ApiDocs.Proofs.Definer.Step
import ApiDocs.Proofs.Definer.Run
import ApiDocs.Proofs.Definer.Invariant
import ApiDocs.Proofs.Names
import ApiDocs.Proofs.Definer.PlainNames
import ApiDocs.Proofs.Directive
import ApiDocs.Proofs.References
import ApiDocs.Proofs.Generation
import ApiDocs.Proofs.Definer.Trace
import ApiDocs.Proofs.Definer.Nesting
import ApiDocs.Proofs.Flattening
import ApiDocs.Proofs.Regular
import ApiDocs.Proofs.Required
import ApiDocs.Proofs.UnitGraph.Order
import ApiDocs.Proofs.Lookup
import ApiDocs.Proofs.UnitGraph.Exploration
import ApiDocs.Proofs.UnitGraph.Imports
import ApiDocs.Proofs.UnitGraph.Closure
import ApiDocs.Proofs.Package.Uses
import ApiDocs.Proofs.Package.Contents
import ApiDocs.Proofs.Package.Qualifiers
import ApiDocs.Proofs.Definer.Course
import ApiDocs.Proofs.Growth
import ApiDocs.Proofs.Unfinished
import ApiDocs.Proofs.TypeText
import ApiDocs.Proofs.Source.TypeText
import ApiDocs.Proofs.Text
import ApiDocs.Proofs.Source.Validation
import ApiDocs.Proofs.Provenance
import ApiDocs.Proofs.Independence
import ApiDocs.Proofs.Renaming
import ApiDocs.Proofs.Loads
import ApiDocs.Proofs.Definer.Failures
import ApiDocs.Proofs.Definer.Termination
import ApiDocs.Proofs.Source.WireName
import ApiDocs.Proofs.Source.Enumeration
import ApiDocs.Proofs.Source.TextValues
import ApiDocs.Proofs.Path
import ApiDocs.Proofs.Directive.Block
import ApiDocs.Proofs.Document
import ApiDocs.Proofs.Document.Text
import ApiDocs.Proofs.Package.Folders
import ApiDocs.Proofs.Package.Unplaced
import ApiDocs.Proofs.Number.Integers
import ApiDocs.Proofs.Schema.Bounds
import ApiDocs.Proofs.Schema.Properties
import ApiDocs.Proofs.Resolution.FirstDeclaring
import ApiDocs.Proofs.Text.Occurrence
import ApiDocs.Proofs.Exclusion
import ApiDocs.Proofs.Document.Paths
import ApiDocs.Proofs.Directive.Accounting
import ApiDocs.Proofs.Source.Imports
import ApiDocs.Proofs.Directive.TypeName
import ApiDocs.Proofs.Source.Lexemes
import ApiDocs.Proofs.Source.Reader
import ApiDocs.Proofs.Directive.SourceType
import ApiDocs.Proofs.Path.Spelling
import ApiDocs.Proofs.Package.ModuleWalk
import ApiDocs.Proofs.Package.ModuleFiles
import ApiDocs.Proofs.Selection
import ApiDocs.Proofs.TypeText.Shape
