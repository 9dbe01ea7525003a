import RubyOutline.Text.Blank
import RubyOutline.Source
import RubyOutline.ParseNode
import RubyOutline.SyntaxNode
import RubyOutline.Conversion
import RubyOutline.Recovery
import RubyOutline.Outline
import RubyOutline.Value.Json
import RubyOutline.Text.Quoted
import RubyOutline.FileSystem
import RubyOutline.Checked
import RubyOutline.MacroTable.Checked
import RubyOutline.Symbol.Checked
import RubyOutline.Symbol.Lsp
import RubyOutline.Settings.Environment
import RubyOutline.Service
import RubyOutline.Service.Tool
import RubyOutline.Yaml.Scalar
import RubyOutline.Yaml.Token
import RubyOutline.Yaml.Node
import RubyOutline.Yaml.Schema
import RubyOutline.Settings.File
import RubyOutline.Log
import RubyOutline.ParseNode.Rows
import RubyOutline.Symbol.Listing
import RubyOutline.CommandLine.Run
import RubyOutline.Main
import RubyOutline.Proofs.Outline.Recursion
import RubyOutline.Proofs.ParentTable
import RubyOutline.Proofs.SymbolBuilder
import RubyOutline.Proofs.Outline.Walk
import RubyOutline.Proofs.RangesNested
import RubyOutline.Proofs.Outline.Containment
import RubyOutline.Proofs.ParseNode.PostOrder
import RubyOutline.Proofs.ParseNode.DistinctIds
import RubyOutline.Proofs.Conversion.Memo
import RubyOutline.Proofs.Conversion.Containment
import RubyOutline.Proofs.Outliner.Supersession
import RubyOutline.Proofs.Service.Interleaving
import RubyOutline.Proofs.Service.Answers
import RubyOutline.Proofs.Service.NewestVersion
import RubyOutline.Proofs.SyntaxNode.Map
import RubyOutline.Proofs.Everywhere
import RubyOutline.Proofs.Outline.Names
import RubyOutline.Proofs.Conversion.Evaluation
import RubyOutline.Proofs.Conversion.Names
import RubyOutline.Proofs.Conversion.Comments
import RubyOutline.Proofs.Conversion.SourceOrder
import RubyOutline.Proofs.Source.Selection
import RubyOutline.Proofs.Conversion.Declarations
import RubyOutline.Proofs.Conversion.Selection
import RubyOutline.Proofs.Conversion.Ways
import RubyOutline.Proofs.Conversion.Visited
import RubyOutline.Proofs.Conversion.Reached
import RubyOutline.Proofs.Source.Units
import RubyOutline.Proofs.Service.Requests
import RubyOutline.Proofs.CommandLine.Files
import RubyOutline.Proofs.Conversion.Errors
import RubyOutline.Proofs.ParseNode.Recoveries
import RubyOutline.Proofs.Outline.OpaqueRegions
import RubyOutline.Proofs.Outline.Visits
import RubyOutline.Proofs.Outline.Composition
import RubyOutline.Proofs.Outline.Disjointness
import RubyOutline.Proofs.MacroTable.Changes
import RubyOutline.Proofs.Outline.Lookups
import RubyOutline.Proofs.SyntaxNode.Layers
import RubyOutline.Proofs.Outline.Spelling
import RubyOutline.Proofs.Outline.MappedRanges
import RubyOutline.Proofs.Conversion.Encodings
import RubyOutline.Proofs.Conversion.ConstantPaths
import RubyOutline.Proofs.SymbolBuilder.Numbers
import RubyOutline.Proofs.MacroTable.History
import RubyOutline.Proofs.Settings.Macros
import RubyOutline.Proofs.SymbolBuilder.Runs
import RubyOutline.Proofs.DocumentFile.Versions
import RubyOutline.Proofs.ParseNode.ChildrenFirst
import RubyOutline.Proofs.Settings.Loading
import RubyOutline.Proofs.Conversion.MemoHits
import RubyOutline.Proofs.Symbol.Written
import RubyOutline.Proofs.Conversion.BlockCallbacks
import RubyOutline.Proofs.DocumentFile.Uris
