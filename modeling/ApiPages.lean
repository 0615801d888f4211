import ApiPages.Cache.Basic
import ApiPages.Cache.Digest
import ApiPages.Cache.Key
import ApiPages.Catalogue
import ApiPages.CommandLine.Invocation
import ApiPages.CommandLine.Run
import ApiPages.Comment.Basic
import ApiPages.Comment.Value
import ApiPages.Config.File
import ApiPages.Config.Toml
import ApiPages.Extract.Describe
import ApiPages.Extract.FileDoclets
import ApiPages.Extract.Input
import ApiPages.Extract.Naming
import ApiPages.Extract.Sources
import ApiPages.Extract.TagTable
import ApiPages.Failure
import ApiPages.Files.Disk
import ApiPages.Files.Glob
import ApiPages.Files.Path
import ApiPages.Files.Regular
import ApiPages.Files.Selection
import ApiPages.Json.Bounded
import ApiPages.Json.Double
import ApiPages.Json.Printer
import ApiPages.Json.Reader
import ApiPages.Json.Shape
import ApiPages.Json.Value
import ApiPages.Kind
import ApiPages.Main
import ApiPages.Namepath
import ApiPages.Options.Basic
import ApiPages.Options.Format
import ApiPages.Options.Stage
import ApiPages.Page.Anchor
import ApiPages.Page.Heading
import ApiPages.Page.Index
import ApiPages.Page.Links
import ApiPages.Page.MemberIndex
import ApiPages.Page.Outline
import ApiPages.Page.Section
import ApiPages.Page.Tidy
import ApiPages.Page.View
import ApiPages.Proofs.Identifiers
import ApiPages.Proofs.Json.Records
import ApiPages.Proofs.Json.Text
import ApiPages.Proofs.Outline
import ApiPages.Record.Doclet
import ApiPages.Record.Entry
import ApiPages.Record.Tags
import ApiPages.Service
import ApiPages.Source.Block
import ApiPages.Source.Bytes
import ApiPages.Source.Declaration
import ApiPages.Source.Html
import ApiPages.Source.Token
import ApiPages.Template.Expression
import ApiPages.Template.Filter
import ApiPages.Template.Layout
import ApiPages.Template.Reader
import ApiPages.Template.Render
import ApiPages.Template.Run
import ApiPages.Template.Supplied
import ApiPages.Template.Tree
import ApiPages.Template.Written
import ApiPages.Text.Cluster
import ApiPages.Text.Distance
import ApiPages.Text.Letter
import ApiPages.Text.LetterTable
import ApiPages.Text.Line
import ApiPages.Usage
import ApiPages.Proofs.Cache.Keys
import ApiPages.Proofs.Cache.Entries
import ApiPages.Proofs.Transparency
import ApiPages.Proofs.Anchors
import ApiPages.Proofs.Extract.Additions
import ApiPages.Proofs.Extract.Precedence
import ApiPages.Proofs.Source.Words
import ApiPages.Proofs.Extract.Members
import ApiPages.Proofs.Links
import ApiPages.Proofs.Source.ClassLine
import ApiPages.Proofs.Json.Canonical
import ApiPages.Proofs.Namepath
import ApiPages.Proofs.Extract.Joins
import ApiPages.Proofs.Source.Scopes
import ApiPages.Proofs.Extract.ClassDoclet
import ApiPages.Proofs.Extract.Coherence
import ApiPages.Proofs.Classes
import ApiPages.Proofs.Source.Layout
import ApiPages.Proofs.Source.Continuation
import ApiPages.Proofs.Extract.Inputs
import ApiPages.Proofs.Text.Cells
import ApiPages.Proofs.Tables
import ApiPages.Proofs.CommandLine.Inputs
import ApiPages.Proofs.Files.Folders
import ApiPages.Proofs.Cache.Map
import ApiPages.Proofs.Text.Lines
import ApiPages.Proofs.Tidy
import ApiPages.Proofs.Blocks
import ApiPages.Proofs.CodeBlocks
import ApiPages.Proofs.Text.Marks
import ApiPages.Proofs.Template.Laying
import ApiPages.Proofs.Marks
import ApiPages.Proofs.HarmlessView
import ApiPages.Proofs.Template.Layout
import ApiPages.Proofs.PlainMarkdown
import ApiPages.Proofs.Source.Braces
import ApiPages.Proofs.Source.Literals
import ApiPages.Proofs.Comment.Alternatives
import ApiPages.Proofs.Comment.Written
import ApiPages.Proofs.Comment.Parameter
import ApiPages.Proofs.Captions
import ApiPages.Proofs.Source.Names
import ApiPages.Proofs.Source.Assignment
import ApiPages.Proofs.Source.Semicolon
import ApiPages.Proofs.BlankLines
import ApiPages.Proofs.MemberIndex
import ApiPages.Proofs.MainIndex
import ApiPages.Proofs.Source.Scripts
import ApiPages.Proofs.Source.Junction
import ApiPages.Proofs.Exports
import ApiPages.Proofs.Source.Boundaries
import ApiPages.Proofs.Source.Loops
import ApiPages.Proofs.Source.Bytes
import ApiPages.Proofs.Options.Layers
import ApiPages.Proofs.Template.Layers
