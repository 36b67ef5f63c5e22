import Schematic.Artifact
import Schematic.Buffer
import Schematic.Buffer.Access
import Schematic.Buffer.Operation
import Schematic.Calendar
import Schematic.Code.Body
import Schematic.Code.Constant
import Schematic.Code.Declaration
import Schematic.Code.Piece
import Schematic.Code.Source
import Schematic.Command
import Schematic.Command.Arguments
import Schematic.Command.Help
import Schematic.Command.Run
import Schematic.Config
import Schematic.Document
import Schematic.FileTree
import Schematic.Glob
import Schematic.Identifier
import Schematic.Layout
import Schematic.Literal.Double
import Schematic.Literal.Integer
import Schematic.Literal.Number
import Schematic.Literal.Quoted
import Schematic.Literal.Single
import Schematic.Main
import Schematic.MessagePack
import Schematic.Method.Defaults
import Schematic.Method.Place
import Schematic.Method.Reader
import Schematic.Method.Run
import Schematic.Method.Memory
import Schematic.Method.Serializer
import Schematic.Path
import Schematic.Project
import Schematic.Scene
import Schematic.Schema
import Schematic.Schema.Check
import Schematic.Schema.Default
import Schematic.Schema.Document
import Schematic.Schema.Dump
import Schematic.Schema.Error
import Schematic.Schema.Name
import Schematic.Schema.Reader
import Schematic.Text
import Schematic.Text.Base64
import Schematic.Text.Blank
import Schematic.Text.Decimal
import Schematic.Text.Escaped
import Schematic.Text.Letter
import Schematic.Text.LittleEndian
import Schematic.Text.Printable
import Schematic.Text.Rune
import Schematic.Text.Title
import Schematic.Text.Title.Cased
import Schematic.Text.Title.Mapping
import Schematic.Text.Title.Word
import Schematic.Token
import Schematic.Token.Cursor
import Schematic.Token.Scanner
import Schematic.Toml.Statement
import Schematic.Toml.Table
import Schematic.Value
import Schematic.Yaml.Characters
import Schematic.Yaml.Meaning
import Schematic.Yaml.Node
import Schematic.Yaml.Record
import Schematic.Yaml.Scalar
import Schematic.Yaml.Scanner
import Schematic.Yaml.Token
import Schematic.Yaml.Writer
import Schematic.Proofs.BufferStep
import Schematic.Proofs.LittleEndian
import Schematic.Proofs.Payload
import Schematic.Proofs.Linked
import Schematic.Proofs.ByValue
import Schematic.Proofs.Promise
import Schematic.Proofs.Instance
import Schematic.Proofs.Reading
import Schematic.Proofs.ValueWriting
import Schematic.Proofs.Accepted
import Schematic.Proofs.FieldWriting
import Schematic.Proofs.StructWriting
import Schematic.Proofs.Handles
import Schematic.Proofs.Marshal
import Schematic.Proofs.Grammar
import Schematic.Proofs.Lines
import Schematic.Proofs.Scopes
import Schematic.Proofs.Derivation
import Schematic.Proofs.Acceptance
import Schematic.Proofs.Appending
import Schematic.Proofs.DeclaredNames
import Schematic.Proofs.Reordering
import Schematic.Proofs.History
import Schematic.Proofs.FullNames
import Schematic.Proofs.Headers
import Schematic.Proofs.Registered
import Schematic.Proofs.Coherence
import Schematic.Proofs.Drawing
import Schematic.Proofs.DrawingReading
import Schematic.Proofs.SlotCount
import Schematic.Proofs.DrawingMarshal
import Schematic.Proofs.Pieces
import Schematic.Proofs.OnePass
import Schematic.Proofs.Typesetting
import Schematic.Proofs.CleanPaths
import Schematic.Proofs.FileWriting
import Schematic.Proofs.ArtifactPaths
import Schematic.Proofs.Delivery
import Schematic.Proofs.InPlace
import Schematic.Proofs.LaidOut
import Schematic.Proofs.OpenComments
import Schematic.Proofs.Lexemes
import Schematic.Proofs.LabelValues
import Schematic.Proofs.MemberNames
import Schematic.Proofs.DefaultLiterals
import Schematic.Proofs.Defaulting
import Schematic.Proofs.Addresses
import Schematic.Proofs.DefaultsInMemory
import Schematic.Proofs.NumberReading
import Schematic.Proofs.SingleRounding
import Schematic.Proofs.UsableNames
import Schematic.Proofs.QuotedTexts
import Schematic.Proofs.TableReading
import Schematic.Proofs.Relocating
import Schematic.Proofs.ResolutionOrder
import Schematic.Proofs.Refusals
import Schematic.Proofs.EndlessBases
import Schematic.Proofs.RefusedTokens
import Schematic.Proofs.DumpRows
import Schematic.Proofs.FaithfulDump
import Schematic.Proofs.NamingTokens
import Schematic.Proofs.RepeatedMembers
import Schematic.Proofs.SortedTexts
import Schematic.Proofs.AgreeingTrees
import Schematic.Proofs.SchemaFiles
import Schematic.Proofs.Confinement
import Schematic.Proofs.Sequences
import Schematic.Proofs.BehindSlots
import Schematic.Proofs.Generation
