import SchemaGraph.Chain.Associate
import SchemaGraph.Chain.Basic
import SchemaGraph.Chain.Error
import SchemaGraph.Chain.Expansion
import SchemaGraph.Chain.Hop
import SchemaGraph.Chain.Link
import SchemaGraph.Chain.Scanner
import SchemaGraph.Chain.Term
import SchemaGraph.Collections.Bisection
import SchemaGraph.Collections.Entries
import SchemaGraph.Collections.OrderedMap
import SchemaGraph.Collections.OrderedSet
import SchemaGraph.Collections.SortedMap
import SchemaGraph.Command.Arguments
import SchemaGraph.Command.Flag
import SchemaGraph.Command.Help
import SchemaGraph.Command.Report
import SchemaGraph.Command.Request
import SchemaGraph.Command.Run
import SchemaGraph.Command.Verb
import SchemaGraph.Data.Format
import SchemaGraph.Data.Json.Numeral
import SchemaGraph.Data.Json.Printer
import SchemaGraph.Data.Json.Quotation
import SchemaGraph.Data.Json.Reader
import SchemaGraph.Data.Plain
import SchemaGraph.Data.Text
import SchemaGraph.Data.Tree
import SchemaGraph.Data.Typed
import SchemaGraph.Data.Yaml.Cell
import SchemaGraph.Data.Yaml.Reader
import SchemaGraph.Data.Yaml.Scalar
import SchemaGraph.Data.Yaml.Token
import SchemaGraph.Decimal.Digits
import SchemaGraph.Decimal.Double
import SchemaGraph.Decimal.Layout
import SchemaGraph.Decimal.Scaled
import SchemaGraph.Decimal.Shortest
import SchemaGraph.Digest.Sha256
import SchemaGraph.Entity.Basic
import SchemaGraph.Entity.Core
import SchemaGraph.Entity.Directive
import SchemaGraph.Entity.Event
import SchemaGraph.Entity.Fingerprint
import SchemaGraph.Entity.Node
import SchemaGraph.Entity.Text
import SchemaGraph.Entity.Tree
import SchemaGraph.Identifier.Basic
import SchemaGraph.Identifier.Digit
import SchemaGraph.Identifier.Lemmas
import SchemaGraph.Identifier.Maker
import SchemaGraph.Main
import SchemaGraph.Proofs.Chain.Anchoring
import SchemaGraph.Proofs.Chain.Association
import SchemaGraph.Proofs.Chain.Attempts
import SchemaGraph.Proofs.Chain.Binding
import SchemaGraph.Proofs.Chain.Expansion
import SchemaGraph.Proofs.Chain.Faults
import SchemaGraph.Proofs.Chain.Grammar
import SchemaGraph.Proofs.Chain.Labels
import SchemaGraph.Proofs.Chain.Reading
import SchemaGraph.Proofs.Chain.Scanning
import SchemaGraph.Proofs.Chain.Walk
import SchemaGraph.Proofs.Chain.Writing
import SchemaGraph.Proofs.Collections.Bisection
import SchemaGraph.Proofs.Collections.Firsts
import SchemaGraph.Proofs.Collections.Listing
import SchemaGraph.Proofs.Collections.Order
import SchemaGraph.Proofs.Data.Numeral
import SchemaGraph.Proofs.Data.Printing
import SchemaGraph.Proofs.Data.Quotation
import SchemaGraph.Proofs.Decimal.Digits
import SchemaGraph.Proofs.Decimal.Double
import SchemaGraph.Proofs.Decimal.Layout
import SchemaGraph.Proofs.Decimal.Shortest
import SchemaGraph.Proofs.Decimal.Whole
import SchemaGraph.Proofs.Entity.Audit
import SchemaGraph.Proofs.Entity.Coherence
import SchemaGraph.Proofs.Entity.Dependence
import SchemaGraph.Proofs.Entity.Ends
import SchemaGraph.Proofs.Entity.Fingerprint
import SchemaGraph.Proofs.Entity.Flat
import SchemaGraph.Proofs.Entity.Identity
import SchemaGraph.Proofs.Entity.Lawful
import SchemaGraph.Proofs.Entity.Merging
import SchemaGraph.Proofs.Entity.Text
import SchemaGraph.Proofs.Identifier.Checking
import SchemaGraph.Proofs.Identifier.Counting
import SchemaGraph.Proofs.Identifier.Digits
import SchemaGraph.Proofs.Identifier.Layout
import SchemaGraph.Proofs.Identifier.Minting
import SchemaGraph.Proofs.Identifier.Overlap
import SchemaGraph.Proofs.Outcome
import SchemaGraph.Proofs.Schema.Catalog
import SchemaGraph.Proofs.Schema.Declaration
import SchemaGraph.Proofs.Schema.Guarding
import SchemaGraph.Proofs.Schema.Integrity
import SchemaGraph.Proofs.Schema.Loading
import SchemaGraph.Proofs.Schema.Registration
import SchemaGraph.Proofs.Store.Access
import SchemaGraph.Proofs.Store.Adding
import SchemaGraph.Proofs.Store.Arrival
import SchemaGraph.Proofs.Store.Bulk
import SchemaGraph.Proofs.Store.Consistency
import SchemaGraph.Proofs.Store.Contents
import SchemaGraph.Proofs.Store.Currency
import SchemaGraph.Proofs.Store.Grouping
import SchemaGraph.Proofs.Store.Identity
import SchemaGraph.Proofs.Store.Insertion
import SchemaGraph.Proofs.Store.Intake
import SchemaGraph.Proofs.Store.Listing
import SchemaGraph.Proofs.Store.Loading
import SchemaGraph.Proofs.Store.Merging
import SchemaGraph.Proofs.Store.Moving
import SchemaGraph.Proofs.Store.Planning
import SchemaGraph.Proofs.Store.Reached
import SchemaGraph.Proofs.Store.Refiling
import SchemaGraph.Proofs.Store.Rejection
import SchemaGraph.Proofs.Store.Rekeying
import SchemaGraph.Proofs.Store.Renaming
import SchemaGraph.Proofs.Store.Replacing
import SchemaGraph.Proofs.Store.Repointing
import SchemaGraph.Proofs.Store.RoundTrip
import SchemaGraph.Proofs.Store.Shelf
import SchemaGraph.Proofs.Store.Steps
import SchemaGraph.Proofs.Store.Undoing
import SchemaGraph.Proofs.Store.Uniqueness
import SchemaGraph.Proofs.Store.Views
import SchemaGraph.Proofs.Time.Notation
import SchemaGraph.Proofs.Value.Json
import SchemaGraph.Proofs.Value.Text
import SchemaGraph.Proofs.Value.Tree
import SchemaGraph.Schema.Catalog
import SchemaGraph.Schema.Definition
import SchemaGraph.Schema.Document
import SchemaGraph.Schema.Registry
import SchemaGraph.Schema.Text
import SchemaGraph.Schema.Tree
import SchemaGraph.Store.Basic
import SchemaGraph.Store.Contents
import SchemaGraph.Store.Document
import SchemaGraph.Store.Error
import SchemaGraph.Store.Shelf
import SchemaGraph.Store.Update
import SchemaGraph.Text.Blank
import SchemaGraph.Text.Control
import SchemaGraph.Text.Position
import SchemaGraph.Text.Quoted
import SchemaGraph.Text.Unmarked
import SchemaGraph.Time.Date
import SchemaGraph.Time.Instant
import SchemaGraph.Time.Notation
import SchemaGraph.Value.Basic
import SchemaGraph.Value.Text
import SchemaGraph.Value.Tree
