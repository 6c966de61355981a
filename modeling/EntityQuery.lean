import EntityQuery.Compile
import EntityQuery.Listing
import EntityQuery.Settings.Lookup
import EntityQuery.CommandLine.Program
import EntityQuery.Main
import EntityQuery.Proofs.Formula
import EntityQuery.Proofs.Sql.Grammar
import EntityQuery.Proofs.Sql.Reading
import EntityQuery.Proofs.Drafting
import EntityQuery.Proofs.Written
import EntityQuery.Proofs.WhereClause
import EntityQuery.Proofs.RepeatedVisits
import EntityQuery.Proofs.Sql.Lexer
import EntityQuery.Proofs.Compiled
import EntityQuery.Proofs.Sql.Legible
import EntityQuery.Proofs.StatementText
import EntityQuery.Proofs.BoundLiterals
import EntityQuery.Proofs.LiteralIndependence
import EntityQuery.Proofs.Hierarchy.Ancestors
import EntityQuery.Proofs.Joins.Order
import EntityQuery.Proofs.Joins.Requests
import EntityQuery.Proofs.Joins.Plan
import EntityQuery.Proofs.Joins.Sessions
import EntityQuery.Proofs.Joins.Names
import EntityQuery.Proofs.Sql.Tables
import EntityQuery.Proofs.Coverage
import EntityQuery.Proofs.ClosedStatement
import EntityQuery.Proofs.PublicOnly
import EntityQuery.Proofs.WellFormed
import EntityQuery.Proofs.Hierarchy.Agreement
import EntityQuery.Proofs.FailedVisits
import EntityQuery.Proofs.Selections
import EntityQuery.Proofs.Joins.Directions
import EntityQuery.Proofs.Rows.Widening
import EntityQuery.Proofs.Rows.Consistent
import EntityQuery.Proofs.Rows.Selection
import EntityQuery.Proofs.Rows.Forked
import EntityQuery.Proofs.Rows.Lineage
import EntityQuery.Proofs.Rows.Pages
import EntityQuery.Proofs.Clauses
import EntityQuery.Proofs.AllRows
import EntityQuery.Proofs.Collectors
import EntityQuery.Proofs.Hierarchy.Larger
import EntityQuery.Proofs.Joins.Larger
import EntityQuery.Proofs.DeclarationOrder
import EntityQuery.Proofs.GrowingSchemas
import EntityQuery.Proofs.PiecewiseVisits
import EntityQuery.Proofs.VisitRuns
import EntityQuery.Proofs.Json.Reading
import EntityQuery.Proofs.Json.Nesting
import EntityQuery.Proofs.ExpressionDocuments
import EntityQuery.Proofs.SchemaDocuments
import EntityQuery.Proofs.Sql.Words
import EntityQuery.Proofs.StatementWords
import EntityQuery.Proofs.Hierarchy.Search
import EntityQuery.Proofs.Violations
import EntityQuery.Proofs.Columns.Resolution
import EntityQuery.Proofs.Columns.Spellings
import EntityQuery.Proofs.Text.Trimming
import EntityQuery.Proofs.Ranges.Separators
import EntityQuery.Proofs.Ranges.Sides
import EntityQuery.Proofs.Ranges.Brackets
import EntityQuery.Proofs.Ranges.Operators
import EntityQuery.Proofs.Ranges.Spellings
import EntityQuery.Proofs.Ranges.NormalForm
import EntityQuery.Proofs.KeyGroups
import EntityQuery.Proofs.Presence
import EntityQuery.Proofs.Expansion
import EntityQuery.Proofs.Windows
import EntityQuery.Proofs.Hierarchy.Outline
import EntityQuery.Proofs.TextSearch.Words
import EntityQuery.Proofs.Rows.Labels
