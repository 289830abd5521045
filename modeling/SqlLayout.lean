import SqlLayout.Layout.Scope
import SqlLayout.Lexer.Bench
import SqlLayout.Main
import SqlLayout.Proofs.Pattern.Runs
import SqlLayout.Proofs.Text.Classes
import SqlLayout.Proofs.Layout.Plain
import SqlLayout.Proofs.Lexer.Cutting
import SqlLayout.Proofs.Lexer.Registration
import SqlLayout.Proofs.Lexer.Tiling
import SqlLayout.Proofs.Lexer.Starts
import SqlLayout.Proofs.Layout.Declared
import SqlLayout.Proofs.Lexer.Sql.Leads
import SqlLayout.Proofs.Lexer.Sql.Quotes
import SqlLayout.Proofs.Lexer.Sql.Signs
import SqlLayout.Proofs.Lexer.Sql.Stopping
import SqlLayout.Proofs.Lexer.Sql.Numbers
import SqlLayout.Proofs.Text.Respaced
import SqlLayout.Proofs.Lexer.Sql.Comments
import SqlLayout.Proofs.Lexer.Sql.Phrases
import SqlLayout.Proofs.Lexer.Sql.Pieces
import SqlLayout.Proofs.Lexer.Sql.Respacing
import SqlLayout.Proofs.Lexer.Sql.Edges
import SqlLayout.Proofs.Lexer.Sql.Tokens
import SqlLayout.Proofs.Layout.Essence
import SqlLayout.Proofs.Layout.Relaid
import SqlLayout.Proofs.Layout.Spacing
import SqlLayout.Proofs.Layout.Reindenting
import SqlLayout.Proofs.Json.Strings
import SqlLayout.Proofs.Json.Written
import SqlLayout.Proofs.Token.RoundTrip
import SqlLayout.Proofs.Layout.Alike
import SqlLayout.Proofs.Layout.DroppedComments
import SqlLayout.Proofs.Lexer.Sql.Rows
import SqlLayout.Proofs.Lexer.Sql.Moving
import SqlLayout.Proofs.Lexer.Sql.Standing
import SqlLayout.Proofs.Lexer.Sql.Shapes
import SqlLayout.Proofs.Lexer.Sql.Dashes
import SqlLayout.Proofs.Lexer.Sql.Quoted
import SqlLayout.Proofs.Lexer.Sql.Delimited
import SqlLayout.Proofs.Lexer.Sql.Vocabulary
import SqlLayout.Proofs.Lexer.Sql.Parting
import SqlLayout.Proofs.Layout.Unfused
import SqlLayout.Proofs.Layout.Kept
import SqlLayout.Proofs.Layout.Uncommented
import SqlLayout.Proofs.Layout.Laid
import SqlLayout.Proofs.Layout.Emitted
import SqlLayout.Proofs.Layout.Uppercase
import SqlLayout.Proofs.Lexer.Drawing
import SqlLayout.Proofs.Lexer.Interleaving
import SqlLayout.Proofs.Layout.Scoping
import SqlLayout.Proofs.CommandLine.Agreement
import SqlLayout.Proofs.CommandLine.Threshold
import SqlLayout.Proofs.Layout.Aligned
import SqlLayout.Proofs.Layout.Shape
import SqlLayout.Proofs.Lexer.Extension
import SqlLayout.Proofs.Lexer.Keywords
import SqlLayout.Proofs.Text.Position
import SqlLayout.Proofs.Lexer.Strict
import SqlLayout.Proofs.Log.Delivery
import SqlLayout.Proofs.Lexer.Sql.Identifiers
import SqlLayout.Proofs.Json.Grammar
import SqlLayout.Proofs.Token.Decoding
import SqlLayout.Proofs.Layout.Paging
import SqlLayout.Proofs.Layout.Joining
import SqlLayout.Proofs.Lexer.Sql.Operators
import SqlLayout.Proofs.CommandLine.Debugging
