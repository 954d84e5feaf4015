import StreamLexer.Byte
import StreamLexer.CommandLine
import StreamLexer.CommandLine.Request
import StreamLexer.CommandLine.Table
import StreamLexer.Error
import StreamLexer.Feed
import StreamLexer.Feed.Stream
import StreamLexer.FileTree
import StreamLexer.IoError
import StreamLexer.Journal
import StreamLexer.Lexer
import StreamLexer.Lexer.Drain
import StreamLexer.Lexer.Operation
import StreamLexer.Lexer.Stream
import StreamLexer.LineReader
import StreamLexer.Main
import StreamLexer.Munch
import StreamLexer.Repl
import StreamLexer.Sink
import StreamLexer.Source
import StreamLexer.Stream
import StreamLexer.Text.Column
import StreamLexer.Text.DefaultIgnorable
import StreamLexer.Text.GraphemeExtend
import StreamLexer.Text.Quoted
import StreamLexer.Text.Spans
import StreamLexer.Text.Style
import StreamLexer.Text.Unprintable
import StreamLexer.Token
import StreamLexer.Token.Printer
import StreamLexer.Proofs.Feed.Pull
import StreamLexer.Proofs.Lexer.Sound
import StreamLexer.Proofs.Lexer.Representation
import StreamLexer.Proofs.Munch.Next
import StreamLexer.Proofs.Lexer.Shows
import StreamLexer.Proofs.Lexer.Simulation
import StreamLexer.Proofs.Lexer.Determined
import StreamLexer.Proofs.Lexer.Answers
import StreamLexer.Proofs.Lexer.End
import StreamLexer.Proofs.Feed.Metered
import StreamLexer.Proofs.Lexer.Demand
import StreamLexer.Proofs.Lexer.Advance
import StreamLexer.Proofs.Munch.Append
import StreamLexer.Proofs.Munch.Layout
import StreamLexer.Proofs.Lexer.Tokenize
import StreamLexer.Proofs.LineReader.Progress
import StreamLexer.Proofs.LineReader.Cuts
import StreamLexer.Proofs.Munch.Join
import StreamLexer.Proofs.Sink.Capacity
import StreamLexer.Proofs.Repl.Transcript
import StreamLexer.Proofs.Text.Utf8
import StreamLexer.Proofs.Repl.Session
import StreamLexer.Proofs.Repl.Faults
import StreamLexer.Proofs.Text.Quoted
import StreamLexer.Proofs.Token.Display
import StreamLexer.Proofs.Repl.Legible
import StreamLexer.Proofs.Lexer.Drain
import StreamLexer.Proofs.Lexer.Exhaustion
import StreamLexer.Proofs.Journal.Phases
import StreamLexer.Proofs.Feed.Phased
import StreamLexer.Proofs.Lexer.Phased
import StreamLexer.Proofs.Lexer.Log
import StreamLexer.Proofs.CommandLine.Request
import StreamLexer.Proofs.CommandLine.Table
import StreamLexer.Proofs.CommandLine.Outcome
import StreamLexer.Proofs.CommandLine.Colour
import StreamLexer.Proofs.Text.Style
