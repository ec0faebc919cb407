import TokenStream.Position
import TokenStream.Fault
import TokenStream.Source
import TokenStream.Utf8
import TokenStream.CharStream
import TokenStream.Caret
import TokenStream.Text.Quoted
import TokenStream.Scan
import TokenStream.Scanner
import TokenStream.Command.Outcome
import TokenStream.Command.Console
import TokenStream.Command.Streaming
import TokenStream.Main
import TokenStream.Grammar
import TokenStream.Layout
import TokenStream.Proofs.Delivery
import TokenStream.Proofs.Decoding
import TokenStream.Proofs.CaretText
import TokenStream.Proofs.Cut
import TokenStream.Proofs.Reading
import TokenStream.Proofs.Grammar
import TokenStream.Proofs.Tiling
import TokenStream.Proofs.Alike
import TokenStream.Proofs.Chunking
import TokenStream.Proofs.Failure
import TokenStream.Proofs.Queue
import TokenStream.Proofs.Calls
import TokenStream.Proofs.Exhaustion
import TokenStream.Proofs.Encoding
import TokenStream.Proofs.Decomposition
import TokenStream.Proofs.Layout
import TokenStream.Proofs.Mark
import TokenStream.Proofs.Boundary
import TokenStream.Proofs.Joining
import TokenStream.Proofs.Recoding
import TokenStream.Proofs.Demand
import TokenStream.Proofs.Counting
import TokenStream.Proofs.Stopping
import TokenStream.Proofs.Quoting
import TokenStream.Proofs.Printing
import TokenStream.Proofs.Streaming
import TokenStream.Proofs.Rereading
import TokenStream.Proofs.Unquoting
import TokenStream.Proofs.Transcript
import TokenStream.Proofs.Showing
import TokenStream.Proofs.Logging
import TokenStream.Proofs.Draining
import TokenStream.Proofs.Steps
import TokenStream.Proofs.Counters
import TokenStream.Proofs.HandedBack
