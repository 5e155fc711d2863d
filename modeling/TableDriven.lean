import TableDriven.Input.Chars
import TableDriven.Input.Script
import TableDriven.Lexicon.Literal
import TableDriven.Main
import TableDriven.Session.World
import TableDriven.Token.Listed
import TableDriven.Proofs.LrTable.Checked
import TableDriven.Proofs.Lexicon.Checked
import TableDriven.Proofs.Trial.Fuel
import TableDriven.Proofs.Trial.Stack
import TableDriven.Proofs.Feed.Ahead
import TableDriven.Proofs.Parse.Settle
import TableDriven.Proofs.Repair.Answers
import TableDriven.Proofs.Repair.Valid
import TableDriven.Proofs.Repair.Least
import TableDriven.Proofs.Repair.Ends
import TableDriven.Proofs.Parse.Search
import TableDriven.Proofs.Parse.Apply
import TableDriven.Proofs.Parse.Honours
import TableDriven.Proofs.Parse.Continuation
import TableDriven.Proofs.Parse.Listed
import TableDriven.Proofs.Scanner.Fuel
import TableDriven.Proofs.Parse.History
import TableDriven.Proofs.Parse.Produce
import TableDriven.Proofs.Parse.Forest
import TableDriven.Proofs.Breakdown
import TableDriven.Proofs.Parse.Integrity
import TableDriven.Proofs.Feed.Resumes
import TableDriven.Proofs.Parse.Ledger
import TableDriven.Proofs.Parse.Conservation
import TableDriven.Proofs.Parse.Progress
import TableDriven.Proofs.Lexicon.Walk
import TableDriven.Proofs.Lexicon.Candidates
import TableDriven.Proofs.Input.Delivers
import TableDriven.Proofs.Input.Exact
import TableDriven.Proofs.Scanner.Fill
import TableDriven.Proofs.Scanner.Forward
import TableDriven.Proofs.Scanner.Consult
import TableDriven.Proofs.Scanner.Choose
import TableDriven.Proofs.Scanner.History
import TableDriven.Proofs.Scanner.Longest
import TableDriven.Proofs.Scanner.Tiling
import TableDriven.Proofs.Scanner.Buffering
import TableDriven.Proofs.Scanner.Conditions
import TableDriven.Proofs.Scanner.Failure
import TableDriven.Proofs.Lexicon.Trie
import TableDriven.Proofs.Lexicon.LiteralMatch
import TableDriven.Proofs.Scanner.Literals
import TableDriven.Proofs.Binary.Tables
import TableDriven.Proofs.Binary.Refusals
import TableDriven.Proofs.Binary.Lockstep
import TableDriven.Proofs.Json.Tables
import TableDriven.Proofs.Feed.Calls
import TableDriven.Proofs.Feed.Custody
import TableDriven.Proofs.Parse.Outcome
import TableDriven.Proofs.Scanner.Safety
import TableDriven.Proofs.Scanner.LifeCycle
import TableDriven.Proofs.Calculator.Samples
import TableDriven.Proofs.Parse.Unwinding
import TableDriven.Proofs.Parse.Foreign
import TableDriven.Proofs.Parse.Looking
import TableDriven.Proofs.Feed.Faults
