import ZCode.Main
import ZCode.Recording
import ZCode.Session
import ZCode.Proofs.Memory
import ZCode.Proofs.Writes
import ZCode.Proofs.Stray
import ZCode.Proofs.Change
import ZCode.Proofs.Footprint
import ZCode.Proofs.Run
import ZCode.Proofs.Protected
import ZCode.Proofs.Bounds
import ZCode.Proofs.Decode
import ZCode.Proofs.Safety
import ZCode.Proofs.Base64
import ZCode.Proofs.Json
import ZCode.Proofs.Snapshot
import ZCode.Proofs.SaveRestore
import ZCode.Proofs.Links
import ZCode.Proofs.Forest
import ZCode.Proofs.Calls
import ZCode.Proofs.Grammar
import ZCode.Proofs.TextUnits
import ZCode.Proofs.Encoding
import ZCode.Proofs.Aside
import ZCode.Proofs.Schedule
import ZCode.Proofs.Waiting
import ZCode.Proofs.Restart
import ZCode.Proofs.Restore
import ZCode.Proofs.Streams
import ZCode.Proofs.Rereading
import ZCode.Proofs.Selection
import ZCode.Proofs.Containment
import ZCode.Proofs.Resuming
import ZCode.Proofs.Buffers
import ZCode.Proofs.Lines
import ZCode.Proofs.Torn
import ZCode.Proofs.Properties
import ZCode.Proofs.Evaluation
import ZCode.Proofs.ParseBlocks
import ZCode.Proofs.Lookup
import ZCode.Proofs.Tokens
import ZCode.Proofs.Loading
import ZCode.Proofs.Variables
import ZCode.Proofs.View
import ZCode.Proofs.Attributes
import ZCode.Proofs.TextReaders
import ZCode.Proofs.Arithmetic
