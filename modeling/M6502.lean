import M6502.Config.Json
import M6502.Event.Line
import M6502.Proofs.Account
import M6502.Proofs.Calls
import M6502.Proofs.Timing
import M6502.Text.Describe
import M6502.Proofs.Saves
import M6502.Proofs.Reads
import M6502.Proofs.Interference
import M6502.Proofs.ByteOrder
import M6502.Proofs.Iteration
import M6502.Proofs.Policies
import M6502.Proofs.Sessions
import M6502.Proofs.Operands
import M6502.Proofs.Chains
import M6502.Proofs.Log
import M6502.Proofs.Loading
import M6502.Proofs.Interrupts
import M6502.Proofs.Comparisons
import M6502.Proofs.Rotations
import M6502.Proofs.Effects
import M6502.Proofs.Words
import M6502.Proofs.Descriptions
