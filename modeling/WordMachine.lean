import WordMachine.Config.Document
import WordMachine.Machine.Command
import WordMachine.Machine.Session
import WordMachine.Proofs.Accounts
import WordMachine.Proofs.BlockCopy
import WordMachine.Proofs.BreachFreedom
import WordMachine.Proofs.Command
import WordMachine.Proofs.Comparison
import WordMachine.Proofs.Configuration
import WordMachine.Proofs.Deferral
import WordMachine.Proofs.Encoding
import WordMachine.Proofs.ExactArithmetic
import WordMachine.Proofs.FlatMemory
import WordMachine.Proofs.ForwardProgress
import WordMachine.Proofs.ImageLoading
import WordMachine.Proofs.Listing
import WordMachine.Proofs.LongArithmetic
import WordMachine.Proofs.LongShift
import WordMachine.Proofs.PowerOn
import WordMachine.Proofs.Rollback
import WordMachine.Proofs.Stack
import WordMachine.Proofs.StepFrame
import WordMachine.Proofs.StepOutcome
import WordMachine.Proofs.StoredResult
import WordMachine.Proofs.StoredWords
import WordMachine.Proofs.StreamConfinement
import WordMachine.Proofs.Sweep
import WordMachine.Proofs.Text
import WordMachine.Proofs.TickTotals
import WordMachine.Proofs.TimingHistory
import WordMachine.Proofs.TraceHistory
import WordMachine.Statistics.Report
