import LossRecovery.CommandLine.Run
import LossRecovery.Main
import LossRecovery.Proofs.Coherence
import LossRecovery.Proofs.Totals
import LossRecovery.Scoreboard.Store
import LossRecovery.Sequence.Unwrap
import LossRecovery.Settings.Named
import LossRecovery.Proofs.Operations
import LossRecovery.Proofs.Bytes
import LossRecovery.Proofs.RangeSets
import LossRecovery.Proofs.AckAccounts
import LossRecovery.Proofs.AckSteps
import LossRecovery.Proofs.Marking
import LossRecovery.Proofs.EngineSteps
import LossRecovery.Proofs.SendSteps
import LossRecovery.Proofs.Asked
import LossRecovery.Proofs.Sessions
import LossRecovery.Proofs.SackExactness
import LossRecovery.Proofs.Histories
import LossRecovery.Proofs.LossByTime
import LossRecovery.Proofs.Calls
import LossRecovery.Proofs.Refusals
import LossRecovery.Proofs.Control
import LossRecovery.Proofs.Terms
import LossRecovery.Proofs.Turns
import LossRecovery.Proofs.Stages
import LossRecovery.Proofs.ByteBooks
import LossRecovery.Proofs.Requests
import LossRecovery.Proofs.Handover
import LossRecovery.Proofs.Conclusions
import LossRecovery.Proofs.Windows
import LossRecovery.Proofs.Exchanges
import LossRecovery.Proofs.Plans
import LossRecovery.Proofs.Quiescence
import LossRecovery.Proofs.Spending
import LossRecovery.Proofs.Episodes
import LossRecovery.Proofs.WindowMarks
import LossRecovery.Proofs.TimerMirror
import LossRecovery.Proofs.Persistence
import LossRecovery.Proofs.SackedRuns
import LossRecovery.Proofs.SendingOrder
import LossRecovery.Proofs.RecordCuts
import LossRecovery.Proofs.BlockCuts
import LossRecovery.Proofs.RecordLimit
import LossRecovery.Proofs.Runs
import LossRecovery.Proofs.Steering
import LossRecovery.Proofs.Signals
import LossRecovery.Proofs.Statistics
import LossRecovery.Proofs.Transfers
import LossRecovery.Proofs.Completion
import LossRecovery.Proofs.Overshoot
import LossRecovery.Proofs.DupackCounts
import LossRecovery.Proofs.Replays
import LossRecovery.Proofs.RttSamples
import LossRecovery.Proofs.Links
import LossRecovery.Proofs.Filing
import LossRecovery.Proofs.BoardOperations
import LossRecovery.Proofs.LinkedBoards
import LossRecovery.Proofs.FlightEstimates
import LossRecovery.Proofs.PendingTimeouts
import LossRecovery.Proofs.Resumption
import LossRecovery.Proofs.Restorations
import LossRecovery.Proofs.SpuriousTimeouts
import LossRecovery.Proofs.RateReduction
import LossRecovery.Proofs.PacedBursts
import LossRecovery.Proofs.PacedWaits
import LossRecovery.Proofs.PacingRates
import LossRecovery.Proofs.RttEstimates
import LossRecovery.Proofs.ResendAccounts
import LossRecovery.Proofs.StaleSends
import LossRecovery.Proofs.IdleTimers
import LossRecovery.Proofs.FilteredExtremes
import LossRecovery.Proofs.GoodputWindows
import LossRecovery.Proofs.ProbeEpisodes
import LossRecovery.Proofs.TimerFirings
import LossRecovery.Proofs.Unwrapping
import LossRecovery.Proofs.RangeUnions
import LossRecovery.Proofs.ReceivedBlocks
import LossRecovery.Proofs.RepeatedSegments
import LossRecovery.Proofs.RecordLookups
import LossRecovery.Proofs.Walks
import LossRecovery.Proofs.SendWalks
import LossRecovery.Proofs.AckWalks
import LossRecovery.Proofs.Figures
import LossRecovery.Proofs.Gauges
import LossRecovery.Proofs.Headroom
import LossRecovery.Proofs.CallOutcomes
