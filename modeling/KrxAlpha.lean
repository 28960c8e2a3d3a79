import KrxAlpha.LedgerValue
import KrxAlpha.AmbiguousSend
import KrxAlpha.PaperSweep
import KrxAlpha.PaperCash
import KrxAlpha.L0Safety
import KrxAlpha.LossExactness
import KrxAlpha.CrossFillOnce
import KrxAlpha.TapeSeconds
import KrxAlpha.LateTicks
import KrxAlpha.TapeOnce
import KrxAlpha.TapeWhole
import KrxAlpha.HandoverOnce
import KrxAlpha.CaughtUp
import KrxAlpha.Outages
import KrxAlpha.OrderPost
import KrxAlpha.TornJournal
import KrxAlpha.OrderRate
import KrxAlpha.HostPacing
import KrxAlpha.SingleIssuer
import KrxAlpha.AlertBudget
import KrxAlpha.AdmissionReach
import KrxAlpha.SeenSequences
import KrxAlpha.TopupMaximal
import KrxAlpha.LiveSubscribe
import KrxAlpha.L0Journal
import KrxAlpha.LatencyBudget
import KrxAlpha.SlotsReturned
import KrxAlpha.RestartBreaker
import KrxAlpha.MergedSpans
import KrxAlpha.PartitionPaths
import KrxAlpha.LineBatches
import KrxAlpha.CorePanel
import KrxAlpha.AftermarketPlan
