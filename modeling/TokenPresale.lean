import TokenPresale.Analysis.Authority
import TokenPresale.Analysis.CashBook
import TokenPresale.Analysis.ClaimPhase
import TokenPresale.Analysis.Conservation
import TokenPresale.Analysis.Counters
import TokenPresale.Analysis.Events
import TokenPresale.Analysis.Exits
import TokenPresale.Analysis.Finality
import TokenPresale.Analysis.Footprint
import TokenPresale.Analysis.Limits
import TokenPresale.Analysis.Payouts
import TokenPresale.Analysis.Phases
import TokenPresale.Analysis.Records
import TokenPresale.Analysis.RefundPhase
import TokenPresale.Analysis.SaleWindow
import TokenPresale.Analysis.Shares
import TokenPresale.Analysis.Storage
import TokenPresale.Analysis.Transactions
