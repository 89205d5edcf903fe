import KnowledgeDesk.Lib.RegexWords
import KnowledgeDesk.Lib.Strip
import KnowledgeDesk.Lib.TwoRuns
import KnowledgeDesk.ScopeMethods
import KnowledgeDesk.Proofs.AccountCallsProofs
import KnowledgeDesk.Proofs.AclProofs
import KnowledgeDesk.Proofs.AskAccountsProofs
import KnowledgeDesk.Proofs.AskChecksProofs
import KnowledgeDesk.Proofs.AskStreamsProofs
import KnowledgeDesk.Proofs.AskWireProofs
import KnowledgeDesk.Proofs.AuditIdsProofs
import KnowledgeDesk.Proofs.BoundaryProofs
import KnowledgeDesk.Proofs.CapsProofs
import KnowledgeDesk.Proofs.CitationProofs
import KnowledgeDesk.Proofs.ChunkingProofs
import KnowledgeDesk.Proofs.CoalitionProofs
import KnowledgeDesk.Proofs.ContentProofs
import KnowledgeDesk.Proofs.DefuseProofs
import KnowledgeDesk.Proofs.LoginsProofs
import KnowledgeDesk.Proofs.MigrateProofs
import KnowledgeDesk.Proofs.OrgAnswersProofs
import KnowledgeDesk.Proofs.OrgFrameProofs
import KnowledgeDesk.Proofs.OwnersProofs
import KnowledgeDesk.Proofs.OwnershipProofs
import KnowledgeDesk.Proofs.ProtocolProofs
import KnowledgeDesk.Proofs.QueueProofs
import KnowledgeDesk.Proofs.QuoteProofs
import KnowledgeDesk.Proofs.ShownQuotesProofs
import KnowledgeDesk.Proofs.EvictionProofs
import KnowledgeDesk.Proofs.ExportProofs
import KnowledgeDesk.Proofs.ReadingProofs
import KnowledgeDesk.Proofs.RetryProofs
import KnowledgeDesk.Proofs.SpendProofs
import KnowledgeDesk.Proofs.StepsProofs
import KnowledgeDesk.Proofs.StrandedProofs
import KnowledgeDesk.Proofs.TimerProofs
import KnowledgeDesk.Proofs.TombstoneProofs
import KnowledgeDesk.Proofs.UploadsProofs
import KnowledgeDesk.Proofs.WorkerProofs
import KnowledgeDesk.Proofs.ReconcileProofs
import KnowledgeDesk.Proofs.ResyncProofs
import KnowledgeDesk.Proofs.TracingProofs
import KnowledgeDesk.Proofs.ReplaceProofs
import KnowledgeDesk.Proofs.MockQuotesProofs
import KnowledgeDesk.Proofs.AnchorRunsProofs
import KnowledgeDesk.Lib.LeadsTo
import KnowledgeDesk.Lib.SessionSettings
import KnowledgeDesk.Lib.Interactive
import KnowledgeDesk.Lib.Resume
import KnowledgeDesk.Drain
import KnowledgeDesk.Pool
import KnowledgeDesk.Middlewares
import KnowledgeDesk.Api
import KnowledgeDesk.Process
import KnowledgeDesk.Proofs.LeaseProofs
import KnowledgeDesk.Proofs.DrainProofs
import KnowledgeDesk.Proofs.PoolProofs
import KnowledgeDesk.Proofs.MiddlewaresProofs
import KnowledgeDesk.Proofs.ProcessProofs
import KnowledgeDesk.Proofs.RequestsProofs
import KnowledgeDesk.Proofs.OneTenantProofs
import KnowledgeDesk.Proofs.TrailProofs
