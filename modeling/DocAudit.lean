import DocAudit.Main
import DocAudit.Proofs.CommentHistory
import DocAudit.Proofs.Reachable
import DocAudit.Proofs.Repair
import DocAudit.Proofs.Scheduling
import DocAudit.Proofs.Tallying
import DocAudit.Proofs.Formats
import DocAudit.Proofs.Resilience
import DocAudit.Proofs.Accounting
import DocAudit.Proofs.Verbosity
import DocAudit.Proofs.Decoding
import DocAudit.Proofs.JsonGrammar
import DocAudit.Proofs.PhysicalLines
import DocAudit.Proofs.Lossless
import DocAudit.Proofs.LowerCasing
import DocAudit.Proofs.Modifiers
import DocAudit.Proofs.PlainDeclarations
import DocAudit.Proofs.Insertion
import DocAudit.Proofs.Restarting
import DocAudit.Proofs.Ordering
import DocAudit.Proofs.Pruning
import DocAudit.Proofs.ReportedPaths
import DocAudit.Proofs.LineEnds
import DocAudit.Proofs.Numerals
import DocAudit.Proofs.LowerCased
import DocAudit.Proofs.AcceptedSettings
import DocAudit.Proofs.ToldPaths
import DocAudit.Proofs.RunningTotals
import DocAudit.Proofs.Separators
import DocAudit.Proofs.CarriedExtensions
import DocAudit.Proofs.NormalForms
import DocAudit.Proofs.FindingTexts
import DocAudit.Course
import DocAudit.Streams
