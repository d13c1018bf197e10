import LintMargin.Issue.Reader
import LintMargin.Linter.Programs
import LintMargin.Main
import LintMargin.Proofs.Diagnostics.Shifting
import LintMargin.Proofs.Subscription
import LintMargin.Proofs.Editor
import LintMargin.Proofs.Margin.Drawing
import LintMargin.Proofs.Margin.Redrawing
import LintMargin.Proofs.Session.Move
import LintMargin.Proofs.Session.Display
import LintMargin.Proofs.Session.Relint
import LintMargin.Proofs.Debouncer.Firing
import LintMargin.Proofs.Session.Schedule
import LintMargin.Proofs.Session.StatusBar
import LintMargin.Proofs.Session.Step
import LintMargin.Proofs.Session.Acts
import LintMargin.Proofs.Session.Closing
import LintMargin.Proofs.Margin.Custody
import LintMargin.Proofs.Session.Custody
import LintMargin.Proofs.Config.Spelled
import LintMargin.Proofs.LintCommand.Apart
import LintMargin.Proofs.Linter.ReportLine
import LintMargin.Proofs.Linter.LineByLine
import LintMargin.Proofs.Session.SourceLines
import LintMargin.Proofs.Terminal.Report
import LintMargin.Proofs.Session.Drift
import LintMargin.Proofs.Session.Wiring
import LintMargin.Proofs.Session.Neighbours
import LintMargin.Proofs.Session.Scrolling
import LintMargin.Proofs.Session.Lateness
import LintMargin.Proofs.Session.Verdict
import LintMargin.Proofs.Session.Outcome
import LintMargin.Proofs.Session.Phases
import LintMargin.Proofs.Session.Strokes
import LintMargin.Proofs.Session.Ticking
import LintMargin.Proofs.Config.Hops
import LintMargin.Proofs.Linter.Declaration
import LintMargin.Proofs.Session.GoTo
