import SerialWorkers.Session.Report
import SerialWorkers.Proofs.Desk.Service
import SerialWorkers.Proofs.Workshop.SerialOrder
import SerialWorkers.Proofs.Workshop.Closing
import SerialWorkers.Proofs.Workshop.StopRequests
import SerialWorkers.Proofs.Workshop.Prospects
import SerialWorkers.Proofs.Workshop.Conduct
import SerialWorkers.Proofs.Workshop.Endings
import SerialWorkers.Proofs.Desk.Conservation
import SerialWorkers.Proofs.Workshop.Customs
import SerialWorkers.Proofs.Workshop.Resting
import SerialWorkers.Proofs.Isolation.Isolated
import SerialWorkers.Proofs.Desk.Trace
import SerialWorkers.Proofs.Session.Sending
import SerialWorkers.Proofs.Desk.Precedence
import SerialWorkers.Proofs.Desk.Cuts
import SerialWorkers.Proofs.Workshop.Backlog
import SerialWorkers.Proofs.Desk.Slack
import SerialWorkers.Proofs.Desk.Draining
import SerialWorkers.Proofs.Session.Muting
import SerialWorkers.Proofs.Workshop.Records
import SerialWorkers.Proofs.Session.Parting
import SerialWorkers.Proofs.Workshop.Verdicts
import SerialWorkers.Proofs.Session.FailedHires
import SerialWorkers.Proofs.Session.Hiring
import SerialWorkers.Proofs.Desk.Progress
