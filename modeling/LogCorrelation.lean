import LogCorrelation.Main
import LogCorrelation.Proofs.Intervals.Attribution
import LogCorrelation.Proofs.Intervals.LatencySign
import LogCorrelation.Proofs.Log.Calls
import LogCorrelation.Proofs.Program.Delivery
import LogCorrelation.Proofs.Program.FilesLeft
import LogCorrelation.Proofs.Program.Resolution
import LogCorrelation.Proofs.Report.Curves
import LogCorrelation.Proofs.Report.LabelsConfined
import LogCorrelation.Proofs.Report.LatencyText
import LogCorrelation.Proofs.Report.Thousands
import LogCorrelation.Proofs.TimeOfDay.RoundTrip
