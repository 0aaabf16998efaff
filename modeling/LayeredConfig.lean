import LayeredConfig.Audit
import LayeredConfig.CommandLine
import LayeredConfig.Main
import LayeredConfig.Proofs.Computation
import LayeredConfig.Proofs.Entries
import LayeredConfig.Proofs.Path.RoundTrip
import LayeredConfig.Proofs.Node.WellFormed
import LayeredConfig.Proofs.Node.Write
import LayeredConfig.Proofs.Value
import LayeredConfig.Proofs.Node.Walk
import LayeredConfig.Proofs.Node.Fill
import LayeredConfig.Proofs.Node.Remove
import LayeredConfig.Proofs.Node.Leaves
import LayeredConfig.Proofs.Node.Prune
import LayeredConfig.Proofs.Config.Reachable
import LayeredConfig.Proofs.Resolution.CycleGuard
import LayeredConfig.Proofs.Resolution.Default
import LayeredConfig.Proofs.Expression
import LayeredConfig.Proofs.Resolution.Transparency
import LayeredConfig.Proofs.Node.Visits
import LayeredConfig.Proofs.Node.Rebuild
import LayeredConfig.Proofs.Resolution.Nesting
import LayeredConfig.Proofs.Resolution.Policies
import LayeredConfig.Proofs.Resolution.Shape
import LayeredConfig.Proofs.Config.Layers
import LayeredConfig.Proofs.Config.Secrets
import LayeredConfig.Proofs.Node.Filter
import LayeredConfig.Proofs.Node.Renumber
import LayeredConfig.Proofs.Audit.Runs
import LayeredConfig.Proofs.Audit.Report
import LayeredConfig.Proofs.Config.Noninterference
import LayeredConfig.Proofs.Expression.Rendering
import LayeredConfig.Proofs.Expression.RoundTrip
import LayeredConfig.Proofs.Path.NormalForm
import LayeredConfig.Proofs.Value.RoundTrip
import LayeredConfig.Proofs.Value.Writing
import LayeredConfig.Proofs.Config.Flattening
import LayeredConfig.Proofs.Node.Congruence
import LayeredConfig.Proofs.Config.MapOrder
import LayeredConfig.Proofs.CommandLine.Outcomes
import LayeredConfig.Proofs.Config.Reading
import LayeredConfig.Proofs.Node.MergedLeaves
import LayeredConfig.Proofs.Node.MergeLaws
import LayeredConfig.Proofs.Node.NamedWrites
import LayeredConfig.Proofs.Config.Absorption
import LayeredConfig.Proofs.Config.Writes
import LayeredConfig.Proofs.Node.Thinning
import LayeredConfig.Proofs.Node.RemoveLeaf
import LayeredConfig.Proofs.Expression.Splitting
import LayeredConfig.Proofs.Expression.Closing
import LayeredConfig.Proofs.Number.Exact
import LayeredConfig.Proofs.Number.Amount
import LayeredConfig.Proofs.Number.Roundoff
import LayeredConfig.Proofs.Number.Numerals
import LayeredConfig.Proofs.Reading.DurationForms
import LayeredConfig.Proofs.Reading.DurationStandard
import LayeredConfig.Proofs.Reading.DurationValues
import LayeredConfig.Proofs.Reading.Stringified
import LayeredConfig.Proofs.Text.Letters
import LayeredConfig.Proofs.Redactor
import LayeredConfig.Proofs.Reading.LocaleTags
