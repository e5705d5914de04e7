import SeismicHazard.Decimal.Reported
import SeismicHazard.Files.Disk
import SeismicHazard.Main
import SeismicHazard.Process.Memory
import SeismicHazard.Process.Workers
import SeismicHazard.Proofs.Archive.Reading
import SeismicHazard.Proofs.Bundle.RoundTrip
import SeismicHazard.Proofs.Bundle.Safety
import SeismicHazard.Proofs.Bundle.Unpacking
import SeismicHazard.Proofs.Collection.Homomorphism
import SeismicHazard.Proofs.Collection.NotNumbers
import SeismicHazard.Proofs.Collection.Prefilter
import SeismicHazard.Proofs.Edges.Around
import SeismicHazard.Proofs.Edges.Indices
import SeismicHazard.Proofs.Geo.ShortArc
import SeismicHazard.Proofs.GroundMotion.Partition
import SeismicHazard.Proofs.HazardCurve.Inverse
import SeismicHazard.Proofs.Job.Conservation
import SeismicHazard.Proofs.Job.Coverage
import SeismicHazard.Proofs.Job.Order
import SeismicHazard.Proofs.Job.RarerTargets
import SeismicHazard.Proofs.Job.Repetition
import SeismicHazard.Proofs.Matrix.Union
import SeismicHazard.Proofs.Results.Grouping
import SeismicHazard.Proofs.Results.History
