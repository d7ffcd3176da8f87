import Excerpt.Expectation
import Excerpt.FileTree
import Excerpt.Json.Reading
import Excerpt.Main
import Excerpt.Proofs.Region.Forest
import Excerpt.Proofs.Region.Openings
import Excerpt.Proofs.Rendering.Independence
import Excerpt.Proofs.Sample.Selection
import Excerpt.Proofs.Service.Refinement
import Excerpt.Proofs.Service.Fairness
import Excerpt.Proofs.Service.Noninterference
import Excerpt.Proofs.CommandLine.Isolation
import Excerpt.Proofs.Service.Withdrawal
import Excerpt.Proofs.Rendering.Annotation
import Excerpt.Proofs.Rendering.JsonOutput
import Excerpt.Proofs.Region.Depth
import Excerpt.Proofs.Rendering.Dedenting
import Excerpt.Proofs.Rendering.NumberColumn
import Excerpt.Proofs.Source.Concatenation
import Excerpt.Proofs.Delimiter.Grammar
import Excerpt.Proofs.Rendering.RemainingTags
import Excerpt.Proofs.Selector.RoundTrip
import Excerpt.Proofs.OffsetSet.Members
import Excerpt.Proofs.Selector.Ranges
import Excerpt.Proofs.Request.RegionName
import Excerpt.Proofs.Options.SkipText
import Excerpt.Proofs.Request.EmptySample
import Excerpt.Proofs.Setting.Layering
import Excerpt.Proofs.Service.CallTotal
