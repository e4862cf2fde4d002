import Automation.Config
import Automation.Decimal.Binary
import Automation.Decimal.Shortest
import Automation.Decimal.Text
import Automation.Decode.Basic
import Automation.Decode.Error
import Automation.Decode.Record
import Automation.Engine.Drive
import Automation.Engine.Options
import Automation.Engine.Process
import Automation.Engine.Retry
import Automation.Engine.Schedule
import Automation.Engine.Walk
import Automation.Engine.World
import Automation.Http.Address
import Automation.Http.Connect
import Automation.Http.Domain
import Automation.Http.Host
import Automation.Http.Message
import Automation.Http.Route
import Automation.Http.Service
import Automation.Http.Url
import Automation.Http.Wire
import Automation.Json.Number
import Automation.Json.Outline
import Automation.Json.Reader
import Automation.Json.Render
import Automation.Json.Value
import Automation.Node.Attempt
import Automation.Node.Config
import Automation.Node.Executor
import Automation.Run.Condition
import Automation.Run.Context
import Automation.Run.Log
import Automation.Run.Path
import Automation.Run.Record
import Automation.Run.Store
import Automation.Run.Template
import Automation.Services.Basic
import Automation.Services.Behaviour
import Automation.Services.Notification
import Automation.Services.Request
import Automation.Services.Series
import Automation.Services.Tasks
import Automation.Text.Blank
import Automation.Text.Find
import Automation.Text.Numeral
import Automation.Text.Punycode
import Automation.Text.Quoted
import Automation.Text.Utf8
import Automation.Time.Clock
import Automation.Time.Moment
import Automation.Workflow.Basic
import Automation.Workflow.Cycle
import Automation.Workflow.Decode
import Automation.Workflow.Encode
import Automation.Workflow.Graph
import Automation.Workflow.Registry
import Automation.Workflow.Validation
import Automation.Proofs.Engine.ProcessTheorems
import Automation.Proofs.Engine.WalkTheorems
import Automation.Proofs.Engine.DescentTheorems
import Automation.Proofs.Engine.CompanyTheorems
import Automation.Proofs.Workflow.GraphTheorems
import Automation.Proofs.Workflow.CycleTheorems
import Automation.Proofs.Workflow.ValidationTheorems
import Automation.Proofs.Services.CallTheorems
import Automation.Proofs.Node.ExecutorTheorems
import Automation.Proofs.Run.RaceTheorems
import Automation.Proofs.Run.RecordTheorems
import Automation.Proofs.Run.HistoryTheorems
import Automation.Proofs.Run.AccountTheorems
import Automation.Proofs.Run.DevelopmentTheorems
import Automation.Proofs.Engine.AttemptTheorems
import Automation.Proofs.Engine.CourseTheorems
import Automation.Proofs.Engine.CoverageTheorems
import Automation.Proofs.Engine.TrialTheorems
import Automation.Proofs.Engine.StoryTheorems
import Automation.Proofs.Engine.ClosingTheorems
import Automation.Proofs.Engine.VariablesTheorems
import Automation.Proofs.Engine.TraceTheorems
import Automation.Proofs.Engine.StageTheorems
import Automation.Proofs.Engine.DeedTheorems
import Automation.Proofs.Engine.CancellationTheorems
import Automation.Proofs.Engine.StopTheorems
import Automation.Proofs.Engine.WorldTheorems
import Automation.Proofs.Engine.RequestTheorems
import Automation.Proofs.Engine.ShapeTheorems
import Automation.Proofs.Engine.CrewTheorems
import Automation.Proofs.Engine.ScheduleTheorems
import Automation.Proofs.Engine.ProgressTheorems
import Automation.Proofs.Engine.AttendTheorems
import Automation.Proofs.Engine.CommandTheorems
import Automation.Proofs.Engine.CancelTheorems
import Automation.Proofs.Engine.PunctualTheorems
import Automation.Proofs.Engine.ClockTheorems
import Automation.Proofs.Engine.FollowTheorems
import Automation.Proofs.Engine.DeadlineTheorems
import Automation.Proofs.Engine.GrowthTheorems
import Automation.Proofs.Engine.LikenessTheorems
import Automation.Proofs.Run.ViewTheorems
import Automation.Proofs.Engine.MirrorTheorems
import Automation.Proofs.Engine.TandemTheorems
import Automation.Proofs.Workflow.RegistryTheorems
import Automation.Proofs.Engine.OriginTheorems
import Automation.Proofs.Engine.JobTheorems
import Automation.Proofs.Engine.HarmlessTheorems
import Automation.Proofs.Http.ServerTheorems
import Automation.Proofs.Http.UpkeepTheorems
import Automation.Proofs.Http.RefusalTheorems
import Automation.Proofs.Engine.OrderTheorems
import Automation.Proofs.Run.LoggedTheorems
import Automation.Proofs.Run.PathTheorems
import Automation.Proofs.Run.TemplateTheorems
import Automation.Proofs.Run.InterpolationTheorems
import Automation.Proofs.Run.OutputTheorems
import Automation.Proofs.Engine.LoggingTheorems
import Automation.Proofs.Engine.ShelterTheorems
import Automation.Proofs.Engine.SolitudeTheorems
import Automation.Proofs.Engine.IsolationTheorems
import Automation.Proofs.Workflow.SearchTheorems
import Automation.Proofs.Json.OutlineTheorems
import Automation.Proofs.Decode.ReaderTheorems
import Automation.Proofs.Text.NumeralTheorems
import Automation.Proofs.Time.MomentTheorems
import Automation.Proofs.Workflow.RoundTripTheorems
import Automation.Proofs.Text.Utf8Theorems
import Automation.Proofs.Text.FindTheorems
import Automation.Proofs.Http.AddressTheorems
import Automation.Proofs.Engine.StraightTheorems
import Automation.Proofs.Http.ResourceTheorems
import Automation.Proofs.Workflow.DatingTheorems
import Automation.Proofs.Http.TrafficTheorems
import Automation.Proofs.Http.BookTheorems
import Automation.Proofs.Http.SequenceTheorems
import Automation.Proofs.Http.ConcurrencyTheorems
import Automation.Proofs.Engine.RoundTheorems
import Automation.Proofs.Engine.RetryTheorems
import Automation.Proofs.Engine.PledgeTheorems
import Automation.Proofs.Engine.RetriedTheorems
import Automation.Proofs.Decimal.GridTheorems
import Automation.Proofs.Decimal.DoubleTheorems
import Automation.Proofs.Decimal.MultipleTheorems
import Automation.Proofs.Decimal.CountTheorems
import Automation.Proofs.Run.ComparisonTheorems
import Automation.Proofs.Workflow.IndexTheorems
import Automation.Proofs.Workflow.RoutingTheorems
import Automation.Proofs.Engine.TimeoutTheorems
import Automation.Proofs.Engine.EffortTheorems
import Automation.Proofs.Json.FieldTheorems
import Automation.Proofs.Run.SeedTheorems
import Automation.Proofs.Run.LookupTheorems
import Automation.Proofs.Services.TaskTheorems
import Automation.Proofs.Engine.WaitTheorems
import Automation.Proofs.Run.ConditionTheorems
import Automation.Proofs.Run.RecastTheorems
import Automation.Proofs.Run.GistTheorems
import Automation.Proofs.Node.ShuffleTheorems
import Automation.Proofs.Workflow.VariationTheorems
import Automation.Proofs.Engine.ParallelTheorems
import Automation.Proofs.Engine.ShuffleTheorems
