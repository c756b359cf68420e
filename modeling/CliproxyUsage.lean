import CliproxyUsage.Frontend.Api
import CliproxyUsage.Frontend.Browser
import CliproxyUsage.Frontend.QuotaCard
import CliproxyUsage.Frontend.WindowQuery
import CliproxyUsage.JavaScript.Url
import CliproxyUsage.Model.AliasWarnings
import CliproxyUsage.Model.App
import CliproxyUsage.Model.RangeQuery
import CliproxyUsage.Proofs.IsoTexts
import CliproxyUsage.Proofs.Routing
import CliproxyUsage.Python.QueryString
import CliproxyUsage.Soundness.AccountIsolation
import CliproxyUsage.Soundness.AccountRequests
import CliproxyUsage.Soundness.AliasWarnings
import CliproxyUsage.Soundness.AxisFloors
import CliproxyUsage.Soundness.BasePath
import CliproxyUsage.Soundness.Billing
import CliproxyUsage.Soundness.CacheCancellation
import CliproxyUsage.Soundness.CacheFreshness
import CliproxyUsage.Soundness.Charts
import CliproxyUsage.Soundness.Collected
import CliproxyUsage.Soundness.Collection
import CliproxyUsage.Soundness.CompactNumbers
import CliproxyUsage.Soundness.DayRange
import CliproxyUsage.Soundness.DenseAxis
import CliproxyUsage.Soundness.DisplayedPrice
import CliproxyUsage.Soundness.DrillDown
import CliproxyUsage.Soundness.EntityOrder
import CliproxyUsage.Soundness.FilterRoundTrip
import CliproxyUsage.Soundness.Granularity
import CliproxyUsage.Soundness.Heatmap
import CliproxyUsage.Soundness.LastUsed
import CliproxyUsage.Soundness.Masking
import CliproxyUsage.Soundness.OneInstant
import CliproxyUsage.Soundness.OneState
import CliproxyUsage.Soundness.PageRoutes
import CliproxyUsage.Soundness.PresetWindows
import CliproxyUsage.Soundness.PricingCache
import CliproxyUsage.Soundness.PricingRefresh
import CliproxyUsage.Soundness.QuotaEnvelopes
import CliproxyUsage.Soundness.RangePicks
import CliproxyUsage.Soundness.RateOrder
import CliproxyUsage.Soundness.Redaction
import CliproxyUsage.Soundness.ResetConfirmation
import CliproxyUsage.Soundness.ResetCredits
import CliproxyUsage.Soundness.ServedRows
import CliproxyUsage.Soundness.Serving
import CliproxyUsage.Soundness.SingleFlight
import CliproxyUsage.Soundness.Slices
import CliproxyUsage.Soundness.Store
import CliproxyUsage.Soundness.TabClicks
import CliproxyUsage.Soundness.TabViews
import CliproxyUsage.Soundness.TableOrder
import CliproxyUsage.Soundness.Totals
import CliproxyUsage.Soundness.UsageRequest
import CliproxyUsage.Soundness.ViewRoundTrip
import CliproxyUsage.Soundness.WindowIds
import CliproxyUsage.Soundness.WindowRange
import CliproxyUsage.Soundness.Windows
