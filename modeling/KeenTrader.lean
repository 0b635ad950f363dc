import KeenTrader.Library.Runs
import KeenTrader.Library.Containers
import KeenTrader.Library.Json
import KeenTrader.Library.Handlers
import KeenTrader.Library.Mailbox
import KeenTrader.Library.Segments
import KeenTrader.Library.Floats
import KeenTrader.Library.Transitions
import KeenTrader.Library.LivePasses
import KeenTrader.Library.Slots
import KeenTrader.Library.Bytes
import KeenTrader.Library.Paging
import KeenTrader.Library.Numbering
import KeenTrader.Engine.Constant
import KeenTrader.Engine.Text
import KeenTrader.Engine.Precision
import KeenTrader.Engine.Utility
import KeenTrader.Engine.Rounding
import KeenTrader.Engine.Object
import KeenTrader.Engine.Converter
import KeenTrader.Engine.Soundness
import KeenTrader.Engine.Delivery
import KeenTrader.Engine.Closing
import KeenTrader.Engine.Freezing
import KeenTrader.Engine.Conversion
import KeenTrader.Engine.Opening
import KeenTrader.Engine.Draining
import KeenTrader.Engine.Oms
import KeenTrader.Engine.Listings
import KeenTrader.Engine.Binding
import KeenTrader.Engine.Quotes
import KeenTrader.Engine.Symbols
import KeenTrader.Engine.EventEmitter
import KeenTrader.Engine.Registration
import KeenTrader.Engine.BarGenerator
import KeenTrader.Engine.WindowBars
import KeenTrader.Api.ThreadPool
import KeenTrader.Api.Sender
import KeenTrader.Api.Requests
import KeenTrader.Api.WebsocketClientImpl
import KeenTrader.Api.Base64
import KeenTrader.Api.UrlCoding
import KeenTrader.Api.StringToInteger
import KeenTrader.Api.Unicode
import KeenTrader.Engine.Mailer
import KeenTrader.App.Template
import KeenTrader.App.CtaEngine
import KeenTrader.App.Actions
import KeenTrader.App.Trading
import KeenTrader.App.Trades
import KeenTrader.App.Stopping
import KeenTrader.App.Changes
import KeenTrader.App.StopOrders
import KeenTrader.App.References
import KeenTrader.App.Removal
import KeenTrader.App.Filing
import KeenTrader.App.Volumes
import KeenTrader.App.Passes
import KeenTrader.App.Retiring
import KeenTrader.App.TriggerPrices
import KeenTrader.App.Lifecycle
import KeenTrader.App.LoadBar
import KeenTrader.App.Registry
import KeenTrader.App.Restart
import KeenTrader.App.EventOrder
import KeenTrader.App.EventFeed
import KeenTrader.App.TargetPos
import KeenTrader.App.TargetOrders
import KeenTrader.App.RBreak
import KeenTrader.App.RBreakOrders
import KeenTrader.App.RBreakTicks
import KeenTrader.App.Rearming
import KeenTrader.Exchange.Base
import KeenTrader.Exchange.Okx
import KeenTrader.Exchange.OkxChannel
import KeenTrader.Exchange.Rejections
import KeenTrader.Exchange.Cancels
import KeenTrader.Exchange.Binance
import KeenTrader.Exchange.Replies
import KeenTrader.Exchange.BinanceReports
import KeenTrader.Exchange.Fills
import KeenTrader.Exchange.Reports
import KeenTrader.Exchange.PositionMode
import KeenTrader.Exchange.Signing
import KeenTrader.Exchange.WebsocketClient
import KeenTrader.Exchange.MarketData
import KeenTrader.Exchange.Subscriptions
import KeenTrader.Exchange.Ticks
import KeenTrader.Exchange.Depth
import KeenTrader.Exchange.Books
import KeenTrader.Exchange.Legs
import KeenTrader.Exchange.AccountUpdates
import KeenTrader.Exchange.OkxReadiness
import KeenTrader.Exchange.UserStream
import KeenTrader.Exchange.OrderPushes
import KeenTrader.Exchange.OpenOrders
import KeenTrader.Exchange.Startup
import KeenTrader.Exchange.History
import KeenTrader.Exchange.OrderIds
