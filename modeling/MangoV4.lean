import MangoV4.Orderbook.BookSideFull
import MangoV4.Orderbook.Expiry
import MangoV4.Orderbook.EventQueue
import MangoV4.Exchange.Deactivation
import MangoV4.Exchange.ZeroSum
import MangoV4.Exchange.QuoteTotal
import MangoV4.Tokens.Totals
import MangoV4.Health.Order
import MangoV4.Health.Deposit
import MangoV4.Health.Adjust
import MangoV4.Health.Skipping
import MangoV4.Health.Sheet
import MangoV4.Spot.Borrows
import MangoV4.Tokens.Limits
import MangoV4.Orderbook.PostOnly
import MangoV4.Orderbook.Worst
import MangoV4.Orderbook.Depth
import MangoV4.Orderbook.OrderKeys
import MangoV4.Orderbook.Fills
import MangoV4.Exchange.SettleWindow
import MangoV4.Exchange.ReduceOnly
import MangoV4.Tokens.SwapModes
import MangoV4.Exchange.Resize
import MangoV4.Tokens.Interest
import MangoV4.Tokens.Socialize
import MangoV4.State.Buyback
import MangoV4.State.StablePrice
