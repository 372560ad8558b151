/-
  MangoV4.Orderbook.OrderType

  The enumerations of `order_type.rs`, with the tree types of `ordertree.rs`
  and `bookside.rs`.
-/

import MangoV4.Error

namespace MangoV4

/-- Side of the book. -/
inductive Side where
  | bid
  | ask
deriving DecidableEq, Repr

/-- The two order trees of a book side. -/
inductive BookSideOrderTree where
  | fixed
  | oraclePegged
deriving DecidableEq, Repr

/-- Which side a node array belongs to. -/
inductive OrderTreeType where
  | bids
  | asks
deriving DecidableEq, Repr

/-- How an order that may rest on the book behaves when it crosses. -/
inductive PostOrderType where
  | limit
  | postOnly
  | postOnlySlide
deriving DecidableEq, Repr

/-- How a taker order treats resting orders of its own account. -/
inductive SelfTradeBehavior where
  | decrementTake
  | cancelProvide
  | abortTransaction
deriving DecidableEq, Repr

/-- Side and tree packed into one byte. -/
inductive SideAndOrderTree where
  | bidFixed
  | askFixed
  | bidOraclePegged
  | askOraclePegged
deriving DecidableEq, Repr

def OrderTreeType.side : OrderTreeType → Side
  | .bids => .bid
  | .asks => .ask

def BookSideOrderTree.other : BookSideOrderTree → BookSideOrderTree
  | .fixed => .oraclePegged
  | .oraclePegged => .fixed

namespace Side

def invertSide : Side → Side
  | .bid => .ask
  | .ask => .bid

/-- Is `lhs` a better order for the side than `rhs`? -/
def isPriceBetter : Side → Int → Int → Bool
  | .bid, lhs, rhs => decide (rhs < lhs)
  | .ask, lhs, rhs => decide (lhs < rhs)

/-- Is `price` acceptable for a `limit` order on the side? -/
def isPriceWithinLimit : Side → Int → Int → Bool
  | .bid, price, limit => decide (price ≤ limit)
  | .ask, price, limit => decide (limit ≤ price)

@[simp] theorem invertSide_invertSide (s : Side) : s.invertSide.invertSide = s := by
  cases s <;> rfl

theorem ne_invertSide (s : Side) : s ≠ s.invertSide := by
  cases s <;> decide

end Side

namespace SideAndOrderTree

def new : Side → BookSideOrderTree → SideAndOrderTree
  | .bid, .fixed => .bidFixed
  | .ask, .fixed => .askFixed
  | .bid, .oraclePegged => .bidOraclePegged
  | .ask, .oraclePegged => .askOraclePegged

def side : SideAndOrderTree → Side
  | .bidFixed | .bidOraclePegged => .bid
  | .askFixed | .askOraclePegged => .ask

def orderTree : SideAndOrderTree → BookSideOrderTree
  | .bidFixed | .askFixed => .fixed
  | .bidOraclePegged | .askOraclePegged => .oraclePegged

end SideAndOrderTree

end MangoV4
