import TheClub.Domain.Fairness
import TheClub.Domain.Roulette.Bets

/-! Spin, and the payouts of a round's bets. -/

namespace TheClub.Roulette

structure ResolvedBet where
  bet : PlacedBet
  won : Bool
  payout : Money
  deriving DecidableEq, Repr

/-- `spin(seed)`, with at most `fuel` digests. -/
def spin (hmacSha256 : Bytes → Bytes → Bytes) (fuel : Nat) (seed : SeedMaterial) : Option Nat :=
  deriveOutcome hmacSha256 fuel seed POCKET_COUNT

/-- The body of the loop of `resolve_bets`: the payout includes the stake's return. -/
def resolveBet (outcome : Int) (bet : PlacedBet) : Except InvalidBetError ResolvedBet := do
  let covered ← coveredNumbers bet.betType bet.selection
  let won := decide (outcome ∈ covered)
  let payout := if won then bet.stake.mul ((BET_SPECS bet.betType).payoutRatio + 1) else Money.zero bet.stake.currency
  return { bet, won, payout }

def resolveBets (bets : List PlacedBet) (outcome : Int) : Except InvalidBetError (List ResolvedBet) :=
  bets.mapM (resolveBet outcome)

end TheClub.Roulette
