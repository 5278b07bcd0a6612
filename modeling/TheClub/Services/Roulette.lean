import TheClub.Services.Fairness
import TheClub.Services.Wallet

/-!
The central use case: validate shape and limits, debit the full stake, spin, resolve, credit
what was won, persist, enqueue events.
-/

namespace TheClub
open ReadCommitted Roulette

structure BetRequest where
  betType : BetType
  selection : Selection
  stakeMinor : Int
  deriving DecidableEq, Repr

structure SettledBetView where
  betType : BetType
  selection : Selection
  stakeMinor : Int
  payoutMinor : Int
  won : Bool
  deriving DecidableEq, Repr

def SettledBetView.toDict (view : SettledBetView) : Json :=
  .obj [("bet_type", .str view.betType.value),
    ("selection", view.selection.toJson),
    ("stake_minor", .int view.stakeMinor),
    ("payout_minor", .int view.payoutMinor),
    ("won", .bool view.won)]

structure PlaceBetResult where
  roundId : Id
  outcome : Int
  bets : List SettledBetView
  totalStakeMinor : Int
  totalPayoutMinor : Int
  netMinor : Int
  balanceMinor : Int
  deriving DecidableEq, Repr

def PlaceBetResult.toDict (platform : Platform) (result : PlaceBetResult) : Dict :=
  [("round_id", .str (platform.uuidText result.roundId)),
   ("outcome", .int result.outcome),
   ("bets", .arr (result.bets.map SettledBetView.toDict)),
   ("total_stake_minor", .int result.totalStakeMinor),
   ("total_payout_minor", .int result.totalPayoutMinor),
   ("net_minor", .int result.netMinor),
   ("balance_minor", .int result.balanceMinor)]

/-- Everything `enqueueRoundEvents` needs. -/
structure RoundContext where
  userId : Id
  walletId : Id
  round : Round
  seedPairId : Id
  nonce : Nat
  outcome : Int
  betRows : List Bet
  resolved : List ResolvedBet
  totalStake : Int
  totalPayout : Int
  stakeEntryId : Id
  payoutEntryId : Option Id
  balanceAfterStake : Int
  balanceAfterPayout : Option Int
  currency : String
  idempotencyKey : String

/-- The bet.placed event of one bet. -/
def enqueueBetPlaced (platform : Platform) (settings : Settings) (ctx : RoundContext) (bet : Bet × ResolvedBet) :
    Prog Unit := do
  let envelope ← newEnvelope .betPlaced (BetPlacedData.build platform
    { roundId := ctx.round.id, betId := bet.1.id, userId := ctx.userId, betType := bet.2.bet.betType,
      selection := bet.2.bet.selection, stakeMinor := bet.2.bet.stake.minor, currency := ctx.currency })
    (some ctx.idempotencyKey)
  enqueueEvent platform settings envelope (platform.uuidText ctx.userId)

def settledBet (bet : Bet × ResolvedBet) : SettledBet :=
  { betId := bet.1.id, betType := bet.2.bet.betType, selection := bet.2.bet.selection,
    stakeMinor := bet.2.bet.stake.minor, payoutMinor := bet.2.payout.minor, won := bet.2.won }

/-- The wallet.transaction event of the round's ledger entry `transactionId`. -/
def enqueueRoundTransaction (platform : Platform) (settings : Settings) (ctx : RoundContext) (transactionId : Id)
    (kind : LedgerKind) (amountMinor balanceAfterMinor : Int) : Prog Unit := do
  let envelope ← newEnvelope .walletTransaction (WalletTransactionData.build platform
    { transactionId, userId := ctx.userId, walletId := ctx.walletId, kind, amountMinor, balanceAfterMinor,
      currency := ctx.currency, refType := some "round", refId := some ctx.round.id })
    (some ctx.idempotencyKey)
  enqueueEvent platform settings envelope (platform.uuidText ctx.userId)

def enqueueRoundEvents (platform : Platform) (settings : Settings) (ctx : RoundContext) : Prog Unit := do
  -- `zip(strict=True)`: `createSettledRound` returns one row for each resolved bet
  let bets := ctx.betRows.zip ctx.resolved
  bets.forM (enqueueBetPlaced platform settings ctx)
  let roundEnvelope ← newEnvelope .roundSettled (RoundSettledData.build platform
    { roundId := ctx.round.id, userId := ctx.userId, seedPairId := ctx.seedPairId, nonce := ctx.nonce,
      outcome := ctx.outcome, bets := bets.map settledBet, totalStakeMinor := ctx.totalStake,
      totalPayoutMinor := ctx.totalPayout, netMinor := ctx.totalPayout - ctx.totalStake, currency := ctx.currency })
    (some ctx.idempotencyKey)
  enqueueEvent platform settings roundEnvelope (platform.uuidText ctx.userId)
  enqueueRoundTransaction platform settings ctx ctx.stakeEntryId .betStake (-ctx.totalStake) ctx.balanceAfterStake
  match ctx.payoutEntryId with
  | none => return ()
  | some payoutEntryId =>
    match ctx.balanceAfterPayout with
    | none => raise .assertionError
    | some balanceAfterPayout =>
      enqueueRoundTransaction platform settings ctx payoutEntryId .betPayout ctx.totalPayout balanceAfterPayout

/-- An `InvalidBetError` raised in the domain. -/
def liftBet {α : Type} (result : Except InvalidBetError α) : Prog α := lift (result.mapError .invalidBetError)

def placedBet (request : BetRequest) : PlacedBet :=
  { betType := request.betType, selection := request.selection, stake := { minor := request.stakeMinor } }

def resolvedBetInput (r : ResolvedBet) : ResolvedBetInput :=
  { betType := r.bet.betType, selection := r.bet.selection, stakeMinor := r.bet.stake.minor,
    payoutMinor := r.payout.minor, won := r.won }

def settledBetView (r : ResolvedBet) : SettledBetView :=
  { betType := r.bet.betType, selection := r.bet.selection, stakeMinor := r.bet.stake.minor,
    payoutMinor := r.payout.minor, won := r.won }

/-- The loop of `place_bet` over `validate_bet`. -/
def validateBets (settings : Settings) (bets : List PlacedBet) : Except InvalidBetError Unit :=
  bets.forM fun bet => validateBet bet { minor := settings.tableMinBetMinor } { minor := settings.tableMaxBetMinor }

/-- `balance_after_payout`, set only if something was won. -/
def creditPayout (walletId : Id) (totalPayout : Int) : Prog (Option Int) :=
  if totalPayout > 0 then some <$> WalletRepository.credit walletId { minor := totalPayout } else return none

/-- The id of `payout_entry`, written only if something was won. -/
def appendPayout (walletId roundId : Id) (totalPayout : Int) (balanceAfterPayout : Option Int) : Prog (Option Id) :=
  if totalPayout > 0 then
    match balanceAfterPayout with
    | none => raise .assertionError
    | some balance => (fun entry => some entry.id) <$>
        LedgerRepository.append walletId { minor := totalPayout } balance .betPayout (some "round") (some roundId)
  else return none

/-- From the spin on: credit, round, ledger, events. -/
def settleRound (platform : Platform) (settings : Settings) (userId : Id) (idempotencyKey : String) (wallet : Wallet)
    (seedPair : SeedPair) (nonce : Nat) (totalStake balanceAfterStake : Int) (outcome : Nat)
    (resolved : List ResolvedBet) : Prog PlaceBetResult := do
  let totalPayout := (resolved.map fun r => r.payout.minor).sum
  let balanceAfterPayout ← creditPayout wallet.id totalPayout
  let (round, betRows) ←
    RoundRepository.createSettledRound userId seedPair.id nonce outcome (resolved.map resolvedBetInput)
  let stakeEntry ←
    LedgerRepository.append wallet.id { minor := -totalStake } balanceAfterStake .betStake (some "round")
      (some round.id)
  let payoutEntryId ← appendPayout wallet.id round.id totalPayout balanceAfterPayout
  enqueueRoundEvents platform settings
    { userId, walletId := wallet.id, round, seedPairId := seedPair.id, nonce, outcome, betRows, resolved, totalStake,
      totalPayout, stakeEntryId := stakeEntry.id, payoutEntryId, balanceAfterStake, balanceAfterPayout,
      currency := wallet.currency, idempotencyKey }
  return {
    roundId := round.id
    outcome
    bets := resolved.map settledBetView
    totalStakeMinor := totalStake
    totalPayoutMinor := totalPayout
    netMinor := totalPayout - totalStake
    balanceMinor := balanceAfterPayout.getD balanceAfterStake }

def placeBet (platform : Platform) (settings : Settings) (userId : Id) (idempotencyKey : String)
    (betRequests : List BetRequest) : Prog PlaceBetResult := do
  let placedBets := betRequests.map placedBet
  liftBet (validateBets settings placedBets)
  let totalStake := (placedBets.map fun bet => bet.stake.minor).sum
  let wallet ← requireWallet platform userId
  let balanceAfterStake ← WalletRepository.debit platform wallet.id { minor := totalStake }
  let seedPair ← requireActiveSeedPair platform userId
  let nonce ← SeedPairRepository.consumeNonce seedPair.id
  let outcome ← perform (.spin { serverSeed := seedPair.serverSeed, clientSeed := seedPair.clientSeed, nonce })
  let resolved ← liftBet (resolveBets placedBets outcome)
  settleRound platform settings userId idempotencyKey wallet seedPair nonce totalStake balanceAfterStake
    outcome resolved

def listRounds (userId : Id) (cursor : Option (Time × Id)) (limit : Nat) : Prog (List (Round × List Bet)) :=
  RoundRepository.listByUser userId cursor limit

end TheClub
