import TheClub.Infra.Db

/-! The events, what their models check when they are built, and their JSON form. -/

namespace TheClub

/-- Building a model raises for the fields whose constraint fails. -/
def validate (fields : List (String × Bool)) : Except Error Unit :=
  match fields.filter fun field => !field.2 with
  | [] => .ok ()
  | refused => .error (.validationError (refused.map Prod.fst))

def Roulette.SelectionValue.toJson : Roulette.SelectionValue → Json
  | .int n => .int n
  | .list ns => .arr (ns.map .int)

def Roulette.Selection.toJson (selection : Roulette.Selection) : Json :=
  .obj (selection.entries.map fun entry => (entry.1, entry.2.toJson))

def optional {α : Type} (toJson : α → Json) : Option α → Json
  | none => .null
  | some a => toJson a

inductive EventType where
  | betPlaced | roundSettled | walletTransaction
  deriving DecidableEq, Repr

def EventType.value : EventType → String
  | .betPlaced => "bet.placed"
  | .roundSettled => "round.settled"
  | .walletTransaction => "wallet.transaction"

/-- `EVENT_TOPIC_SUFFIXES[event_type]`. -/
def EventType.topicSuffix : EventType → String
  | .betPlaced => "bets.placed.v1"
  | .roundSettled => "rounds.settled.v1"
  | .walletTransaction => "wallet.transactions.v1"

structure EventEnvelope where
  eventId : Id
  eventType : EventType
  occurredAt : Time
  idempotencyKey : Option String
  data : Dict

/-- `envelope.model_dump(mode="json")`. -/
def EventEnvelope.modelDump (platform : Platform) (envelope : EventEnvelope) : Dict :=
  [("event_id", .str (platform.uuidText envelope.eventId)),
   ("event_type", .str envelope.eventType.value),
   ("event_version", .int 1),
   ("occurred_at", .str (platform.isoformat envelope.occurredAt)),
   ("producer", .str "theclub-api"),
   ("idempotency_key", optional .str envelope.idempotencyKey),
   ("data", .obj envelope.data)]

structure BetPlacedData where
  roundId : Id
  betId : Id
  userId : Id
  betType : Roulette.BetType
  selection : Roulette.Selection
  stakeMinor : Int
  currency : String

def BetPlacedData.build (platform : Platform) (d : BetPlacedData) : Except Error Dict := do
  validate [("stake_minor", 1 ≤ d.stakeMinor), ("currency", d.currency = "EUR")]
  return [("round_id", .str (platform.uuidText d.roundId)),
    ("bet_id", .str (platform.uuidText d.betId)),
    ("user_id", .str (platform.uuidText d.userId)),
    ("bet_type", .str d.betType.value),
    ("selection", d.selection.toJson),
    ("stake_minor", .int d.stakeMinor),
    ("currency", .str d.currency)]

structure SettledBet where
  betId : Id
  betType : Roulette.BetType
  selection : Roulette.Selection
  stakeMinor : Int
  payoutMinor : Int
  won : Bool

def SettledBet.build (platform : Platform) (d : SettledBet) : Except Error Json := do
  validate [("stake_minor", 1 ≤ d.stakeMinor), ("payout_minor", 0 ≤ d.payoutMinor)]
  return .obj [("bet_id", .str (platform.uuidText d.betId)),
    ("bet_type", .str d.betType.value),
    ("selection", d.selection.toJson),
    ("stake_minor", .int d.stakeMinor),
    ("payout_minor", .int d.payoutMinor),
    ("won", .bool d.won)]

structure RoundSettledData where
  roundId : Id
  userId : Id
  seedPairId : Id
  nonce : Nat
  outcome : Int
  bets : List SettledBet
  totalStakeMinor : Int
  totalPayoutMinor : Int
  netMinor : Int
  currency : String

def RoundSettledData.build (platform : Platform) (d : RoundSettledData) : Except Error Dict := do
  let bets ← d.bets.mapM (SettledBet.build platform)
  validate [("outcome", 0 ≤ d.outcome ∧ d.outcome ≤ 36), ("bets", d.bets.length ≠ 0),
    ("total_stake_minor", 1 ≤ d.totalStakeMinor), ("total_payout_minor", 0 ≤ d.totalPayoutMinor),
    ("currency", d.currency = "EUR")]
  return [("round_id", .str (platform.uuidText d.roundId)),
    ("user_id", .str (platform.uuidText d.userId)),
    ("seed_pair_id", .str (platform.uuidText d.seedPairId)),
    ("nonce", .int d.nonce),
    ("outcome", .int d.outcome),
    ("bets", .arr bets),
    ("total_stake_minor", .int d.totalStakeMinor),
    ("total_payout_minor", .int d.totalPayoutMinor),
    ("net_minor", .int d.netMinor),
    ("currency", .str d.currency)]

structure WalletTransactionData where
  transactionId : Id
  userId : Id
  walletId : Id
  kind : LedgerKind
  amountMinor : Int
  balanceAfterMinor : Int
  currency : String
  refType : Option String
  refId : Option Id

def WalletTransactionData.build (platform : Platform) (d : WalletTransactionData) : Except Error Dict := do
  validate [("balance_after_minor", 0 ≤ d.balanceAfterMinor), ("currency", d.currency = "EUR"),
    ("ref_type", d.refType.all fun t => t ∈ ["round", "bet", "manual"])]
  return [("transaction_id", .str (platform.uuidText d.transactionId)),
    ("user_id", .str (platform.uuidText d.userId)),
    ("wallet_id", .str (platform.uuidText d.walletId)),
    ("kind", .str d.kind.value),
    ("amount_minor", .int d.amountMinor),
    ("balance_after_minor", .int d.balanceAfterMinor),
    ("currency", .str d.currency),
    ("ref_type", optional .str d.refType),
    ("ref_id", optional (fun refId => .str (platform.uuidText refId)) d.refId)]

end TheClub
