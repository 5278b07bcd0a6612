import TheClub.Infra.Platform

/-! The rows of the tables. -/

namespace TheClub

inductive UserStatus where
  | active | suspended
  deriving DecidableEq, Repr

structure User where
  id : Id
  email : String
  passwordHash : String
  status : UserStatus
  createdAt : Time
  deriving DecidableEq, Repr

def DEFAULT_CURRENCY : String := "EUR"

structure Wallet where
  id : Id
  userId : Id
  balanceMinor : Int
  currency : String
  deriving DecidableEq, Repr

/-- A wallet row with the updates that led to it, oldest first, each as the amount added and the
balance it left. No statement reads `updates`. -/
structure WalletRow extends Wallet where
  updates : List (Int × Int) := []
  deriving DecidableEq, Repr

inductive LedgerKind where
  | deposit | betStake | betPayout | adjustment
  deriving DecidableEq, Repr

def LedgerKind.value : LedgerKind → String
  | .deposit => "deposit"
  | .betStake => "bet_stake"
  | .betPayout => "bet_payout"
  | .adjustment => "adjustment"

structure LedgerEntry where
  id : Id
  walletId : Id
  amountMinor : Int
  balanceAfterMinor : Int
  kind : LedgerKind
  refType : Option String
  refId : Option Id
  createdAt : Time
  deriving DecidableEq, Repr

inductive SeedStatus where
  | active | revealed
  deriving DecidableEq, Repr

structure SeedPair where
  id : Id
  userId : Id
  serverSeed : Bytes
  serverSeedHash : String
  clientSeed : String
  nonce : Nat
  status : SeedStatus
  revealedAt : Option Time
  createdAt : Time
  deriving DecidableEq, Repr

inductive RoundStatus where
  | pending | settled
  deriving DecidableEq, Repr

structure Round where
  id : Id
  userId : Id
  seedPairId : Id
  nonce : Nat
  outcome : Option Int
  status : RoundStatus
  createdAt : Time
  settledAt : Option Time
  deriving DecidableEq, Repr

inductive BetStatus where
  | pending | won | lost
  deriving DecidableEq, Repr

structure Bet where
  id : Id
  roundId : Id
  betType : Roulette.BetType
  selection : Roulette.Selection
  stakeMinor : Int
  payoutMinor : Int
  status : BetStatus
  deriving DecidableEq, Repr

structure OutboxEvent where
  id : Id
  topic : String
  key : String
  payload : Dict
  createdAt : Time
  publishedAt : Option Time
  attempts : Nat
  lastError : Option String
  nextAttemptAt : Option Time

inductive IdempotencyStatus where
  | pending | completed
  deriving DecidableEq, Repr

structure IdempotencyKey where
  id : Id
  userId : Id
  key : String
  requestHash : String
  responseBody : Option Dict
  status : IdempotencyStatus
  expiresAt : Time
  createdAt : Time

/-- Only the token's hash is stored. `familyId` groups the rotation chain of one login. -/
structure RefreshToken where
  id : Id
  userId : Id
  familyId : Id
  tokenHash : String
  createdAt : Time
  expiresAt : Time
  revokedAt : Option Time
  deriving DecidableEq, Repr

end TheClub
