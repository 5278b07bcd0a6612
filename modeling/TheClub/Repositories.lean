import TheClub.Infra.Db

/-! The repositories: what each method runs and what it makes of the result. -/

namespace TheClub
open ReadCommitted

namespace UserRepository

def getById (userId : Id) : Prog (Option User) := sql .users (.getById userId)

def getByEmail (email : String) : Prog (Option User) := do
  scalarOneOrNone (← sql .users (.getByEmail email))

def create (email passwordHash : String) : Prog User := sql .users (.create email passwordHash)

end UserRepository

namespace WalletRepository

def getByUserId (userId : Id) : Prog (Option Wallet) := do
  scalarOneOrNone (← sql .wallets (.getByUserId userId))

/-- Deducts `amount` atomically. Returns the resulting balance. -/
def debit (platform : Platform) (walletId : Id) (amount : Money) : Prog Int := do
  match ← sql .wallets (.debit walletId amount.minor) with
  | some newBalance => return newBalance
  | none => raise (.insufficientFundsError
      s!"wallet {platform.uuidText walletId} can't cover a debit of {amount.minor} {amount.currency}")

/-- Credits `amount`, with no balance condition. -/
def credit (walletId : Id) (amount : Money) : Prog Int := do
  scalarOne (← sql .wallets (.credit walletId amount.minor))

end WalletRepository

namespace LedgerRepository

def append (walletId : Id) (amount : Money) (balanceAfterMinor : Int) (kind : LedgerKind) (refType : Option String)
    (refId : Option Id) : Prog LedgerEntry :=
  sql .ledgerEntries (.append walletId amount.minor balanceAfterMinor kind refType refId)

def listByWallet (walletId : Id) (cursor : Option (Time × Id)) (limit : Nat) : Prog (List LedgerEntry) :=
  sql .ledgerEntries (.listByWallet walletId cursor limit)

end LedgerRepository

namespace SeedPairRepository

def getActiveByUserId (userId : Id) : Prog (Option SeedPair) := do
  scalarOneOrNone (← sql .seedPairs (.getActiveByUserId userId))

def createActive (userId : Id) (serverSeed : Bytes) (serverSeedHash clientSeed : String) : Prog SeedPair :=
  sql .seedPairs (.createActive userId serverSeed serverSeedHash clientSeed)

/-- Increments the nonce atomically and returns the new value. -/
def consumeNonce (seedPairId : Id) : Prog Nat := do
  scalarOne (← sql .seedPairs (.consumeNonce seedPairId))

def revealAndDeactivate (seedPairId : Id) : Prog Unit := do
  let now ← datetimeNow
  sql .seedPairs (.revealAndDeactivate seedPairId now)

end SeedPairRepository

structure ResolvedBetInput where
  betType : Roulette.BetType
  selection : Roulette.Selection
  stakeMinor : Int
  payoutMinor : Int
  won : Bool

namespace RoundRepository

def insertBet (roundId : Id) (bet : ResolvedBetInput) : Prog Bet :=
  sql .bets (.insert roundId bet.betType bet.selection bet.stakeMinor bet.payoutMinor (if bet.won then .won else .lost))

/-- Creates the round already settled. -/
def createSettledRound (userId seedPairId : Id) (nonce : Nat) (outcome : Int) (bets : List ResolvedBetInput) :
    Prog (Round × List Bet) := do
  let now ← datetimeNow
  let round ← sql .rounds (.insert userId seedPairId nonce outcome now)
  let betRows ← bets.mapM (insertBet round.id)
  return (round, betRows)

/-- `selectinload(Round.bets)`. -/
def loadBets (rounds : List Round) : Prog (List Bet) :=
  if rounds.isEmpty then return [] else sql .bets (.selectIn (rounds.map Round.id))

def listByUser (userId : Id) (cursor : Option (Time × Id)) (limit : Nat) : Prog (List (Round × List Bet)) := do
  let rounds ← sql .rounds (.listByUser userId cursor limit)
  let bets ← loadBets rounds
  return rounds.map fun round => (round, bets.filter fun bet => bet.roundId = round.id)

end RoundRepository

namespace OutboxRepository

def BASE_BACKOFF_SECONDS : Int := 2
def MAX_BACKOFF_SECONDS : Int := 60

/-- The rows of `lock_unpublished_batch`, locked one after the other up to the limit. -/
def lockEach (now : Time) : Nat → List Id → Prog (List OutboxEvent)
  | 0, _ => return []
  | _, [] => return []
  | limit + 1, id :: ids => do
    match ← sql .outbox (.lockReady id now) with
    | some row =>
      let rows ← lockEach now limit ids
      return row :: rows
    | none => lockEach now (limit + 1) ids

/-- Locks up to `limit` pending rows that are ready to be retried. -/
def lockUnpublishedBatch (limit : Nat) : Prog (List OutboxEvent) := do
  let now ← datetimeNow
  let ids ← sql .outbox (.readyIds now)
  lockEach now limit ids

def markPublished (eventId : Id) : Prog Unit := do
  let now ← datetimeNow
  sql .outbox (.markPublished eventId now)

def backoffSeconds (attempts : Nat) : Int := min (BASE_BACKOFF_SECONDS * 2 ^ attempts) MAX_BACKOFF_SECONDS

def markFailed (eventId : Id) (attempts : Nat) (error : String) : Prog Unit := do
  let now ← datetimeNow
  sql .outbox (.markFailed eventId attempts (String.ofList (error.toList.take 500))
    (now + seconds (backoffSeconds attempts)))

/-- The rows of `purge_published`, deleted one after the other; the number deleted. -/
def purgeEach (olderThan : Time) : List Id → Prog Nat
  | [] => return 0
  | id :: ids => do
    let deleted ← sql .outbox (.purgeRow id olderThan)
    let rest ← purgeEach olderThan ids
    return if deleted then rest + 1 else rest

/-- Deletes already-published rows older than `olderThan`. -/
def purgePublished (olderThan : Time) : Prog Nat := do
  purgeEach olderThan (← sql .outbox (.purgeableIds olderThan))

end OutboxRepository

namespace IdempotencyKeyRepository

def get (userId : Id) (key : String) : Prog (Option IdempotencyKey) := do
  scalarOneOrNone (← sql .idempotencyKeys (.get userId key))

def createPending (userId : Id) (key requestHash : String) (expiresAt : Time) : Prog IdempotencyKey :=
  sql .idempotencyKeys (.createPending userId key requestHash expiresAt)

def markCompleted (rowId : Id) (responseBody : Dict) : Prog Unit :=
  sql .idempotencyKeys (.markCompleted rowId responseBody)

def delete (rowId : Id) : Prog Unit := sql .idempotencyKeys (.delete rowId)

end IdempotencyKeyRepository

namespace RefreshTokenRepository

def getByHash (tokenHash : String) : Prog (Option RefreshToken) := do
  scalarOneOrNone (← sql .refreshTokens (.getByHash tokenHash))

def create (userId familyId : Id) (tokenHash : String) (expiresAt : Time) : Prog RefreshToken :=
  sql .refreshTokens (.create userId familyId tokenHash expiresAt)

def revoke (tokenId : Id) (revokedAt : Time) : Prog Unit := sql .refreshTokens (.revoke tokenId revokedAt)

/-- Revokes an entire session's rotation chain. -/
def revokeFamily (familyId : Id) (revokedAt : Time) : Prog Unit := do
  let ids ← sql .refreshTokens (.matchFamily familyId)
  ids.forM fun id => sql .refreshTokens (.revokeMatched id familyId revokedAt)

end RefreshTokenRepository

end TheClub
