import TheClub.Services.Auth
import TheClub.Services.Idempotency
import TheClub.Services.Roulette

/-!
The application: what may be started, each as the program it runs, on one database. `placeBet`,
`deposit` and `transaction` are single units of work; `createRound`, `createDeposit` and
`runIdempotent` go through the Idempotency-Key.
-/

namespace TheClub
open ReadCommitted

inductive Request where
  | registerUser (email password : String)
  | login (email password : String)
  | refresh (rawRefreshToken : String)
  | logout (userId : Id) (rawRefreshToken : String)
  | getBalance (userId : Id)
  | listTransactions (userId : Id) (cursor : Option (Time × Id)) (limit : Nat)
  | listRounds (userId : Id) (cursor : Option (Time × Id)) (limit : Nat)
  | currentSeed (userId : Id)
  | rotateSeed (userId : Id)
  | placeBet (userId : Id) (idempotencyKey : String) (bets : List BetRequest)
  | deposit (userId : Id) (idempotencyKey : String) (amountMinor : Int)
  | createRound (userId : Id) (idempotencyKey : String) (body : Bytes) (bets : List BetRequest)
  | createDeposit (userId : Id) (idempotencyKey : String) (body : Bytes) (amountMinor : Int)
  | relayOnce (batchSize : Nat)
  | purgeOnce (retentionHours : Int)
  /-- Any work that goes through `run_idempotent`. -/
  | runIdempotent (userId : Id) (key requestHash : String) (ttlHours : Int) (work : Prog Dict)
  /-- Any unit of work. -/
  | transaction (work : Prog Unit)

inductive Reply where
  | tokens (pair : TokenPair)
  | balance (view : BalanceView)
  | transactions (entries : List LedgerEntry)
  | rounds (rounds : List (Round × List Bet))
  | currentSeed (view : CurrentSeedView)
  | rotated (view : RotateSeedView)
  | placed (result : PlaceBetResult)
  | body (responseBody : Dict)
  | count (n : Nat)
  | nothing

def Request.code (platform : Platform) (settings : Settings) : Request → Prog Reply
  | registerUser email password =>
    (fun r => .tokens r.2) <$> unitOfWork .request (TheClub.registerUser platform settings email password)
  | login email password =>
    (fun r => .tokens r.2) <$> unitOfWork .request (TheClub.login platform settings email password)
  | refresh rawRefreshToken =>
    .tokens <$> unitOfWork .request (refreshAccessToken platform settings rawRefreshToken)
  | logout userId rawRefreshToken =>
    (fun _ => .nothing) <$> unitOfWork .request (TheClub.logout platform userId rawRefreshToken)
  | getBalance userId => .balance <$> unitOfWork .request (TheClub.getBalance platform userId)
  | listTransactions userId cursor limit =>
    .transactions <$> unitOfWork .request (TheClub.listTransactions platform userId cursor limit)
  | listRounds userId cursor limit => .rounds <$> unitOfWork .request (TheClub.listRounds userId cursor limit)
  | currentSeed userId => .currentSeed <$> unitOfWork .request (getCurrentSeed platform userId)
  | rotateSeed userId => .rotated <$> unitOfWork .request (TheClub.rotateSeed platform userId)
  | placeBet userId idempotencyKey bets =>
    .placed <$> unitOfWork .request (TheClub.placeBet platform settings userId idempotencyKey bets)
  | deposit userId idempotencyKey amountMinor =>
    .balance <$> unitOfWork .request (TheClub.deposit platform settings userId idempotencyKey amountMinor)
  | createRound userId idempotencyKey body bets =>
    .body <$> TheClub.runIdempotent userId idempotencyKey (hashRequestBody platform body)
      settings.idempotencyKeyTtlHours
      (PlaceBetResult.toDict platform <$> TheClub.placeBet platform settings userId idempotencyKey bets)
  | createDeposit userId idempotencyKey body amountMinor =>
    .body <$> TheClub.runIdempotent userId idempotencyKey (hashRequestBody platform body)
      settings.idempotencyKeyTtlHours
      (BalanceView.toDict <$> TheClub.deposit platform settings userId idempotencyKey amountMinor)
  | relayOnce batchSize => .count <$> TheClub.relayOnce platform batchSize
  | purgeOnce retentionHours => .count <$> TheClub.purgeOnce retentionHours
  | runIdempotent userId key requestHash ttlHours work =>
    .body <$> TheClub.runIdempotent userId key requestHash ttlHours work
  | transaction work => (fun _ => .nothing) <$> unitOfWork .request work

/-- The application on an empty database. A process that dies loses its open transaction. -/
abbrev application (platform : Platform) (settings : Settings) : System signature where
  State := Database
  Env := Env
  exec := exec platform
  die := fun i s => s.settle i .undone
  init := Database.empty
  Request := Request
  Reply := Reply
  code := Request.code platform settings

variable {platform : Platform} {settings : Settings}

/-- A request that runs a use case of the application, not some other work. -/
def Request.isUseCase : Request → Bool
  | runIdempotent _ _ _ _ _ => false
  | transaction _ => false
  | _ => true

def isUseCase (_ : World (application platform settings)) : Label (application platform settings) → Bool
  | .start _ q => Request.isUseCase q
  | _ => true

/-- The runs of the application's use cases, in any order of steps, with any failures. -/
abbrev UseCases (w : World (application platform settings)) (l : Label (application platform settings)) : Prop :=
  isUseCase w l = true

/-- Process `i` is about to commit. -/
def committing (w : World (application platform settings)) (i : Nat) : Bool :=
  match w.proc i with
  | some (.call (.commit _) _) => true
  | _ => false

theorem committing_of_aboutTo {w : World (application platform settings)} {i : Nat} {tx : Tx}
    (about : w.AboutTo i (.commit tx)) : committing w i = true := by
  obtain ⟨next, running⟩ := about
  simp [committing, running]

/-! ### A concrete application -/

def samplePlatform : Platform where
  sha256Hex := hex
  hmacSha256 := fun _ _ => [0, 0, 0, 7]
  verifyPassword := fun passwordHash password => passwordHash = password
  jwtEncode := fun sub _ _ _ _ => sub
  citext := id
  uuidText := fun k => toString k
  isoformat := fun t => toString t
  dumps := fun _ => []

def sampleSettings : Settings where
  kafkaTopicPrefix := "theclub"
  jwtSecret := "change-me-in-production-000000000"
  jwtAlgorithm := "HS256"
  accessTokenTtlSeconds := 900
  refreshTokenTtlSeconds := 1209600
  outboxRetentionHours := 168
  tableMinBetMinor := 100
  tableMaxBetMinor := 500000
  idempotencyKeyTtlHours := 24

abbrev SampleWorld : Type := World (application samplePlatform sampleSettings)

abbrev SampleLabel : Type := Label (application samplePlatform sampleSettings)

/-- `n` commands of process `i` at time `now`, drawing the ids from `first` on. -/
def turns (i : Nat) (now : Time) (first : Id) (n : Nat) (text : String := "") : List SampleLabel :=
  (List.range n).map fun k => .run i
    { now, id := first + k, bytes := List.replicate SEED_BYTES (UInt8.ofNat i), text, fuel := 1 }

/-- A run of the use cases. -/
def sampleRun (ls : List SampleLabel) : SampleWorld := World.initial.replay isUseCase ls

theorem sampleRun_reachable (ls : List SampleLabel) : Reachable UseCases (sampleRun ls) :=
  run_replay (fun _ _ => id) _ ls

/-- User 12 registers: wallet 15, seed pair 16. -/
def sampleRegistration : List SampleLabel := .start 0 (.registerUser "ana@mail.com" "password") :: turns 0 1 10 13

def sampleBets : List BetRequest := [⟨.straight, { entries := [("numbers", .list [7])] }, 100⟩]

/-- The balance that a reply tells. -/
def balanceIn (responseBody : Dict) : Option Int :=
  match responseBody.lookup "balance_minor" with
  | some (.int n) => some n
  | _ => none

/-- After a registration, user 12 deposits 1000 and wins a bet of 100 on number 7. -/
def sampleRound : SampleWorld := sampleRun (sampleRegistration ++
  .start 1 (.deposit 12 "deposit-1" 1000) :: turns 1 2 30 7 ++
  .start 2 (.placeBet 12 "bet-1" sampleBets) :: turns 2 3 50 40)

end TheClub
