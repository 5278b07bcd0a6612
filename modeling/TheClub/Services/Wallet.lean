import TheClub.Events.Outbox

/-! Wallet use cases: balance, history, simulated deposit. -/

namespace TheClub

def MAX_DEPOSIT_MINOR : Int := 10000000

structure BalanceView where
  balanceMinor : Int
  currency : String
  deriving DecidableEq, Repr

def BalanceView.toDict (view : BalanceView) : Dict :=
  [("balance_minor", .int view.balanceMinor), ("currency", .str view.currency)]

/-- The user's wallet, which registration created. -/
def requireWallet (platform : Platform) (userId : Id) : Prog Wallet := do
  match ← WalletRepository.getByUserId userId with
  | some wallet => return wallet
  | none => raise (.dataIntegrityError s!"user {platform.uuidText userId} has no wallet")

def getBalance (platform : Platform) (userId : Id) : Prog BalanceView := do
  let wallet ← requireWallet platform userId
  return { balanceMinor := wallet.balanceMinor, currency := wallet.currency }

def listTransactions (platform : Platform) (userId : Id) (cursor : Option (Time × Id)) (limit : Nat) :
    Prog (List LedgerEntry) := do
  let wallet ← requireWallet platform userId
  LedgerRepository.listByWallet wallet.id cursor limit

def deposit (platform : Platform) (settings : Settings) (userId : Id) (idempotencyKey : String) (amountMinor : Int) :
    Prog BalanceView := do
  let wallet ← requireWallet platform userId
  let balanceAfter ← WalletRepository.credit wallet.id { minor := amountMinor }
  let entry ← LedgerRepository.append wallet.id { minor := amountMinor } balanceAfter .deposit none none
  let envelope ← newEnvelope .walletTransaction (WalletTransactionData.build platform
    { transactionId := entry.id, userId, walletId := wallet.id, kind := .deposit, amountMinor,
      balanceAfterMinor := balanceAfter, currency := wallet.currency, refType := none, refId := none })
    (some idempotencyKey)
  enqueueEvent platform settings envelope (platform.uuidText userId)
  return { balanceMinor := balanceAfter, currency := wallet.currency }

end TheClub
