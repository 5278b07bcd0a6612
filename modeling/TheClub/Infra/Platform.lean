import TheClub.Domain.Fairness
import TheClub.Domain.Roulette.Bets

/-! What the services stand on: time, JSON values, settings, library functions and exceptions. -/

namespace TheClub

/-- A UUID. -/
abbrev Id := Nat

/-- Microseconds of UTC time. -/
abbrev Time := Int

def seconds (n : Int) : Time := n * 1000000
def hours (n : Int) : Time := seconds (n * 3600)

inductive Json where
  | null
  | bool (b : Bool)
  | int (n : Int)
  | str (s : String)
  | arr (items : List Json)
  | obj (fields : List (String × Json))

/-- `dict[str, Any]`, as stored in a JSONB column. -/
abbrev Dict := List (String × Json)

/-- Functions of the platform and of libraries; what they compute is not part of the model. -/
structure Platform where
  sha256Hex : Bytes → String
  hmacSha256 : Bytes → Bytes → Bytes
  /-- `argon2.PasswordHasher.verify`, `false` for a mismatch. -/
  verifyPassword : (passwordHash password : String) → Bool
  /-- `jwt.encode` of the claims sub, iat and exp. -/
  jwtEncode : (sub : String) → (iat exp : Time) → (secret algorithm : String) → String
  /-- The case folding of CITEXT comparisons. -/
  citext : String → String
  uuidText : Id → String
  isoformat : Time → String
  dumps : Dict → Bytes

/-- `bytes.hex()`. -/
def hex (bytes : Bytes) : String :=
  String.ofList (bytes.flatMap fun b => [Nat.digitChar (b.toNat / 16), Nat.digitChar (b.toNat % 16)])

theorem hex_injective : Function.Injective hex := by
  have digit : ∀ m < 16, ∀ n < 16, Nat.digitChar m = Nat.digitChar n → m = n := by decide
  intro left right same
  have digits := String.ofList_injective same
  induction left generalizing right with
  | nil => cases right with
    | nil => rfl
    | cons b right => cases digits
  | cons a left ih => cases right with
    | nil => cases digits
    | cons b right =>
      simp only [List.flatMap_cons, List.cons_append, List.nil_append, List.cons.injEq] at digits
      obtain ⟨high, low, rest⟩ := digits
      have ha := a.toNat_lt
      have hb := b.toNat_lt
      have high := digit _ (by omega) _ (by omega) high
      have low := digit _ (by omega) _ (by omega) low
      have byte : a = b := UInt8.toNat_inj.mp (by omega)
      rw [byte, ih (congrArg String.ofList rest) rest]

structure Settings where
  kafkaTopicPrefix : String
  jwtSecret : String
  jwtAlgorithm : String
  accessTokenTtlSeconds : Int
  refreshTokenTtlSeconds : Int
  outboxRetentionHours : Int
  tableMinBetMinor : Int
  tableMaxBetMinor : Int
  idempotencyKeyTtlHours : Int
  accessTokenTtl_ge : 60 ≤ accessTokenTtlSeconds := by decide
  refreshTokenTtl_ge : 300 ≤ refreshTokenTtlSeconds := by decide
  outboxRetention_ge : 1 ≤ outboxRetentionHours := by decide
  tableMinBet_ge : 1 ≤ tableMinBetMinor := by decide
  betLimits : tableMinBetMinor ≤ tableMaxBetMinor := by decide
  idempotencyKeyTtl_ge : 1 ≤ idempotencyKeyTtlHours := by decide

inductive Error where
  /-- Raised by the database for a unique or check constraint. -/
  | integrityError (constraint : String)
  | dataError
  | noResultFound
  | multipleResultsFound
  /-- The connection was lost; `applied` tells whether a COMMIT had taken effect. -/
  | connectionLost (applied : Bool)
  /-- A statement or a COMMIT in a transaction that a failed statement has aborted. -/
  | inFailedSqlTransaction
  | pendingRollbackError
  /-- `pool_timeout` has passed before a connection was free. -/
  | poolTimeoutError
  | kafkaError (message : String)
  /-- The fields a pydantic model refused. -/
  | validationError (fields : List String)
  | assertionError
  | dataIntegrityError (message : String)
  | invalidBetError (reason : Roulette.InvalidBetError)
  | insufficientFundsError (message : String)
  | emailAlreadyExistsError (email : String)
  | invalidCredentialsError
  | userSuspendedError
  | refreshTokenReusedError
  | invalidTokenError
  | tokenExpiredError
  | idempotencyKeyConflictError
  | idempotencyInProgressError
  | invalidCursorError
  deriving DecidableEq, Repr

/-- `str(exc)` of an exception of the broker client. -/
def Error.text : Error → String
  | .kafkaError message => message
  | _ => ""

end TheClub
