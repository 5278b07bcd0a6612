import TheClub.Infra.Platform

/-! `_ERROR_MAP`: the status code and the detail an exception is answered with. -/

namespace TheClub

def errorMap : Error → Option (Nat × String)
  | .emailAlreadyExistsError _ => some (409, "email already registered")
  | .invalidCredentialsError => some (401, "invalid credentials")
  | .userSuspendedError => some (403, "account is suspended")
  | .tokenExpiredError => some (401, "token has expired")
  | .invalidTokenError => some (401, "invalid token")
  | .refreshTokenReusedError => some (401, "session revoked")
  | .invalidBetError _ => some (422, "invalid bet")
  | .insufficientFundsError _ => some (409, "insufficient funds")
  | .idempotencyKeyConflictError => some (409, "Idempotency-Key already used with a different request body")
  | .idempotencyInProgressError => some (409, "a request with this same Idempotency-Key is already in progress")
  | _ => none

def Mapped (e : Error) : Prop := (errorMap e).isSome = true

end TheClub
