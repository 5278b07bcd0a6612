import TheClub.Requests

/-! What the endpoints depend on: the authenticated user. -/

namespace TheClub
open ReadCommitted

/-- The user of the token that `decode_access_token` accepted, looked up on every request. -/
def getCurrentUser (token : Except Error Id) : Prog User := do
  let userId ← lift token
  match ← UserRepository.getById userId with
  | none => raise .invalidTokenError
  | some user => if user.status = .suspended then raise .userSuspendedError else return user

/-- A request to an endpoint that goes through `run_idempotent`. -/
inductive MoneyRequest where
  | createRound (idempotencyKey : String) (body : Bytes) (bets : List BetRequest)
  | createDeposit (idempotencyKey : String) (body : Bytes) (amountMinor : Int)

/-- The handler's own work, with `user.id` from `get_current_user`. -/
def MoneyRequest.request (user : User) : MoneyRequest → Request
  | createRound idempotencyKey body bets => .createRound user.id idempotencyKey body bets
  | createDeposit idempotencyKey body amountMinor => .createDeposit user.id idempotencyKey body amountMinor

end TheClub
