import TheClub.Repositories

/-!
An operation with an Idempotency-Key: reserve the key, run the work and complete the row in one
transaction, delete the row if the work fails.
-/

namespace TheClub
open ReadCommitted

def PENDING_RECLAIM_SECONDS : Int := 30

/-- `hash_request_body(body)`. -/
def hashRequestBody (platform : Platform) (body : Bytes) : String := platform.sha256Hex body

/-- `none` if the key already exists, otherwise the reserved id. -/
def tryReserve (userId : Id) (key requestHash : String) (ttlHours : Int) : Prog (Option Id) :=
  Program.handle
    (do
      let rowId ← unitOfWork .reserve do
        let now ← datetimeNow
        let row ← IdempotencyKeyRepository.createPending userId key requestHash (now + hours ttlHours)
        return row.id
      return some rowId)
    fun
      | .integrityError _ => return none
      | e => raise e

/-- The cached response; `none` if an abandoned row was reclaimed. -/
def resolveExisting (userId : Id) (key requestHash : String) : Prog (Option Dict) :=
  session do
    match ← IdempotencyKeyRepository.get userId key with
    | none => return none
    | some existing =>
      if existing.requestHash ≠ requestHash then
        raise .idempotencyKeyConflictError
      else if existing.status = .completed then
        return some (existing.responseBody.getD [])
      else
        let now ← datetimeNow
        if ¬now - existing.createdAt > seconds PENDING_RECLAIM_SECONDS then
          raise .idempotencyInProgressError
        else
          IdempotencyKeyRepository.delete existing.id
          perform (.commit .reclaim)
          return none

/-- Run the work for the reserved row; on any exception delete the row and re-raise. -/
def runReserved (rowId : Id) (work : Prog Dict) : Prog Dict :=
  Program.handle
    (unitOfWork .work do
      let responseBody ← work
      IdempotencyKeyRepository.markCompleted rowId responseBody
      return responseBody)
    fun e => do
      unitOfWork .cleanup (IdempotencyKeyRepository.delete rowId)
      raise e

def runIdempotent (userId : Id) (key requestHash : String) (ttlHours : Int) (work : Prog Dict) : Prog Dict := do
  match ← tryReserve userId key requestHash ttlHours with
  | some rowId => runReserved rowId work
  | none =>
    match ← resolveExisting userId key requestHash with
    | some cached => return cached
    | none =>
      match ← tryReserve userId key requestHash ttlHours with
      | some rowId => runReserved rowId work
      | none => raise .idempotencyInProgressError

end TheClub
