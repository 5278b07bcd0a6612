import TheClub.Infra.Queries.Statement

/-! Queries of the outbox and idempotency_keys tables. -/

namespace TheClub
open ReadCommitted

inductive OutboxQuery where
  | insert (topic key : String) (payload : Dict)
  /-- The rows `lock_unpublished_batch` finds when it starts, by `created_at`. -/
  | readyIds (now : Time)
  /-- `FOR UPDATE SKIP LOCKED` reaching one of these rows: `none` if it is locked or no longer ready. -/
  | lockReady (id : Id) (now : Time)
  | markPublished (id : Id) (publishedAt : Time)
  | markFailed (id : Id) (attempts : Nat) (lastError : String) (nextAttemptAt : Time)
  /-- The rows the `DELETE` of `purge_published` finds when it starts. -/
  | purgeableIds (olderThan : Time)
  /-- That `DELETE` reaching one of these rows: whether it deletes it. -/
  | purgeRow (id : Id) (olderThan : Time)

namespace OutboxQuery

abbrev Ret : OutboxQuery → Type
  | insert _ _ _ => OutboxEvent
  | readyIds _ => List Id
  | lockReady _ _ => Option OutboxEvent
  | markPublished _ _ => Unit
  | markFailed _ _ _ _ => Unit
  | purgeableIds _ => List Id
  | purgeRow _ _ => Bool

/-- The row that a statement has inserted. -/
def inserted : (q : OutboxQuery) → q.Ret → Option OutboxEvent
  | insert _ _ _, row => some row
  | _, _ => none

/-- `published_at IS NULL AND (next_attempt_at IS NULL OR next_attempt_at <= now)`. -/
def ready (now : Time) (e : OutboxEvent) : Bool := e.publishedAt = none ∧ e.nextAttemptAt.all (· ≤ now)

/-- `published_at IS NOT NULL AND published_at < olderThan`. -/
def purgeable (olderThan : Time) (e : OutboxEvent) : Bool := e.publishedAt.any (· < olderThan)

def matching (i : Nat) (t : Table Id OutboxEvent) (p : OutboxEvent → Bool) : List Id :=
  t.keys.filter fun k => ((t.slot k).view i).any p

/-- `order` lists the rows `i` sees by `created_at`; ties come in any order. -/
def Sorted (i : Nat) (t : Table Id OutboxEvent) (order : List Id) : Prop :=
  order.Pairwise fun k k' => ∀ e ∈ (t.slot k).view i, ∀ e' ∈ (t.slot k').view i, e.createdAt ≤ e'.createdAt

instance (i : Nat) (t : Table Id OutboxEvent) (order : List Id) : Decidable (Sorted i t order) := by
  unfold Sorted; infer_instance

def exec (ctx : Context) (i : Nat) (t : Table Id OutboxEvent) :
    (q : OutboxQuery) → Outcome Error q.Ret (Table Id OutboxEvent)
  | insert topic key payload =>
    insertRow ctx i t "pk_outbox" (fun _ => false)
      { id := ctx.id, topic, key, payload, createdAt := ctx.now, publishedAt := none, attempts := 0,
        lastError := none, nextAttemptAt := none }
  | readyIds now =>
    if ctx.order.Perm (matching i t (ready now)) ∧ Sorted i t ctx.order then .ok ctx.order t else .waits
  | lockReady id now =>
    match t.updateRow i id (ready now) some with
    | .missed => .ok none t
    | .waits => .ok none t
    | .wrote e t' => .ok (some e) t'
  | markPublished id publishedAt =>
    changeRow i t id (fun _ => true) fun e => some { e with publishedAt := some publishedAt }
  | markFailed id attempts lastError nextAttemptAt =>
    if ¬(attempts : Int) ≤ INT_MAX then .fails .dataError
    else changeRow i t id (fun _ => true) fun e =>
      some { e with attempts, lastError := some lastError, nextAttemptAt := some nextAttemptAt }
  | purgeableIds olderThan => .ok (matching i t (purgeable olderThan)) t
  | purgeRow id olderThan =>
    match t.updateRow i id (purgeable olderThan) fun _ => none with
    | .missed => .ok false t
    | .waits => .waits
    | .wrote _ t' => .ok true t'

/-- What an event keeps all its life. -/
def fixed (e : OutboxEvent) : OutboxEvent :=
  { e with publishedAt := none, attempts := 0, lastError := none, nextAttemptAt := none }

theorem exec_moved {ctx : Context} {i : Nat} {t t' : Table Id OutboxEvent} {q : OutboxQuery} {r : q.Ret}
    (h : exec ctx i t q = .ok r t') : t.Moved OutboxEvent.id fixed i (inserted q r) t' := by
  cases q with
  | insert topic key payload => exact insertRow_moved rfl h
  | readyIds now =>
    simp only [exec] at h
    split at h
    · cases h; exact .still rfl
    · cases h
  | lockReady id now =>
    simp only [exec] at h
    split at h
    · cases h; exact .still rfl
    · cases h; exact .still rfl
    · rename_i wrote
      cases h
      exact updateRow_moved (by rintro a b ⟨⟩; exact ⟨rfl, rfl⟩) wrote
  | markPublished id publishedAt => exact changeRow_moved (by rintro a b ⟨⟩; exact ⟨rfl, rfl⟩) h
  | markFailed id attempts lastError nextAttemptAt =>
    simp only [exec] at h
    split at h
    · cases h
    · exact changeRow_moved (by rintro a b ⟨⟩; exact ⟨rfl, rfl⟩) h
  | purgeableIds olderThan => cases h; exact .still rfl
  | purgeRow id olderThan =>
    simp only [exec] at h
    split at h
    · cases h; exact .still rfl
    · cases h
    · rename_i wrote
      cases h
      exact updateRow_moved (by rintro a b ⟨⟩) wrote

end OutboxQuery

inductive IdempotencyQuery where
  | get (userId : Id) (key : String)
  | createPending (userId : Id) (key requestHash : String) (expiresAt : Time)
  | markCompleted (rowId : Id) (responseBody : Dict)
  | delete (rowId : Id)

namespace IdempotencyQuery

abbrev Ret : IdempotencyQuery → Type
  | get _ _ => List IdempotencyKey
  | createPending _ _ _ _ => IdempotencyKey
  | markCompleted _ _ => Unit
  | delete _ => Unit

/-- The row that a statement has inserted. -/
def inserted : (q : IdempotencyQuery) → q.Ret → Option IdempotencyKey
  | createPending _ _ _ _, row => some row
  | _, _ => none

/-- `user_id = userId AND key = key`. -/
def ofKey (userId : Id) (key : String) (row : IdempotencyKey) : Bool := row.userId = userId ∧ row.key = key

def exec (ctx : Context) (i : Nat) (t : Table Id IdempotencyKey) :
    (q : IdempotencyQuery) → Outcome Error q.Ret (Table Id IdempotencyKey)
  | get userId key => .ok ((t.rows i).filter (ofKey userId key)) t
  | createPending userId key requestHash expiresAt =>
    insertRow ctx i t "uq_user_idempotency_key" (ofKey userId key)
      { id := ctx.id, userId, key, requestHash, responseBody := none, status := .pending, expiresAt,
        createdAt := ctx.now }
  | markCompleted rowId responseBody =>
    changeRow i t rowId (fun _ => true) fun row =>
      some { row with status := .completed, responseBody := some responseBody }
  | delete rowId => changeRow i t rowId (fun _ => true) fun _ => none

/-- What a reservation keeps all its life. -/
def fixed (row : IdempotencyKey) : IdempotencyKey := { row with status := .pending, responseBody := none }

theorem exec_moved {ctx : Context} {i : Nat} {t t' : Table Id IdempotencyKey} {q : IdempotencyQuery} {r : q.Ret}
    (h : exec ctx i t q = .ok r t') : t.Moved IdempotencyKey.id fixed i (inserted q r) t' := by
  cases q with
  | get userId key => cases h; exact .still rfl
  | createPending userId key requestHash expiresAt => exact insertRow_moved rfl h
  | markCompleted rowId responseBody => exact changeRow_moved (by rintro a b ⟨⟩; exact ⟨rfl, rfl⟩) h
  | delete rowId => exact changeRow_moved (by rintro a b ⟨⟩) h

end IdempotencyQuery

end TheClub
