import TheClub.Events.Schemas
import TheClub.Repositories

/-! The outbox: events written with the business change, the relay that sends them, the purge. -/

namespace TheClub
open ReadCommitted

/-- An exception or a value computed without the database. -/
def lift {α : Type} (result : Except Error α) : Prog α := Program.done (S := signature) result

def newEnvelope (eventType : EventType) (data : Except Error Dict) (idempotencyKey : Option String) :
    Prog EventEnvelope := do
  let data ← lift data
  let eventId ← perform .uuid4
  let occurredAt ← datetimeNow
  return { eventId, eventType, occurredAt, idempotencyKey, data }

def enqueueEvent (platform : Platform) (settings : Settings) (envelope : EventEnvelope) (key : String) : Prog Unit := do
  let topic := s!"{settings.kafkaTopicPrefix}.{envelope.eventType.topicSuffix}"
  let _ ← sql .outbox (.insert topic key (envelope.modelDump platform))
  return ()

def OutboxEvent.message (platform : Platform) (e : OutboxEvent) : Message :=
  { topic := e.topic, key := encode e.key, value := platform.dumps e.payload }

/-- One row of `relay_once`: a failed send is recorded, it does not end the batch. -/
def relayRow (platform : Platform) (row : OutboxEvent) : Prog Unit := do
  match ← (perform (.send (row.message platform))).attempt with
  | .error e => OutboxRepository.markFailed row.id (row.attempts + 1) e.text
  | .ok _ => OutboxRepository.markPublished row.id

/-- Publishes one batch. Returns how many rows it had. -/
def relayOnce (platform : Platform) (batchSize : Nat) : Prog Nat :=
  unitOfWork .relay do
    let rows ← OutboxRepository.lockUnpublishedBatch batchSize
    if rows.isEmpty then
      return 0
    else
      rows.forM (relayRow platform)
      return rows.length

/-- Deletes a batch of published rows older than `retentionHours`. -/
def purgeOnce (retentionHours : Int) : Prog Nat := do
  let now ← datetimeNow
  let cutoff := now - hours retentionHours
  unitOfWork .purge (OutboxRepository.purgePublished cutoff)

end TheClub
