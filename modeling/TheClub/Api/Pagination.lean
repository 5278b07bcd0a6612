import TheClub.Services.Roulette

/-!
The keyset cursor of the two list endpoints, and the endpoints themselves. The cursor's text
comes from library functions, which are parameters.
-/

namespace TheClub
open ReadCommitted

/-- The library functions behind a cursor; `none` is a `ValueError`. -/
structure CursorCodec where
  /-- `datetime.fromisoformat`. -/
  fromisoformat : String → Option Time
  /-- `uuid.UUID`. -/
  uuid : String → Option Id
  /-- `base64.urlsafe_b64encode(raw.encode()).decode()`. -/
  urlsafeB64encode : String → String
  /-- `base64.urlsafe_b64decode(cursor.encode()).decode()`. -/
  urlsafeB64decode : String → Option String

variable (platform : Platform) (codec : CursorCodec)

def encodeCursor (createdAt : Time) (itemId : Id) : String :=
  codec.urlsafeB64encode (platform.isoformat createdAt ++ "|" ++ platform.uuidText itemId)

/-- `raw.split("|")`. -/
def splitBar (raw : String) : List String := (raw.toList.splitOn '|').map String.ofList

def decodeCursor (cursor : String) : Except Error (Time × Id) :=
  match codec.urlsafeB64decode cursor with
  | none => .error .invalidCursorError
  | some raw =>
    match splitBar raw with
    | [createdAtStr, idStr] =>
      match codec.fromisoformat createdAtStr, codec.uuid idStr with
      | some createdAt, some itemId => .ok (createdAt, itemId)
      | _, _ => .error .invalidCursorError
    | _ => .error .invalidCursorError

structure Page (α : Type) where
  items : List α
  nextCursor : Option String

/-- `decode_cursor(cursor) if cursor else None`. -/
def decodedCursor : Option String → Except Error (Option (Time × Id))
  | none => .ok none
  | some cursor => if cursor = "" then .ok none else some <$> decodeCursor codec cursor

/-- `encode_cursor(rows[-1].created_at, rows[-1].id) if len(rows) == limit else None`. -/
def nextCursor {α : Type} (createdAt : α → Time) (id : α → Id) (rows : List α) (limit : Nat) : Option String :=
  if rows.length = limit then rows.getLast?.map fun last => encodeCursor platform codec (createdAt last) (id last)
  else none

/-- `GET /wallet/transactions`. -/
def listTransactionsPage (userId : Id) (cursor : Option String) (limit : Nat) : Prog (Page LedgerEntry) := do
  let decoded ← lift (decodedCursor codec cursor)
  let entries ← listTransactions platform userId decoded limit
  return {
    items := entries,
    nextCursor := nextCursor platform codec LedgerEntry.createdAt LedgerEntry.id entries limit }

/-- `GET /roulette/rounds`. -/
def listRoundsPage (userId : Id) (cursor : Option String) (limit : Nat) : Prog (Page (Round × List Bet)) := do
  let decoded ← lift (decodedCursor codec cursor)
  let rounds ← listRounds userId decoded limit
  match rounds.find? fun r => r.1.outcome = none with
  | some r => raise (.dataIntegrityError s!"round {platform.uuidText r.1.id} has no outcome")
  | none =>
    return {
      items := rounds
      nextCursor := nextCursor platform codec (fun r => r.1.createdAt) (fun r => r.1.id) rounds limit }

/-- What the library documents: each function takes back what its counterpart has produced. -/
structure CursorCodec.Inverse : Prop where
  fromisoformat : ∀ t, codec.fromisoformat (platform.isoformat t) = some t
  uuid : ∀ k, codec.uuid (platform.uuidText k) = some k
  urlsafeB64decode : ∀ raw, codec.urlsafeB64decode (codec.urlsafeB64encode raw) = some raw
  empty : codec.urlsafeB64decode "" = some ""
  isoformat_bar : ∀ t, '|' ∉ (platform.isoformat t).toList
  uuidText_bar : ∀ k, '|' ∉ (platform.uuidText k).toList

variable {platform codec}

theorem decodeCursor_encodeCursor (inverse : codec.Inverse platform) (createdAt : Time) (itemId : Id) :
    decodeCursor codec (encodeCursor platform codec createdAt itemId) = .ok (createdAt, itemId) := by
  have parts : splitBar (platform.isoformat createdAt ++ "|" ++ platform.uuidText itemId) =
      [platform.isoformat createdAt, platform.uuidText itemId] := by
    have raw : (platform.isoformat createdAt ++ "|" ++ platform.uuidText itemId).toList =
        ['|'].intercalate [(platform.isoformat createdAt).toList, (platform.uuidText itemId).toList] := by
      simp [String.toList_append, List.intercalate]
    have bars : ∀ part ∈ [(platform.isoformat createdAt).toList, (platform.uuidText itemId).toList], '|' ∉ part := by
      simpa using ⟨inverse.isoformat_bar createdAt, inverse.uuidText_bar itemId⟩
    unfold splitBar
    rw [raw, List.splitOn_intercalate '|' bars (by simp)]
    simp
  unfold decodeCursor encodeCursor
  rw [inverse.urlsafeB64decode]
  simp only [parts, inverse.fromisoformat, inverse.uuid]

theorem encodeCursor_ne (inverse : codec.Inverse platform) (createdAt : Time) (itemId : Id) :
    encodeCursor platform codec createdAt itemId ≠ "" := by
  intro empty
  have decoded := inverse.urlsafeB64decode (platform.isoformat createdAt ++ "|" ++ platform.uuidText itemId)
  unfold encodeCursor at empty
  rw [empty, inverse.empty] at decoded
  have bar := congrArg (fun raw : Option String => raw.map String.toList) decoded
  simp [String.toList_append] at bar

end TheClub
