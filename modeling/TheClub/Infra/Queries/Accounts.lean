import TheClub.Infra.Queries.Statement

/-! Queries of the users and refresh_tokens tables. -/

namespace TheClub
open ReadCommitted

inductive UserQuery where
  | getById (id : Id)
  | getByEmail (email : String)
  | create (email passwordHash : String)
  /-- An operator suspends or reactivates an account; no use case does. -/
  | setStatus (id : Id) (status : UserStatus)

namespace UserQuery

abbrev Ret : UserQuery → Type
  | getById _ => Option User
  | getByEmail _ => List User
  | create _ _ => User
  | setStatus _ _ => Unit

/-- The row that a statement has inserted. -/
def inserted : (q : UserQuery) → q.Ret → Option User
  | create _ _, row => some row
  | _, _ => none

def exec (platform : Platform) (ctx : Context) (i : Nat) (t : Table Id User) :
    (q : UserQuery) → Outcome Error q.Ret (Table Id User)
  | getById id => .ok ((t.slot id).view i) t
  | getByEmail email => .ok ((t.rows i).filter fun u => platform.citext u.email = platform.citext email) t
  | create email passwordHash =>
    insertRow ctx i t "ix_users_email" (fun u => platform.citext u.email = platform.citext email)
      { id := ctx.id, email, passwordHash, status := .active, createdAt := ctx.now }
  | setStatus id status => changeRow i t id (fun _ => true) fun user => some { user with status }

/-- What a user keeps when the status is switched. -/
def fixed (user : User) : User := { user with status := .active }

theorem exec_moved {platform : Platform} {ctx : Context} {i : Nat} {t t' : Table Id User} {q : UserQuery} {r : q.Ret}
    (h : exec platform ctx i t q = .ok r t') : t.Moved User.id fixed i (inserted q r) t' := by
  cases q with
  | create email passwordHash => exact insertRow_moved rfl h
  | setStatus id status => exact changeRow_moved (by rintro a b ⟨⟩; exact ⟨rfl, rfl⟩) h
  | _ => cases h; exact .still rfl

end UserQuery

inductive RefreshTokenQuery where
  | getByHash (tokenHash : String)
  | create (userId familyId : Id) (tokenHash : String) (expiresAt : Time)
  | revoke (tokenId : Id) (revokedAt : Time)
  /-- The rows the `UPDATE` of `revoke_family` finds when it starts. -/
  | matchFamily (familyId : Id)
  /-- That `UPDATE` reaching one of these rows: it locks the row and checks it again. -/
  | revokeMatched (tokenId familyId : Id) (revokedAt : Time)

namespace RefreshTokenQuery

abbrev Ret : RefreshTokenQuery → Type
  | getByHash _ => List RefreshToken
  | create _ _ _ _ => RefreshToken
  | revoke _ _ => Unit
  | matchFamily _ => List Id
  | revokeMatched _ _ _ => Unit

/-- The row that a statement has inserted. -/
def inserted : (q : RefreshTokenQuery) → q.Ret → Option RefreshToken
  | create _ _ _ _, row => some row
  | _, _ => none

/-- `family_id = familyId AND revoked_at IS NULL`. -/
def live (familyId : Id) (token : RefreshToken) : Bool := token.familyId = familyId ∧ token.revokedAt = none

def exec (ctx : Context) (i : Nat) (t : Table Id RefreshToken) :
    (q : RefreshTokenQuery) → Outcome Error q.Ret (Table Id RefreshToken)
  | getByHash tokenHash => .ok ((t.rows i).filter fun token => token.tokenHash = tokenHash) t
  | create userId familyId tokenHash expiresAt =>
    insertRow ctx i t "ix_refresh_tokens_token_hash" (fun token => token.tokenHash = tokenHash)
      { id := ctx.id, userId, familyId, tokenHash, createdAt := ctx.now, expiresAt, revokedAt := none }
  | revoke tokenId revokedAt =>
    changeRow i t tokenId (fun _ => true) fun token => some { token with revokedAt := some revokedAt }
  | matchFamily familyId => .ok (t.keys.filter fun k => ((t.slot k).view i).any (live familyId)) t
  | revokeMatched tokenId familyId revokedAt =>
    changeRow i t tokenId (live familyId) fun token => some { token with revokedAt := some revokedAt }

/-- What a token keeps all its life. -/
def fixed (token : RefreshToken) : RefreshToken := { token with revokedAt := none }

theorem exec_moved {ctx : Context} {i : Nat} {t t' : Table Id RefreshToken} {q : RefreshTokenQuery} {r : q.Ret}
    (h : exec ctx i t q = .ok r t') : t.Moved RefreshToken.id fixed i (inserted q r) t' := by
  cases q with
  | create userId familyId tokenHash expiresAt => exact insertRow_moved rfl h
  | revoke tokenId revokedAt => exact changeRow_moved (by rintro a b ⟨⟩; exact ⟨rfl, rfl⟩) h
  | revokeMatched tokenId familyId revokedAt => exact changeRow_moved (by rintro a b ⟨⟩; exact ⟨rfl, rfl⟩) h
  | _ => cases h; exact .still rfl

end RefreshTokenQuery

end TheClub
