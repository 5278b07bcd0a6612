import TheClub.Footprints

/-!
What one request does to the refresh tokens, transaction by transaction. A request that issues a
token has drawn a new family for it or has revoked the token it found; a request that revokes a
family has looked up the family of a token it found and goes through all rows of that lookup
before it commits.
-/

namespace TheClub
open ReadCommitted Program

/-- What the open transaction of a request has done to the refresh tokens. -/
inductive TokenPhase where
  | quiet
  | drawn (familyId : Id)
  /-- A token of the family just drawn has been created. -/
  | founded (familyId : Id)
  | found (token : RefreshToken)
  | revoked (token : RefreshToken)
  /-- The successor of a revoked token has been created. -/
  | rotated (token : RefreshToken)
  /-- `revoke_family` has `rest` of the rows it has looked up still to go. -/
  | sweeping (familyId : Id) (looked rest : List Id)
  deriving DecidableEq

/-- The open transaction of a request, the token it has exchanged in a committed one, and the
families that it has revoked in committed ones. -/
structure TokenPlay where
  phase : TokenPhase := .quiet
  spent : Option RefreshToken := none
  ended : List Id := []

namespace TokenPhase

/-- The phase after an answered command that leaves the transaction open. -/
def after (g : TokenPhase) : (c : Cmd) → Except Error c.Ret → TokenPhase
  | .uuid4, .ok familyId => match g with
    | quiet => drawn familyId
    | drawn _ => drawn familyId
    | _ => g
  | .sql .refreshTokens (.getByHash _), .ok [token] => found token
  | .sql .refreshTokens (.create _ _ _ _), .ok _ => match g with
    | drawn familyId => founded familyId
    | revoked token => rotated token
    | _ => g
  | .sql .refreshTokens (.revoke _ _), .ok _ => match g with
    | found token => revoked token
    | _ => g
  | .sql .refreshTokens (.matchFamily familyId), .ok looked => sweeping familyId looked looked
  | .sql .refreshTokens (.revokeMatched _ _ _), .ok _ => match g with
    | sweeping familyId looked (_ :: rest) => sweeping familyId looked rest
    | _ => g
  | _, _ => g

/-- Nothing has been found or written yet. -/
def Calm : TokenPhase → Prop
  | quiet => True
  | drawn _ => True
  | _ => False

end TokenPhase

/-- The end of a transaction, if `fate` is one. -/
def TokenPlay.settle (g : TokenPlay) : Fate → TokenPlay
  | .isOpen => g
  | .undone => { g with phase := .quiet }
  | .applied => match g.phase with
    | .rotated token => { g with phase := .quiet, spent := some token }
    | .sweeping familyId _ _ => { g with phase := .quiet, ended := familyId :: g.ended }
    | _ => { g with phase := .quiet }

def TokenPlay.next (g : TokenPlay) (c : Cmd) (r : Except Error c.Ret) : TokenPlay :=
  match fate c r with
  | .isOpen => { g with phase := g.phase.after c r }
  | ends => g.settle ends

/-- A token is found by its hash. -/
def FoundByHash : (c : Cmd) → Except Error c.Ret → Prop
  | .sql .refreshTokens (.getByHash tokenHash), .ok tokens => ∀ token ∈ tokens, token.tokenHash = tokenHash
  | _, _ => True

def tokenProtocol (platform : Platform) : Protocol signature where
  Ghost := TokenPlay
  start := {}
  allowed := fun g c => match c with
    | .sql .refreshTokens (.getByHash _) => g.phase = .quiet
    | .sql .refreshTokens (.create _ familyId _ _) =>
      g.phase = .drawn familyId ∨ ∃ token, g.phase = .revoked token ∧ token.familyId = familyId
    | .sql .refreshTokens (.revoke tokenId _) =>
      ∃ token, g.phase = .found token ∧ token.id = tokenId ∧ token.revokedAt = none
    | .sql .refreshTokens (.matchFamily familyId) => ∃ token, g.phase = .found token ∧ token.familyId = familyId
    | .sql .refreshTokens (.revokeMatched tokenId familyId _) =>
      ∃ looked rest, g.phase = .sweeping familyId looked (tokenId :: rest)
    | .commit _ => ∀ familyId looked rest, g.phase = .sweeping familyId looked rest → rest = []
    | _ => True
  possible := fun c r => Answer platform c r ∧ FoundByHash c r
  next := TokenPlay.next
  died := fun g => g.settle .undone

variable {platform : Platform} {settings : Settings}

theorem exec_found {env : Env} {i : Nat} {c : Cmd} {s s' : Database} {r : Except Error c.Ret}
    (ran : exec platform env i c s = some (r, s')) : FoundByHash c r := by
  unfold FoundByHash
  split
  · rename_i tokenHash tokens
    intro token member
    rcases exec_sql ran with ⟨e, same, -⟩ | ⟨found, same, done⟩
    · cases same
    · cases same
      injection done with rows
      rw [← rows] at member
      simpa using (List.mem_filter.mp member).2
  · trivial

/-! ### Requests that issue no tokens -/

/-- Commands on other tables keep a calm transaction calm. -/
theorem calm_touches {L : List TableName} (away : .refreshTokens ∉ L) {g : TokenPlay} {c : Cmd} (calm : g.phase.Calm)
    (touches : Touches L c) : (tokenProtocol platform).allowed g c ∧
      ∀ r, (tokenProtocol platform).possible c r → ((tokenProtocol platform).next g c r).phase.Calm := by
  have ends : ∀ fate : Fate, fate ≠ .isOpen → (g.settle fate).phase.Calm := by
    intro fate ends
    cases fate with
    | isOpen => exact (ends rfl).elim
    | undone => trivial
    | applied =>
      simp only [TokenPlay.settle]
      split <;> trivial
  have next : ∀ r, (fate c r = .isOpen → (g.phase.after c r).Calm) → (TokenPlay.next g c r).phase.Calm := by
    intro r stays
    cases h : fate c r with
    | isOpen =>
      simp only [TokenPlay.next, h]
      exact stays h
    | applied =>
      simp only [TokenPlay.next, h]
      exact ends .applied (by simp)
    | undone =>
      simp only [TokenPlay.next, h]
      exact ends .undone (by simp)
  refine ⟨?_, fun r _ => next r fun isOpen => ?_⟩
  · cases c with
    | sql f q =>
      cases f with
      | refreshTokens => exact (away touches).elim
      | _ => trivial
    | commit tx =>
      intro familyId looked rest sweeping
      rw [sweeping] at calm
      exact calm.elim
    | _ => trivial
  · cases c with
    | sql f q =>
      cases f with
      | refreshTokens => exact (away touches).elim
      | _ => exact calm
    | uuid4 =>
      cases r with
      | error e => exact calm
      | ok familyId =>
        cases h : g.phase <;> rw [h] at calm <;> trivial
    | _ => exact calm

theorem follows_calm {α : Type} {p : Prog α} {L : List TableName} {g : TokenPlay} (h : p.Only (Touches L))
    (calm : g.phase.Calm) (away : .refreshTokens ∉ L := by decide) :
    p.Follows (tokenProtocol platform) (fun g _ => g.phase.Calm) g :=
  h.follows calm fun _ _ calm touches => calm_touches away calm touches

theorem follows_then_calm {α : Type} {p : Prog α} {L : List TableName} {g : TokenPlay} (h : p.Only (Touches L))
    (calm : g.phase.Calm) (away : .refreshTokens ∉ L := by decide) :
    p.Follows (tokenProtocol platform) (Then fun g _ => g.phase.Calm) g :=
  (follows_calm h calm away).mono fun g r calm => by
    cases r with
    | ok a => exact calm
    | error e => trivial

/-! ### Requests that do -/

/-- A transaction that may commit at the end of its body, whatever comes of the commit. -/
theorem follows_unitOfWork {α : Type} {tx : Tx} {p : Prog α} {g : TokenPlay} {R : TokenPlay → α → Prop}
    {Q : TokenPlay → Except Error α → Prop} (body : p.Follows (tokenProtocol platform) (Then R) g)
    (ready : ∀ g a, R g a → (tokenProtocol platform).allowed g (.commit tx) ∧ Q (g.settle .applied) (.ok a))
    (failed : ∀ g e, Q g (.error e)) : (unitOfWork tx p).Follows (tokenProtocol platform) Q g := by
  refine follows_bind.mpr (follows_attempt.mpr (body.mono fun g r done => ?_))
  cases r with
  | ok a =>
    obtain ⟨allowed, good⟩ := ready g a done
    refine ⟨allowed, fun r _ => ?_⟩
    cases r with
    | ok u => exact good
    | error e => exact failed _ e
  | error e =>
    refine ⟨trivial, fun r _ => ?_⟩
    cases r <;> exact failed _ _

theorem follows_reply {α : Type} {p : Prog α} {f : α → Reply} {g : TokenPlay}
    {Q : TokenPlay → Except Error Reply → Prop}
    (failed : ∀ g e, Q g (.error e))
    (h : p.Follows (tokenProtocol platform) (Then fun g a => Q g (.ok (f a))) g) :
    (f <$> p).Follows (tokenProtocol platform) Q g := by
  refine follows_bind.mpr (h.mono fun g r done => ?_)
  cases r with
  | ok a => exact done
  | error e => exact failed g e

/-- The phase once a new token has been created. -/
def TokenPhase.issued : TokenPhase → TokenPhase
  | drawn familyId => founded familyId
  | revoked token => rotated token
  | g => g

theorem TokenPhase.after_create {g : TokenPhase} {userId familyId : Id} {tokenHash : String} {expiresAt : Time}
    {token : RefreshToken} :
    g.after (.sql .refreshTokens (.create userId familyId tokenHash expiresAt)) (.ok token) = g.issued := by
  cases g <;> rfl

/-- A token may be created in this family. -/
def TokenPhase.Opens (g : TokenPhase) (familyId : Id) : Prop :=
  g = drawn familyId ∨ ∃ token, g = revoked token ∧ token.familyId = familyId

theorem issueTokens_follows {userId familyId : Id} {g : TokenPlay} (opens : g.phase.Opens familyId) :
    (issueTokens platform settings userId familyId).Follows (tokenProtocol platform)
      (Then fun g' _ => g' = { g with phase := g.phase.issued }) g := by
  refine ⟨trivial, fun r _ => ?_⟩
  rcases r with e | now
  · trivial
  refine ⟨trivial, fun r _ => ?_⟩
  rcases r with e | raw
  · trivial
  refine ⟨trivial, fun r _ => ?_⟩
  rcases r with e | now
  · trivial
  refine ⟨opens, fun r _ => ?_⟩
  rcases r with e | token
  · trivial
  exact congrArg (fun phase => ({ g with phase := phase } : TokenPlay)) TokenPhase.after_create

theorem getByHash_follows {tokenHash : String} {g : TokenPlay} (quiet : g.phase = .quiet) :
    (RefreshTokenRepository.getByHash tokenHash).Follows (tokenProtocol platform)
      (Then fun g' stored => match stored with
        | none => g' = g
        | some token => g' = { g with phase := .found token } ∧ token.tokenHash = tokenHash) g := by
  refine ⟨quiet, fun r answer => ?_⟩
  rcases r with e | (_ | ⟨token, _ | ⟨_, _⟩⟩)
  · trivial
  · rfl
  · exact ⟨rfl, answer.2 token (List.mem_singleton.mpr rfl)⟩
  · trivial

theorem revokeFamily_follows {familyId : Id} {revokedAt : Time} {g : TokenPlay}
    (found : ∃ token, g.phase = .found token ∧ token.familyId = familyId) :
    (RefreshTokenRepository.revokeFamily familyId revokedAt).Follows (tokenProtocol platform)
      (Then fun g' _ => ∃ looked, g' = { g with phase := .sweeping familyId looked [] }) g := by
  have sweep : ∀ looked rest : List Id,
    (rest.forM fun id => sql .refreshTokens (.revokeMatched id familyId revokedAt)).Follows
      (tokenProtocol platform) (Then fun g' _ => g' = { g with phase := .sweeping familyId looked [] })
      { g with phase := .sweeping familyId looked rest } := by
    intro looked rest
    induction rest with
    | nil => rfl
    | cons id rest ih =>
      refine ⟨⟨looked, rest, rfl⟩, fun r _ => ?_⟩
      rcases r with e | u
      · trivial
      · exact ih
  refine ⟨found, fun r _ => ?_⟩
  rcases r with e | looked
  · trivial
  · exact (sweep looked looked).then_mono fun g' _ same => ⟨looked, same⟩

theorem logout_follows {userId : Id} {raw : String} {g : TokenPlay} (quiet : g.phase = .quiet) :
    (logout platform userId raw).Follows (tokenProtocol platform)
      (Then fun g' _ => g'.phase = .quiet ∨ (∃ token, g'.phase = .found token) ∨
        ∃ familyId looked, g'.phase = .sweeping familyId looked []) g := by
  refine follows_then_bind.mpr ((getByHash_follows quiet).then_mono fun g' stored found => ?_)
  cases stored with
  | none =>
    obtain rfl := found
    exact Or.inl quiet
  | some token =>
    obtain ⟨rfl, -⟩ := found
    dsimp only
    split
    · exact Or.inr (Or.inl ⟨token, rfl⟩)
    · refine ⟨trivial, fun r _ => ?_⟩
      rcases r with e | now
      · trivial
      refine (revokeFamily_follows ⟨token, rfl, rfl⟩).then_mono ?_
      rintro g' _ ⟨looked, rfl⟩
      exact Or.inr (Or.inr ⟨_, looked, rfl⟩)

theorem refreshAccessToken_follows {raw : String} {g : TokenPlay} (quiet : g.phase = .quiet) :
    (refreshAccessToken platform settings raw).Follows (tokenProtocol platform)
      (Then fun g' _ => ∃ token, g'.phase = .rotated token ∧ token.tokenHash = hashRefreshToken platform raw) g := by
  refine follows_then_bind.mpr ((getByHash_follows quiet).then_mono fun g' stored found => ?_)
  cases stored with
  | none => trivial
  | some token =>
    obtain ⟨rfl, hash⟩ := found
    refine ⟨trivial, fun r _ => ?_⟩
    rcases r with e | now
    · trivial
    change Follows (tokenProtocol platform) _ (if token.revokedAt ≠ none then _ else _) _
    split
    · refine follows_then_bind.mpr ((revokeFamily_follows ⟨token, rfl, rfl⟩).then_mono ?_)
      rintro g' _ ⟨looked, rfl⟩
      refine ⟨?_, fun r _ => ?_⟩
      · intro familyId looked rest sweeping
        cases sweeping
        rfl
      · rcases r with e | u <;> trivial
    · rename_i live
      split
      · trivial
      · refine ⟨⟨token, rfl, rfl, not_not.mp live⟩, fun r _ => ?_⟩
        rcases r with e | u
        · trivial
        refine (issueTokens_follows (Or.inr ⟨token, rfl, rfl⟩)).then_mono ?_
        rintro g' _ rfl
        exact ⟨token, rfl, hash⟩

theorem drawFamily_follows {β : Type} {userId : Id} {f : TokenPair → β} {g : TokenPlay} (calm : g.phase.Calm) :
    ((perform .uuid4).bind fun familyId => (issueTokens platform settings userId familyId).bind fun tokens =>
      Program.done (.ok (f tokens))).Follows (tokenProtocol platform)
      (Then fun g' _ => ∃ familyId, g'.phase = .founded familyId) g := by
  refine ⟨trivial, fun r _ => ?_⟩
  rcases r with e | familyId
  · trivial
  have drawn : ((tokenProtocol platform).next g .uuid4 (.ok familyId)).phase = .drawn familyId := by
    change g.phase.after .uuid4 (.ok familyId) = _
    cases h : g.phase <;> rw [h] at calm <;> first | rfl | exact calm.elim
  have issues : (issueTokens platform settings userId familyId).Follows (tokenProtocol platform) _ _ :=
    issueTokens_follows (Or.inl drawn)
  refine follows_then_bind (p := issueTokens platform settings userId familyId) |>.mpr (issues.then_mono ?_)
  rintro g' tokens rfl
  exact ⟨familyId, by simp only [drawn, TokenPhase.issued]⟩

theorem registerUser_follows {email password : String} {g : TokenPlay} (calm : g.phase.Calm) :
    (registerUser platform settings email password).Follows (tokenProtocol platform)
      (Then fun g' _ => ∃ familyId, g'.phase = .founded familyId) g := by
  have next : ∀ {α β : Type} {L : List TableName} {p : Prog α} {f : α → Prog β} {Q : TokenPlay → β → Prop}
      {g : TokenPlay},
      p.Only (Touches L) → .refreshTokens ∉ L → g.phase.Calm →
      (∀ a g, g.phase.Calm → (f a).Follows (tokenProtocol platform) (Then Q) g) →
      (p.bind f).Follows (tokenProtocol platform) (Then Q) g := by
    intro α β L p f Q g touches away calm rest
    exact follows_then_bind.mpr ((follows_then_calm touches calm away).then_mono fun g a calm => rest a g calm)
  refine next ((getByEmail_uses (L := [.users]) (by decide)).only.mono fun _ => Uses.touches) (by decide) calm ?_
  intro found g calm
  cases found with
  | some user => trivial
  | none =>
    refine next (L := []) (perform_touches (c := .hashPassword password) trivial)
      (by decide) calm fun passwordHash g calm => ?_
    refine next (L := [.users]) (sql_touches (by decide)) (by decide) calm fun user g calm => ?_
    refine next (L := []) (perform_touches (c := .tokenBytes SEED_BYTES) trivial)
      (by decide) calm fun serverSeed g calm => ?_
    refine next (L := []) (perform_touches (c := .tokenHex CLIENT_SEED_BYTES) trivial) (by decide) calm
      fun clientSeed g calm => ?_
    refine next (L := [.wallets]) (sql_touches (by decide)) (by decide) calm fun wallet g calm => ?_
    refine next (L := [.seedPairs]) (sql_touches (by decide)) (by decide) calm fun pair g calm => ?_
    exact drawFamily_follows calm

theorem login_follows {email password : String} {g : TokenPlay} (calm : g.phase.Calm) :
    (login platform settings email password).Follows (tokenProtocol platform)
      (Then fun g' _ => ∃ familyId, g'.phase = .founded familyId) g := by
  have lookup : (UserRepository.getByEmail email).Only (Touches [.users]) :=
    (getByEmail_uses (by decide)).only.mono fun _ => Uses.touches
  refine follows_then_bind.mpr ((follows_then_calm lookup calm).then_mono fun g found calm => ?_)
  cases found with
  | none => trivial
  | some user =>
    dsimp only
    split
    · trivial
    · split
      · trivial
      · exact drawFamily_follows calm

/-- A refresh that returns tokens has exchanged the token it was given. -/
def Exchanged (platform : Platform) : Request → TokenPlay → Except Error Reply → Prop
  | .refresh raw, g, .ok _ => ∃ token, g.spent = some token ∧ token.tokenHash = hashRefreshToken platform raw
  | _, _, _ => True

theorem useCases_sessions : Disciplined (Y := application platform settings) UseCases (tokenProtocol platform)
    (Exchanged platform) where
  answers _ _ _ _ _ _ ran := ⟨exec_answer ran, exec_found ran⟩
  code w i q start := by
    have failed : ∀ q g e, Exchanged platform q g (.error e) := by
      intro q g e
      cases q <;> trivial
    have other : .refreshTokens ∉ q.tables → (∀ raw, q ≠ .refresh raw) →
        (q.code platform settings).Follows (tokenProtocol platform) (Exchanged platform q) {} := by
      intro away notRefresh
      refine (follows_calm (code_touches start) (g := {}) trivial away).mono fun g r _ => ?_
      cases q <;> first | trivial | exact (notRefresh _ rfl).elim
    cases q with
    | registerUser email password =>
      refine follows_reply (failed _) (follows_unitOfWork (registerUser_follows trivial) ?_ fun _ _ => trivial)
      rintro g a ⟨familyId, founded⟩
      exact ⟨fun _ _ _ sweeping => (by cases founded.symm.trans sweeping), trivial⟩
    | login email password =>
      refine follows_reply (failed _) (follows_unitOfWork (login_follows trivial) ?_ fun _ _ => trivial)
      rintro g a ⟨familyId, founded⟩
      exact ⟨fun _ _ _ sweeping => (by cases founded.symm.trans sweeping), trivial⟩
    | logout userId raw =>
      refine follows_reply (failed _) (follows_unitOfWork (logout_follows rfl) ?_ fun _ _ => trivial)
      rintro g a ended
      refine ⟨fun familyId looked rest sweeping => ?_, trivial⟩
      rcases ended with quiet | ⟨token, found⟩ | ⟨_, _, swept⟩
      · cases quiet.symm.trans sweeping
      · cases found.symm.trans sweeping
      · cases swept.symm.trans sweeping
        rfl
    | refresh raw =>
      refine follows_reply (failed _) (follows_unitOfWork (refreshAccessToken_follows rfl) ?_ fun _ _ => trivial)
      rintro g a ⟨token, rotated, hash⟩
      refine ⟨fun _ _ _ sweeping => (by cases rotated.symm.trans sweeping), token, ?_, hash⟩
      simp only [TokenPlay.settle, rotated]
    | _ => exact other (by simp [Request.tables]) (by simp)

end TheClub
