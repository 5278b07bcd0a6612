import TheClub.Services.Fairness

/-! Authentication use cases: register, log in, refresh a session, log out. -/

namespace TheClub

structure TokenPair where
  accessToken : String
  refreshToken : String
  deriving DecidableEq, Repr

def REFRESH_TOKEN_BYTES : Nat := 32

/-- `hash_refresh_token(token)`. -/
def hashRefreshToken (platform : Platform) (token : String) : String := platform.sha256Hex (encode token)

def createAccessToken (platform : Platform) (userId : Id) (secret algorithm : String) (ttlSeconds : Int) :
    Prog String := do
  let now ← datetimeNow
  return platform.jwtEncode (platform.uuidText userId) now (now + seconds ttlSeconds) secret algorithm

def issueTokens (platform : Platform) (settings : Settings) (userId familyId : Id) : Prog TokenPair := do
  let accessToken ← createAccessToken platform userId settings.jwtSecret settings.jwtAlgorithm
    settings.accessTokenTtlSeconds
  let rawRefreshToken ← perform (.tokenUrlsafe REFRESH_TOKEN_BYTES)
  let now ← datetimeNow
  let _ ← RefreshTokenRepository.create userId familyId (hashRefreshToken platform rawRefreshToken)
    (now + seconds settings.refreshTokenTtlSeconds)
  return { accessToken, refreshToken := rawRefreshToken }

def registerUser (platform : Platform) (settings : Settings) (email password : String) : Prog (User × TokenPair) := do
  match ← UserRepository.getByEmail email with
  | some _ => raise (.emailAlreadyExistsError email)
  | none =>
    let passwordHash ← perform (.hashPassword password)
    let user ← UserRepository.create email passwordHash
    let serverSeed ← newServerSeed
    let clientSeed ← generateClientSeed
    -- the wallet added to the session is written by the flush of `create_active`
    let _ ← sql .wallets (.add user.id 0)
    let _ ← SeedPairRepository.createActive user.id serverSeed (hashSeed platform serverSeed) clientSeed
    let familyId ← perform .uuid4
    let tokens ← issueTokens platform settings user.id familyId
    return (user, tokens)

def login (platform : Platform) (settings : Settings) (email password : String) : Prog (User × TokenPair) := do
  match ← UserRepository.getByEmail email with
  | none => raise .invalidCredentialsError
  | some user =>
    if !platform.verifyPassword user.passwordHash password then
      raise .invalidCredentialsError
    else if user.status = .suspended then
      raise .userSuspendedError
    else
      let familyId ← perform .uuid4
      let tokens ← issueTokens platform settings user.id familyId
      return (user, tokens)

def refreshAccessToken (platform : Platform) (settings : Settings) (rawRefreshToken : String) : Prog TokenPair := do
  match ← RefreshTokenRepository.getByHash (hashRefreshToken platform rawRefreshToken) with
  | none => raise .invalidTokenError
  | some stored =>
    let now ← datetimeNow
    if stored.revokedAt ≠ none then
      RefreshTokenRepository.revokeFamily stored.familyId now
      -- an explicit commit: the revocation survives the error raised next
      perform (.commit .request)
      raise .refreshTokenReusedError
    else if stored.expiresAt < now then
      raise .tokenExpiredError
    else
      RefreshTokenRepository.revoke stored.id now
      issueTokens platform settings stored.userId stored.familyId

/-- Revokes the refresh token's entire family, if it is the user's. -/
def logout (platform : Platform) (userId : Id) (rawRefreshToken : String) : Prog Unit := do
  match ← RefreshTokenRepository.getByHash (hashRefreshToken platform rawRefreshToken) with
  | none => return ()
  | some stored =>
    if stored.userId ≠ userId then
      return ()
    else
      let now ← datetimeNow
      RefreshTokenRepository.revokeFamily stored.familyId now

end TheClub
