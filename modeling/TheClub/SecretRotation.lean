import TheClub.Infra.Security
import TheClub.Requests

/-!
Rotation of the signing secret. A deployment signs with one secret and accepts the ones it lists; a
rotation replaces both, and keeps listed what was retired less than the lifetime of a token ago.
Under that rule every token that was issued stays accepted until it expires.
-/

namespace TheClub

variable (platform : Platform) (reader : TokenReader) (settings : Settings)

/-- What PyJWT and `uuid` document: a token reads back as what was signed, its times cut to whole
seconds, and the text of a UUID as that UUID. -/
structure TokenReader.Inverse : Prop where
  read : ∀ (sub : String) (iat exp : Time) (secret algorithm : String),
    reader.read (platform.jwtEncode sub iat exp secret algorithm) algorithm =
      some ⟨secret, { sub := some (.str sub), iat := some (iat / 1000000), exp := some (exp / 1000000) }⟩
  uuid : ∀ userId, reader.uuid (platform.uuidText userId) = some userId

/-- What a program that asks for nothing but the time returns at `now`. -/
def returnedAt {α : Type} (now : Time) : Prog α → Option α
  | .done (.ok a) => some a
  | .call .datetimeNow next => returnedAt now (next (.ok now))
  | _ => none

structure Issued where
  userId : Id
  issuedAt : Time
  token : String

/-- `retired` records every secret that stopped signing, and when. -/
structure Deployment where
  clock : Time
  secret : String
  previousSecrets : List String
  retired : List (String × Time)
  issued : List Issued

def Deployment.accepts (deployment : Deployment) (token : String) : Except TokenError Id :=
  decodeAccessToken reader deployment.clock token deployment.secret settings.jwtAlgorithm deployment.previousSecrets

/-- What was retired less than `ACCESS_TOKEN_TTL_SECONDS` ago is listed. -/
def Deployment.Lists (deployment : Deployment) : Prop :=
  ∀ entry ∈ deployment.retired, deployment.clock < entry.2 + seconds settings.accessTokenTtlSeconds →
    entry.1 ∈ deployment.secret :: deployment.previousSecrets

def Deployment.rotate (deployment : Deployment) (secret : String) (previousSecrets : List String) : Deployment :=
  { deployment with
    secret := secret,
    previousSecrets := previousSecrets,
    retired := deployment.retired ++ [(deployment.secret, deployment.clock)] }

/-- `create_access_token` runs with the signing secret. -/
def Deployment.issue (deployment : Deployment) (userId : Id) : Deployment :=
  match returnedAt deployment.clock (createAccessToken platform userId deployment.secret settings.jwtAlgorithm
    settings.accessTokenTtlSeconds) with
  | some token => { deployment with issued := deployment.issued ++ [⟨userId, deployment.clock, token⟩] }
  | none => deployment

/-- The states of any run of rotations, issues and waits that keeps what it must. -/
inductive Deployment.Run : Deployment → Prop
  | start (clock : Time) (secret : String) (previousSecrets : List String) :
      Run ⟨clock, secret, previousSecrets, [], []⟩
  | wait {deployment : Deployment} (run : Run deployment) (now : Time) (later : deployment.clock ≤ now) :
      Run { deployment with clock := now }
  | issue {deployment : Deployment} (run : Run deployment) (userId : Id) :
      Run (deployment.issue platform settings userId)
  | rotate {deployment : Deployment} (run : Run deployment) (secret : String) (previousSecrets : List String)
      (keeps : (deployment.rotate secret previousSecrets).Lists settings) :
      Run (deployment.rotate secret previousSecrets)

variable {platform reader settings} {deployment : Deployment}

theorem Deployment.issue_eq (deployment : Deployment) (userId : Id) : ∃ token,
    returnedAt deployment.clock (createAccessToken platform userId deployment.secret settings.jwtAlgorithm
      settings.accessTokenTtlSeconds) = some token ∧
    deployment.issue platform settings userId =
      { deployment with issued := deployment.issued ++ [⟨userId, deployment.clock, token⟩] } :=
  ⟨_, rfl, rfl⟩

/-- Every issued token was signed with the present secret or one retired since. -/
structure Deployment.Sound (platform : Platform) (settings : Settings) (deployment : Deployment) : Prop where
  lists : deployment.Lists settings
  signed : ∀ entry ∈ deployment.issued, entry.issuedAt ≤ deployment.clock ∧ ∃ secret,
    returnedAt entry.issuedAt (createAccessToken platform entry.userId secret settings.jwtAlgorithm
      settings.accessTokenTtlSeconds) = some entry.token ∧
      (secret = deployment.secret ∨ ∃ since, (secret, since) ∈ deployment.retired ∧ entry.issuedAt ≤ since)

theorem Deployment.Run.sound (run : Deployment.Run platform settings deployment) :
    deployment.Sound platform settings := by
  induction run with
  | start clock secret previousSecrets =>
    constructor
    · intro entry member
      cases member
    · intro entry member
      cases member
  | @wait deployment run now later ih =>
    constructor
    · intro entry member recent
      exact ih.lists entry member (lt_of_le_of_lt later recent)
    · intro entry member
      obtain ⟨past, rest⟩ := ih.signed entry member
      exact ⟨le_trans past later, rest⟩
  | @issue deployment run userId ih =>
    obtain ⟨token, returned, issued⟩ := Deployment.issue_eq deployment userId
    rw [issued]
    constructor
    · exact ih.lists
    · intro entry member
      rcases List.mem_append.mp member with old | new
      · exact ih.signed entry old
      · rw [List.mem_singleton.mp new]
        exact ⟨le_refl _, deployment.secret, returned, Or.inl rfl⟩
  | @rotate deployment run secret previousSecrets keeps ih =>
    constructor
    · exact keeps
    · intro entry member
      obtain ⟨past, signer, token, current | ⟨since, retired, before⟩⟩ := ih.signed entry member
      · refine ⟨past, signer, token, Or.inr ⟨deployment.clock, ?_, past⟩⟩
        rw [current]
        exact List.mem_append_right _ (List.mem_singleton_self _)
      · exact ⟨past, signer, token, Or.inr ⟨since, List.mem_append_left _ retired, before⟩⟩

/-- Whether a token is accepted is decided by the set of the secrets, its expiry and its subject; what a
deployment has issued it accepts until it expires, and nothing signed with a secret it does not list. -/
structure Deployment.Honours (reader : TokenReader) (settings : Settings) (deployment : Deployment) : Prop where
  set : ∀ now token algorithm secret secret' previous previous',
    (∀ s, s ∈ secret :: previous ↔ s ∈ secret' :: previous') →
    decodeAccessToken reader now token secret algorithm previous =
      decodeAccessToken reader now token secret' algorithm previous'
  accepted : ∀ now token algorithm secret previous userId,
    decodeAccessToken reader now token secret algorithm previous = .ok userId ↔
      ∃ signed, reader.read token algorithm = some signed ∧ signed.secret ∈ secret :: previous ∧
        signed.payload.expired now = false ∧ ∃ sub, signed.payload.sub = some (.str sub) ∧ reader.uuid sub = some userId
  issued : ∀ entry ∈ deployment.issued,
    deployment.clock < seconds ((entry.issuedAt + seconds settings.accessTokenTtlSeconds) / 1000000) →
    deployment.accepts reader settings entry.token = .ok entry.userId
  foreign : ∀ token signed, reader.read token settings.jwtAlgorithm = some signed →
    signed.secret ∉ deployment.secret :: deployment.previousSecrets →
    ∀ userId, deployment.accepts reader settings token ≠ .ok userId

theorem seconds_div_le (t : Time) : seconds (t / 1000000) ≤ t := by
  unfold seconds
  exact Int.ediv_mul_le t (by decide)

/-- In every run that keeps listed what was retired less than the lifetime of a token ago, every token that
`create_access_token` has made is accepted with its own user until it expires, and no token signed with
a secret that is not listed is accepted. -/
theorem rotation_honours (inverse : reader.Inverse platform) (run : Deployment.Run platform settings deployment) :
    deployment.Honours reader settings where
  set := fun _ _ _ _ _ _ _ => decodeAccessToken_congr
  accepted := fun _ _ _ _ _ _ => decodeAccessToken_ok
  issued := by
    intro entry member unexpired
    obtain ⟨past, secret, token, signer⟩ := run.sound.signed entry member
    have expiry := seconds_div_le (entry.issuedAt + seconds settings.accessTokenTtlSeconds)
    have listed : secret ∈ deployment.secret :: deployment.previousSecrets := by
      rcases signer with current | ⟨since, retired, before⟩
      · rw [current]
        exact List.mem_cons_self
      · refine run.sound.lists (secret, since) retired (lt_of_lt_of_le unexpired (le_trans expiry ?_))
        exact Int.add_le_add_right before _
    have read := inverse.read (platform.uuidText entry.userId) entry.issuedAt
      (entry.issuedAt + seconds settings.accessTokenTtlSeconds) secret settings.jwtAlgorithm
    rw [← Option.some.inj token]
    exact decodeAccessToken_ok.mpr
      ⟨_, read, listed, decide_eq_false (not_le.mpr unexpired), _, rfl, inverse.uuid entry.userId⟩
  foreign := by
    intro token signed found unlisted userId accepted
    obtain ⟨signed', found', listed, _⟩ := decodeAccessToken_ok.mp accepted
    cases found.symm.trans found'
    exact unlisted listed

/-! ### A library to run it with -/

def codes (s : String) : List Nat := s.toList.map Char.toNat

def ofCodes (l : List Nat) : String := String.ofList (l.map Char.ofNat)

theorem ofCodes_codes (s : String) : ofCodes (codes s) = s := by
  unfold ofCodes codes
  rw [List.map_map]
  have same : Char.ofNat ∘ Char.toNat = id := funext Char.ofNat_toNat
  rw [same, List.map_id, String.ofList_toList]

abbrev SampleClaims := List Nat × List Nat × Int × Int × List Nat

/-- A numbering of the claims in place of a signature, and UUIDs of small numbers. -/
def signingPlatform : Platform where
  sha256Hex := hex
  hmacSha256 := fun _ message => message
  verifyPassword := fun passwordHash password => passwordHash = password
  jwtEncode := fun sub iat exp secret algorithm =>
    (Encodable.encode ((codes algorithm, codes sub, iat / 1000000, exp / 1000000, codes secret) : SampleClaims)).repr
  citext := id
  uuidText := fun k => "00000000-0000-0000-0000-" ++
    String.ofList (List.replicate (12 - (Nat.toDigits 10 k).length) '0' ++ Nat.toDigits 10 k)
  isoformat := fun t => toString t
  dumps := fun _ => []

def signingReader : TokenReader where
  read := fun token algorithm =>
    (Encodable.decode (Nat.ofDigitChars 10 token.toList 0) : Option SampleClaims).bind fun claims =>
      if ofCodes claims.1 = algorithm then
        some ⟨ofCodes claims.2.2.2.2, ⟨some (.str (ofCodes claims.2.1)), some claims.2.2.1, some claims.2.2.2.1⟩⟩
      else none
  uuid := fun sub => some (Nat.ofDigitChars 10 (sub.toList.drop 24) 0)

theorem signingReader_inverse : signingReader.Inverse signingPlatform where
  read := by
    intro sub iat exp secret algorithm
    dsimp only [signingReader, signingPlatform]
    rw [Nat.toList_repr, Nat.ofDigitChars_ten_toDigits, Encodable.encodek, Option.bind_some, ofCodes_codes, if_pos rfl,
      ofCodes_codes, ofCodes_codes]
  uuid := by
    intro userId
    dsimp only [signingReader, signingPlatform]
    rw [String.toList_append]
    show some (Nat.ofDigitChars 10 (List.drop 24 ("00000000-0000-0000-0000-".toList ++ _)) 0) = _
    rw [List.drop_left' (by decide), String.toList_ofList, Nat.ofDigitChars_append,
      Nat.ofDigitChars_replicate_zero, Nat.mul_zero,
      Nat.ofDigitChars_ten_toDigits]

/-- User 7 logs in and the secret is rotated a minute later, the old one kept. -/
def rotatedDeployment : Deployment :=
  let issuing : Deployment := ⟨0, "old-secret-of-32-characters-00000", [], [], []⟩
  { (issuing.issue signingPlatform sampleSettings 7) with clock := seconds 60 }.rotate
    "new-secret-of-32-characters-00000" ["old-secret-of-32-characters-00000"]

theorem rotation_honours_rotatedDeployment : rotatedDeployment.Honours signingReader sampleSettings := by
  refine rotation_honours signingReader_inverse (.rotate (.wait (.issue (.start 0 _ []) 7) (seconds 60) ?_) _ _ ?_)
  · show (0 : Int) ≤ seconds 60
    decide
  · intro entry member _
    rw [List.mem_singleton.mp member]
    exact List.mem_cons_of_mem _ (List.mem_singleton_self _)

end TheClub
