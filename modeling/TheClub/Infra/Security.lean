import TheClub.Infra.Platform

/-! Access tokens: what `jwt.decode` makes of a token, and the loop over the accepted secrets. -/

namespace TheClub

/-- The claims the code reads, `iat` and `exp` in whole seconds. -/
structure Payload where
  sub : Option Json
  iat : Option Int
  exp : Option Int

structure SignedToken where
  secret : String
  payload : Payload

/-- A token counts as expired from its `exp` on. -/
def Payload.expired (payload : Payload) (now : Time) : Bool := payload.exp.any fun exp => seconds exp ≤ now

/-- Library functions: the secret and the claims a token was signed with under one algorithm, `none` for a
text that is not such a token, and `uuid.UUID`, `none` for its ValueError. -/
structure TokenReader where
  read : (token algorithm : String) → Option SignedToken
  uuid : String → Option Id

inductive JwtError where
  | expiredSignature
  | invalidToken
  deriving DecidableEq, Repr

inductive TokenError where
  | tokenExpired
  | invalidToken
  deriving DecidableEq, Repr

variable (reader : TokenReader)

/-- `jwt.decode(token, candidate, algorithms=[algorithm])`. -/
def jwtDecode (now : Time) (token candidate algorithm : String) : Except JwtError Payload :=
  match reader.read token algorithm with
  | none => .error .invalidToken
  | some signed =>
    if signed.secret = candidate then
      if signed.payload.expired now then .error .expiredSignature else .ok signed.payload
    else .error .invalidToken

/-- The loop over the candidates: `none` if no candidate gave a payload. -/
def tryCandidates (now : Time) (token algorithm : String) : List String → Except TokenError (Option Payload)
  | [] => .ok none
  | candidate :: rest =>
    match jwtDecode reader now token candidate algorithm with
    | .ok payload => .ok (some payload)
    | .error .expiredSignature => .error .tokenExpired
    | .error .invalidToken => tryCandidates now token algorithm rest

def decodeAccessToken (now : Time) (token secret algorithm : String) (previousSecrets : List String) :
    Except TokenError Id :=
  match tryCandidates reader now token algorithm (secret :: previousSecrets) with
  | .error e => .error e
  | .ok none => .error .invalidToken
  | .ok (some payload) =>
    match payload.sub with
    | some (.str sub) =>
      match reader.uuid sub with
      | some userId => .ok userId
      | none => .error .invalidToken
    | some .null | some (.bool _) | some (.int _) | some (.arr _) | some (.obj _) | none => .error .invalidToken

/-! ### The loop -/

variable {reader} {now : Time} {token algorithm : String}

/-- The loop answers by the secret the token was signed with, wherever it stands. -/
theorem tryCandidates_eq (candidates : List String) : tryCandidates reader now token algorithm candidates =
    match reader.read token algorithm with
    | none => .ok none
    | some signed =>
      if signed.secret ∈ candidates then
        if signed.payload.expired now then .error .tokenExpired else .ok (some signed.payload)
      else .ok none := by
  induction candidates with
  | nil =>
    cases reader.read token algorithm with
    | none => rfl
    | some signed => rw [tryCandidates]; exact (if_neg List.not_mem_nil).symm
  | cons candidate rest ih =>
    rw [tryCandidates, jwtDecode]
    cases found : reader.read token algorithm with
    | none =>
      rw [found] at ih
      exact ih
    | some signed =>
      rw [found] at ih
      dsimp only at ih ⊢
      by_cases own : signed.secret = candidate
      · have member : signed.secret ∈ candidate :: rest := own ▸ List.mem_cons_self
        rw [if_pos own, if_pos member]
        cases signed.payload.expired now <;> rfl
      · rw [if_neg own]
        dsimp only
        rw [ih]
        simp only [List.mem_cons, own, false_or]

theorem decodeAccessToken_congr {secret secret' : String} {previous previous' : List String}
    (same : ∀ s, s ∈ secret :: previous ↔ s ∈ secret' :: previous') :
    decodeAccessToken reader now token secret algorithm previous =
      decodeAccessToken reader now token secret' algorithm previous' := by
  unfold decodeAccessToken
  rw [tryCandidates_eq, tryCandidates_eq]
  simp only [same]

theorem decodeAccessToken_ok {secret : String} {previous : List String} {userId : Id} :
    decodeAccessToken reader now token secret algorithm previous = .ok userId ↔
      ∃ signed, reader.read token algorithm = some signed ∧ signed.secret ∈ secret :: previous ∧
        signed.payload.expired now = false ∧
        ∃ sub, signed.payload.sub = some (.str sub) ∧ reader.uuid sub = some userId := by
  unfold decodeAccessToken
  rw [tryCandidates_eq]
  constructor
  · intro accepted
    cases found : reader.read token algorithm with
    | none =>
      rw [found] at accepted
      cases accepted
    | some signed =>
      rw [found] at accepted
      dsimp only at accepted
      by_cases listed : signed.secret ∈ secret :: previous
      · rw [if_pos listed] at accepted
        cases expired : signed.payload.expired now with
        | true =>
          rw [expired] at accepted
          cases accepted
        | false =>
          rw [expired] at accepted
          rw [if_neg Bool.false_ne_true] at accepted
          dsimp only at accepted
          split at accepted
          · rename_i sub text
            split at accepted
            · rename_i found'
              cases accepted
              exact ⟨signed, rfl, listed, expired, sub, text, found'⟩
            · cases accepted
          all_goals cases accepted
      · rw [if_neg listed] at accepted
        cases accepted
  · rintro ⟨signed, found, listed, expired, sub, text, uuid⟩
    rw [found]
    dsimp only
    rw [if_pos listed, expired]
    simp only [Bool.false_eq_true, if_false, text, uuid]

end TheClub
