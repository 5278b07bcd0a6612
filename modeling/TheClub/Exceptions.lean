import TheClub.Api.Errors
import TheClub.Requests

/-!
The exceptions a request to an endpoint can end with: those that its statements answer with, and
those that the services raise, on answers that call for them.
-/

namespace TheClub
open ReadCommitted Program

/-- Commands are only answered as `good` allows. -/
def answers (good : (c : Cmd) → Except Error c.Ret → Prop) : Protocol signature where
  Ghost := Unit
  start := ()
  allowed := fun _ _ => True
  possible := good
  next := fun _ _ _ => ()
  died := fun _ => ()

theorem validate_error {fields : List (String × Bool)} {e : Error} (h : validate fields = .error e) :
    ∃ refused, e = .validationError refused := by
  unfold validate at h
  split at h
  · cases h
  · cases h
    exact ⟨_, rfl⟩

theorem BetPlacedData.build_error {platform : Platform} {d : BetPlacedData} {e : Error}
    (h : d.build platform = .error e) :
    ∃ refused, e = .validationError refused := by
  unfold BetPlacedData.build at h
  cases valid : validate [("stake_minor", decide (1 ≤ d.stakeMinor)), ("currency", decide (d.currency = "EUR"))] with
  | ok u =>
    simp only [valid, Bind.bind, Except.bind, pure, Except.pure] at h
    cases h
  | error e' =>
    simp only [valid, Bind.bind, Except.bind] at h
    cases h
    exact validate_error valid

theorem WalletTransactionData.build_error {platform : Platform} {d : WalletTransactionData} {e : Error}
    (h : d.build platform = .error e) : ∃ refused, e = .validationError refused := by
  unfold WalletTransactionData.build at h
  simp only [Bind.bind, Except.bind, pure, Except.pure] at h
  split at h
  · rename_i valid
    cases h
    exact validate_error valid
  · cases h

theorem SettledBet.build_error {platform : Platform} {d : SettledBet} {e : Error} (h : d.build platform = .error e) :
    ∃ refused, e = .validationError refused := by
  unfold SettledBet.build at h
  simp only [Bind.bind, Except.bind, pure, Except.pure] at h
  split at h
  · rename_i valid
    cases h
    exact validate_error valid
  · cases h

theorem RoundSettledData.build_error {platform : Platform} {d : RoundSettledData} {e : Error}
    (h : d.build platform = .error e) : ∃ refused, e = .validationError refused := by
  have built : ∀ (bets : List SettledBet) e, bets.mapM (SettledBet.build platform) = .error e →
      ∃ refused, e = .validationError refused := by
    intro bets
    induction bets with
    | nil => rintro e ⟨⟩
    | cons bet bets ih =>
      intro e failed
      rw [List.mapM_cons] at failed
      cases first : bet.build platform with
      | error e' =>
        rw [first] at failed
        cases failed
        exact SettledBet.build_error first
      | ok json =>
        rw [first] at failed
        cases rest : bets.mapM (SettledBet.build platform) with
        | error e' =>
          simp only [rest, Bind.bind, Except.bind] at failed
          cases failed
          exact ih _ rest
        | ok jsons =>
          simp only [rest, Bind.bind, Except.bind, pure, Except.pure] at failed
          cases failed
  unfold RoundSettledData.build at h
  simp only [Bind.bind, Except.bind, pure, Except.pure] at h
  split at h
  · rename_i failed
    cases h
    exact built _ _ failed
  · split at h
    · rename_i valid
      cases h
      exact validate_error valid
    · cases h

/-- With `good` answers the program ends normally or with an exception in `E`. -/
def Throws (good : (c : Cmd) → Except Error c.Ret → Prop) (E : Error → Prop) {α : Type} (p : Prog α) : Prop :=
  p.Follows (answers good) (fun _ r => ∀ e, r = .error e → E e) ()

variable {good : (c : Cmd) → Except Error c.Ret → Prop} {E : Error → Prop} {α β : Type}

theorem throws_return (a : α) : Throws good E (.done (.ok a) : Prog α) := by
  rintro e ⟨⟩

theorem throws_raise {e : Error} (h : E e) : Throws good E (raise e : Prog α) := by
  rintro e' ⟨⟩
  exact h

theorem Throws.bind {p : Prog α} {f : α → Prog β} (first : Throws good E p) (rest : ∀ a, Throws good E (f a)) :
    Throws good E (p.bind f) := by
  refine follows_bind.mpr (first.mono fun g r thrown => ?_)
  cases r with
  | ok a => exact rest a
  | error e =>
    rintro e' ⟨⟩
    exact thrown e rfl

theorem throws_perform {c : Cmd} (fails : ∀ e, good c (.error e) → E e) : Throws good E (perform c) := by
  refine ⟨trivial, fun r answer => ?_⟩
  rintro e rfl
  exact fails e answer

theorem Throws.handle {E' : Error → Prop} {p : Prog α} {handler : Error → Prog α} (h : Throws good E' p)
    (handles : ∀ e, E' e → Throws good E (handler e)) : Throws good E (p.handle handler) := by
  refine follows_handle.mpr (h.mono fun g r thrown => ?_)
  cases r with
  | ok a => exact show Throws good E (Program.done (.ok a)) from throws_return a
  | error e => exact handles e (thrown e rfl)

theorem throws_forM {γ : Type} {f : γ → Prog PUnit} {xs : List γ} (each : ∀ x, Throws good E (f x)) :
    Throws good E (xs.forM f) := by
  induction xs with
  | nil => exact throws_return _
  | cons x xs ih => exact (each x).bind fun _ => ih

theorem throws_mapM {γ δ : Type} {f : γ → Prog δ} {xs : List γ} (each : ∀ x, Throws good E (f x)) :
    Throws good E (xs.mapM f) := by
  induction xs with
  | nil => exact throws_return _
  | cons x xs ih =>
    rw [List.mapM_cons]
    exact (each x).bind fun _ => ih.bind fun _ => throws_return _

/-- The exceptions of the statements, and what the services raise apart from the events, are all in `E`. -/
structure Raising (good : (c : Cmd) → Except Error c.Ret → Prop) (E : Error → Prop) (userId : Id) : Prop where
  /-- The conflict of a reservation is caught by `_try_reserve`. -/
  fails : ∀ c e, good c (.error e) → E e ∨ ∃ userId key requestHash expiresAt constraint,
    c = .sql .idempotencyKeys (.createPending userId key requestHash expiresAt) ∧ e = .integrityError constraint
  mapped : ∀ e, Mapped e → E e
  noWallet : good (.sql .wallets (.getByUserId userId)) (.ok []) → ∀ message, E (.dataIntegrityError message)
  noPair : good (.sql .seedPairs (.getActiveByUserId userId)) (.ok []) → ∀ message, E (.dataIntegrityError message)
  manyWallets : ∀ a b rows, good (.sql .wallets (.getByUserId userId)) (.ok (a :: b :: rows)) → E .multipleResultsFound
  manyPairs : ∀ a b rows, good (.sql .seedPairs (.getActiveByUserId userId)) (.ok (a :: b :: rows)) →
    E .multipleResultsFound
  manyUsers : ∀ email a b rows, good (.sql .users (.getByEmail email)) (.ok (a :: b :: rows)) → E .multipleResultsFound
  manyTokens : ∀ hash a b rows, good (.sql .refreshTokens (.getByHash hash)) (.ok (a :: b :: rows)) →
    E .multipleResultsFound
  manyKeys : ∀ user key a b rows, good (.sql .idempotencyKeys (.get user key)) (.ok (a :: b :: rows)) →
    E .multipleResultsFound
  noCredit : ∀ walletId amount, good (.sql .wallets (.credit walletId amount)) (.ok none) → E .noResultFound
  noNonce : ∀ seedPairId, good (.sql .seedPairs (.consumeNonce seedPairId)) (.ok none) → E .noResultFound

/-- What the services raise when they write events is in `E` too. -/
structure Exceptions (good : (c : Cmd) → Except Error c.Ret → Prop) (E : Error → Prop) (userId : Id) : Prop
    extends Raising good E userId where
  assertion : E .assertionError
  validation : ∀ fields, E (.validationError fields)

theorem liftBet_error {γ : Type} {result : Except Roulette.InvalidBetError γ} {e : Error}
    (h : result.mapError .invalidBetError = .error e) : Mapped e := by
  cases result with
  | ok a => cases h
  | error reason =>
    cases h
    rfl

namespace Raising
variable {userId : Id} (ex : Raising good E userId)

include ex

theorem perform {c : Cmd} (other : ∀ u k h t, c ≠ .sql .idempotencyKeys (.createPending u k h t)) :
    Throws good E (TheClub.perform c) := by
  refine throws_perform fun e answer => ?_
  rcases ex.fails c e answer with thrown | ⟨u, k, h, t, -, same, -⟩
  · exact thrown
  · exact (other u k h t same).elim

theorem sql {f : TableName} {q : Query f} (other : f ≠ .idempotencyKeys) : Throws good E (TheClub.sql f q) :=
  ex.perform (c := .sql f q) fun u k h t same => other (by cases same; rfl)

theorem failed {c : Cmd} {e : Error} (other : ∀ u k h t, c ≠ .sql .idempotencyKeys (.createPending u k h t))
    (answer : good c (.error e)) : E e := by
  rcases ex.fails c e answer with thrown | ⟨u, k, h, t, -, same, -⟩
  · exact thrown
  · exact (other u k h t same).elim

theorem unitOfWork {tx : Tx} {p : Prog α} (h : Throws good E p) : Throws good E (TheClub.unitOfWork tx p) := by
  refine follows_bind.mpr (follows_attempt.mpr (h.mono fun g r thrown => ?_))
  cases r with
  | ok a => exact (ex.perform (c := .commit tx) (by simp)).bind fun _ => throws_return a
  | error e =>
    have raised : E e := thrown e rfl
    exact (ex.perform (c := .rollback) (by simp)).bind fun _ => throws_raise raised

theorem requireWallet {platform : Platform} : Throws good E (TheClub.requireWallet platform userId) := by
  refine ⟨trivial, fun r answer => ?_⟩
  rcases r with e | (_ | ⟨wallet, _ | ⟨second, rest⟩⟩)
  · exact throws_raise (ex.failed (by simp) answer)
  · exact throws_raise (ex.noWallet answer _)
  · exact throws_return wallet
  · exact throws_raise (ex.manyWallets _ _ _ answer)

theorem requireActiveSeedPair {platform : Platform} :
    Throws good E (TheClub.requireActiveSeedPair platform userId) := by
  refine ⟨trivial, fun r answer => ?_⟩
  rcases r with e | (_ | ⟨pair, _ | ⟨second, rest⟩⟩)
  · exact throws_raise (ex.failed (by simp) answer)
  · exact throws_raise (ex.noPair answer _)
  · exact throws_return pair
  · exact throws_raise (ex.manyPairs _ _ _ answer)

theorem getByEmail {email : String} : Throws good E (UserRepository.getByEmail email) := by
  refine ⟨trivial, fun r answer => ?_⟩
  rcases r with e | (_ | ⟨user, _ | ⟨second, rest⟩⟩)
  · exact throws_raise (ex.failed (by simp) answer)
  · exact throws_return none
  · exact throws_return (some user)
  · exact throws_raise (ex.manyUsers _ _ _ _ answer)

theorem getByHash {tokenHash : String} : Throws good E (RefreshTokenRepository.getByHash tokenHash) := by
  refine ⟨trivial, fun r answer => ?_⟩
  rcases r with e | (_ | ⟨token, _ | ⟨second, rest⟩⟩)
  · exact throws_raise (ex.failed (by simp) answer)
  · exact throws_return none
  · exact throws_return (some token)
  · exact throws_raise (ex.manyTokens _ _ _ _ answer)

theorem get {user : Id} {key : String} : Throws good E (IdempotencyKeyRepository.get user key) := by
  refine ⟨trivial, fun r answer => ?_⟩
  rcases r with e | (_ | ⟨row, _ | ⟨second, rest⟩⟩)
  · exact throws_raise (ex.failed (by simp) answer)
  · exact throws_return none
  · exact throws_return (some row)
  · exact throws_raise (ex.manyKeys _ _ _ _ _ answer)

theorem credit {walletId : Id} {amount : Money} : Throws good E (WalletRepository.credit walletId amount) := by
  refine ⟨trivial, fun r answer => ?_⟩
  rcases r with e | (_ | balance)
  · exact throws_raise (ex.failed (by simp) answer)
  · exact throws_raise (ex.noCredit _ _ answer)
  · exact throws_return balance

theorem consumeNonce {seedPairId : Id} : Throws good E (SeedPairRepository.consumeNonce seedPairId) := by
  refine ⟨trivial, fun r answer => ?_⟩
  rcases r with e | (_ | nonce)
  · exact throws_raise (ex.failed (by simp) answer)
  · exact throws_raise (ex.noNonce _ answer)
  · exact throws_return nonce

theorem debit {platform : Platform} {walletId : Id} {amount : Money} :
    Throws good E (WalletRepository.debit platform walletId amount) := by
  refine ⟨trivial, fun r answer => ?_⟩
  rcases r with e | (_ | balance)
  · exact throws_raise (ex.failed (by simp) answer)
  · exact throws_raise (ex.mapped _ rfl)
  · exact throws_return balance

omit ex in
theorem lift {result : Except Error α} (h : ∀ e, result = .error e → E e) : Throws good E (TheClub.lift result) := h

theorem now : Throws good E datetimeNow := ex.perform (c := .datetimeNow) (by simp)

theorem enqueueEvent {platform : Platform} {settings : Settings} {envelope : EventEnvelope} {key : String} :
    Throws good E (TheClub.enqueueEvent platform settings envelope key) :=
  (ex.sql (f := .outbox) (by decide)).bind fun _ => throws_return _

variable {platform : Platform} {settings : Settings}

theorem getBalance : Throws good E (TheClub.getBalance platform userId) :=
  ex.requireWallet.bind fun _ => throws_return _

theorem listTransactions {cursor : Option (Time × Id)} {limit : Nat} :
    Throws good E (TheClub.listTransactions platform userId cursor limit) :=
  ex.requireWallet.bind fun _ => ex.sql (f := .ledgerEntries) (by decide)

theorem listRounds {cursor : Option (Time × Id)} {limit : Nat} :
    Throws good E (TheClub.listRounds userId cursor limit) := by
  refine (ex.sql (f := .rounds) (by decide)).bind fun rounds => Throws.bind ?_ fun bets => throws_return _
  unfold RoundRepository.loadBets
  split
  · exact throws_return _
  · exact ex.sql (f := .bets) (by decide)

theorem getCurrentSeed : Throws good E (TheClub.getCurrentSeed platform userId) :=
  ex.requireActiveSeedPair.bind fun _ => throws_return _

theorem rotateSeed : Throws good E (TheClub.rotateSeed platform userId) := by
  refine ex.requireActiveSeedPair.bind fun current => ?_
  refine Throws.bind (Throws.bind ex.now fun now => ex.sql (by decide)) fun _ => ?_
  refine (ex.perform (c := .tokenBytes _) (by simp)).bind fun newSeed => ?_
  refine (ex.perform (c := .tokenHex _) (by simp)).bind fun clientSeed => ?_
  exact (ex.sql (f := .seedPairs) (by decide)).bind fun newPair => throws_return _

theorem append {walletId : Id} {amount : Money} {balanceAfterMinor : Int} {kind : LedgerKind} {refType : Option String}
    {refId : Option Id} : Throws good E
    (LedgerRepository.append walletId amount balanceAfterMinor kind refType refId) :=
  ex.sql (f := .ledgerEntries) (by decide)

theorem issueTokens {user familyId : Id} : Throws good E (TheClub.issueTokens platform settings user familyId) := by
  refine (ex.now.bind fun now => throws_return _).bind fun accessToken => ?_
  refine (ex.perform (c := .tokenUrlsafe _) (by simp)).bind fun rawRefreshToken => ?_
  exact ex.now.bind fun now => (ex.sql (f := .refreshTokens) (by decide)).bind fun _ => throws_return _

theorem registerUser {email password : String} :
    Throws good E (TheClub.registerUser platform settings email password) := by
  refine ex.getByEmail.bind fun found => ?_
  cases found with
  | some user => exact throws_raise (ex.mapped _ rfl)
  | none =>
    refine (ex.perform (c := .hashPassword _) (by simp)).bind fun passwordHash => ?_
    refine (ex.sql (f := .users) (by decide)).bind fun user => ?_
    refine (ex.perform (c := .tokenBytes _) (by simp)).bind fun serverSeed => ?_
    refine (ex.perform (c := .tokenHex _) (by simp)).bind fun clientSeed => ?_
    refine (ex.sql (f := .wallets) (by decide)).bind fun _ => ?_
    refine (ex.sql (f := .seedPairs) (by decide)).bind fun _ => ?_
    refine (ex.perform (c := .uuid4) (by simp)).bind fun familyId => ?_
    exact ex.issueTokens.bind fun tokens => throws_return _

theorem login {email password : String} : Throws good E (TheClub.login platform settings email password) := by
  refine ex.getByEmail.bind fun found => ?_
  cases found with
  | none => exact throws_raise (ex.mapped _ rfl)
  | some user =>
    dsimp only
    split
    · exact throws_raise (ex.mapped _ rfl)
    · split
      · exact throws_raise (ex.mapped _ rfl)
      · refine (ex.perform (c := .uuid4) (by simp)).bind fun familyId => ?_
        exact ex.issueTokens.bind fun tokens => throws_return _

theorem revokeFamily {familyId : Id} {revokedAt : Time} :
    Throws good E (RefreshTokenRepository.revokeFamily familyId revokedAt) :=
  (ex.sql (f := .refreshTokens) (by decide)).bind fun _ => throws_forM fun _ => ex.sql (f := .refreshTokens) (by decide)

theorem refreshAccessToken {raw : String} : Throws good E (TheClub.refreshAccessToken platform settings raw) := by
  refine ex.getByHash.bind fun stored => ?_
  cases stored with
  | none => exact throws_raise (ex.mapped _ rfl)
  | some stored =>
    refine ex.now.bind fun now => ?_
    split
    · refine ex.revokeFamily.bind fun _ => ?_
      exact (ex.perform (c := .commit .request) (by simp)).bind fun _ => throws_raise (ex.mapped _ rfl)
    · split
      · exact throws_raise (ex.mapped _ rfl)
      · exact (ex.sql (f := .refreshTokens) (by decide)).bind fun _ => ex.issueTokens

theorem logout {user : Id} {raw : String} : Throws good E (TheClub.logout platform user raw) := by
  refine ex.getByHash.bind fun stored => ?_
  cases stored with
  | none => exact throws_return _
  | some stored =>
    dsimp only
    split
    · exact throws_return _
    · exact ex.now.bind fun now => ex.revokeFamily

/-! ### Idempotency -/

theorem tryReserve {user : Id} {key requestHash : String} {ttlHours : Int} :
    Throws good E (TheClub.tryReserve user key requestHash ttlHours) := by
  have reserve : Throws good (fun e => E e ∨ ∃ constraint, e = .integrityError constraint)
      (TheClub.unitOfWork .reserve do
        let now ← datetimeNow
        let row ← IdempotencyKeyRepository.createPending user key requestHash (now + hours ttlHours)
        return row.id) := by
    have wider : Raising good (fun e => E e ∨ ∃ constraint, e = .integrityError constraint) userId := {
      fails := fun c e answer => (ex.fails c e answer).imp_left Or.inl
      mapped := fun e mapped => Or.inl (ex.mapped e mapped)
      noWallet := fun answer message => Or.inl (ex.noWallet answer message)
      noPair := fun answer message => Or.inl (ex.noPair answer message)
      manyWallets := fun a b rows answer => Or.inl (ex.manyWallets a b rows answer)
      manyPairs := fun a b rows answer => Or.inl (ex.manyPairs a b rows answer)
      manyUsers := fun email a b rows answer => Or.inl (ex.manyUsers email a b rows answer)
      manyTokens := fun hash a b rows answer => Or.inl (ex.manyTokens hash a b rows answer)
      manyKeys := fun user key a b rows answer => Or.inl (ex.manyKeys user key a b rows answer)
      noCredit := fun walletId amount answer => Or.inl (ex.noCredit walletId amount answer)
      noNonce := fun seedPairId answer => Or.inl (ex.noNonce seedPairId answer) }
    refine wider.unitOfWork (wider.now.bind fun now => Throws.bind (throws_perform fun e answer => ?_) fun row =>
      throws_return _)
    rcases ex.fails _ e answer with thrown | ⟨-, -, -, -, constraint, -, same⟩
    · exact Or.inl thrown
    · exact Or.inr ⟨constraint, same⟩
  refine Throws.handle (reserve.bind fun rowId => throws_return _) fun e thrown => ?_
  split
  · exact throws_return none
  · rename_i other
    rcases thrown with thrown | ⟨constraint, same⟩
    · exact throws_raise thrown
    · exact (other constraint same).elim

theorem resolveExisting {user : Id} {key requestHash : String} :
    Throws good E (TheClub.resolveExisting user key requestHash) := by
  have body : ∀ p : Prog (Option Dict), Throws good E p → Throws good E (TheClub.session p) := by
    intro p h
    refine follows_bind.mpr (follows_attempt.mpr (h.mono fun g r thrown => ?_))
    exact (ex.perform (c := .rollback) (by simp)).bind fun _ => thrown
  refine body _ (ex.get.bind fun existing => ?_)
  cases existing with
  | none => exact throws_return none
  | some existing =>
    dsimp only
    split
    · exact throws_raise (ex.mapped _ rfl)
    · split
      · exact throws_return _
      · refine ex.now.bind fun now => ?_
        split
        · exact throws_raise (ex.mapped _ rfl)
        · refine Throws.bind (ex.perform (c := .sql .idempotencyKeys (.delete _)) (by simp)) fun _ => ?_
          exact (ex.perform (c := .commit .reclaim) (by simp)).bind fun _ => throws_return none

theorem runReserved {rowId : Id} {work : Prog Dict} (h : Throws good E work) :
    Throws good E (TheClub.runReserved rowId work) := by
  have works : Throws good E (TheClub.unitOfWork .work do
      let responseBody ← work
      IdempotencyKeyRepository.markCompleted rowId responseBody
      return responseBody) := by
    refine ex.unitOfWork (h.bind fun body => ?_)
    exact Throws.bind (ex.perform (c := .sql .idempotencyKeys (.markCompleted _ _)) (by simp)) fun _ => throws_return _
  refine works.handle fun e thrown => ?_
  · refine Throws.bind (ex.unitOfWork (ex.perform (c := .sql .idempotencyKeys (.delete _)) (by simp))) fun _ => ?_
    exact throws_raise thrown

theorem runIdempotent {user : Id} {key requestHash : String} {ttlHours : Int} {work : Prog Dict}
    (h : Throws good E work) :
    Throws good E (TheClub.runIdempotent user key requestHash ttlHours work) := by
  refine ex.tryReserve.bind fun reserved => ?_
  cases reserved with
  | some rowId => exact ex.runReserved h
  | none =>
    refine ex.resolveExisting.bind fun cached => ?_
    cases cached with
    | some cached => exact throws_return cached
    | none =>
      refine ex.tryReserve.bind fun reserved => ?_
      cases reserved with
      | some rowId => exact ex.runReserved h
      | none => exact throws_raise (ex.mapped _ rfl)

end Raising

namespace Exceptions
variable {userId : Id} {platform : Platform} {settings : Settings} (ex : Exceptions good E userId)

include ex

theorem newEnvelope {eventType : EventType} {data : Except Error Dict} {key : Option String}
    (fields : ∀ e, data = .error e → ∃ fields, e = .validationError fields) :
    Throws good E (TheClub.newEnvelope eventType data key) := by
  refine (Raising.lift fun e same => ?_).bind fun data => ?_
  · obtain ⟨fields, rfl⟩ := fields e same
    exact ex.validation fields
  · exact (ex.perform (c := .uuid4) (by simp)).bind fun eventId => ex.now.bind fun occurredAt => throws_return _

theorem deposit {key : String} {amountMinor : Int} :
    Throws good E (TheClub.deposit platform settings userId key amountMinor) := by
  refine ex.requireWallet.bind fun wallet => ?_
  refine ex.credit.bind fun balanceAfter => ?_
  refine ex.append.bind fun entry => ?_
  refine (ex.newEnvelope fun e => WalletTransactionData.build_error).bind fun envelope => ?_
  exact ex.enqueueEvent.bind fun _ => throws_return _

theorem enqueueRoundEvents {ctx : RoundContext} : Throws good E (TheClub.enqueueRoundEvents platform settings ctx) := by
  have transaction : ∀ id kind amount balance,
      Throws good E (TheClub.enqueueRoundTransaction platform settings ctx id kind amount balance) := fun _ _ _ _ =>
    (ex.newEnvelope fun e => WalletTransactionData.build_error).bind fun _ => ex.enqueueEvent
  refine (throws_forM fun bet => ?_).bind fun _ => ?_
  · exact (ex.newEnvelope fun e => BetPlacedData.build_error).bind fun _ => ex.enqueueEvent
  refine (ex.newEnvelope fun e => RoundSettledData.build_error).bind fun envelope => ?_
  refine ex.enqueueEvent.bind fun _ => ?_
  refine (transaction _ _ _ _).bind fun _ => ?_
  split
  · exact throws_return _
  · split
    · exact throws_raise ex.assertion
    · exact transaction _ _ _ _

theorem settleRound {key : String} {wallet : Wallet} {pair : SeedPair} {nonce n : Nat}
    {totalStake balanceAfterStake : Int}
    {resolved : List Roulette.ResolvedBet} : Throws good E
      (TheClub.settleRound platform settings userId key wallet pair nonce totalStake balanceAfterStake n resolved) := by
  refine Throws.bind ?_ fun balanceAfterPayout => ?_
  · unfold creditPayout
    split
    · exact ex.credit.bind fun _ => throws_return _
    · exact throws_return _
  refine Throws.bind ?_ fun round => ?_
  · refine ex.now.bind fun now => (ex.sql (f := .rounds) (by decide)).bind fun round => ?_
    exact Throws.bind (throws_mapM fun bet => ex.sql (by decide)) fun rows => throws_return _
  refine ex.append.bind fun stakeEntry => Throws.bind ?_ fun payoutEntryId => ?_
  · unfold appendPayout
    split
    · split
      · exact throws_raise ex.assertion
      · exact ex.append.bind fun _ => throws_return _
    · exact throws_return _
  · exact ex.enqueueRoundEvents.bind fun _ => throws_return _

theorem placeBet {key : String} {betRequests : List BetRequest} :
    Throws good E (TheClub.placeBet platform settings userId key betRequests) := by
  refine (Raising.lift fun e h => ex.mapped e (liftBet_error h)).bind fun _ => ?_
  refine ex.requireWallet.bind fun wallet => ?_
  refine ex.debit.bind fun balanceAfterStake => ?_
  refine ex.requireActiveSeedPair.bind fun pair => ?_
  refine ex.consumeNonce.bind fun nonce => ?_
  refine (ex.perform (c := .spin _) (by simp)).bind fun outcome => ?_
  refine (Raising.lift fun e h => ex.mapped e (liftBet_error h)).bind fun resolved => ?_
  exact ex.settleRound

end Exceptions

/-- The user that a request to an authenticated endpoint is made for. -/
def Request.user : Request → Option Id
  | .logout userId _ | .getBalance userId | .listTransactions userId _ _ | .listRounds userId _ _ | .currentSeed userId
  | .rotateSeed userId | .placeBet userId _ _ | .deposit userId _ _ | .createRound userId _ _ _
  | .createDeposit userId _ _ _ => some userId
  | _ => none

/-- The requests that clients send. -/
def Request.isEndpoint : Request → Bool
  | .registerUser _ _ | .login _ _ | .refresh _ => true
  | q => q.user.isSome

theorem Exceptions.code {platform : Platform} {settings : Settings} {userId : Id} (ex : Exceptions good E userId)
    {q : Request} (endpoint : q.isEndpoint = true) (own : ∀ u, q.user = some u → u = userId) :
    Throws good E (q.code platform settings) := by
  have reply : ∀ {α : Type} {p : Prog α} {f : α → Reply}, Throws good E p → Throws good E (f <$> p) :=
    fun h => h.bind fun _ => throws_return _
  have work : ∀ {α : Type} {p : Prog α} {f : α → Dict}, Throws good E p → Throws good E (f <$> p) :=
    fun h => h.bind fun _ => throws_return _
  cases q with
  | registerUser email password => exact reply (ex.unitOfWork ex.registerUser)
  | login email password => exact reply (ex.unitOfWork ex.login)
  | refresh raw => exact reply (ex.unitOfWork ex.refreshAccessToken)
  | logout u raw => exact reply (ex.unitOfWork ex.logout)
  | getBalance u => obtain rfl := own u rfl; exact reply (ex.unitOfWork ex.getBalance)
  | listTransactions u cursor limit => obtain rfl := own u rfl; exact reply (ex.unitOfWork ex.listTransactions)
  | listRounds u cursor limit => obtain rfl := own u rfl; exact reply (ex.unitOfWork ex.listRounds)
  | currentSeed u => obtain rfl := own u rfl; exact reply (ex.unitOfWork ex.getCurrentSeed)
  | rotateSeed u => obtain rfl := own u rfl; exact reply (ex.unitOfWork ex.rotateSeed)
  | placeBet u key bets => obtain rfl := own u rfl; exact reply (ex.unitOfWork ex.placeBet)
  | deposit u key amount => obtain rfl := own u rfl; exact reply (ex.unitOfWork ex.deposit)
  | createRound u key body bets => obtain rfl := own u rfl; exact reply (ex.runIdempotent (work ex.placeBet))
  | createDeposit u key body amount => obtain rfl := own u rfl; exact reply (ex.runIdempotent (work ex.deposit))
  | _ => cases endpoint

end TheClub
