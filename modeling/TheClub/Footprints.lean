import TheClub.Requests

/-!
Which tables each use case touches. Every use case runs inside a unit of work, lets database
errors through and only adds to the outbox.
-/

namespace TheClub
open ReadCommitted Program

/-- The commands of a unit of work on the tables in `L`. -/
def Uses (L : List TableName) : Cmd → Prop
  | .sql .outbox (.insert _ _ _) => .outbox ∈ L
  | .sql .outbox _ => False
  | .sql f _ => f ∈ L
  | .commit _ => False
  | .rollback => False
  | .send _ => False
  | _ => True

theorem Uses.mono {L L' : List TableName} (sub : ∀ f ∈ L, f ∈ L') {c : Cmd} (h : Uses L c) : Uses L' c := by
  unfold Uses at h ⊢
  split <;> simp_all

variable {L : List TableName}

theorem sql_uses {f : TableName} {q : Query f} (member : f ∈ L) (ne : f ≠ .outbox) : (sql f q).Plain (Uses L) := by
  refine plain_perform (S := signature) ?_
  cases f <;> first | exact member | exact (ne rfl).elim

theorem datetimeNow_uses : datetimeNow.Plain (Uses L) := plain_perform (S := signature) trivial

theorem scalarOneOrNone_uses {α : Type} {rows : List α} : (scalarOneOrNone rows).Plain (Uses L) := by
  unfold scalarOneOrNone
  split <;> trivial

theorem scalarOne_uses {α : Type} {row : Option α} : (scalarOne row).Plain (Uses L) := by
  unfold scalarOne
  split <;> trivial

theorem lift_uses {α : Type} {result : Except Error α} : (lift result).Plain (Uses L) := trivial

theorem newEnvelope_uses {eventType : EventType} {data : Except Error Dict} {key : Option String} :
    (newEnvelope eventType data key).Plain (Uses L) := by
  refine Plain.bind lift_uses fun data => ?_
  refine Plain.bind (plain_perform (S := signature) trivial) fun eventId => ?_
  exact Plain.bind datetimeNow_uses fun occurredAt => trivial

theorem enqueueEvent_uses {platform : Platform} {settings : Settings} {envelope : EventEnvelope} {key : String}
    (member : .outbox ∈ L) : (enqueueEvent platform settings envelope key).Plain (Uses L) :=
  Plain.bind (plain_perform (S := signature) member) fun _ => trivial

theorem requireWallet_uses {platform : Platform} {userId : Id} (member : .wallets ∈ L) :
    (requireWallet platform userId).Plain (Uses L) := by
  refine Plain.bind (Plain.bind (sql_uses member (by decide)) fun rows => scalarOneOrNone_uses) fun wallet => ?_
  cases wallet <;> trivial

theorem requireActiveSeedPair_uses {platform : Platform} {userId : Id} (member : .seedPairs ∈ L) :
    (requireActiveSeedPair platform userId).Plain (Uses L) := by
  refine Plain.bind (Plain.bind (sql_uses member (by decide)) fun rows => scalarOneOrNone_uses) fun pair => ?_
  cases pair <;> trivial

/-- The statements of the requests that only look at balances and histories. -/
def Looks : Cmd → Prop
  | .sql .wallets (.getByUserId _) => True
  | .sql .ledgerEntries (.listByWallet _ _ _) => True
  | .sql .rounds (.listByUser _ _ _) => True
  | .sql .bets (.selectIn _) => True
  | _ => False

theorem requireWallet_looks {platform : Platform} {userId : Id} : (requireWallet platform userId).Plain Looks := by
  refine Plain.bind (Plain.bind (plain_perform (S := signature) trivial) fun rows => ?_) fun wallet => ?_
  · unfold scalarOneOrNone
    split <;> trivial
  · cases wallet <;> trivial

theorem getBalance_looks {platform : Platform} {userId : Id} : (getBalance platform userId).Plain Looks :=
  Plain.bind requireWallet_looks fun _ => trivial

theorem listTransactions_looks {platform : Platform} {userId : Id} {cursor : Option (Time × Id)} {limit : Nat} :
    (listTransactions platform userId cursor limit).Plain Looks :=
  Plain.bind requireWallet_looks fun _ => plain_perform (S := signature) trivial

theorem listRounds_looks {userId : Id} {cursor : Option (Time × Id)} {limit : Nat} :
    (listRounds userId cursor limit).Plain Looks := by
  refine Plain.bind (plain_perform (S := signature) trivial) fun rounds => ?_
  refine Plain.bind ?_ fun bets => trivial
  unfold RoundRepository.loadBets
  split
  · trivial
  · exact plain_perform (S := signature) trivial

theorem credit_uses {walletId : Id} {amount : Money} (member : .wallets ∈ L) :
    (WalletRepository.credit walletId amount).Plain (Uses L) :=
  Plain.bind (sql_uses member (by decide)) fun _ => scalarOne_uses

theorem append_uses {walletId : Id} {amount : Money} {balanceAfterMinor : Int} {kind : LedgerKind}
    {refType : Option String} {refId : Option Id} (member : .ledgerEntries ∈ L) :
    (LedgerRepository.append walletId amount balanceAfterMinor kind refType refId).Plain (Uses L) :=
  sql_uses member (by decide)

theorem deposit_uses {platform : Platform} {settings : Settings} {userId : Id} {key : String} {amountMinor : Int} :
    (deposit platform settings userId key amountMinor).Plain (Uses [.wallets, .ledgerEntries, .outbox]) := by
  refine Plain.bind (requireWallet_uses (by decide)) fun wallet => ?_
  refine Plain.bind (credit_uses (by decide)) fun balanceAfter => ?_
  refine Plain.bind (append_uses (by decide)) fun entry => ?_
  refine Plain.bind newEnvelope_uses fun envelope => ?_
  exact Plain.bind (enqueueEvent_uses (by decide)) fun _ => trivial

theorem getCurrentSeed_uses {platform : Platform} {userId : Id} :
    (getCurrentSeed platform userId).Plain (Uses [.seedPairs]) :=
  Plain.bind (requireActiveSeedPair_uses (by decide)) fun _ => trivial

theorem createActive_uses {userId : Id} {serverSeed : Bytes} {serverSeedHash clientSeed : String}
    (member : .seedPairs ∈ L) :
    (SeedPairRepository.createActive userId serverSeed serverSeedHash clientSeed).Plain (Uses L) :=
  sql_uses member (by decide)

theorem rotateSeed_uses {platform : Platform} {userId : Id} :
    (rotateSeed platform userId).Plain (Uses [.seedPairs]) := by
  refine Plain.bind (requireActiveSeedPair_uses (by decide)) fun current => ?_
  refine Plain.bind (Plain.bind datetimeNow_uses fun now => sql_uses (by decide) (by decide)) fun _ => ?_
  refine Plain.bind (plain_perform (S := signature) trivial) fun newSeed => ?_
  refine Plain.bind (plain_perform (S := signature) trivial) fun clientSeed => ?_
  exact Plain.bind (createActive_uses (by decide)) fun newPair => trivial

theorem enqueueBetPlaced_uses {platform : Platform} {settings : Settings} {ctx : RoundContext}
    {bet : Bet × Roulette.ResolvedBet} (member : .outbox ∈ L) :
    (enqueueBetPlaced platform settings ctx bet).Plain (Uses L) :=
  Plain.bind newEnvelope_uses fun _ => enqueueEvent_uses member

theorem enqueueRoundTransaction_uses {platform : Platform} {settings : Settings} {ctx : RoundContext}
    {transactionId : Id} {kind : LedgerKind} {amountMinor balanceAfterMinor : Int} (member : .outbox ∈ L) :
    (enqueueRoundTransaction platform settings ctx transactionId kind amountMinor balanceAfterMinor).Plain (Uses L) :=
  Plain.bind newEnvelope_uses fun _ => enqueueEvent_uses member

theorem enqueueRoundEvents_uses {platform : Platform} {settings : Settings} {ctx : RoundContext}
    (member : .outbox ∈ L) : (enqueueRoundEvents platform settings ctx).Plain (Uses L) := by
  refine Plain.bind (plain_forM fun bet => enqueueBetPlaced_uses member) fun _ => ?_
  refine Plain.bind newEnvelope_uses fun roundEnvelope => ?_
  refine Plain.bind (enqueueEvent_uses member) fun _ => ?_
  refine Plain.bind (enqueueRoundTransaction_uses member) fun _ => ?_
  split
  · trivial
  · split
    · trivial
    · exact enqueueRoundTransaction_uses member

theorem createSettledRound_uses {userId seedPairId : Id} {nonce : Nat} {outcome : Int} {bets : List ResolvedBetInput}
    (rounds : .rounds ∈ L) (members : .bets ∈ L) :
    (RoundRepository.createSettledRound userId seedPairId nonce outcome bets).Plain (Uses L) := by
  refine Plain.bind datetimeNow_uses fun now => ?_
  refine Plain.bind (sql_uses rounds (by decide)) fun round => ?_
  exact Plain.bind (plain_mapM fun bet => sql_uses members (by decide)) fun _ => trivial

theorem creditPayout_uses {walletId : Id} {totalPayout : Int} (member : .wallets ∈ L) :
    (creditPayout walletId totalPayout).Plain (Uses L) := by
  unfold creditPayout
  split
  · exact Plain.bind (credit_uses member) fun _ => trivial
  · trivial

theorem appendPayout_uses {walletId roundId : Id} {totalPayout : Int} {balanceAfterPayout : Option Int}
    (member : .ledgerEntries ∈ L) : (appendPayout walletId roundId totalPayout balanceAfterPayout).Plain (Uses L) := by
  unfold appendPayout
  split
  · split
    · trivial
    · exact Plain.bind (append_uses member) fun _ => trivial
  · trivial

theorem settleRound_uses {platform : Platform} {settings : Settings} {userId : Id} {key : String} {wallet : Wallet}
    {seedPair : SeedPair} {nonce : Nat} {totalStake balanceAfterStake : Int} {outcome : Nat}
    {resolved : List Roulette.ResolvedBet} :
    (settleRound platform settings userId key wallet seedPair nonce totalStake balanceAfterStake outcome
      resolved).Plain (Uses [.wallets, .rounds, .bets, .ledgerEntries, .outbox]) := by
  refine Plain.bind (creditPayout_uses (by decide)) fun balanceAfterPayout => ?_
  refine Plain.bind (createSettledRound_uses (by decide) (by decide)) fun round => ?_
  refine Plain.bind (append_uses (by decide)) fun stakeEntry => ?_
  refine Plain.bind (appendPayout_uses (by decide)) fun payoutEntryId => ?_
  exact Plain.bind (enqueueRoundEvents_uses (by decide)) fun _ => trivial

theorem debit_uses {platform : Platform} {walletId : Id} {amount : Money} (member : .wallets ∈ L) :
    (WalletRepository.debit platform walletId amount).Plain (Uses L) := by
  refine Plain.bind (sql_uses member (by decide)) fun newBalance => ?_
  cases newBalance <;> trivial

theorem consumeNonce_uses {seedPairId : Id} (member : .seedPairs ∈ L) :
    (SeedPairRepository.consumeNonce seedPairId).Plain (Uses L) :=
  Plain.bind (sql_uses member (by decide)) fun _ => scalarOne_uses

theorem placeBet_uses {platform : Platform} {settings : Settings} {userId : Id} {key : String}
    {betRequests : List BetRequest} :
    (placeBet platform settings userId key betRequests).Plain
      (Uses [.wallets, .seedPairs, .rounds, .bets, .ledgerEntries, .outbox]) := by
  refine Plain.bind lift_uses fun _ => ?_
  refine Plain.bind (requireWallet_uses (by decide)) fun wallet => ?_
  refine Plain.bind (debit_uses (by decide)) fun balanceAfterStake => ?_
  refine Plain.bind (requireActiveSeedPair_uses (by decide)) fun seedPair => ?_
  refine Plain.bind (consumeNonce_uses (by decide)) fun nonce => ?_
  refine Plain.bind (plain_perform (S := signature) trivial) fun outcome => ?_
  refine Plain.bind lift_uses fun resolved => ?_
  exact settleRound_uses.mono fun c => Uses.mono (by decide)

theorem issueTokens_uses {platform : Platform} {settings : Settings} {userId familyId : Id}
    (member : .refreshTokens ∈ L) : (issueTokens platform settings userId familyId).Plain (Uses L) := by
  refine Plain.bind (Plain.bind datetimeNow_uses fun now => trivial) fun accessToken => ?_
  refine Plain.bind (plain_perform (S := signature) trivial) fun rawRefreshToken => ?_
  refine Plain.bind datetimeNow_uses fun now => ?_
  exact Plain.bind (sql_uses member (by decide)) fun _ => trivial

theorem getByEmail_uses {email : String} (member : .users ∈ L) : (UserRepository.getByEmail email).Plain (Uses L) :=
  Plain.bind (sql_uses member (by decide)) fun _ => scalarOneOrNone_uses

theorem registerUser_uses {platform : Platform} {settings : Settings} {email password : String} :
    (registerUser platform settings email password).Plain (Uses [.users, .wallets, .seedPairs, .refreshTokens]) := by
  refine Plain.bind (getByEmail_uses (by decide)) fun found => ?_
  cases found with
  | some user => trivial
  | none =>
    refine Plain.bind (plain_perform (S := signature) trivial) fun passwordHash => ?_
    refine Plain.bind (sql_uses (by decide) (by decide)) fun user => ?_
    refine Plain.bind (plain_perform (S := signature) trivial) fun serverSeed => ?_
    refine Plain.bind (plain_perform (S := signature) trivial) fun clientSeed => ?_
    refine Plain.bind (sql_uses (by decide) (by decide)) fun _ => ?_
    refine Plain.bind (createActive_uses (by decide)) fun _ => ?_
    refine Plain.bind (plain_perform (S := signature) trivial) fun familyId => ?_
    exact Plain.bind (issueTokens_uses (by decide)) fun tokens => trivial

/-- The commands of the requests that log in and out. -/
def Signs (c : Cmd) : Prop := (∃ email, c = .sql .users (.getByEmail email)) ∨ Uses [.refreshTokens] c

theorem Signs.uses {c : Cmd} (h : Signs c) : Uses [.users, .refreshTokens] c := by
  rcases h with ⟨email, rfl⟩ | h
  · exact List.mem_cons_self
  · exact h.mono (by decide)

theorem login_signs {platform : Platform} {settings : Settings} {email password : String} :
    (login platform settings email password).Plain Signs := by
  have tokens : ∀ {α : Type} {p : Prog α}, p.Plain (Uses [.refreshTokens]) → p.Plain Signs := fun h =>
    h.mono fun _ => Or.inr
  have found : (UserRepository.getByEmail email).Plain Signs :=
    Plain.bind (plain_perform (S := signature) (Or.inl ⟨email, rfl⟩)) fun _ => tokens scalarOneOrNone_uses
  refine found.bind fun found => ?_
  cases found with
  | none => trivial
  | some user =>
    dsimp only
    split
    · trivial
    · split
      · trivial
      · refine tokens (Plain.bind (plain_perform (S := signature) trivial) fun familyId => ?_)
        exact Plain.bind (issueTokens_uses (by decide)) fun tokens => trivial

theorem login_uses {platform : Platform} {settings : Settings} {email password : String} :
    (login platform settings email password).Plain (Uses [.users, .refreshTokens]) :=
  login_signs.mono fun _ => Signs.uses

theorem revokeFamily_uses {familyId : Id} {revokedAt : Time} (member : .refreshTokens ∈ L) :
    (RefreshTokenRepository.revokeFamily familyId revokedAt).Plain (Uses L) :=
  Plain.bind (sql_uses member (by decide)) fun _ => plain_forM fun _ => sql_uses member (by decide)

theorem getByHash_uses {tokenHash : String} (member : .refreshTokens ∈ L) :
    (RefreshTokenRepository.getByHash tokenHash).Plain (Uses L) :=
  Plain.bind (sql_uses member (by decide)) fun _ => scalarOneOrNone_uses

theorem logout_uses {platform : Platform} {userId : Id} {rawRefreshToken : String} :
    (logout platform userId rawRefreshToken).Plain (Uses [.refreshTokens]) := by
  refine Plain.bind (getByHash_uses (by decide)) fun stored => ?_
  cases stored with
  | none => trivial
  | some stored =>
    dsimp only
    split
    · trivial
    · exact Plain.bind datetimeNow_uses fun now => revokeFamily_uses (by decide)

/-- A refresh commits by itself when it has revoked a family. -/
theorem refreshAccessToken_uses {platform : Platform} {settings : Settings} {rawRefreshToken : String} :
    (refreshAccessToken platform settings rawRefreshToken).Only
      fun c => Uses [.refreshTokens] c ∨ c = Cmd.commit .request := by
  have plain : ∀ {α : Type} {p : Prog α}, p.Plain (Uses [.refreshTokens]) →
      p.Only fun c => Uses [.refreshTokens] c ∨ c = Cmd.commit .request := fun h => h.only.mono fun _ => Or.inl
  refine Only.bind (plain (getByHash_uses (by decide))) fun stored => ?_
  cases stored with
  | none => trivial
  | some stored =>
    refine Only.bind (plain datetimeNow_uses) fun now => ?_
    split
    · refine Only.bind (plain (revokeFamily_uses (by decide))) fun _ => ?_
      exact Only.bind (only_perform (S := signature) (Or.inr rfl)) fun _ => trivial
    · split
      · trivial
      · refine Only.bind (plain (sql_uses (by decide) (by decide))) fun _ => ?_
        exact plain (issueTokens_uses (by decide))

/-! ### The tables of a request -/

/-- The command is no statement on a table outside `L`. -/
def Touches (L : List TableName) : Cmd → Prop
  | .sql f _ => f ∈ L
  | _ => True

theorem Touches.mono {L L' : List TableName} (sub : ∀ f ∈ L, f ∈ L') {c : Cmd} (h : Touches L c) : Touches L' c := by
  cases c with
  | sql f q => exact sub f h
  | _ => trivial

theorem Uses.touches {c : Cmd} (h : Uses L c) : Touches L c := by
  cases c with
  | sql f q =>
    cases f with
    | outbox => cases q <;> first | exact h | exact h.elim
    | _ => exact h
  | _ => trivial

theorem Looks.touches {c : Cmd} (h : Looks c) : Touches [.wallets, .ledgerEntries, .rounds, .bets] c := by
  unfold Looks at h
  split at h <;> first | exact h.elim | exact List.mem_of_elem_eq_true rfl

section
variable {α : Type} {p : Prog α} {A : Cmd → Prop}

theorem unitOfWork_only {tx : Tx} (commits : A (.commit tx)) (rollsBack : A .rollback) (body : p.Only A) :
    (unitOfWork tx p).Only A := by
  refine Only.bind body.attempt fun r => ?_
  cases r with
  | ok a => exact Only.bind (only_perform (S := signature) commits) fun _ => trivial
  | error e => exact Only.bind (only_perform (S := signature) rollsBack) fun _ => trivial

/-- The commands with which `run_idempotent` reserves or looks up a key are in `A`. -/
structure Finds (A : Cmd → Prop) (userId : Id) (key requestHash : String) : Prop where
  commits : ∀ tx, A (.commit tx)
  rollsBack : A .rollback
  now : A .datetimeNow
  creates : ∀ expiresAt, A (.sql .idempotencyKeys (.createPending userId key requestHash expiresAt))
  gets : A (.sql .idempotencyKeys (.get userId key))
  deletes : ∀ rowId, A (.sql .idempotencyKeys (.delete rowId))

/-- The commands of `run_idempotent` itself, for a key and a request hash, are in `A`. -/
structure Reserves (A : Cmd → Prop) (userId : Id) (key requestHash : String) : Prop
    extends Finds A userId key requestHash where
  marks : ∀ rowId responseBody, A (.sql .idempotencyKeys (.markCompleted rowId responseBody))

section
variable {userId : Id} {key requestHash : String}

theorem Reserves.of_statement (commits : ∀ tx, A (.commit tx)) (rollsBack : A .rollback) (now : A .datetimeNow)
    (statement : ∀ q, A (.sql .idempotencyKeys q)) : Reserves A userId key requestHash :=
  ⟨⟨commits, rollsBack, now, fun _ => statement _, statement _, fun _ => statement _⟩, fun _ _ => statement _⟩

theorem tryReserve_only (finds : Finds A userId key requestHash) {ttlHours : Int} :
    (tryReserve userId key requestHash ttlHours).Only A := by
  refine Only.handle (Only.bind (unitOfWork_only (finds.commits _) finds.rollsBack ?_) fun rowId => trivial) fun e => ?_
  · refine Only.bind (only_perform (S := signature) finds.now) fun now => ?_
    exact Only.bind (only_perform (S := signature) (finds.creates _)) fun row => trivial
  · split <;> trivial

theorem resolveExisting_only (finds : Finds A userId key requestHash) :
    (resolveExisting userId key requestHash).Only A := by
  have gets : (sql .idempotencyKeys (.get userId key)).Only A := only_perform (S := signature) finds.gets
  refine Only.bind (Only.attempt (Only.bind (Only.bind gets fun rows => ?_) fun existing => ?_)) fun r => ?_
  · unfold scalarOneOrNone
    split <;> trivial
  · cases existing with
    | none => trivial
    | some existing =>
      dsimp only
      split
      · trivial
      · split
        · trivial
        · refine Only.bind (only_perform (S := signature) finds.now) fun now => ?_
          split
          · trivial
          · refine Only.bind (only_perform (S := signature) (finds.deletes _)) fun _ => ?_
            exact Only.bind (only_perform (S := signature) (finds.commits _)) fun _ => trivial
  · exact Only.bind (only_perform (S := signature) finds.rollsBack) fun _ => trivial

theorem runReserved_only (reserves : Reserves A userId key requestHash) {rowId : Id} {work : Prog Dict}
    (h : work.Only A) :
    (runReserved rowId work).Only A := by
  refine Only.handle (unitOfWork_only (reserves.commits _) reserves.rollsBack (Only.bind h fun body => ?_)) fun e => ?_
  · exact Only.bind (only_perform (S := signature) (reserves.marks _ _)) fun _ => trivial
  · have deletes : (IdempotencyKeyRepository.delete rowId).Only A := only_perform (S := signature) (reserves.deletes _)
    exact Only.bind (unitOfWork_only (reserves.commits _) reserves.rollsBack deletes) fun _ => trivial

theorem runIdempotent_only (reserves : Reserves A userId key requestHash) {ttlHours : Int} {work : Prog Dict}
    (h : work.Only A) : (runIdempotent userId key requestHash ttlHours work).Only A := by
  refine Only.bind (tryReserve_only reserves.toFinds) fun reserved => ?_
  cases reserved with
  | some rowId => exact runReserved_only reserves h
  | none =>
    refine Only.bind (resolveExisting_only reserves.toFinds) fun cached => ?_
    cases cached with
    | some cached => trivial
    | none =>
      refine Only.bind (tryReserve_only reserves.toFinds) fun reserved => ?_
      cases reserved with
      | some rowId => exact runReserved_only reserves h
      | none => trivial

end

/-! ### Programs that may be run at any time -/

section
variable {P : Protocol signature}

theorem perform_always {c : Cmd} (free : ∀ g, P.allowed g c) : (perform c).Always P :=
  fun g => ⟨free g, fun _ _ => trivial⟩

theorem unitOfWork_always {tx : Tx} (commits : ∀ g, P.allowed g (.commit tx)) (rollsBack : ∀ g, P.allowed g .rollback)
    (h : p.Always P) : (unitOfWork tx p).Always P := by
  refine h.attempt.bind fun r => ?_
  cases r with
  | ok a => exact (perform_always commits).bind fun _ _ => trivial
  | error e => exact (perform_always rollsBack).bind fun _ _ => trivial

variable {userId : Id} {key requestHash : String} {work : Prog Dict}

theorem runReserved_always (free : Reserves (fun c => ∀ g, P.allowed g c) userId key requestHash) {rowId : Id}
    (h : work.Always P) : (runReserved rowId work).Always P := by
  refine Always.handle (unitOfWork_always (free.commits _) free.rollsBack (h.bind fun body => ?_)) fun e => ?_
  · exact (perform_always (free.marks _ _)).bind fun _ _ => trivial
  · exact (unitOfWork_always (free.commits _) free.rollsBack (perform_always (free.deletes _))).bind fun _ _ => trivial

theorem runIdempotent_always (free : Reserves (fun c => ∀ g, P.allowed g c) userId key requestHash) {ttlHours : Int}
    (h : work.Always P) : (runIdempotent userId key requestHash ttlHours work).Always P := by
  refine Always.bind ((tryReserve_only free.toFinds).always fun g _ free => free g) fun reserved => ?_
  cases reserved with
  | some rowId => exact runReserved_always free h
  | none =>
    refine Always.bind ((resolveExisting_only free.toFinds).always fun g _ free => free g) fun cached => ?_
    cases cached with
    | some cached => exact fun _ => trivial
    | none =>
      refine Always.bind ((tryReserve_only free.toFinds).always fun g _ free => free g) fun reserved => ?_
      cases reserved with
      | some rowId => exact runReserved_always free h
      | none => exact fun _ => trivial

end

theorem perform_touches {c : Cmd} (h : Touches L c) : (perform c).Only (Touches L) := only_perform (S := signature) h

theorem sql_touches {f : TableName} {q : Query f} (member : f ∈ L) :
    (sql f q).Only (Touches L) := perform_touches member

theorem reserves_touches (member : .idempotencyKeys ∈ L) {userId : Id} {key requestHash : String} :
    Reserves (Touches L) userId key requestHash :=
  .of_statement (fun _ => trivial) trivial trivial fun _ => member

/-- The commands of the relay and of the purge are in `A`. -/
structure Relaying (A : Cmd → Prop) : Prop where
  relays : A (.commit .relay)
  purges : A (.commit .purge)
  rollsBack : A .rollback
  now : A .datetimeNow
  statement : ∀ q, (∀ topic key payload, q ≠ .insert topic key payload) → A (.sql .outbox q)
  send : ∀ message, A (.send message)

theorem relayOnce_only (relaying : Relaying A) {platform : Platform} {batchSize : Nat} :
    (relayOnce platform batchSize).Only A := by
  have statement : ∀ q, (∀ topic key payload, q ≠ .insert topic key payload) → (sql .outbox q).Only A :=
    fun q inserts_none => only_perform (S := signature) (relaying.statement q inserts_none)
  have clock : datetimeNow.Only A := only_perform (S := signature) relaying.now
  have locks : ∀ time limit ids, (OutboxRepository.lockEach time limit ids).Only A := by
    intro time limit ids
    induction ids generalizing limit with
    | nil => cases limit <;> trivial
    | cons id ids ih =>
      cases limit with
      | zero => trivial
      | succ limit =>
        refine Only.bind (statement _ (by simp)) fun row => ?_
        cases row with
        | none => exact ih _
        | some row => exact Only.bind (ih _) fun rows => trivial
  refine unitOfWork_only relaying.relays relaying.rollsBack (Only.bind (Only.bind clock fun time => ?_) fun rows => ?_)
  · exact Only.bind (statement _ (by simp)) fun ids => locks _ _ _
  · split
    · trivial
    · refine Only.bind (only_forM fun row => ?_) fun _ => trivial
      refine Only.bind (Only.attempt (only_perform (S := signature) (relaying.send _))) fun r => ?_
      cases r with
      | ok _ => exact Only.bind clock fun time => statement _ (by simp)
      | error e => exact Only.bind clock fun time => statement _ (by simp)

theorem purgeOnce_only (relaying : Relaying A) {retentionHours : Int} : (purgeOnce retentionHours).Only A := by
  have statement : ∀ q, (∀ topic key payload, q ≠ .insert topic key payload) → (sql .outbox q).Only A :=
    fun q inserts_none => only_perform (S := signature) (relaying.statement q inserts_none)
  have deletes : ∀ olderThan ids, (OutboxRepository.purgeEach olderThan ids).Only A := by
    intro olderThan ids
    induction ids with
    | nil => trivial
    | cons id ids ih => exact Only.bind (statement _ (by simp)) fun deleted => Only.bind ih fun rest => trivial
  refine Only.bind (only_perform (S := signature) relaying.now) fun time => ?_
  exact unitOfWork_only relaying.purges relaying.rollsBack (Only.bind (statement _ (by simp)) fun ids => deletes _ _)

end

/-- The tables that a use case has statements on. -/
def Request.tables : Request → List TableName
  | registerUser _ _ => [.users, .wallets, .seedPairs, .refreshTokens]
  | login _ _ => [.users, .refreshTokens]
  | refresh _ => [.refreshTokens]
  | logout _ _ => [.refreshTokens]
  | getBalance _ => [.wallets]
  | listTransactions _ _ _ => [.wallets, .ledgerEntries]
  | listRounds _ _ _ => [.rounds, .bets]
  | currentSeed _ => [.seedPairs]
  | rotateSeed _ => [.seedPairs]
  | placeBet _ _ _ => [.wallets, .seedPairs, .rounds, .bets, .ledgerEntries, .outbox]
  | deposit _ _ _ => [.wallets, .ledgerEntries, .outbox]
  | createRound _ _ _ _ => [.idempotencyKeys, .wallets, .seedPairs, .rounds, .bets, .ledgerEntries, .outbox]
  | createDeposit _ _ _ _ => [.idempotencyKeys, .wallets, .ledgerEntries, .outbox]
  | relayOnce _ => [.outbox]
  | purgeOnce _ => [.outbox]
  | runIdempotent _ _ _ _ _ => []
  | transaction _ => []

/-- The user, the key and the request hash of a request that goes through `run_idempotent`. -/
def Request.call (platform : Platform) : Request → Option (Id × String × String)
  | createRound userId key body _ => some (userId, key, hashRequestBody platform body)
  | createDeposit userId key body _ => some (userId, key, hashRequestBody platform body)
  | runIdempotent userId key requestHash _ _ => some (userId, key, requestHash)
  | _ => none

/-- Every command of a request is in `A` if those of its parts are. -/
theorem code_only {platform : Platform} {settings : Settings} {A : Cmd → Prop} {q : Request}
    (uses : ∀ c, Uses q.tables c → (∀ q', c ≠ .sql .idempotencyKeys q') → A c) (commits : A (.commit .request))
    (rollsBack : A .rollback) (relaying : q.tables = [.outbox] → Relaying A)
    (reserves : ∀ userId key requestHash, q.call platform = some (userId, key, requestHash) →
      Reserves A userId key requestHash)
    (works : ∀ userId key requestHash ttlHours work,
      q = .runIdempotent userId key requestHash ttlHours work → work.Only A)
    (transacts : ∀ work, q = .transaction work → work.Only A) : (q.code platform settings).Only A := by
  have reply : ∀ {α : Type} {p : Prog α} {f : α → Reply}, p.Only A → (f <$> p).Only A := fun h =>
    h.bind fun _ => trivial
  have unit : ∀ {α : Type} {p : Prog α}, p.Only A → (unitOfWork .request p).Only A := unitOfWork_only commits rollsBack
  have only : ∀ {L : List TableName} {c : Cmd}, Uses L c → .idempotencyKeys ∉ L → (∀ f ∈ L, f ∈ q.tables) → A c := by
    intro L c used away sub
    refine uses c (used.mono sub) ?_
    rintro q' rfl
    exact away used
  have body : ∀ {α : Type} {L : List TableName} {p : Prog α}, p.Plain (Uses L) → .idempotencyKeys ∉ L →
      (∀ f ∈ L, f ∈ q.tables) → p.Only A := fun h away sub => h.only.mono fun c used => only used away sub
  have wallet : ∀ {userId : Id}, .wallets ∈ q.tables → (requireWallet platform userId).Only A :=
    fun member => body (L := [.wallets]) (requireWallet_uses List.mem_cons_self) (by decide) (by simpa using member)
  have statement : ∀ {f : TableName} {q' : Query f}, f ∈ q.tables → f ≠ .outbox → f ≠ .idempotencyKeys →
      (sql f q').Only A :=
    fun {f} _ member ne apart => body (L := [f]) (sql_uses List.mem_cons_self ne) (by simpa using apart.symm)
      (by simpa using member)
  cases q with
  | registerUser email password => exact reply (unit (body registerUser_uses (by decide) fun _ => id))
  | login email password => exact reply (unit (body login_uses (by decide) fun _ => id))
  | refresh rawRefreshToken =>
    refine reply (unit (refreshAccessToken_uses.mono fun c used => ?_))
    rcases used with used | rfl
    · exact only used (by decide) fun _ => id
    · exact commits
  | logout userId rawRefreshToken => exact reply (unit (body logout_uses (by decide) fun _ => id))
  | getBalance userId => exact reply (unit (Only.bind (wallet (by simp [Request.tables])) fun _ => trivial))
  | listTransactions userId cursor limit =>
    exact reply (unit (Only.bind (wallet (by simp [Request.tables])) fun _ =>
      statement (by simp [Request.tables]) (by decide) (by decide)))
  | listRounds userId cursor limit =>
    refine reply (unit (Only.bind (statement (by simp [Request.tables]) (by decide) (by decide)) fun rounds =>
      Only.bind ?_ fun bets => trivial))
    unfold RoundRepository.loadBets
    split
    · trivial
    · exact statement (by simp [Request.tables]) (by decide) (by decide)
  | currentSeed userId => exact reply (unit (body getCurrentSeed_uses (by decide) fun _ => id))
  | rotateSeed userId => exact reply (unit (body rotateSeed_uses (by decide) fun _ => id))
  | placeBet userId key bets => exact reply (unit (body placeBet_uses (by decide) fun _ => id))
  | deposit userId key amountMinor => exact reply (unit (body deposit_uses (by decide) fun _ => id))
  | createRound userId key bytes bets =>
    exact reply (runIdempotent_only (reserves _ _ _ rfl)
      (Only.bind (body placeBet_uses (by decide) fun f => List.mem_cons_of_mem _) fun _ => trivial))
  | createDeposit userId key bytes amountMinor =>
    exact reply (runIdempotent_only (reserves _ _ _ rfl)
      (Only.bind (body deposit_uses (by decide) fun f => List.mem_cons_of_mem _) fun _ => trivial))
  | relayOnce batchSize => exact reply (relayOnce_only (relaying rfl))
  | purgeOnce retentionHours => exact reply (purgeOnce_only (relaying rfl))
  | runIdempotent userId key requestHash ttlHours work =>
    exact reply (runIdempotent_only (reserves _ _ _ rfl) (works _ _ _ _ work rfl))
  | transaction work => exact reply (unit (transacts work rfl))

theorem code_touches {platform : Platform} {settings : Settings} {q : Request} (useCase : q.isUseCase = true) :
    (q.code platform settings).Only (Touches q.tables) := by
  refine code_only (fun _ used _ => used.touches) trivial trivial (fun same => ?_)
    (fun userId key requestHash call => ?_) ?_ ?_
  · rw [same]
    exact ⟨trivial, trivial, trivial, trivial, fun _ _ => List.mem_cons_self, fun _ => trivial⟩
  · cases q with
    | createRound | createDeposit => exact reserves_touches List.mem_cons_self
    | runIdempotent => cases useCase
    | _ => cases call
  · rintro userId key requestHash ttlHours work rfl
    cases useCase
  · rintro work rfl
    cases useCase

end TheClub
