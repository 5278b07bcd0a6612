import TheClub.Conduct
import TheClub.ReadCommitted.Waiting

/-!
The order in which transactions take row locks. Tables have levels, and a transaction asks for a
lock of one level only while all it holds is below; it may change the wallet it has locked again,
and after it has revealed a seed pair all it may lock is the pair that replaces it.
-/

namespace TheClub
open ReadCommitted Program

/-- What a statement needs before it can write. -/
def Query.wants (platform : Platform) : (f : TableName) → Query f → Wants Id (Row f)
  | .users, .create email _ => .value fun u => platform.citext u.email = platform.citext email
  | .users, .setStatus id _ => .row id fun _ => true
  | .wallets, .add userId _ => .value fun other => other.userId = userId
  | .wallets, .debit walletId amount => .row walletId fun w => amount ≤ w.balanceMinor
  | .wallets, .credit walletId _ => .row walletId fun _ => true
  | .seedPairs, .createActive userId _ _ _ => .value (SeedPairQuery.activeOf userId)
  | .seedPairs, .consumeNonce seedPairId => .row seedPairId fun _ => true
  | .seedPairs, .revealAndDeactivate seedPairId _ => .row seedPairId fun _ => true
  | .rounds, .insert _ seedPairId nonce _ _ => .value fun r => r.seedPairId = seedPairId ∧ r.nonce = nonce
  | .outbox, .markPublished id _ => .row id fun _ => true
  | .outbox, .markFailed id _ _ _ => .row id fun _ => true
  | .outbox, .purgeRow id olderThan => .row id (OutboxQuery.purgeable olderThan)
  | .idempotencyKeys, .createPending userId key _ _ => .value (IdempotencyQuery.ofKey userId key)
  | .idempotencyKeys, .markCompleted rowId _ => .row rowId fun _ => true
  | .idempotencyKeys, .delete rowId => .row rowId fun _ => true
  | .refreshTokens, .create _ _ tokenHash _ => .value fun token => token.tokenHash = tokenHash
  | .refreshTokens, .revoke tokenId _ => .row tokenId fun _ => true
  | .refreshTokens, .revokeMatched tokenId familyId _ => .row tokenId (RefreshTokenQuery.live familyId)
  | _, _ => .nothing

section
variable {platform : Platform} {ctx : Context} {i : Nat}

theorem insertRow_waits {α : Type} {t : Table Id α} {constraint : String} {p : α → Bool} {a : α}
    (fresh : ctx.id ∉ t.keys)
    (waits : insertRow ctx i t constraint p a = .waits) : ∃ j, t.Blocks j i (.value p) := by
  unfold insertRow at waits
  rw [dif_pos fresh] at waits
  split at waits
  · cases waits
  · exact Table.insertUnique_waits.mp ‹_›
  · cases waits

theorem changeRow_waits {α : Type} {t : Table Id α} {k : Id} {p : α → Bool} {f : α → Option α}
    (waits : changeRow i t k p f = .waits) : ∃ j, t.Blocks j i (.row k p) := by
  unfold changeRow at waits
  split at waits
  · cases waits
  · exact Table.updateRow_waits.mp ‹_›
  · cases waits

theorem WalletQuery.move_waits {t : Table Id WalletRow} {k : Id} {p : WalletRow → Bool} {amount : Int}
    (waits : WalletQuery.move i t k p amount = .waits) : ∃ j, t.Blocks j i (.row k p) := by
  unfold WalletQuery.move at waits
  split at waits
  · cases waits
  · exact Table.updateRow_waits.mp ‹_›
  · split at waits <;> cases waits

/-- Inserts without a unique value never wait. -/
theorem insertRow_free {α : Type} {t : Table Id α} {constraint : String} {a : α} (fresh : ctx.id ∉ t.keys) :
    insertRow ctx i t constraint (fun _ => false) a ≠ .waits := by
  intro waits
  obtain ⟨j, -, k, v, -, conflict⟩ := insertRow_waits fresh waits
  simp at conflict

/-- A statement that has to wait, waits for a transaction that has what it wants. -/
theorem Query.exec_waits {f : TableName} {q : Query f} {t : Table Id (Row f)} (fresh : ctx.id ∉ t.keys)
    (sorted : ∀ now, (⟨f, q⟩ : Σ f, Query f) ≠ ⟨.outbox, .readyIds now⟩)
    (waits : Query.exec platform ctx i f q t = .waits) : ∃ j, t.Blocks j i (Query.wants platform f q) := by
  cases f with
  | users =>
    cases q with
    | create email passwordHash => exact insertRow_waits fresh waits
    | setStatus id status => exact changeRow_waits waits
    | _ => cases waits
  | wallets =>
    cases q with
    | getByUserId userId => cases waits
    | add userId balanceMinor =>
      simp only [Query.exec, WalletQuery.exec] at waits
      split at waits
      · cases waits
      · split at waits
        · cases waits
        · cases waits
        · exact insertRow_waits fresh ‹_›
    | debit walletId amount => exact WalletQuery.move_waits waits
    | credit walletId amount => exact WalletQuery.move_waits waits
  | ledgerEntries =>
    cases q with
    | append walletId amountMinor balanceAfterMinor kind refType refId =>
      simp only [Query.exec, LedgerQuery.exec] at waits
      split at waits
      · cases waits
      · split at waits
        · cases waits
        · exact (insertRow_free fresh waits).elim
    | listByWallet walletId cursor limit => cases waits
  | seedPairs =>
    cases q with
    | getActiveByUserId userId => cases waits
    | createActive userId serverSeed serverSeedHash clientSeed => exact insertRow_waits fresh waits
    | consumeNonce seedPairId =>
      simp only [Query.exec, SeedPairQuery.exec] at waits
      split at waits
      · cases waits
      · exact Table.updateRow_waits.mp ‹_›
      · split at waits <;> cases waits
    | revealAndDeactivate seedPairId revealedAt => exact changeRow_waits waits
  | rounds =>
    cases q with
    | insert userId seedPairId nonce outcome settledAt =>
      simp only [Query.exec, RoundQuery.exec] at waits
      split at waits
      · cases waits
      · split at waits
        · cases waits
        · exact insertRow_waits fresh waits
    | listByUser userId cursor limit => cases waits
  | bets =>
    cases q with
    | insert roundId betType selection stakeMinor payoutMinor status =>
      simp only [Query.exec, BetQuery.exec] at waits
      split at waits
      · cases waits
      · split at waits
        · cases waits
        · split at waits
          · cases waits
          · exact (insertRow_free fresh waits).elim
    | selectIn roundIds => cases waits
  | outbox =>
    cases q with
    | insert topic key payload => exact (insertRow_free fresh waits).elim
    | readyIds now => exact (sorted now rfl).elim
    | lockReady id now =>
      simp only [Query.exec, OutboxQuery.exec] at waits
      split at waits <;> cases waits
    | markPublished id publishedAt => exact changeRow_waits waits
    | markFailed id attempts lastError nextAttemptAt =>
      simp only [Query.exec, OutboxQuery.exec] at waits
      split at waits
      · cases waits
      · exact changeRow_waits waits
    | purgeableIds olderThan => cases waits
    | purgeRow id olderThan =>
      simp only [Query.exec, OutboxQuery.exec] at waits
      split at waits
      · cases waits
      · exact Table.updateRow_waits.mp ‹_›
      · cases waits
  | idempotencyKeys =>
    cases q with
    | get userId key => cases waits
    | createPending userId key requestHash expiresAt => exact insertRow_waits fresh waits
    | markCompleted rowId responseBody => exact changeRow_waits waits
    | delete rowId => exact changeRow_waits waits
  | refreshTokens =>
    cases q with
    | getByHash tokenHash => cases waits
    | create userId familyId tokenHash expiresAt => exact insertRow_waits fresh waits
    | revoke tokenId revokedAt => exact changeRow_waits waits
    | matchFamily familyId => cases waits
    | revokeMatched tokenId familyId revokedAt => exact changeRow_waits waits

end

/-- The level of the locks that have been taken, the wallet that has been locked, and the user and
id of the active pair that has been looked up last. -/
structure Locked where
  level : Nat := 0
  wallet : Option Id := none
  seen : Option (Id × Id) := none

/-- The lowest level of a lock on a row of the table. Seed pairs are revealed at level 3, counted at
level 4 and created at level 5. -/
def TableName.level : TableName → Nat
  | .users => 1
  | .wallets => 2
  | .seedPairs => 3
  | .rounds => 6
  | .refreshTokens => 6
  | .idempotencyKeys => 7
  | _ => 0

namespace Locked

/-- All locks are below level `n`, and no pair has been revealed that has not been replaced. -/
def Below (g : Locked) (n : Nat) : Prop := g.level < n ∧ g.level ≠ 3

def allowed (g : Locked) : Cmd → Prop
  | .sql .users (.create _ _) => g.level < 1
  | .sql .users (.setStatus _ _) => False
  | .sql .wallets (.add _ _) => g.level < 2
  | .sql .wallets (.debit _ _) => g.level < 2
  | .sql .wallets (.credit walletId _) => g.level < 2 ∨ g.wallet = some walletId
  | .sql .seedPairs (.getActiveByUserId _) => g.level < 3
  | .sql .seedPairs (.consumeNonce _) => g.level < 3
  | .sql .seedPairs (.revealAndDeactivate seedPairId _) => g.level < 3 ∧ ∃ userId, g.seen = some (userId, seedPairId)
  | .sql .seedPairs (.createActive userId _ _ _) => g.level < 3 ∨ g.level = 3 ∧ ∃ k, g.seen = some (userId, k)
  | .sql .rounds (.insert _ _ _ _ _) => g.Below 6
  | .sql .outbox (.insert _ _ _) => True
  | .sql .outbox _ => False
  | .sql .idempotencyKeys (.get _ _) => True
  | .sql .idempotencyKeys _ => g.Below 7
  | .sql .refreshTokens (.getByHash _) => True
  | .sql .refreshTokens (.create _ _ _ _) => g.Below 6
  | .sql .refreshTokens _ => False
  | _ => True

def after (g : Locked) : (c : Cmd) → Except Error c.Ret → Locked
  | .sql .users (.create _ _), .ok _ => { g with level := 1 }
  | .sql .wallets (.add _ _), .ok _ => { g with level := 2 }
  | .sql .wallets (.debit walletId _), .ok (some _) => { g with level := 2, wallet := some walletId }
  | .sql .wallets (.credit walletId _), .ok (some _) => { g with level := max g.level 2, wallet := some walletId }
  | .sql .seedPairs (.getActiveByUserId userId), .ok [pair] => { g with seen := some (userId, pair.id) }
  | .sql .seedPairs (.revealAndDeactivate _ _), .ok _ => { g with level := 3 }
  | .sql .seedPairs (.consumeNonce _), .ok _ => { g with level := 4 }
  | .sql .seedPairs (.createActive _ _ _ _), .ok _ => { g with level := 5 }
  | .sql .rounds (.insert _ _ _ _ _), .ok _ => { g with level := 6 }
  | .sql .refreshTokens (.create _ _ _ _), .ok _ => { g with level := 6 }
  | .sql .idempotencyKeys (.createPending _ _ _ _), .ok _ => { g with level := 7 }
  | .sql .idempotencyKeys (.markCompleted _ _), .ok _ => { g with level := 7 }
  | .sql .idempotencyKeys (.delete _), .ok _ => { g with level := 7 }
  | _, _ => g

end Locked

def lockOrder (platform : Platform) : Protocol signature where
  Ghost := Locked
  start := {}
  allowed := Locked.allowed
  possible := Answer platform
  next := fun g c r => if fate c r = .isOpen then g.after c r else {}
  died := fun _ => {}

/-- The commands that ask for no lock that another transaction could have. -/
def Lockless : Cmd → Prop
  | .sql .users (.create _ _) => False
  | .sql .users (.setStatus _ _) => False
  | .sql .wallets (.getByUserId _) => True
  | .sql .wallets _ => False
  | .sql .seedPairs _ => False
  | .sql .rounds (.insert _ _ _ _ _) => False
  | .sql .outbox (.insert _ _ _) => True
  | .sql .outbox _ => False
  | .sql .idempotencyKeys (.get _ _) => True
  | .sql .idempotencyKeys _ => False
  | .sql .refreshTokens (.getByHash _) => True
  | .sql .refreshTokens _ => False
  | .commit _ => False
  | .rollback => False
  | _ => True

variable {platform : Platform} {settings : Settings}

theorem lockOrder_transactional : Transactional platform (lockOrder platform) Lockless fun _ => True where
  possible := rfl
  off g c quiet := by
    cases c with
    | sql f q => cases f <;> cases q <;> first | exact quiet.elim | exact ⟨trivial, fun a => rfl⟩
    | commit tx => exact quiet.elim
    | rollback => exact quiet.elim
    | _ => exact ⟨trivial, fun a => rfl⟩
  ends g c r h := if_neg h
  stays g message e := rfl
  commit g tx ready := trivial
  rollback g := trivial
  readyStart := trivial

section
variable {α : Type} {p : Prog α} {g : Locked}

/-- The tables whose rows other transactions may have locked or may conflict with. -/
def contended : List TableName := [.users, .wallets, .seedPairs, .rounds, .idempotencyKeys, .refreshTokens]

theorem uses_lockless {L : List TableName} (apart : ∀ f ∈ contended, f ∉ L) {c : Cmd} (h : Uses L c) : Lockless c := by
  cases c with
  | sql f q =>
    cases f with
    | users => exact (apart _ (by decide) h).elim
    | wallets => exact (apart _ (by decide) h).elim
    | seedPairs => exact (apart _ (by decide) h).elim
    | rounds => exact (apart _ (by decide) h).elim
    | idempotencyKeys => exact (apart _ (by decide) h).elim
    | refreshTokens => exact (apart _ (by decide) h).elim
    | outbox => cases q <;> trivial
    | _ => trivial
  | commit tx => exact h.elim
  | rollback => exact h.elim
  | _ => trivial

theorem looks_lockless {c : Cmd} (h : Looks c) : Lockless c := by
  unfold Looks at h
  split at h <;> trivial

theorem keepsOrder {A : Cmd → Prop} (h : p.Plain A) (quiet : ∀ c, A c → Lockless c) :
    p.Follows (lockOrder platform) (Then fun g' _ => g' = g) g :=
  h.follows fun c member => lockOrder_transactional.off g c (quiet c member)

theorem uses_keepsOrder {L : List TableName} (h : p.Plain (Uses L)) (apart : ∀ f ∈ contended, f ∉ L) :
    p.Follows (lockOrder platform) (Then fun g' _ => g' = g) g := keepsOrder h fun _ => uses_lockless apart

theorem perform_keepsOrder {c : Cmd} (quiet : Lockless c) :
    (perform c).Follows (lockOrder platform) (Then fun g' _ => g' = g) g :=
  keepsOrder (plain_perform (S := signature) quiet) fun _ => id

theorem requireActiveSeedPair_order {userId : Id} (low : g.level < 3) :
    (requireActiveSeedPair platform userId).Follows (lockOrder platform)
      (Then fun g' pair => g' = { g with seen := some (userId, pair.id) }) g := by
  refine ⟨low, fun r _ => ?_⟩
  rcases r with e | (_ | ⟨pair, _ | ⟨_, _⟩⟩)
  · trivial
  · trivial
  · rfl
  · trivial

theorem debit_order {walletId : Id} {amount : Money} (low : g.level < 2) :
    (WalletRepository.debit platform walletId amount).Follows (lockOrder platform)
      (Then fun g' _ => g' = { g with level := 2, wallet := some walletId }) g := by
  refine ⟨low, fun r _ => ?_⟩
  rcases r with e | (_ | balance)
  · trivial
  · trivial
  · rfl

theorem credit_order {walletId : Id} {amount : Money} (low : g.level < 2 ∨ g.wallet = some walletId) :
    (WalletRepository.credit walletId amount).Follows (lockOrder platform)
      (Then fun g' _ => g' = { g with level := max g.level 2, wallet := some walletId }) g := by
  refine ⟨low, fun r _ => ?_⟩
  rcases r with e | (_ | balance)
  · trivial
  · trivial
  · rfl

theorem consumeNonce_order {seedPairId : Id} (low : g.level < 3) : (SeedPairRepository.consumeNonce seedPairId).Follows
    (lockOrder platform) (Then fun g' _ => g' = { g with level := 4 }) g := by
  refine ⟨low, fun r _ => ?_⟩
  rcases r with e | (_ | nonce)
  · trivial
  · trivial
  · rfl

theorem createActive_order {userId : Id} {serverSeed : Bytes} {serverSeedHash clientSeed : String}
    (low : g.level < 3 ∨ g.level = 3 ∧ ∃ k, g.seen = some (userId, k)) :
    (SeedPairRepository.createActive userId serverSeed serverSeedHash clientSeed).Follows (lockOrder platform)
      (Then fun g' _ => g' = { g with level := 5 }) g := by
  refine ⟨low, fun r _ => ?_⟩
  cases r <;> trivial

theorem createSettledRound_order {userId seedPairId : Id} {nonce : Nat} {outcome : Int} {bets : List ResolvedBetInput}
    (low : g.Below 6) : (RoundRepository.createSettledRound userId seedPairId nonce outcome bets).Follows
      (lockOrder platform) (Then fun g' _ => g' = { g with level := 6 }) g := by
  refine (perform_keepsOrder (c := .datetimeNow) trivial).seq fun now => ?_
  refine ⟨low, fun r _ => ?_⟩
  cases r with
  | error e => trivial
  | ok round =>
    have each : ∀ bet ∈ bets, (RoundRepository.insertBet round.id bet).Follows (lockOrder platform)
        (Then fun g' _ => g' = { g with level := 6 }) { g with level := 6 } :=
      fun bet _ => perform_keepsOrder trivial
    exact (follows_then_mapM each).seq fun rows => rfl

theorem issueTokens_order {userId familyId : Id} (low : g.Below 6) :
    (issueTokens platform settings userId familyId).Follows (lockOrder platform)
      (Then fun g' _ => g' = { g with level := 6 }) g := by
  refine (uses_keepsOrder (L := []) ?_ (by decide)).seq fun accessToken => ?_
  · exact Plain.bind datetimeNow_uses fun _ => trivial
  refine (perform_keepsOrder (c := .tokenUrlsafe _) trivial).seq fun rawRefreshToken => ?_
  refine (perform_keepsOrder (c := .datetimeNow) trivial).seq fun now => ?_
  refine ⟨low, fun r _ => ?_⟩
  cases r <;> trivial

end

/-! ### The requests follow it -/

section
variable {userId : Id} {key requestHash : String}

theorem settleRound_order {wallet : Wallet} {pair : SeedPair} {nonce n : Nat} {totalStake balanceAfterStake : Int}
    {resolved : List Roulette.ResolvedBet} {g : Locked} (level : g.level = 4) (own : g.wallet = some wallet.id) :
    (settleRound platform settings userId key wallet pair nonce totalStake balanceAfterStake n resolved).Follows
      (lockOrder platform) (Then fun g _ => g.Below 7) g := by
  have again : ({ g with level := max g.level 2, wallet := some wallet.id } : Locked) = g := by
    obtain ⟨_, _, _⟩ := g
    cases level
    cases own
    rfl
  have credits : ∀ totalPayout, (creditPayout wallet.id totalPayout).Follows (lockOrder platform)
      (Then fun g' _ => g' = g) g := by
    intro totalPayout
    unfold creditPayout
    split
    · exact (credit_order (Or.inr own)).seq fun balance => again
    · rfl
  refine (credits _).seq fun balanceAfterPayout => ?_
  refine (createSettledRound_order ⟨by omega, by omega⟩).seq fun round => ?_
  refine (uses_keepsOrder (append_uses (L := [.ledgerEntries]) (by decide)) (by decide)).seq fun stakeEntry => ?_
  refine (uses_keepsOrder (appendPayout_uses (L := [.ledgerEntries]) (by decide)) (by decide)).seq
    fun payoutEntryId => ?_
  refine (uses_keepsOrder (enqueueRoundEvents_uses (L := [.outbox]) (by decide)) (by decide)).seq fun _ => ?_
  exact ⟨show 6 < 7 by decide, show 6 ≠ 3 by decide⟩

theorem placeBet_order {betRequests : List BetRequest} : (placeBet platform settings userId key betRequests).Follows
    (lockOrder platform) (Then fun g _ => g.Below 7) {} := by
  refine (uses_keepsOrder (L := []) lift_uses (by decide)).seq fun _ => ?_
  refine (keepsOrder requireWallet_looks fun _ => looks_lockless).seq fun wallet => ?_
  refine (debit_order (by decide)).seq fun balanceAfterStake => ?_
  refine (requireActiveSeedPair_order (show 2 < 3 by decide)).seq fun pair => ?_
  refine (consumeNonce_order (show 2 < 3 by decide)).seq fun nonce => ?_
  refine (perform_keepsOrder (c := .spin _) trivial).seq fun outcome => ?_
  refine (uses_keepsOrder (L := []) lift_uses (by decide)).seq fun resolved => ?_
  exact settleRound_order rfl rfl

theorem deposit_order {amountMinor : Int} : (deposit platform settings userId key amountMinor).Follows
    (lockOrder platform) (Then fun g _ => g.Below 7) {} := by
  refine (keepsOrder requireWallet_looks fun _ => looks_lockless).seq fun wallet => ?_
  refine (credit_order (Or.inl (by decide))).seq fun balanceAfter => ?_
  refine (uses_keepsOrder (append_uses (L := [.ledgerEntries]) (by decide)) (by decide)).seq fun entry => ?_
  refine (uses_keepsOrder (newEnvelope_uses (L := [])) (by decide)).seq fun envelope => ?_
  refine (uses_keepsOrder (enqueueEvent_uses (L := [.outbox]) (by decide)) (by decide)).seq fun _ => ?_
  exact ⟨show 2 < 7 by decide, show 2 ≠ 3 by decide⟩

theorem revealAndDeactivate_order {seedPairId : Id} {g : Locked} (low : g.level < 3)
    (seen : g.seen = some (userId, seedPairId)) : (SeedPairRepository.revealAndDeactivate seedPairId).Follows
      (lockOrder platform) (Then fun g' _ => g' = { g with level := 3 }) g := by
  refine (perform_keepsOrder (c := .datetimeNow) trivial).seq fun now => ?_
  refine ⟨⟨low, userId, seen⟩, fun r _ => ?_⟩
  cases r <;> trivial

theorem rotateSeed_order : (rotateSeed platform userId).Follows (lockOrder platform) (Then fun _ _ => True) {} := by
  refine (requireActiveSeedPair_order (by decide)).seq fun current => ?_
  refine (revealAndDeactivate_order (show 0 < 3 by decide) rfl).seq fun _ => ?_
  refine (perform_keepsOrder (c := .tokenBytes _) trivial).seq fun newSeed => ?_
  refine (perform_keepsOrder (c := .tokenHex _) trivial).seq fun clientSeed => ?_
  exact (createActive_order (Or.inr ⟨rfl, current.id, rfl⟩)).seq fun newPair => trivial

theorem getCurrentSeed_order :
    (getCurrentSeed platform userId).Follows (lockOrder platform) (Then fun _ _ => True) {} :=
  (requireActiveSeedPair_order (by decide)).seq fun _ => trivial

theorem getByEmail_order {email : String} {g : Locked} : (UserRepository.getByEmail email).Follows (lockOrder platform)
    (Then fun g' _ => g' = g) g := by
  refine keepsOrder (A := Lockless) (Plain.bind (plain_perform (S := signature) trivial) fun rows => ?_) fun _ => id
  unfold scalarOneOrNone
  split <;> trivial

theorem registerUser_order {email password : String} : (registerUser platform settings email password).Follows
    (lockOrder platform) (Then fun _ _ => True) {} := by
  refine getByEmail_order.seq fun found => ?_
  cases found with
  | some user => trivial
  | none =>
    refine (perform_keepsOrder (c := .hashPassword _) trivial).seq fun passwordHash => ?_
    refine ⟨show 0 < 1 by decide, fun r _ => ?_⟩
    rcases r with e | user
    · trivial
    refine (perform_keepsOrder (c := .tokenBytes _) trivial).seq fun serverSeed => ?_
    refine (perform_keepsOrder (c := .tokenHex _) trivial).seq fun clientSeed => ?_
    refine ⟨show 1 < 2 by decide, fun r _ => ?_⟩
    rcases r with e | wallet
    · trivial
    refine (createActive_order (Or.inl (show 2 < 3 by decide))).seq fun pair => ?_
    refine (perform_keepsOrder (c := .uuid4) trivial).seq fun familyId => ?_
    exact (issueTokens_order ⟨show 5 < 6 by decide, show 5 ≠ 3 by decide⟩).seq fun tokens => trivial

theorem login_order {email password : String} : (login platform settings email password).Follows (lockOrder platform)
    (Then fun _ _ => True) {} := by
  refine getByEmail_order.seq fun found => ?_
  cases found with
  | none => trivial
  | some user =>
    dsimp only
    split
    · trivial
    · split
      · trivial
      · refine (perform_keepsOrder (c := .uuid4) trivial).seq fun familyId => ?_
        exact (issueTokens_order ⟨show 0 < 6 by decide, show 0 ≠ 3 by decide⟩).seq fun tokens => trivial

end

/-! ### run_idempotent -/

section
variable {userId : Id} {key requestHash : String} {ttlHours : Int}

theorem reserve_order : (tryReserve userId key requestHash ttlHours).Follows (lockOrder platform)
    (fun g _ => g = ({} : Locked)) {} := by
  have reserves : (do
      let now ← datetimeNow
      let row ← IdempotencyKeyRepository.createPending userId key requestHash (now + hours ttlHours)
      return row.id : Prog Id).Follows (lockOrder platform) (Then fun _ _ => True) {} := by
    refine (perform_keepsOrder (c := .datetimeNow) trivial).seq fun now => ?_
    refine ⟨⟨show 0 < 7 by decide, show 0 ≠ 3 by decide⟩, fun r _ => ?_⟩
    cases r <;> trivial
  refine follows_handle.mpr (follows_bind.mpr
    ((lockOrder_transactional.unitOfWork reserves).mono fun g r cleared => ?_))
  cases r with
  | ok rowId => exact cleared
  | error e => cases e <;> exact cleared

theorem resolveExisting_order : (resolveExisting userId key requestHash).Follows (lockOrder platform)
    (fun g _ => g = ({} : Locked)) {} := by
  refine follows_bind.mpr (follows_attempt.mpr (Follows.mono (Q := fun _ _ => True) ?_ fun g r _ => ?_))
  · refine ⟨trivial, fun r _ => ?_⟩
    rcases r with e | (_ | ⟨row, _ | ⟨_, _⟩⟩)
    · trivial
    · trivial
    · change Follows (lockOrder platform) _ (if row.requestHash ≠ requestHash then _ else _) ({} : Locked)
      split
      · trivial
      split
      · trivial
      refine ⟨trivial, fun r answer => ?_⟩
      rcases r with e | now
      · trivial
      change Follows (lockOrder platform) _ (if _ then _ else _) ({} : Locked)
      split
      · trivial
      refine ⟨⟨show 0 < 7 by decide, show 0 ≠ 3 by decide⟩, fun r _ => ?_⟩
      rcases r with e | _
      · trivial
      exact ⟨trivial, fun r _ => by cases r <;> trivial⟩
    · trivial
  · refine ⟨trivial, fun answer _ => ?_⟩
    have cleared := (lockOrder_transactional : Transactional platform _ _ _).ends g .rollback answer (by simp [fate])
    cases answer <;> exact cleared

theorem runReserved_order {rowId : Id} {work : Prog Dict}
    (works : work.Follows (lockOrder platform) (Then fun g _ => g.Below 7) {}) :
    (runReserved rowId work).Follows (lockOrder platform) (fun g _ => g = ({} : Locked)) {} := by
  refine follows_handle.mpr ((lockOrder_transactional.unitOfWork (g := ({} : Locked)) ?_).mono fun g r cleared => ?_)
  · refine follows_then_bind.mpr (works.then_mono fun g body below => ?_)
    exact ⟨below, fun r _ => by cases r <;> trivial⟩
  · cases r with
    | ok body => exact cleared
    | error e =>
      subst cleared
      refine follows_bind.mpr ((lockOrder_transactional.unitOfWork ?_).mono fun g r cleared => ?_)
      · exact ⟨⟨show 0 < 7 by decide, show 0 ≠ 3 by decide⟩, fun r _ => by cases r <;> trivial⟩
      · cases r <;> exact cleared

theorem runIdempotent_order {work : Prog Dict}
    (works : work.Follows (lockOrder platform) (Then fun g _ => g.Below 7) {}) :
    (runIdempotent userId key requestHash ttlHours work).Follows (lockOrder platform)
    (fun g _ => g = ({} : Locked)) {} := by
  refine follows_bind.mpr (reserve_order.mono fun g r cleared => ?_)
  subst cleared
  rcases r with e | (_ | rowId)
  · rfl
  · refine follows_bind.mpr (resolveExisting_order.mono fun g r cleared => ?_)
    subst cleared
    rcases r with e | (_ | cached)
    · rfl
    · refine follows_bind.mpr (reserve_order.mono fun g r cleared => ?_)
      subst cleared
      rcases r with e | (_ | rowId)
      · rfl
      · rfl
      · exact runReserved_order works
    · rfl
  · exact runReserved_order works

end

/-! ### Runs -/

/-- Registrations, logins, bets, deposits, seeds and listings: the requests that lock rows of the
game, without the background jobs and the rotation of refresh tokens. -/
def Request.isGame : Request → Bool
  | registerUser _ _ => true
  | login _ _ => true
  | getBalance _ => true
  | listTransactions _ _ _ => true
  | listRounds _ _ _ => true
  | currentSeed _ => true
  | rotateSeed _ => true
  | placeBet _ _ _ => true
  | deposit _ _ _ => true
  | createRound _ _ _ _ => true
  | createDeposit _ _ _ _ => true
  | _ => false

def isGame (_ : World (application platform settings)) : Label (application platform settings) → Bool
  | .start _ q => Request.isGame q
  | _ => true

/-- The runs of these requests, in any order of steps, with any failures. -/
abbrev GameRequests (w : World (application platform settings)) (l : Label (application platform settings)) : Prop :=
  isGame w l = true

theorem gameRequests_useCases (w : World (application platform settings)) (l : Label (application platform settings))
    (game : GameRequests w l) : UseCases w l := by
  cases l with
  | start i q => cases q <;> first | rfl | cases game
  | _ => rfl

theorem code_order {q : Request} (game : q.isGame = true) :
    (q.code platform settings).Follows (lockOrder platform) (fun g _ => g = ({} : Locked)) {} := by
  have reply : ∀ {α : Type} {p : Prog α} {f : α → Reply}, p.Follows (lockOrder platform)
    (fun g _ => g = ({} : Locked)) {} →
      (f <$> p).Follows (lockOrder platform) (fun g _ => g = ({} : Locked)) {} := by
    intro α p f h
    refine follows_bind.mpr (h.mono fun g r cleared => ?_)
    cases r <;> exact cleared
  have unit : ∀ {α : Type} {p : Prog α}, p.Follows (lockOrder platform) (Then fun _ _ => True) {} →
      (unitOfWork .request p).Follows (lockOrder platform) (fun g _ => g = ({} : Locked)) {} :=
    fun h => lockOrder_transactional.unitOfWork h
  have look : ∀ {α : Type} {p : Prog α}, p.Plain Looks → p.Follows (lockOrder platform) (Then fun _ _ => True) {} :=
    fun h => (keepsOrder h fun _ => looks_lockless).then_mono fun _ _ _ => trivial
  have work : ∀ {α : Type} {p : Prog α} {f : α → Dict}, p.Follows (lockOrder platform) (Then fun g _ => g.Below 7) {} →
      (f <$> p).Follows (lockOrder platform) (Then fun g _ => g.Below 7) {} :=
    fun h => follows_then_bind.mpr (h.then_mono fun g a below => below)
  cases q with
  | registerUser email password => exact reply (unit registerUser_order)
  | login email password => exact reply (unit login_order)
  | getBalance userId => exact reply (unit (look getBalance_looks))
  | listTransactions userId cursor limit => exact reply (unit (look listTransactions_looks))
  | listRounds userId cursor limit => exact reply (unit (look listRounds_looks))
  | currentSeed userId => exact reply (unit getCurrentSeed_order)
  | rotateSeed userId => exact reply (unit rotateSeed_order)
  | placeBet userId key bets => exact reply (unit (placeBet_order.then_mono fun _ _ _ => trivial))
  | deposit userId key amountMinor => exact reply (unit (deposit_order.then_mono fun _ _ _ => trivial))
  | createRound userId key body bets => exact reply (runIdempotent_order (work placeBet_order))
  | createDeposit userId key body amountMinor => exact reply (runIdempotent_order (work deposit_order))
  | _ => cases game

theorem game_ordered : Disciplined (Y := application platform settings) GameRequests (lockOrder platform)
    fun _ g _ => g = ({} : Locked) where
  code _ _ _ start := code_order start
  answers _ _ _ _ _ _ ran := exec_answer ran

end TheClub
