import TheClub.ReadCommitted.Machine
import TheClub.Domain.Roulette.Engine
import TheClub.Infra.Queries.Accounts
import TheClub.Infra.Queries.Game
import TheClub.Infra.Queries.Delivery

/-!
The database, the Kafka log and the commands of the processes that use them. A statement that
fails aborts its transaction at once, and a lost connection takes its transaction with it,
except that a COMMIT may have been applied before its acknowledgement was lost.
-/

namespace TheClub
open ReadCommitted

inductive TableName where
  | users | wallets | ledgerEntries | seedPairs | rounds | bets | outbox | idempotencyKeys | refreshTokens
  deriving DecidableEq, Repr

abbrev Row : TableName → Type
  | .users => User
  | .wallets => WalletRow
  | .ledgerEntries => LedgerEntry
  | .seedPairs => SeedPair
  | .rounds => Round
  | .bets => Bet
  | .outbox => OutboxEvent
  | .idempotencyKeys => IdempotencyKey
  | .refreshTokens => RefreshToken

abbrev Query : TableName → Type
  | .users => UserQuery
  | .wallets => WalletQuery
  | .ledgerEntries => LedgerQuery
  | .seedPairs => SeedPairQuery
  | .rounds => RoundQuery
  | .bets => BetQuery
  | .outbox => OutboxQuery
  | .idempotencyKeys => IdempotencyQuery
  | .refreshTokens => RefreshTokenQuery

abbrev Query.Ret : (f : TableName) → Query f → Type
  | .users, q => UserQuery.Ret q
  | .wallets, q => WalletQuery.Ret q
  | .ledgerEntries, q => LedgerQuery.Ret q
  | .seedPairs, q => SeedPairQuery.Ret q
  | .rounds, q => RoundQuery.Ret q
  | .bets, q => BetQuery.Ret q
  | .outbox, q => OutboxQuery.Ret q
  | .idempotencyKeys, q => IdempotencyQuery.Ret q
  | .refreshTokens, q => RefreshTokenQuery.Ret q

def Query.exec (platform : Platform) (ctx : Context) (i : Nat) :
    (f : TableName) → (q : Query f) → Table Id (Row f) → Outcome Error (Query.Ret f q) (Table Id (Row f))
  | .users, q, t => UserQuery.exec platform ctx i t q
  | .wallets, q, t => WalletQuery.exec ctx i t q
  | .ledgerEntries, q, t => LedgerQuery.exec ctx i t q
  | .seedPairs, q, t => SeedPairQuery.exec ctx i t q
  | .rounds, q, t => RoundQuery.exec ctx i t q
  | .bets, q, t => BetQuery.exec ctx i t q
  | .outbox, q, t => OutboxQuery.exec ctx i t q
  | .idempotencyKeys, q, t => IdempotencyQuery.exec ctx i t q
  | .refreshTokens, q, t => RefreshTokenQuery.exec ctx i t q

structure Message where
  topic : String
  key : Bytes
  value : Bytes
  deriving DecidableEq, Repr

structure Database where
  tables : (f : TableName) → Table Id (Row f)
  /-- The latest time any process has seen. -/
  clock : Time
  /-- When the open transaction of each process began. -/
  began : Nat → Option Time
  /-- The processes whose transaction a failed statement has aborted. -/
  aborted : Nat → Bool
  kafka : List Message
  issued : List Id

namespace Database

def empty : Database where
  tables := fun _ => Table.empty
  clock := 0
  began := fun _ => none
  aborted := fun _ => false
  kafka := []
  issued := []

/-- The end of the transaction of process `i`, if `fate` is one. -/
def settle (i : Nat) (fate : Fate) (s : Database) : Database :=
  match fate with
  | .isOpen => s
  | .applied => { s with
      tables := fun f => (s.tables f).commit i
      began := Function.update s.began i none
      aborted := Function.update s.aborted i false }
  | .undone => { s with
      tables := fun f => (s.tables f).rollback i
      began := Function.update s.began i none
      aborted := Function.update s.aborted i false }

/-- A statement of process `i` has failed. -/
def abort (i : Nat) (s : Database) : Database :=
  { s.settle i .undone with aborted := Function.update s.aborted i true }

end Database

/-- Which transaction a COMMIT ends; the database does not see it. -/
inductive Tx where
  | request | reserve | reclaim | work | cleanup | relay | purge
  deriving DecidableEq, Repr

inductive Cmd where
  | sql (f : TableName) (q : Query f)
  | commit (tx : Tx)
  | rollback
  | datetimeNow
  | uuid4
  | tokenBytes (n : Nat)
  | tokenHex (n : Nat)
  | tokenUrlsafe (n : Nat)
  | hashPassword (password : String)
  /-- `spin(seed)`, whose loop has no bound. -/
  | spin (seed : SeedMaterial)
  | send (message : Message)

abbrev Cmd.Ret : Cmd → Type
  | sql f q => Query.Ret f q
  | commit _ => Unit
  | rollback => Unit
  | datetimeNow => Time
  | uuid4 => Id
  | tokenBytes _ => Bytes
  | tokenHex _ => String
  | tokenUrlsafe _ => String
  | hashPassword _ => String
  | spin _ => Nat
  | send _ => Unit

abbrev signature : Signature where
  Cmd := Cmd
  Ret := Cmd.Ret
  Err := Error

/-- A connection lost before or after the other side acted. -/
inductive Fault where
  | before | after
  deriving DecidableEq, Repr

/-- What the world outside decides at one step. -/
structure Env where
  now : Time
  id : Id := 0
  bytes : Bytes := []
  text : String := ""
  order : List Id := []
  fuel : Nat := 0
  fault : Option Fault := none

def Env.context (env : Env) (i : Nat) (s : Database) : Context :=
  { id := env.id, now := (s.began i).getD env.now, order := env.order }

/-- Command `c` of process `i`; `none` while it has to wait. -/
def Cmd.run (platform : Platform) (env : Env) (i : Nat) (s : Database) :
    (c : Cmd) → Option (Except Error c.Ret × Database)
  | sql f q =>
    if s.aborted i then some (.error .inFailedSqlTransaction, s.abort i) else
    match env.fault with
    | some _ => some (.error (.connectionLost false), s.abort i)
    | none =>
      match Query.exec platform (env.context i s) i f q (s.tables f) with
      | .ok r t => some (.ok r, { s with
          tables := Function.update s.tables f t
          began := Function.update s.began i (some ((s.began i).getD env.now)) })
      | .fails e => some (.error e, s.abort i)
      | .waits => none
  | commit _ =>
    if s.aborted i then some (.error .pendingRollbackError, s.settle i .undone) else
    match env.fault with
    | none => some (.ok (), s.settle i .applied)
    | some .before => some (.error (.connectionLost false), s.settle i .undone)
    | some .after => some (.error (.connectionLost true), s.settle i .applied)
  | rollback => some (.ok (), s.settle i .undone)
  | datetimeNow => some (.ok env.now, s)
  | uuid4 => if env.id ∈ s.issued then none else some (.ok env.id, { s with issued := env.id :: s.issued })
  | tokenBytes n => if env.bytes.length = n then some (.ok env.bytes, s) else none
  | tokenHex _ => some (.ok env.text, s)
  | tokenUrlsafe _ => some (.ok env.text, s)
  | hashPassword _ => some (.ok env.text, s)
  | spin seed => (Roulette.spin platform.hmacSha256 env.fuel seed).map fun outcome => (.ok outcome, s)
  | send message =>
    match env.fault with
    | none => some (.ok (), { s with kafka := s.kafka ++ [message] })
    | some .before => some (.error (.kafkaError env.text), s)
    | some .after => some (.error (.kafkaError env.text), { s with kafka := s.kafka ++ [message] })

/-- A command at time `env.now`; time does not go back. -/
def exec (platform : Platform) (env : Env) (i : Nat) (c : Cmd) (s : Database) :
    Option (Except Error c.Ret × Database) :=
  if env.now < s.clock then none else c.run platform env i { s with clock := env.now }

/-- What a command's answer means for the transaction it belongs to. -/
def fate : (c : Cmd) → Except Error c.Ret → Fate
  | .sql _ _, .error _ => .undone
  | .commit _, .ok _ => .applied
  | .commit _, .error (.connectionLost true) => .applied
  | .commit _, .error _ => .undone
  | .rollback, _ => .undone
  | _, _ => .isOpen

theorem fate_applied {c : Cmd} {r : Except Error c.Ret} (h : fate c r = .applied) : ∃ tx, c = .commit tx := by
  cases c with
  | commit tx => exact ⟨tx, rfl⟩
  | _ => cases r <;> cases h

theorem fate_commit_ends (tx : Tx) (r : Except Error Unit) : fate (.commit tx) r ≠ .isOpen := by
  rcases r with e | ⟨⟩
  · cases e with
    | connectionLost applied => cases applied <;> simp [fate]
    | _ => simp [fate]
  · simp [fate]

/-- The answers a command can get. -/
def Answer (platform : Platform) : (c : Cmd) → Except Error c.Ret → Prop
  | .sql _ _, _ => True
  | .commit _, .error e => e = .pendingRollbackError ∨ ∃ applied, e = .connectionLost applied
  | .spin seed, .ok outcome => DerivesOutcome platform.hmacSha256 seed Roulette.POCKET_COUNT outcome
  | .send _, .error e => ∃ message, e = .kafkaError message
  | .commit _, .ok _ => True
  | .rollback, .ok _ => True
  | .datetimeNow, .ok _ => True
  | .uuid4, .ok _ => True
  | .tokenBytes _, .ok _ => True
  | .tokenHex _, .ok _ => True
  | .tokenUrlsafe _, .ok _ => True
  | .hashPassword _, .ok _ => True
  | .send _, .ok _ => True
  | _, .error _ => False

@[simp] theorem Database.tables_settle (i : Nat) (fate : Fate) (s : Database) (f : TableName) :
    (s.settle i fate).tables f = (s.tables f).settle i fate := by
  cases fate <;> rfl

@[simp] theorem Database.kafka_settle (i : Nat) (fate : Fate) (s : Database) : (s.settle i fate).kafka = s.kafka := by
  cases fate <;> rfl

@[simp] theorem Database.clock_settle (i : Nat) (fate : Fate) (s : Database) : (s.settle i fate).clock = s.clock := by
  cases fate <;> rfl

@[simp] theorem Database.issued_settle (i : Nat) (fate : Fate) (s : Database) :
    (s.settle i fate).issued = s.issued := by
  cases fate <;> rfl

@[simp] theorem Database.tables_abort (i : Nat) (s : Database) (f : TableName) :
    (s.abort i).tables f = (s.tables f).rollback i := rfl

@[simp] theorem Database.kafka_abort (i : Nat) (s : Database) : (s.abort i).kafka = s.kafka := rfl

@[simp] theorem Database.clock_abort (i : Nat) (s : Database) : (s.abort i).clock = s.clock := rfl

@[simp] theorem Database.issued_abort (i : Nat) (s : Database) : (s.abort i).issued = s.issued := rfl

variable {platform : Platform} {env : Env} {i : Nat} {s s' : Database}

theorem exec_run {c : Cmd} {r : Except Error c.Ret} (h : exec platform env i c s = some (r, s')) :
    s.clock ≤ env.now ∧ c.run platform env i { s with clock := env.now } = some (r, s') := by
  unfold exec at h
  split at h
  · cases h
  · exact ⟨Int.not_lt.mp ‹_›, h⟩

/-- A statement on table `f` fails and ends its transaction, or does what its query does. -/
theorem exec_sql {f : TableName} {q : Query f} {r : Except Error (Query.Ret f q)}
    (h : exec platform env i (.sql f q) s = some (r, s')) :
    (∃ e, r = .error e ∧ s'.tables f = (s.tables f).rollback i) ∨
    ∃ a, r = .ok a ∧ Query.exec platform (env.context i s) i f q (s.tables f) = .ok a (s'.tables f) := by
  obtain ⟨-, ran⟩ := exec_run h
  simp only [Cmd.run] at ran
  split at ran
  · cases ran
    exact Or.inl ⟨_, rfl, rfl⟩
  · split at ran
    · cases ran
      exact Or.inl ⟨_, rfl, rfl⟩
    · split at ran
      · rename_i a t done
        cases ran
        refine Or.inr ⟨a, rfl, ?_⟩
        change _ = Outcome.ok a (Function.update s.tables f t f)
        rw [Function.update_self]
        exact done
      · cases ran
        exact Or.inl ⟨_, rfl, rfl⟩
      · cases ran

/-- A command that is no statement on table `f` does to it what it means for the transaction. -/
theorem exec_frame {c : Cmd} {r : Except Error c.Ret} (h : exec platform env i c s = some (r, s')) (f : TableName)
    (other : ∀ q, c ≠ .sql f q) : s'.tables f = (s.tables f).settle i (fate c r) := by
  obtain ⟨-, ran⟩ := exec_run h
  cases c with
  | sql g q =>
    have ne : f ≠ g := by
      rintro rfl
      exact other q rfl
    simp only [Cmd.run] at ran
    split at ran
    · cases ran
      rfl
    · split at ran
      · cases ran
        rfl
      · split at ran
        · cases ran
          simp [fate, Table.settle, ne]
        · cases ran
          rfl
        · cases ran
  | commit tx =>
    simp only [Cmd.run] at ran
    split at ran
    · cases ran
      simp [fate]
    · split at ran <;> cases ran <;> simp [fate]
  | rollback => cases ran; simp [fate]
  | datetimeNow => cases ran; rfl
  | uuid4 =>
    simp only [Cmd.run] at ran
    split at ran
    · cases ran
    · cases ran; rfl
  | tokenBytes n =>
    simp only [Cmd.run] at ran
    split at ran
    · cases ran; rfl
    · cases ran
  | tokenHex n => cases ran; rfl
  | tokenUrlsafe n => cases ran; rfl
  | hashPassword password => cases ran; rfl
  | spin seed =>
    simp only [Cmd.run, Option.map_eq_some_iff, Prod.mk.injEq] at ran
    obtain ⟨_, _, rfl, rfl⟩ := ran
    rfl
  | send message =>
    simp only [Cmd.run] at ran
    split at ran <;> cases ran <;> rfl

/-- The end of a transaction, by whatever command, is its end in every table. -/
theorem exec_ends {c : Cmd} {r : Except Error c.Ret} (h : exec platform env i c s = some (r, s'))
    (ends : fate c r ≠ .isOpen) (f : TableName) : s'.tables f = (s.tables f).settle i (fate c r) := by
  by_cases mine : ∃ q, c = .sql f q
  · obtain ⟨q, rfl⟩ := mine
    rcases exec_sql h with ⟨e, rfl, table⟩ | ⟨a, rfl, -⟩
    · exact table
    · exact (ends rfl).elim
  · exact exec_frame h f fun q same => mine ⟨q, same⟩

/-- A statement fails because its query does, or because of the state of its connection. -/
theorem exec_error {f : TableName} {q : Query f} {e : Error}
    (h : exec platform env i (.sql f q) s = some (.error e, s')) :
    e = .inFailedSqlTransaction ∨ e = .connectionLost false ∨
      Query.exec platform (env.context i s) i f q (s.tables f) = .fails e := by
  obtain ⟨-, ran⟩ := exec_run h
  simp only [Cmd.run] at ran
  split at ran
  · cases ran
    exact Or.inl rfl
  · split at ran
    · cases ran
      exact Or.inr (Or.inl rfl)
    · split at ran
      · cases ran
      · rename_i failed
        cases ran
        exact Or.inr (Or.inr failed)
      · cases ran

/-- A query fails on a constraint or on a value out of range. -/
theorem query_fails {ctx : Context} {f : TableName} {q : Query f} {e : Error} {t : Table Id (Row f)}
    (h : Query.exec platform ctx i f q t = .fails e) :
    e = .dataError ∨ ∃ constraint, e = .integrityError constraint := by
  have inserts : ∀ {α : Type} {t : Table Id α} {constraint : String} {p : α → Bool} {a : α},
      insertRow ctx i t constraint p a = .fails e → e = .dataError ∨ ∃ constraint, e = .integrityError constraint :=
    fun failed => Or.inr ⟨_, (insertRow_fails failed).1⟩
  have checks : ∀ {w : WalletRow}, w.check = some e → e = .dataError ∨
      ∃ constraint, e = .integrityError constraint := by
    intro w failed
    unfold WalletRow.check at failed
    split at failed
    · exact Or.inl (Option.some.inj failed).symm
    · split at failed
      · exact Or.inr ⟨_, (Option.some.inj failed).symm⟩
      · cases failed
  have moves : ∀ {k : Id} {p : WalletRow → Bool} {amount : Int} {t : Table Id WalletRow},
      WalletQuery.move i t k p amount = .fails e → e = .dataError ∨ ∃ constraint, e = .integrityError constraint := by
    intro k p amount t failed
    unfold WalletQuery.move at failed
    split at failed
    · cases failed
    · cases failed
    · split at failed
      · cases failed
      · rename_i refused
        cases failed
        exact checks refused
  cases f with
  | users =>
    cases q with
    | getById id => cases h
    | getByEmail email => cases h
    | create email passwordHash => exact inserts h
    | setStatus id status => exact (changeRow_not_fails h).elim
  | wallets =>
    cases q with
    | getByUserId userId => cases h
    | add userId balanceMinor =>
      simp only [Query.exec, WalletQuery.exec] at h
      split at h
      · rename_i refused
        cases h
        exact checks refused
      · split at h
        · cases h
        · rename_i failed
          cases h
          exact inserts failed
        · cases h
    | debit k amount => exact moves h
    | credit k amount => exact moves h
  | ledgerEntries =>
    cases q with
    | append walletId amountMinor balanceAfterMinor kind refType refId =>
      simp only [Query.exec, LedgerQuery.exec] at h
      split at h
      · cases h
        exact Or.inl rfl
      · split at h
        · cases h
          exact Or.inr ⟨_, rfl⟩
        · exact inserts h
    | listByWallet walletId cursor limit => cases h
  | seedPairs =>
    cases q with
    | getActiveByUserId userId => cases h
    | createActive userId serverSeed serverSeedHash clientSeed => exact inserts h
    | consumeNonce k =>
      simp only [Query.exec, SeedPairQuery.exec] at h
      split at h
      · cases h
      · cases h
      · split at h
        · cases h
        · cases h
          exact Or.inl rfl
    | revealAndDeactivate k revealedAt => exact (changeRow_not_fails h).elim
  | rounds =>
    cases q with
    | insert userId seedPairId nonce outcome settledAt =>
      simp only [Query.exec, RoundQuery.exec] at h
      split at h
      · cases h
        exact Or.inl rfl
      · split at h
        · cases h
          exact Or.inr ⟨_, rfl⟩
        · exact inserts h
    | listByUser userId cursor limit => cases h
  | bets =>
    cases q with
    | insert roundId betType selection stakeMinor payoutMinor status =>
      simp only [Query.exec, BetQuery.exec] at h
      split at h
      · cases h
        exact Or.inl rfl
      · split at h
        · cases h
          exact Or.inr ⟨_, rfl⟩
        · split at h
          · cases h
            exact Or.inr ⟨_, rfl⟩
          · exact inserts h
    | selectIn roundIds => cases h
  | outbox =>
    cases q with
    | insert topic key payload => exact inserts h
    | readyIds now =>
      simp only [Query.exec, OutboxQuery.exec] at h
      split at h <;> cases h
    | lockReady id now =>
      simp only [Query.exec, OutboxQuery.exec] at h
      split at h <;> cases h
    | markPublished id publishedAt => exact (changeRow_not_fails h).elim
    | markFailed id attempts lastError nextAttemptAt =>
      simp only [Query.exec, OutboxQuery.exec] at h
      split at h
      · cases h
        exact Or.inl rfl
      · exact (changeRow_not_fails h).elim
    | purgeableIds olderThan => cases h
    | purgeRow id olderThan =>
      simp only [Query.exec, OutboxQuery.exec] at h
      split at h <;> cases h
  | idempotencyKeys =>
    cases q with
    | get userId key => cases h
    | createPending userId key requestHash expiresAt => exact inserts h
    | markCompleted rowId responseBody => exact (changeRow_not_fails h).elim
    | delete rowId => exact (changeRow_not_fails h).elim
  | refreshTokens =>
    cases q with
    | getByHash tokenHash => cases h
    | create userId familyId tokenHash expiresAt => exact inserts h
    | revoke tokenId revokedAt => exact (changeRow_not_fails h).elim
    | matchFamily familyId => cases h
    | revokeMatched tokenId familyId revokedAt => exact (changeRow_not_fails h).elim

theorem exec_answer {c : Cmd} {r : Except Error c.Ret} (h : exec platform env i c s = some (r, s')) :
    Answer platform c r := by
  obtain ⟨-, ran⟩ := exec_run h
  cases c with
  | sql f q => trivial
  | commit tx =>
    simp only [Cmd.run] at ran
    split at ran
    · cases ran
      exact Or.inl rfl
    · split at ran <;> cases ran
      · trivial
      · exact Or.inr ⟨false, rfl⟩
      · exact Or.inr ⟨true, rfl⟩
  | uuid4 =>
    simp only [Cmd.run] at ran
    split at ran
    · cases ran
    · cases ran; trivial
  | tokenBytes n =>
    simp only [Cmd.run] at ran
    split at ran
    · cases ran; trivial
    · cases ran
  | spin seed =>
    simp only [Cmd.run, Option.map_eq_some_iff, Prod.mk.injEq] at ran
    obtain ⟨_, derived, rfl, rfl⟩ := ran
    exact ⟨_, derived⟩
  | send message =>
    simp only [Cmd.run] at ran
    split at ran <;> cases ran
    · trivial
    · exact ⟨_, rfl⟩
    · exact ⟨_, rfl⟩
  | _ => cases ran; trivial

theorem exec_clock {c : Cmd} {r : Except Error c.Ret} (h : exec platform env i c s = some (r, s')) :
    s.clock ≤ env.now ∧ s'.clock = env.now := by
  obtain ⟨later, ran⟩ := exec_run h
  refine ⟨later, ?_⟩
  cases c with
  | sql f q =>
    simp only [Cmd.run] at ran
    split at ran
    · cases ran; rfl
    · split at ran
      · cases ran; rfl
      · split at ran <;> cases ran <;> rfl
  | commit tx =>
    simp only [Cmd.run] at ran
    split at ran
    · cases ran; simp
    · split at ran <;> cases ran <;> simp
  | uuid4 =>
    simp only [Cmd.run] at ran
    split at ran
    · cases ran
    · cases ran; rfl
  | tokenBytes n =>
    simp only [Cmd.run] at ran
    split at ran
    · cases ran; rfl
    · cases ran
  | spin seed =>
    simp only [Cmd.run, Option.map_eq_some_iff, Prod.mk.injEq] at ran
    obtain ⟨_, _, rfl, rfl⟩ := ran
    rfl
  | send message =>
    simp only [Cmd.run] at ran
    split at ran <;> cases ran <;> rfl
  | rollback => cases ran; simp
  | _ => cases ran; rfl

theorem sql_delivered {f : TableName} {q : Query f} {a : Query.Ret f q}
    (ran : exec platform env i (.sql f q) s = some (.ok a, s')) : env.fault = none := by
  obtain ⟨-, ran⟩ := exec_run ran
  simp only [Cmd.run] at ran
  split at ran
  · cases ran
  · split at ran
    · cases ran
    · assumption

theorem exec_issued {c : Cmd} {r : Except Error c.Ret}
    (ran : exec platform env i c s = some (r, s')) :
    (∃ id, (.ran c r : Event signature) = .ran .uuid4 (.ok id) ∧ id ∉ s.issued ∧ s'.issued = id :: s.issued) ∨
      c ≠ .uuid4 ∧ s'.issued = s.issued := by
  obtain ⟨-, ran⟩ := exec_run ran
  cases c with
  | uuid4 =>
    simp only [Cmd.run] at ran
    split at ran
    · cases ran
    · rename_i fresh
      cases ran
      exact Or.inl ⟨_, rfl, fresh, rfl⟩
  | sql f q =>
    refine Or.inr ⟨by simp, ?_⟩
    simp only [Cmd.run] at ran
    split at ran
    · cases ran; rfl
    · split at ran
      · cases ran; rfl
      · split at ran <;> cases ran <;> rfl
  | commit tx =>
    refine Or.inr ⟨by simp, ?_⟩
    simp only [Cmd.run] at ran
    split at ran
    · cases ran; simp
    · split at ran <;> cases ran <;> simp
  | rollback =>
    cases ran
    exact Or.inr ⟨by simp, by simp⟩
  | tokenBytes n =>
    simp only [Cmd.run] at ran
    split at ran <;> cases ran
    exact Or.inr ⟨by simp, rfl⟩
  | spin seed =>
    simp only [Cmd.run, Option.map_eq_some_iff, Prod.mk.injEq] at ran
    obtain ⟨_, _, rfl, rfl⟩ := ran
    exact Or.inr ⟨by simp, rfl⟩
  | send message =>
    simp only [Cmd.run] at ran
    split at ran <;> cases ran <;> exact Or.inr ⟨by simp, rfl⟩
  | _ =>
    cases ran
    exact Or.inr ⟨by simp, rfl⟩

theorem exec_send {m : Message} {r : Except Error Unit} (ran : exec platform env i (.send m) s = some (r, s')) :
    s'.tables = s.tables ∧ (s'.kafka = s.kafka ++ [m] ∨ (∃ e, r = .error e) ∧ s'.kafka = s.kafka) := by
  obtain ⟨-, ran⟩ := exec_run ran
  simp only [Cmd.run] at ran
  split at ran <;> cases ran
  · exact ⟨rfl, Or.inl rfl⟩
  · exact ⟨rfl, Or.inr ⟨⟨_, rfl⟩, rfl⟩⟩
  · exact ⟨rfl, Or.inl rfl⟩

/-- Only a send appends to the log. -/
theorem exec_kafka {c : Cmd} {r : Except Error c.Ret} (ran : exec platform env i c s = some (r, s'))
    (quiet : ∀ m, c ≠ .send m) : s'.kafka = s.kafka := by
  obtain ⟨-, ran⟩ := exec_run ran
  cases c with
  | send m => exact (quiet m rfl).elim
  | sql f q =>
    simp only [Cmd.run] at ran
    split at ran
    · cases ran; rfl
    · split at ran
      · cases ran; rfl
      · split at ran <;> cases ran <;> rfl
  | commit tx =>
    simp only [Cmd.run] at ran
    split at ran
    · cases ran; simp
    · split at ran <;> cases ran <;> simp
  | rollback => cases ran; simp
  | uuid4 =>
    simp only [Cmd.run] at ran
    split at ran <;> cases ran
    rfl
  | tokenBytes n =>
    simp only [Cmd.run] at ran
    split at ran <;> cases ran
    rfl
  | spin seed =>
    simp only [Cmd.run, Option.map_eq_some_iff, Prod.mk.injEq] at ran
    obtain ⟨_, _, rfl, rfl⟩ := ran
    rfl
  | _ => cases ran; rfl

theorem commit_delivered {tx : Tx} {r : Except Error Unit}
    (ran : exec platform env i (.commit tx) s = some (r, s')) (applied : fate (.commit tx) r = .applied) :
    env.fault ≠ some .before := by
  intro lost
  obtain ⟨-, ran⟩ := exec_run ran
  simp only [Cmd.run, lost] at ran
  split at ran <;> cases ran <;> cases applied

/-- The exceptions that commands answer with. -/
theorem exec_raises {c : Cmd} {e : Error} (ran : exec platform env i c s = some (.error e, s')) :
    e = .inFailedSqlTransaction ∨ e = .pendingRollbackError ∨ (∃ applied, e = .connectionLost applied) ∨
      (∃ message, e = .kafkaError message) ∨ e = .dataError ∨ ∃ constraint, e = .integrityError constraint := by
  cases c with
  | sql f q =>
    rcases exec_error ran with same | same | failed
    · exact Or.inl same
    · exact Or.inr (Or.inr (Or.inl ⟨false, same⟩))
    · exact Or.inr (Or.inr (Or.inr (Or.inr (query_fails failed))))
  | commit tx =>
    rcases exec_answer ran with same | lost
    · exact Or.inr (Or.inl same)
    · exact Or.inr (Or.inr (Or.inl lost))
  | send m => exact Or.inr (Or.inr (Or.inr (Or.inl (exec_answer ran))))
  | _ => exact (exec_answer ran).elim

def Cmd.isStatement : Cmd → Bool
  | sql _ _ => true
  | _ => false

/-- A failed statement marks its transaction, and the end of a transaction clears the mark. -/
theorem exec_aborted {c : Cmd} {r : Except Error c.Ret} (ran : exec platform env i c s = some (r, s')) :
    s'.aborted = if fate c r = .isOpen then s.aborted else Function.update s.aborted i c.isStatement := by
  obtain ⟨-, ran⟩ := exec_run ran
  cases c with
  | sql f q =>
    simp only [Cmd.run] at ran
    split at ran
    · cases ran; rfl
    · split at ran
      · cases ran; rfl
      · split at ran <;> cases ran <;> rfl
  | commit tx =>
    simp only [Cmd.run] at ran
    split at ran
    · cases ran; rfl
    · split at ran <;> cases ran <;> rfl
  | rollback => cases ran; rfl
  | uuid4 =>
    simp only [Cmd.run] at ran
    split at ran <;> cases ran
    rfl
  | tokenBytes n =>
    simp only [Cmd.run] at ran
    split at ran <;> cases ran
    rfl
  | spin seed =>
    simp only [Cmd.run, Option.map_eq_some_iff, Prod.mk.injEq] at ran
    obtain ⟨_, _, rfl, rfl⟩ := ran
    rfl
  | send message =>
    simp only [Cmd.run] at ran
    split at ran <;> cases ran <;> rfl
  | _ => cases ran; rfl

end TheClub
