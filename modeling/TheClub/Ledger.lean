import TheClub.ReadCommitted.Journal
import TheClub.Conduct
import TheClub.Infra.Rows

/-!
Wallets and the ledger. An update of a wallet owes the ledger an entry with its amount and the
balance it left; the services write the entries they owe, in order, before they commit. So the
committed ledger is the history of the committed balances, whatever other transactions are
doing.
-/

namespace TheClub
open ReadCommitted Program

/-- Each balance is the balance before plus the amount. -/
def Chain : Int → List (Int × Int) → Prop
  | _, [] => True
  | before, (amount, after) :: rest => after = before + amount ∧ Chain after rest

theorem chain_append {before : Int} {updates : List (Int × Int)} (h : Chain before updates) (amount : Int) :
    Chain before (updates ++ [(amount, before + (updates.map Prod.fst).sum + amount)]) := by
  induction updates generalizing before with
  | nil => simp [Chain]
  | cons update rest ih =>
    obtain ⟨a, after⟩ := update
    obtain ⟨rfl, more⟩ := h
    refine ⟨rfl, ?_⟩
    have step := ih more
    rwa [List.map_cons, List.sum_cons, ← Int.add_assoc]

/-- What the row says about itself: its updates lead from 0 to its balance. -/
structure WalletRow.Sound (w : WalletRow) : Prop where
  chain : Chain 0 w.updates
  balance : w.balanceMinor = (w.updates.map Prod.fst).sum
  nonNegative : 0 ≤ w.balanceMinor

theorem WalletRow.check_none {w : WalletRow} (h : w.check = none) : 0 ≤ w.balanceMinor := by
  unfold check at h
  split at h
  · cases h
  · split at h
    · cases h
    · omega

theorem WalletRow.Sound.move {w : WalletRow} (h : w.Sound) {amount : Int}
    (checked : (w.move amount).check = none) : (w.move amount).Sound where
  chain := by
    have longer := chain_append h.chain amount
    rwa [Int.zero_add, ← h.balance] at longer
  balance := by simp [WalletRow.move, h.balance]
  nonNegative := WalletRow.check_none checked

/-! ### The protocol -/

def walletBook : Bookkeeping Id WalletRow LedgerEntry (Int × Int) where
  hist w := w.updates
  owner e := e.walletId
  line e := (e.amountMinor, e.balanceAfterMinor)

/-- The ledger entries the open transaction still has to write: wallet, amount, balance. -/
abbrev Owed := List (Id × (Int × Int))

def Owed.after (owed : Owed) : (c : Cmd) → Except Error c.Ret → Owed
  | .sql .wallets (.debit walletId amount), .ok (some balance) => owed ++ [(walletId, (-amount, balance))]
  | .sql .wallets (.credit walletId amount), .ok (some balance) => owed ++ [(walletId, (amount, balance))]
  | .sql .ledgerEntries (.append _ _ _ _ _ _), .ok _ => owed.tail
  | _, _ => owed

def ledgerProtocol (platform : Platform) : Protocol signature where
  Ghost := Owed
  start := []
  allowed := fun owed c => match c with
    | .sql .wallets (.add _ balanceMinor) => balanceMinor = 0
    | .sql .ledgerEntries (.append walletId amount balanceAfter _ _ _) =>
      ∃ rest, owed = (walletId, (amount, balanceAfter)) :: rest
    | .commit _ => owed = []
    | _ => True
  possible := Answer platform
  next := fun owed c r => if fate c r = .isOpen then owed.after c r else []
  died := fun _ => []

/-- The commands that move no money. -/
def MovesNothing : Cmd → Prop
  | .sql .wallets (.getByUserId _) => True
  | .sql .wallets _ => False
  | .sql .ledgerEntries (.append _ _ _ _ _ _) => False
  | .commit _ => False
  | .rollback => False
  | _ => True

variable {platform : Platform} {settings : Settings}

theorem ledgerProtocol_transactional :
    Transactional platform (ledgerProtocol platform) MovesNothing (fun owed => owed = []) where
  possible := rfl
  off owed c quiet := by
    cases c with
    | sql f q => cases f <;> cases q <;> first | exact quiet.elim | exact ⟨trivial, fun a => rfl⟩
    | commit tx => exact quiet.elim
    | rollback => exact quiet.elim
    | _ => exact ⟨trivial, fun a => rfl⟩
  ends owed c r h := if_neg h
  stays owed message e := rfl
  commit owed tx ready := ready
  rollback owed := trivial
  readyStart := rfl

/-! ### The services follow it -/

section
variable {α : Type} {p : Prog α} {owed : Owed}

theorem looks_movesNothing {c : Cmd} (h : Looks c) : MovesNothing c := by
  unfold Looks at h
  split at h <;> trivial

theorem uses_movesNothing {L : List TableName} (away : .wallets ∉ L) (away' : .ledgerEntries ∉ L) {c : Cmd}
    (h : Uses L c) : MovesNothing c := by
  cases c with
  | sql f q =>
    cases f with
    | wallets => exact (away h).elim
    | ledgerEntries => exact (away' h).elim
    | _ => trivial
  | commit tx => exact h.elim
  | rollback => exact h.elim
  | _ => trivial

theorem seeds_moveNothing {c : Cmd} (h : Uses [.seedPairs] c) : MovesNothing c :=
  uses_movesNothing (by decide) (by decide) h

/-- A plain program that moves no money leaves the debts alone. -/
theorem keepsDebts {A : Cmd → Prop} (h : p.Plain A) (quiet : ∀ c, A c → MovesNothing c) :
    p.Follows (ledgerProtocol platform) (Then fun owed' _ => owed' = owed) owed :=
  h.follows fun c member => ledgerProtocol_transactional.off owed c (quiet c member)

theorem perform_keepsDebts {c : Cmd} (quiet : MovesNothing c) :
    (perform c).Follows (ledgerProtocol platform) (Then fun owed' _ => owed' = owed) owed :=
  keepsDebts (plain_perform (S := signature) quiet) fun _ => id

theorem lift_keepsDebts {result : Except Error α} :
    (lift result).Follows (ledgerProtocol platform) (Then fun owed' _ => owed' = owed) owed :=
  keepsDebts (A := MovesNothing) trivial fun _ => id

theorem newEnvelope_keepsDebts {eventType : EventType} {data : Except Error Dict} {key : Option String} :
    (newEnvelope eventType data key).Follows (ledgerProtocol platform) (Then fun owed' _ => owed' = owed) owed :=
  keepsDebts newEnvelope_uses fun _ => uses_movesNothing (L := []) (by decide) (by decide)

theorem enqueueEvent_keepsDebts {envelope : EventEnvelope} {key : String} :
    (enqueueEvent platform settings envelope key).Follows (ledgerProtocol platform)
      (Then fun owed' _ => owed' = owed) owed :=
  keepsDebts (enqueueEvent_uses (L := [.outbox]) (by decide)) fun _ => uses_movesNothing (by decide) (by decide)

theorem requireWallet_keepsDebts {userId : Id} :
    (requireWallet platform userId).Follows (ledgerProtocol platform) (Then fun owed' _ => owed' = owed) owed :=
  keepsDebts requireWallet_looks fun _ => looks_movesNothing

end

theorem credit_owes {owed : Owed} {walletId : Id} {amount : Money} :
    (WalletRepository.credit walletId amount).Follows (ledgerProtocol platform)
      (Then fun owed' balance => owed' = owed ++ [(walletId, (amount.minor, balance))]) owed := by
  refine ⟨trivial, fun r _ => ?_⟩
  rcases r with e | (_ | balance)
  · trivial
  · trivial
  · rfl

theorem debit_owes {owed : Owed} {walletId : Id} {amount : Money} :
    (WalletRepository.debit platform walletId amount).Follows (ledgerProtocol platform)
      (Then fun owed' balance => owed' = owed ++ [(walletId, (-amount.minor, balance))]) owed := by
  refine ⟨trivial, fun r _ => ?_⟩
  rcases r with e | (_ | balance)
  · trivial
  · trivial
  · rfl

theorem append_pays {rest : Owed} {walletId : Id} {amount : Money} {balanceAfter : Int} {kind : LedgerKind}
    {refType : Option String} {refId : Option Id} :
    (LedgerRepository.append walletId amount balanceAfter kind refType refId).Follows (ledgerProtocol platform)
      (Then fun owed' _ => owed' = rest) ((walletId, (amount.minor, balanceAfter)) :: rest) := by
  refine ⟨⟨rest, rfl⟩, fun r _ => ?_⟩
  cases r <;> trivial

theorem addWallet_owesNothing {owed : Owed} {userId : Id} :
    (sql .wallets (.add userId 0)).Follows (ledgerProtocol platform) (Then fun owed' _ => owed' = owed) owed := by
  refine ⟨rfl, fun r _ => ?_⟩
  cases r <;> trivial

theorem deposit_pays {userId : Id} {key : String} {amountMinor : Int} :
    (deposit platform settings userId key amountMinor).Follows (ledgerProtocol platform)
      (Then fun owed _ => owed = []) [] := by
  refine requireWallet_keepsDebts.seq fun wallet => ?_
  refine credit_owes.seq fun balanceAfter => ?_
  refine append_pays.seq fun entry => ?_
  refine newEnvelope_keepsDebts.seq fun envelope => ?_
  exact enqueueEvent_keepsDebts.seq fun _ => rfl

theorem creditPayout_owes {owed : Owed} {walletId : Id} {totalPayout : Int} :
    (creditPayout walletId totalPayout).Follows (ledgerProtocol platform)
      (Then fun owed' balance => owed' = owed ++ (balance.map fun b => (walletId, (totalPayout, b))).toList ∧
        (balance = none ↔ ¬totalPayout > 0)) owed := by
  unfold creditPayout
  split
  · rename_i won
    refine credit_owes.seq fun balance => ?_
    exact ⟨rfl, by simpa using won⟩
  · rename_i lost
    exact ⟨(List.append_nil owed).symm, by simpa using lost⟩

theorem appendPayout_pays {walletId roundId : Id} {totalPayout : Int} {balance : Option Int}
    (set : balance = none ↔ ¬totalPayout > 0) :
    (appendPayout walletId roundId totalPayout balance).Follows (ledgerProtocol platform)
      (Then fun owed _ => owed = []) (balance.map fun b => (walletId, (totalPayout, b))).toList := by
  unfold appendPayout
  split
  · rename_i won
    cases balance with
    | none => exact (set.mp rfl won).elim
    | some balance => exact append_pays.seq fun entry => rfl
  · rename_i lost
    rw [set.mpr lost]
    rfl

theorem settleRound_pays {userId : Id} {key : String} {wallet : Wallet} {seedPair : SeedPair} {nonce : Nat}
    {totalStake balanceAfterStake : Int} {outcome : Nat} {resolved : List Roulette.ResolvedBet} :
    (settleRound platform settings userId key wallet seedPair nonce totalStake balanceAfterStake outcome
      resolved).Follows (ledgerProtocol platform) (Then fun owed _ => owed = [])
      [(wallet.id, (-totalStake, balanceAfterStake))] := by
  refine follows_then_bind.mpr (creditPayout_owes.then_mono fun owed balanceAfterPayout paid => ?_)
  obtain ⟨rfl, set⟩ := paid
  refine (keepsDebts (createSettledRound_uses (L := [.rounds, .bets]) (by decide) (by decide)) fun _ =>
    uses_movesNothing (by decide) (by decide)).seq fun round => ?_
  refine append_pays.seq fun stakeEntry => ?_
  refine (appendPayout_pays set).seq fun payoutEntryId => ?_
  exact (keepsDebts (enqueueRoundEvents_uses (L := [.outbox]) (by decide)) fun _ =>
    uses_movesNothing (by decide) (by decide)).seq fun _ => rfl

theorem placeBet_pays {userId : Id} {key : String} {betRequests : List BetRequest} :
    (placeBet platform settings userId key betRequests).Follows (ledgerProtocol platform)
      (Then fun owed _ => owed = []) [] := by
  refine lift_keepsDebts.seq fun _ => ?_
  refine requireWallet_keepsDebts.seq fun wallet => ?_
  refine debit_owes.seq fun balanceAfterStake => ?_
  refine (keepsDebts (requireActiveSeedPair_uses (L := [.seedPairs]) (by decide)) fun _ =>
    seeds_moveNothing).seq fun seedPair => ?_
  refine (keepsDebts (consumeNonce_uses (L := [.seedPairs]) (by decide)) fun _ =>
    seeds_moveNothing).seq fun nonce => ?_
  refine (perform_keepsDebts (c := .spin _) trivial).seq fun outcome => ?_
  refine lift_keepsDebts.seq fun resolved => ?_
  exact settleRound_pays

theorem registerUser_pays {email password : String} :
    (registerUser platform settings email password).Follows (ledgerProtocol platform)
      (Then fun owed _ => owed = []) [] := by
  refine (keepsDebts (getByEmail_uses (L := [.users]) (by decide)) fun _ =>
    uses_movesNothing (by decide) (by decide)).seq fun found => ?_
  cases found with
  | some user => trivial
  | none =>
    refine (perform_keepsDebts (c := .hashPassword _) trivial).seq fun passwordHash => ?_
    refine (perform_keepsDebts (c := .sql .users _) trivial).seq fun user => ?_
    refine (perform_keepsDebts (c := .tokenBytes _) trivial).seq fun serverSeed => ?_
    refine (perform_keepsDebts (c := .tokenHex _) trivial).seq fun clientSeed => ?_
    refine (addWallet_owesNothing).seq fun _ => ?_
    refine (perform_keepsDebts (c := .sql .seedPairs _) trivial).seq fun _ => ?_
    refine (perform_keepsDebts (c := .uuid4) trivial).seq fun familyId => ?_
    exact (keepsDebts (issueTokens_uses (L := [.refreshTokens]) (by decide)) fun _ =>
      uses_movesNothing (by decide) (by decide)).seq fun tokens => rfl

theorem background_movesNothing : Transactional.Background MovesNothing where
  accounts _ h := uses_movesNothing (by decide) (by decide) h.uses
  looks _ := looks_movesNothing
  outbox _ := trivial
  send _ := trivial
  idempotency _ := trivial

/-- Every use case writes the ledger entries it owes before it commits. -/
theorem useCase_pays {q : Request} (useCase : q.isUseCase = true) :
    (q.code platform settings).Follows (ledgerProtocol platform) (fun owed _ => owed = []) [] :=
  ledgerProtocol_transactional.useCase background_movesNothing (fun _ _ => registerUser_pays)
    (fun _ => keepsDebts getCurrentSeed_uses fun _ => seeds_moveNothing)
    (fun _ => keepsDebts rotateSeed_uses fun _ => seeds_moveNothing)
    (fun _ _ _ => placeBet_pays) (fun _ _ _ => deposit_pays) useCase

/-! ### The invariant -/

/-- The two tables disagree by exactly what the open transactions owe. -/
structure Balanced (s : Database) (owed : Nat → Owed) : Prop where
  journal : walletBook.Journalled (s.tables .wallets) (s.tables .ledgerEntries) owed
  sound : ∀ k w, ((s.tables .wallets).slot k).Version w → w.Sound

namespace Balanced
variable {s s' : Database} {owed : Nat → Owed} {env : Env} {i : Nat}

/-- The end of a transaction, which owes nothing if it commits. -/
theorem ended (inv : Balanced s owed) (fate : Fate) (paid : fate = .applied → owed i = []) (ends : fate ≠ .isOpen)
    (wallets : s'.tables .wallets = (s.tables .wallets).settle i fate)
    (entries : s'.tables .ledgerEntries = (s.tables .ledgerEntries).settle i fate) :
    Balanced s' (Function.update owed i []) where
  journal := by
    rw [wallets, entries]
    exact inv.journal.settle paid ends
  sound k w version := by
    rw [wallets] at version
    exact inv.sound k w (Table.version_settle version)

theorem unchanged (inv : Balanced s owed) (wallets : s'.tables .wallets = s.tables .wallets)
    (entries : s'.tables .ledgerEntries = s.tables .ledgerEntries) : Balanced s' owed where
  journal := by
    rw [wallets, entries]
    exact inv.journal
  sound k w version := by
    rw [wallets] at version
    exact inv.sound k w version

/-- A debit or a credit: it owes the ledger what it did. -/
theorem moved (inv : Balanced s owed) {walletId : Id} {p : WalletRow → Bool} {amount : Int} {balance : Option Int}
    (entries : s'.tables .ledgerEntries = s.tables .ledgerEntries)
    (done : WalletQuery.move i (s.tables .wallets) walletId p amount = .ok balance (s'.tables .wallets)) :
    Balanced s' (Function.update owed i
      (owed i ++ (balance.map fun b => (walletId, (amount, b))).toList)) := by
  unfold WalletQuery.move at done
  split at done
  · injection done with none table
    subst none
    simpa using inv.unchanged table.symm entries
  · cases done
  · rename_i w t wrote
    obtain ⟨seen, -, free, rfl⟩ := Table.updateRow_wrote wrote
    split at done
    · rename_i checked
      injection done with result table
      subst result
      have sound := inv.sound walletId w (Slot.version_view seen)
      refine ⟨?_, fun k v version => ?_⟩
      · rw [entries, ← table]
        exact inv.journal.write [(amount, (w.move amount).balanceMinor)] seen free rfl
      · rw [← table] at version
        by_cases same : k = walletId
        · subst same
          rw [Table.slot_write_self (Table.mem_keys_of_view seen)] at version
          rcases Slot.version_write version with old | new
          · exact inv.sound _ v old
          · cases new
            exact sound.move checked
        · rw [Table.slot_write_other same] at version
          exact inv.sound k v version
    · cases done

/-- A registration's wallet: empty, with an empty history. -/
theorem added (inv : Balanced s owed) {userId : Id} {w : Wallet} {ctx : Context}
    (entries : s'.tables .ledgerEntries = s.tables .ledgerEntries)
    (done : WalletQuery.exec ctx i (s.tables .wallets) (.add userId 0) = .ok w (s'.tables .wallets)) :
    Balanced s' owed := by
  simp only [WalletQuery.exec] at done
  split at done
  · cases done
  · split at done
    · rename_i row t inserted
      injection done with result table
      obtain ⟨rfl, fresh, rfl, -⟩ := insertRow_ok inserted
      refine ⟨?_, fun k v version => ?_⟩
      · rw [entries, ← table]
        exact inv.journal.create fresh rfl
      · rw [← table] at version
        by_cases same : k = ctx.id
        · subst same
          rw [Table.slot_insert_self] at version
          rcases version with old | ⟨_, new⟩
          · cases old
          · cases new
            exact ⟨trivial, rfl, le_refl _⟩
        · rw [Table.slot_insert_other same] at version
          exact inv.sound k v version
    · cases done
    · cases done

/-- An entry pays the oldest debt. -/
theorem paid (inv : Balanced s owed) {walletId : Id} {amount balanceAfter : Int} {kind : LedgerKind}
    {refType : Option String} {refId : Option Id} {e : LedgerEntry} {ctx : Context} {rest : Owed}
    (wallets : s'.tables .wallets = s.tables .wallets) (oldest : owed i = (walletId, (amount, balanceAfter)) :: rest)
    (done : LedgerQuery.exec ctx i (s.tables .ledgerEntries) (.append walletId amount balanceAfter kind refType refId) =
      .ok e (s'.tables .ledgerEntries)) : Balanced s' (Function.update owed i rest) := by
  simp only [LedgerQuery.exec] at done
  split at done
  · cases done
  · split at done
    · cases done
    · obtain ⟨rfl, fresh, table, -⟩ := insertRow_ok done
      refine ⟨?_, fun k v version => ?_⟩
      · rw [wallets, table]
        exact inv.journal.pay fresh oldest
      · rw [wallets] at version
        exact inv.sound k v version

theorem after_other {owed : Owed} {c : Cmd} {r : Except Error c.Ret} (wallets : ∀ q, c ≠ .sql .wallets q)
    (entries : ∀ q, c ≠ .sql .ledgerEntries q) : owed.after c r = owed := by
  unfold Owed.after
  split
  · exact (wallets _ rfl).elim
  · exact (wallets _ rfl).elim
  · exact (entries _ rfl).elim
  · rfl

/-- Any command that follows the protocol keeps the tables balanced. -/
theorem step (inv : Balanced s owed) {c : Cmd} {r : Except Error c.Ret}
    (allowed : (ledgerProtocol platform).allowed (owed i) c)
    (ran : exec platform env i c s = some (r, s')) :
    Balanced s' (Function.update owed i ((ledgerProtocol platform).next (owed i) c r)) := by
  by_cases ends : fate c r = .isOpen
  · have next : (ledgerProtocol platform).next (owed i) c r = (owed i).after c r := if_pos ends
    rw [next]
    by_cases isWallets : ∃ q, c = .sql .wallets q
    · obtain ⟨q, rfl⟩ := isWallets
      have entries := exec_frame ran .ledgerEntries (by simp)
      rcases exec_sql ran with ⟨e, rfl, -⟩ | ⟨a, rfl, done⟩
      · cases ends
      · cases q with
        | getByUserId userId =>
          injection done with _ table
          simpa [Owed.after] using inv.unchanged table.symm entries
        | add userId balanceMinor =>
          have empty : balanceMinor = 0 := allowed
          subst empty
          simpa [Owed.after] using inv.added entries done
        | debit walletId amount => cases a <;> simpa [Owed.after] using inv.moved entries done
        | credit walletId amount => cases a <;> simpa [Owed.after] using inv.moved entries done
    · have wallets := exec_frame ran .wallets fun q same => isWallets ⟨q, same⟩
      rw [ends] at wallets
      by_cases isEntries : ∃ q, c = .sql .ledgerEntries q
      · obtain ⟨q, rfl⟩ := isEntries
        rcases exec_sql ran with ⟨e, rfl, -⟩ | ⟨a, rfl, done⟩
        · cases ends
        · cases q with
          | append walletId amount balanceAfter kind refType refId =>
            obtain ⟨rest, oldest⟩ := allowed
            simpa [Owed.after, oldest] using inv.paid wallets oldest done
          | listByWallet walletId cursor limit =>
            injection done with _ table
            simpa [Owed.after] using inv.unchanged wallets table.symm
      · have entries := exec_frame ran .ledgerEntries fun q same => isEntries ⟨q, same⟩
        rw [ends] at entries
        rw [after_other (fun q same => isWallets ⟨q, same⟩) fun q same => isEntries ⟨q, same⟩, Function.update_eq_self]
        exact inv.unchanged wallets entries
  · have next : (ledgerProtocol platform).next (owed i) c r = [] := if_neg ends
    rw [next]
    refine inv.ended _ (fun applied => ?_) ends (exec_ends ran ends .wallets) (exec_ends ran ends .ledgerEntries)
    obtain ⟨tx, rfl⟩ := fate_applied applied
    exact allowed

end Balanced

theorem useCases_pay : Disciplined (Y := application platform settings) UseCases (ledgerProtocol platform)
    fun _ owed _ => owed = [] where
  code _ _ _ start := useCase_pays start
  answers _ _ _ _ _ _ ran := exec_answer ran

/-- In every run of the use cases the tables stay balanced. -/
theorem reachable_balanced {w : World (application platform settings)} (reached : Reachable UseCases w) :
    Balanced w.state (w.ghost (ledgerProtocol platform)) := by
  refine useCases_pay.invariant Balanced ⟨.empty, fun k w version => ?_⟩ ?_ ?_ reached
  · rcases version with old | ⟨_, new⟩
    · cases old
    · cases new
  · intro w i env c r s' _ inv _ _ allowed _ ran
    exact inv.step allowed ran
  · intro w i c _ inv _ _
    exact inv.ended .undone (by simp) (by simp) (by simp) (by simp)

/-! ### The ledger invariant -/

/-- The committed ledger entries of a wallet, in the order in which they were written. -/
def entriesOf (s : Database) (walletId : Id) : List LedgerEntry :=
  (s.tables .ledgerEntries).committedRows.filter fun e => e.walletId = walletId

/-- Each entry's balance is the previous entry's plus its own amount. -/
def RunningBalance : Int → List LedgerEntry → Prop
  | _, [] => True
  | previous, e :: rest => e.balanceAfterMinor = previous + e.amountMinor ∧ RunningBalance e.balanceAfterMinor rest

theorem lines_entriesOf (s : Database) (walletId : Id) :
    walletBook.lines walletId (s.tables .ledgerEntries).committedRows =
      (entriesOf s walletId).map fun e => (e.amountMinor, e.balanceAfterMinor) := by
  unfold entriesOf Bookkeeping.lines
  induction (s.tables .ledgerEntries).committedRows with
  | nil => rfl
  | cons e rest ih =>
    by_cases mine : e.walletId = walletId <;> simp [Bookkeeping.lineFor, walletBook, mine] <;> exact ih

theorem runningBalance_of_chain {previous : Int} {entries : List LedgerEntry}
    (h : Chain previous (entries.map fun e => (e.amountMinor, e.balanceAfterMinor))) :
    RunningBalance previous entries := by
  induction entries generalizing previous with
  | nil => trivial
  | cons e rest ih => exact ⟨h.1, ih h.2⟩

/-- In every committed state of every run of the use cases, a wallet's balance is the sum of its
entries and not negative, and its entries, which stand in the order of the wallet's updates,
carry the running balance. -/
theorem ledger_invariant {w : World (application platform settings)} (reached : Reachable UseCases w) (k : Id)
    (wallet : WalletRow) (row : ((w.state.tables .wallets).slot k).committed = some wallet) :
    wallet.balanceMinor = ((entriesOf w.state wallet.id).map LedgerEntry.amountMinor).sum ∧
    0 ≤ wallet.balanceMinor ∧
    (entriesOf w.state wallet.id).map (fun e => (e.amountMinor, e.balanceAfterMinor)) = wallet.updates ∧
    RunningBalance 0 (entriesOf w.state wallet.id) := by
  have inv := reachable_balanced reached
  have sound := inv.sound k wallet (Or.inl row)
  have history : (entriesOf w.state wallet.id).map (fun e => (e.amountMinor, e.balanceAfterMinor)) =
      wallet.updates := by
    have key : wallet.id = k := reachable_keyed reached .wallets k wallet (Or.inl row)
    rw [key, ← lines_entriesOf, inv.journal.balanced k, row]
    rfl
  refine ⟨?_, sound.nonNegative, history, runningBalance_of_chain (by rw [history]; exact sound.chain)⟩
  rw [sound.balance, ← history, List.map_map]
  rfl

theorem ledger_invariant_sampleRound :
    (4500 : Int) = ((entriesOf sampleRound.state 15).map LedgerEntry.amountMinor).sum ∧ (0 : Int) ≤ 4500 ∧
    (entriesOf sampleRound.state 15).map (fun e => (e.amountMinor, e.balanceAfterMinor)) =
      [(1000, 1000), (-100, 900), (3600, 4500)] ∧
    RunningBalance 0 (entriesOf sampleRound.state 15) :=
  ledger_invariant (sampleRun_reachable _) 15
    { id := 15, userId := 12, balanceMinor := 4500, currency := "EUR",
      updates := [(1000, 1000), (-100, 900), (3600, 4500)] } (by decide +kernel)

end TheClub
