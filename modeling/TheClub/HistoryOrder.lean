import TheClub.Histories
import TheClub.ReadCommitted.Ordered

/-!
The order of the histories. The list endpoints sort by when the inserting transaction began and by
a random id, while balances and nonces follow the order in which transactions lock a row. The two
agree as long as each row is inserted above the rows of its wallet or seed pair.
-/

namespace TheClub
open ReadCommitted Program

variable {platform : Platform} {settings : Settings} {env : Env} {i : Nat} {s s' : Database}

/-! ### Rows that are inserted in order -/

/-- The columns by which a row is sorted that process `i` inserts at this step. -/
def stamp (env : Env) (i : Nat) (s : Database) : Time ×ₗ Id := toLex ((env.context i s).now, env.id)

theorem exec_ordered {f : TableName} {owner : Row f → Id} {lt : Row f → Row f → Prop}
    (constant : Row.fixed f = fun a => a)
    (ordered : (s.tables f).Ordered owner lt) {c : Cmd} {r : Except Error c.Ret}
    (ran : exec platform env i c s = some (r, s'))
    (greatest : ∀ q a row, (.ran c r : Event signature) = .ran (.sql f q) (.ok a) → Query.inserted f q a = some row →
      ∀ k b, ((s.tables f).slot k).Version b → owner b = owner row → lt b row) : (s'.tables f).Ordered owner lt := by
  rcases exec_table ran f with ⟨-, table⟩ | ⟨q, a, same, moved⟩
  · rw [table]
    exact ordered.settle _
  · rw [constant] at moved
    exact ordered.moved moved fun row => greatest q a row same

section
variable (f : TableName) (owner : Row f → Id) (createdAt : Row f → Time) (id : Row f → Id)
    (insertsFor : Query f → Option Id)

/-- Each row of table `f` is inserted above all rows of its owner in the table: its transaction
began later, or at the same time and the id drawn is greater. -/
def Ascends (w : World (application platform settings)) (l : Label (application platform settings)) : Prop :=
  UseCases w l ∧ ∀ i env q k, l = .run i env → w.AboutTo i (.sql f q) → insertsFor q = some k →
    ∀ a ∈ (w.state.tables f).versions, owner a = k → historyKey createdAt id a < stamp env i w.state

def ascends (w : World (application platform settings)) : Label (application platform settings) → Bool
  | .start _ q => q.isUseCase
  | .run i env =>
    match w.proc i with
    | some (.call (.sql f' q) _) =>
      if same : f' = f then
        match insertsFor (same ▸ q) with
        | some k => (w.state.tables f).versions.all fun a =>
          owner a ≠ k || decide (historyKey createdAt id a < stamp env i w.state)
        | none => true
      else true
    | _ => true
  | .kill _ => true

variable {f owner createdAt id insertsFor}

theorem ascends_sound (w : World (application platform settings)) (l : Label (application platform settings))
    (accepted : ascends f owner createdAt id insertsFor w l = true) : Ascends f owner createdAt id insertsFor w l := by
  cases l with
  | start i q => exact ⟨accepted, by rintro _ _ _ _ ⟨⟩⟩
  | run i env =>
    refine ⟨rfl, ?_⟩
    rintro _ _ q k ⟨⟩ ⟨next, running⟩ inserts a member mine
    simp only [ascends, running, dif_pos, inserts] at accepted
    simpa [mine] using List.all_eq_true.mp accepted a member
  | kill i => exact ⟨rfl, by rintro _ _ _ _ ⟨⟩⟩

/-- Rows that are inserted in ascending order, and that no statement changes, stand in that order. -/
theorem ascends_ordered (constant : Row.fixed f = fun a => a)
    (stamped : ∀ env i s q a s' row, exec platform env i (.sql f q) s = some (.ok a, s') →
      Query.inserted f q a = some row → insertsFor q = some (owner row) ∧ historyKey createdAt id row = stamp env i s)
    {w : World (application platform settings)} (reached : Reachable (Ascends f owner createdAt id insertsFor) w) :
    (w.state.tables f).Ordered owner fun a b => historyKey createdAt id a < historyKey createdAt id b := by
  induction reached with
  | refl => exact .empty
  | @step w w' l _ allowed moved ih =>
    rcases World.step_cases moved with
      ⟨i, q, -, -, rfl⟩ | ⟨i, env, c, next, r, s, rfl, called, ran, rfl⟩ | ⟨i, c, -, -, rfl⟩
    · exact ih
    · refine exec_ordered constant ih ran ?_
      intro q a row same new k b version owned
      cases same
      obtain ⟨inserts, key⟩ := stamped env i w.state q a s row ran new
      rw [key]
      exact allowed.2 i env q _ rfl ⟨next, called⟩ inserts b (Table.mem_versions.mpr ⟨k, version⟩) owned
    · simpa using ih.settle (i := i) .undone

end

/-- Oldest first, a history whose rows were inserted in order is in the order of insertion. -/
theorem newestFirst_reverse {α : Type} {createdAt : α → Time} {id : α → Id} {rows : List α} {p : α → Bool}
    (distinct : (rows.map (historyKey createdAt id)).Nodup)
    (added : (rows.filter p).Pairwise fun a b => historyKey createdAt id a < historyKey createdAt id b) :
    (newestFirst createdAt id rows).reverse.filter p = rows.filter p := by
  rw [newestFirst_eq]
  exact Keyset.oldest_first distinct added

/-! ### The transaction history -/

/-- What `list_by_wallet` returns of the committed entries when the limit is large enough. -/
def transactionHistory (s : Database) (walletId : Id) : List LedgerEntry :=
  newestFirst LedgerEntry.createdAt LedgerEntry.id (entriesOf s walletId)

/-- Newest first, each balance is the balance listed right after it, 0 after the last, plus its own amount. -/
def RunsBack : List LedgerEntry → Prop
  | [] => True
  | e :: older => e.balanceAfterMinor = (older.head?.map LedgerEntry.balanceAfterMinor).getD 0 + e.amountMinor ∧
      RunsBack older

/-- The history of every wallet is a running balance that ends in the wallet's balance. -/
def HistoriesBalance (w : World (application platform settings)) : Prop :=
  ∀ (k : Id) (wallet : WalletRow), ((w.state.tables .wallets).slot k).committed = some wallet →
    RunsBack (transactionHistory w.state wallet.id) ∧
    ∀ e ∈ (transactionHistory w.state wallet.id).head?, e.balanceAfterMinor = wallet.balanceMinor

def LedgerQuery.appendsTo : LedgerQuery → Option Id
  | .append walletId _ _ _ _ _ => some walletId
  | .listByWallet _ _ _ => none

/-- Each entry is appended above all entries of its wallet. -/
abbrev EntriesAscend : World (application platform settings) → Label (application platform settings) → Prop :=
  Ascends .ledgerEntries LedgerEntry.walletId LedgerEntry.createdAt LedgerEntry.id LedgerQuery.appendsTo

variable {w : World (application platform settings)}

theorem entries_ordered (reached : Reachable EntriesAscend w) :
    (w.state.tables .ledgerEntries).Ordered LedgerEntry.walletId fun a b =>
      historyKey LedgerEntry.createdAt LedgerEntry.id a < historyKey LedgerEntry.createdAt LedgerEntry.id b := by
  refine ascends_ordered (f := .ledgerEntries) rfl ?_ reached
  intro env i s q a s' row ran new
  cases q with
  | append walletId amountMinor balanceAfterMinor kind refType refId =>
    cases new
    rcases exec_sql ran with ⟨_, bad, -⟩ | ⟨a, same, done⟩
    · cases bad
    · cases same
      simp only [Query.exec, LedgerQuery.exec] at done
      split at done
      · cases done
      · split at done
        · cases done
        · obtain ⟨rfl, -⟩ := insertRow_ok done
          exact ⟨rfl, rfl⟩
  | listByWallet walletId cursor limit => cases new

theorem transactionHistory_reverse (reached : Reachable EntriesAscend w) (walletId : Id) :
    (transactionHistory w.state walletId).reverse = entriesOf w.state walletId := by
  have ids := (reachable_keyed reached .ledgerEntries).committedRows_nodup
  have added : (entriesOf w.state walletId).Pairwise fun a b =>
      historyKey LedgerEntry.createdAt LedgerEntry.id a < historyKey LedgerEntry.createdAt LedgerEntry.id b :=
    (entries_ordered reached).committedRows walletId
  have oldest := newestFirst_reverse (p := fun _ => true) (historyKey_nodup ids _) (by rwa [List.filter_true])
  rwa [List.filter_true, List.filter_true] at oldest

theorem RunningBalance.append {previous : Int} {entries : List LedgerEntry} {e : LedgerEntry}
    (h : RunningBalance previous (entries ++ [e])) : RunningBalance previous entries ∧
      e.balanceAfterMinor = (entries.getLast?.map LedgerEntry.balanceAfterMinor).getD previous + e.amountMinor ∧
      e.balanceAfterMinor = previous + ((entries ++ [e]).map LedgerEntry.amountMinor).sum := by
  induction entries generalizing previous with
  | nil => exact ⟨trivial, h.1, by simpa using h.1⟩
  | cons first rest ih =>
    obtain ⟨before, last, total⟩ := ih h.2
    refine ⟨⟨h.1, before⟩, ?_, ?_⟩
    · rw [last, List.getLast?_cons, Option.map_some, Option.getD_some,
        Option.getD_map LedgerEntry.balanceAfterMinor first]
    · rw [total, h.1]
      simp only [List.cons_append, List.map_cons, List.sum_cons]
      omega

theorem runsBack_of_running {newest : List LedgerEntry} (h : RunningBalance 0 newest.reverse) : RunsBack newest := by
  induction newest with
  | nil => trivial
  | cons e older ih =>
    rw [List.reverse_cons] at h
    obtain ⟨before, last, -⟩ := h.append
    rw [List.getLast?_reverse] at last
    exact ⟨last, ih before⟩

theorem histories_balance (reached : Reachable EntriesAscend w) : HistoriesBalance w := by
  intro k wallet row
  obtain ⟨total, -, -, running⟩ := ledger_invariant (reached.mono fun _ _ allowed => allowed.1) k wallet row
  rw [← transactionHistory_reverse reached] at total running
  refine ⟨runsBack_of_running running, ?_⟩
  intro e newest
  obtain ⟨older, listed⟩ := List.head?_eq_some_iff.mp newest
  rw [listed, List.reverse_cons] at total running
  rw [total, running.append.2.2, Int.zero_add]

/-! ### A history that balances, and one that does not -/

/-- The ids are drawn in ascending order. -/
def sampleAscending : SampleWorld := World.initial.replay
  (ascends .ledgerEntries LedgerEntry.walletId LedgerEntry.createdAt LedgerEntry.id LedgerQuery.appendsTo)
  (sampleRegistration ++
  .start 1 (.deposit 12 "deposit-1" 1000) :: turns 1 2 30 7 ++
  .start 2 (.placeBet 12 "bet-1" sampleBets) :: turns 2 3 50 40)

theorem histories_balance_sampleAscending :
    (transactionHistory sampleAscending.state 15).map (fun e => (e.amountMinor, e.balanceAfterMinor)) =
      [(3600, 4500), (-100, 900), (1000, 1000)] ∧ HistoriesBalance sampleAscending :=
  ⟨by decide +kernel, histories_balance (run_replay ascends_sound _ _)⟩

/-- The id drawn for the payout is less than the one drawn for the stake. -/
def samplePayoutBelow : SampleWorld := sampleRun (sampleRegistration ++
  .start 1 (.deposit 12 "deposit-1" 1000) :: turns 1 2 30 7 ++
  .start 2 (.placeBet 12 "bet-1" sampleBets) :: turns 2 3 50 10 ++ turns 2 3 40 1 ++ turns 2 3 70 20)

theorem payout_listed_below_stake : ¬∀ w : SampleWorld, Reachable UseCases w → HistoriesBalance w := by
  intro claim
  have row : ((samplePayoutBelow.state.tables .wallets).slot 15).committed = some
      { id := 15, userId := 12, balanceMinor := 4500, currency := "EUR",
        updates := [(1000, 1000), (-100, 900), (3600, 4500)] } := by decide +kernel
  have newest : (transactionHistory samplePayoutBelow.state 15).head?.map LedgerEntry.balanceAfterMinor = some 900 := by
    decide +kernel
  obtain ⟨e, first, balance⟩ := Option.map_eq_some_iff.mp newest
  have ends := (claim samplePayoutBelow (sampleRun_reachable _) 15 _ row).2 e first
  exact absurd (balance.symm.trans ends) (by decide)

end TheClub
