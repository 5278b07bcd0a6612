import TheClub.Infra.Queries.Statement

/-! Queries of the wallets and ledger_entries tables. -/

namespace TheClub
open ReadCommitted

def WalletRow.move (w : WalletRow) (amount : Int) : WalletRow :=
  { w with balanceMinor := w.balanceMinor + amount, updates := w.updates ++ [(amount, w.balanceMinor + amount)] }

/-- The column's range, then the check constraint. -/
def WalletRow.check (w : WalletRow) : Option Error :=
  if !fitsBigint w.balanceMinor then some .dataError
  else if w.balanceMinor < 0 then some (.integrityError "ck_wallets_balance_non_negative")
  else none

inductive WalletQuery where
  | getByUserId (userId : Id)
  | add (userId : Id) (balanceMinor : Int)
  | debit (walletId : Id) (amount : Int)
  | credit (walletId : Id) (amount : Int)

namespace WalletQuery

abbrev Ret : WalletQuery → Type
  | getByUserId _ => List Wallet
  | add _ _ => Wallet
  | debit _ _ => Option Int
  | credit _ _ => Option Int

/-- The row that a statement has inserted. -/
def inserted : (q : WalletQuery) → q.Ret → Option WalletRow
  | add _ _, w => some { toWallet := w }
  | _, _ => none

/-- `UPDATE wallets SET balance_minor = balance_minor + amount WHERE id = walletId AND p RETURNING balance_minor`. -/
def move (i : Nat) (t : Table Id WalletRow) (walletId : Id) (p : WalletRow → Bool) (amount : Int) :
    Outcome Error (Option Int) (Table Id WalletRow) :=
  match t.updateRow i walletId p fun w => some (w.move amount) with
  | .missed => .ok none t
  | .waits => .waits
  | .wrote w t' =>
    match (w.move amount).check with
    | none => .ok (some (w.move amount).balanceMinor) t'
    | some e => .fails e

def exec (ctx : Context) (i : Nat) (t : Table Id WalletRow) :
    (q : WalletQuery) → Outcome Error q.Ret (Table Id WalletRow)
  | getByUserId userId => .ok (((t.rows i).filter fun w => w.userId = userId).map WalletRow.toWallet) t
  | add userId balanceMinor =>
    let w : WalletRow := { id := ctx.id, userId, balanceMinor, currency := DEFAULT_CURRENCY }
    match w.check with
    | some e => .fails e
    | none =>
      match insertRow ctx i t "uq_wallets_user_id" (fun other => other.userId = userId) w with
      | .ok w t' => .ok w.toWallet t'
      | .fails e => .fails e
      | .waits => .waits
  | debit walletId amount => move i t walletId (fun w => amount ≤ w.balanceMinor) (-amount)
  | credit walletId amount => move i t walletId (fun _ => true) amount

/-- What a wallet keeps all its life. -/
def fixed (w : WalletRow) : WalletRow := { w with balanceMinor := 0, updates := [] }

variable {ctx : Context} {i : Nat} {t t' : Table Id WalletRow}

theorem move_moved {walletId : Id} {p : WalletRow → Bool} {amount : Int} {balance : Option Int}
    (h : move i t walletId p amount = .ok balance t') : t.Moved (fun w => w.id) fixed i none t' := by
  unfold move at h
  split at h
  · cases h
    exact .still rfl
  · cases h
  · rename_i wrote
    split at h
    · cases h
      exact updateRow_moved (by rintro a b ⟨⟩; exact ⟨rfl, rfl⟩) wrote
    · cases h

theorem exec_moved {q : WalletQuery} {r : q.Ret} (h : exec ctx i t q = .ok r t') :
    t.Moved (fun w => w.id) fixed i (inserted q r) t' := by
  cases q with
  | getByUserId userId => cases h; exact .still rfl
  | add userId balanceMinor =>
    simp only [exec] at h
    split at h
    · cases h
    · split at h
      · rename_i inserted
        cases h
        obtain ⟨rfl, -⟩ := insertRow_ok inserted
        exact insertRow_moved rfl inserted
      · cases h
      · cases h
  | debit walletId amount => exact move_moved h
  | credit walletId amount => exact move_moved h

end WalletQuery

/-- Newest first, ties by id: `ORDER BY created_at DESC, id DESC`. -/
def newestFirst {α : Type} (createdAt : α → Time) (id : α → Id) (rows : List α) : List α :=
  rows.insertionSort fun a b => createdAt b < createdAt a ∨ (createdAt a = createdAt b ∧ id b ≤ id a)

/-- The rows after a keyset cursor. -/
def afterCursor {α : Type} (createdAt : α → Time) (id : α → Id) (cursor : Option (Time × Id)) (a : α) : Bool :=
  match cursor with
  | none => true
  | some (time, k) => createdAt a < time ∨ (createdAt a = time ∧ id a < k)

inductive LedgerQuery where
  | append (walletId : Id) (amountMinor balanceAfterMinor : Int) (kind : LedgerKind) (refType : Option String)
      (refId : Option Id)
  | listByWallet (walletId : Id) (cursor : Option (Time × Id)) (limit : Nat)

namespace LedgerQuery

abbrev Ret : LedgerQuery → Type
  | append _ _ _ _ _ _ => LedgerEntry
  | listByWallet _ _ _ => List LedgerEntry

/-- The row that a statement has inserted. -/
def inserted : (q : LedgerQuery) → q.Ret → Option LedgerEntry
  | append _ _ _ _ _ _, row => some row
  | _, _ => none

def exec (ctx : Context) (i : Nat) (t : Table Id LedgerEntry) :
    (q : LedgerQuery) → Outcome Error q.Ret (Table Id LedgerEntry)
  | append walletId amountMinor balanceAfterMinor kind refType refId =>
    if !(fitsBigint amountMinor && fitsBigint balanceAfterMinor) then .fails .dataError
    else if balanceAfterMinor < 0 then .fails (.integrityError "ck_ledger_entries_balance_after_non_negative")
    else insertRow ctx i t "pk_ledger_entries" (fun _ => false)
      { id := ctx.id, walletId, amountMinor, balanceAfterMinor, kind, refType, refId, createdAt := ctx.now }
  | listByWallet walletId cursor limit =>
    let rows := (t.rows i).filter fun e => e.walletId = walletId
    let page := rows.filter (afterCursor LedgerEntry.createdAt LedgerEntry.id cursor)
    .ok ((newestFirst LedgerEntry.createdAt LedgerEntry.id page).take limit) t

theorem exec_moved {ctx : Context} {i : Nat} {t t' : Table Id LedgerEntry} {q : LedgerQuery} {r : q.Ret}
    (h : exec ctx i t q = .ok r t') : t.Moved LedgerEntry.id id i (inserted q r) t' := by
  cases q with
  | append walletId amountMinor balanceAfterMinor kind refType refId =>
    simp only [exec] at h
    split at h
    · cases h
    · split at h
      · cases h
      · exact insertRow_moved rfl h
  | listByWallet walletId cursor limit => cases h; exact .still rfl

end LedgerQuery

end TheClub
