import TheClub.KeyRows
import TheClub.Lone

/-!
No key stays blocked. When no call with a key is running any more and its row, if there is one,
is old enough, a call that runs by itself replays the stored response or gets to its own work.
-/

namespace TheClub
open ReadCommitted Program

variable {platform : Platform} {settings : Settings} {i : Nat} {s s' : Database} {now : Time} {lossy : Prop}

/-! ### A key that no call is using -/

/-- Process `i` has no transaction open on the table, and nobody has locked a row of the key. -/
structure Clear (s : Database) (i : Nat) (userId : Id) (key : String) : Prop where
  usable : s.aborted i = false
  idle : ∀ k, ((s.tables .idempotencyKeys).slot k).holder ≠ some i
  free : ∀ k a, ((s.tables .idempotencyKeys).slot k).Version a → a.owner = (userId, key) →
    ((s.tables .idempotencyKeys).slot k).pending = none
  one : OneRow (s.tables .idempotencyKeys)
  keyed : (s.tables .idempotencyKeys).Keyed (Row.id .idempotencyKeys)

variable {userId : Id} {key requestHash : String} {ttlHours : Int}

theorem Clear.of_same (clear : Clear s i userId key) (usable : s'.aborted i = false)
    (same : s'.tables .idempotencyKeys = s.tables .idempotencyKeys) : Clear s' i userId key where
  usable := usable
  idle := same ▸ clear.idle
  free := same ▸ clear.free
  one := same ▸ clear.one
  keyed := same ▸ clear.keyed

/-- No other transaction has locked the row of a reservation. -/
def RowFree (s : Database) (i : Nat) (rowId : Id) : Prop := ((s.tables .idempotencyKeys).slot rowId).Free i

theorem Clear.lookup (clear : Clear s i userId key) {k : Id} {a : IdempotencyKey}
    (row : ((s.tables .idempotencyKeys).slot k).committed = some a) (owner : a.owner = (userId, key)) :
    ((s.tables .idempotencyKeys).rows i).filter (IdempotencyQuery.ofKey userId key) = [a] := by
  have seen : ((s.tables .idempotencyKeys).slot k).view i = some a := by
    rw [Slot.view_of_not_holder (clear.idle k), row]
  refine Table.filter_rows seen (ofKey_iff.mpr owner) fun k' b seen' owner' => ?_
  rw [Slot.view_of_not_holder (clear.idle k')] at seen'
  exact clear.one.committed seen' row (congrArg some (ofKey_iff.mp owner')) (congrArg some owner)

theorem Clear.not_inDoubt (clear : Clear s i userId key) :
    (s.tables .idempotencyKeys).inDoubt i (IdempotencyQuery.ofKey userId key) = false := by
  rw [Bool.eq_false_iff]
  intro doubt
  obtain ⟨k, -, other⟩ := List.any_eq_true.mp doubt
  split at other
  · rename_i j v pending
    obtain ⟨-, conflict⟩ := (Bool.and_eq_true ..).mp other
    have version : ∃ a, ((s.tables .idempotencyKeys).slot k).Version a ∧ a.owner = (userId, key) := by
      rcases (Bool.or_eq_true ..).mp conflict with new | old
      · obtain ⟨a, rfl, owner⟩ := (Option.any_eq_true _ _).mp new
        exact ⟨a, Or.inr ⟨j, pending⟩, ofKey_iff.mp owner⟩
      · obtain ⟨a, row, owner⟩ := (Option.any_eq_true _ _).mp old
        exact ⟨a, Or.inl row, ofKey_iff.mp owner⟩
    obtain ⟨a, version, owner⟩ := version
    cases (clear.free k a version owner).symm.trans pending
  · cases other

theorem Clear.any_rows (clear : Clear s i userId key) :
    ((s.tables .idempotencyKeys).rows i).any (IdempotencyQuery.ofKey userId key) = true ↔
    ∃ k a, ((s.tables .idempotencyKeys).slot k).committed = some a ∧ a.owner = (userId, key) := by
  rw [List.any_eq_true]
  constructor
  · rintro ⟨a, member, owner⟩
    obtain ⟨k, seen⟩ := Table.mem_rows.mp member
    rw [Slot.view_of_not_holder (clear.idle k)] at seen
    exact ⟨k, a, seen, ofKey_iff.mp owner⟩
  · rintro ⟨k, a, row, owner⟩
    exact ⟨a, Table.mem_rows.mpr ⟨k, by rw [Slot.view_of_not_holder (clear.idle k), row]⟩, ofKey_iff.mpr owner⟩

theorem Clear.creates (clear : Clear s i userId key) {expiresAt : Time} : ∃ id, ∀ ctx : Context, ctx.id = id →
    Query.exec platform ctx i .idempotencyKeys (.createPending userId key requestHash expiresAt)
      (s.tables .idempotencyKeys) ≠
      .waits := by
  obtain ⟨id, fresh⟩ := Infinite.exists_notMem_finset (s.tables .idempotencyKeys).keys.toFinset
  refine ⟨id, ?_⟩
  rintro ctx rfl
  rw [List.mem_toFinset] at fresh
  simp only [Query.exec, IdempotencyQuery.exec, insertRow]
  rw [dif_pos fresh]
  unfold Table.insertUnique
  rw [clear.not_inDoubt]
  simp only [Bool.false_eq_true, if_false]
  by_cases duplicate : ((s.tables .idempotencyKeys).rows i).any (IdempotencyQuery.ofKey userId key) = true
  · rw [if_pos duplicate]
    simp
  · rw [if_neg duplicate]
    simp

variable (platform settings lossy) in
/-- Run alone from `now` on, process `i` finishes `p` as `R` says, unless its connection is lost. -/
abbrev Yields {α : Type} (i : Nat) (now : Time) (R : Except Error α → Database → Prop) (p : Prog α)
    (s : Database) : Prop :=
  Leads (application platform settings) i (Later lossy now) (Finishes fun r m => R r m ∨ Lost lossy r) p s

theorem tryReserve_yields (clear : Clear s i userId key) : Yields platform settings lossy i now (fun r m =>
    (r = .ok none ∧ Clear m i userId key ∧ m.tables .idempotencyKeys = s.tables .idempotencyKeys ∧
      ∃ k a, ((s.tables .idempotencyKeys).slot k).committed = some a ∧ a.owner = (userId, key)) ∨
    ∃ rowId, r = .ok (some rowId) ∧ RowFree m i rowId) (tryReserve userId key requestHash ttlHours) s := by
  refine leads_handle (leads_bind (leads_bind (leads_attempt ?_)))
  refine .next (moves_datetimeNow later_can) fun env r m later ran => ?_
  obtain ⟨time, rfl, -, tables, aborted⟩ := alone_datetimeNow later ran
  have clear := clear.of_same (by rw [aborted, clear.usable]) (congrFun tables .idempotencyKeys)
  have same := congrFun tables .idempotencyKeys
  refine .next (moves_sql later_can clear.usable clear.creates) fun env r m' later ran => ?_
  rcases alone_sql_cases later clear.usable ran with ⟨row, rfl, usable, done⟩ | ⟨e, rfl, table, failed⟩ | ⟨may, rfl⟩
  · refine .here ⟨_, rfl, ?_⟩
    refine .next (moves_commit later_can) fun env r m₂ later ran => ?_
    rcases alone_commit_cases later usable ran with ⟨rfl, -, tables⟩ | ⟨may, applied, rfl⟩
    · obtain ⟨rfl, fresh, table, -⟩ := insertRow_ok done
      refine .here ⟨_, rfl, .here ⟨_, rfl, Or.inl (Or.inr ⟨_, rfl, ?_⟩)⟩⟩
      rw [RowFree, tables, table, Table.slot_commit]
      dsimp only
      rw [Table.slot_insert_self]
      exact Or.inl (by simp [Slot.commit, Slot.holder])
    · exact .here ⟨_, rfl, _, rfl, .here ⟨_, rfl, Or.inr ⟨may, applied, rfl⟩⟩⟩
  · obtain ⟨rfl, duplicate⟩ := insertRow_fails failed
    obtain ⟨k, a, stored, owner⟩ := clear.any_rows.mp duplicate
    rw [rollback_of_idle clear.idle] at table
    refine .here ⟨_, rfl, .next (moves_rollback later_can) fun env r m₂ later ran => ?_⟩
    obtain ⟨rfl, usable, tables'⟩ := alone_rollback ran
    have same' : m₂.tables .idempotencyKeys = m.tables .idempotencyKeys := by
      rw [tables', table, rollback_of_idle clear.idle]
    refine .here ⟨_, rfl, _, rfl, .here ⟨_, rfl, Or.inl (Or.inl
      ⟨rfl, clear.of_same usable same', same'.trans same, k, a, ?_, owner⟩)⟩⟩
    rwa [← same]
  · refine .here ⟨_, rfl, .next (moves_rollback later_can) fun env r m₂ later ran => ?_⟩
    obtain ⟨rfl, -, -⟩ := alone_rollback ran
    exact .here ⟨_, rfl, _, rfl, .here ⟨_, rfl, Or.inr ⟨may, false, rfl⟩⟩⟩

theorem slot_deleted {t : Table Id IdempotencyKey} {k : Id} (idle : ∀ k, (t.slot k).holder ≠ some i)
    (member : k ∈ t.keys) (k' : Id) :
    ((t.write i k none).commit i).slot k' = if k' = k then {} else t.slot k' := by
  split
  · rename_i here
    subst here
    rw [Table.slot_commit, Table.slot_write_self member, Slot.commit_of_holder (Slot.holder_write ..),
      Slot.view_write_self]
  · rename_i apart
    rw [Table.slot_commit, Table.slot_write_other apart, Slot.commit_of_other (idle k')]

theorem Clear.deleted (clear : Clear s i userId key) {k : Id} {a : IdempotencyKey}
    (stored : ((s.tables .idempotencyKeys).slot k).committed = some a) (owner : a.owner = (userId, key))
    (usable : s'.aborted i = false)
    (table : s'.tables .idempotencyKeys = ((s.tables .idempotencyKeys).write i k none).commit i) :
    Clear s' i userId key ∧ ∀ k a, ((s'.tables .idempotencyKeys).slot k).committed = some a →
      a.owner ≠ (userId, key) := by
  have member := Table.mem_keys_of_version (Or.inl stored)
  have seen : ((s.tables .idempotencyKeys).slot k).view i = some a := by
    rw [Slot.view_of_not_holder (clear.idle k), stored]
  have free : ((s.tables .idempotencyKeys).slot k).Free i :=
    Or.inl (by rw [Slot.holder, clear.free k a (Or.inl stored) owner]; rfl)
  have slots := slot_deleted clear.idle member
  have old : ∀ {k' b}, ((s'.tables .idempotencyKeys).slot k').Version b →
      k' ≠ k ∧ (s'.tables .idempotencyKeys).slot k' = (s.tables .idempotencyKeys).slot k' := by
    intro k' b version
    have slot := slots k'
    rw [← table] at slot
    split at slot
    · rw [slot] at version
      rcases version with row | ⟨_, row⟩ <;> cases row
    · exact ⟨‹_›, slot⟩
  refine ⟨⟨usable, fun k' => ?_, fun k' b version owned => ?_, ?_, fun k' b version => ?_⟩, fun k' b row owned => ?_⟩
  · rw [table]
    exact Slot.holder_commit_ne i _
  · obtain ⟨-, same⟩ := old version
    rw [same] at version ⊢
    exact clear.free k' b version owned
  · rw [table]
    exact (clear.one.write seen free (by rintro b u ⟨⟩)).commit
  · rw [(old version).2] at version
    exact clear.keyed k' b version
  · obtain ⟨apart, same⟩ := old (Or.inl row)
    rw [same] at row
    exact apart (clear.one.committed row stored (congrArg some owned) (congrArg some owner))

theorem Clear.gets : ∃ id, ∀ ctx : Context, ctx.id = id →
    Query.exec platform ctx i .idempotencyKeys (.get userId key) (s.tables .idempotencyKeys) ≠ .waits :=
  ⟨0, fun _ _ => by simp [Query.exec, IdempotencyQuery.exec]⟩

/-- A lookup of a row that is completed or old enough: it replays the response, or reclaims the row. -/
theorem resolveExisting_yields (clear : Clear s i userId key) {k : Id} {a : IdempotencyKey}
    (stored : ((s.tables .idempotencyKeys).slot k).committed = some a) (owner : a.owner = (userId, key))
    (hash : a.requestHash = requestHash) (old : a.Stuck now) : Yields platform settings lossy i now (fun r m =>
      (a.status = .completed ∧ r = .ok (some (a.responseBody.getD []))) ∨
      r = .ok none ∧ Clear m i userId key ∧
        ∀ k a, ((m.tables .idempotencyKeys).slot k).committed = some a → a.owner ≠ (userId, key))
    (resolveExisting userId key requestHash) s := by
  have one := clear.lookup stored owner
  refine leads_bind (leads_attempt ?_)
  refine .next (moves_sql later_can clear.usable Clear.gets) fun env r m later ran => ?_
  rcases alone_sql_cases later clear.usable ran with ⟨rows, rfl, usable, done⟩ | ⟨e, rfl, -, failed⟩ | ⟨may, rfl⟩
  rotate_left
  · cases failed
  · exact .here ⟨_, rfl, closing_leads later_can fun _ _ _ => Or.inr ⟨may, false, rfl⟩⟩
  obtain ⟨found, same⟩ := Outcome.ok.inj done
  obtain rfl := found.symm.trans one
  have clear := clear.of_same usable same.symm
  have stored : ((m.tables .idempotencyKeys).slot k).committed = some a := by rwa [← same]
  change Leads _ _ _ _ (if a.requestHash ≠ requestHash then _ else _) m
  rw [if_neg (not_not.mpr hash)]
  split
  · exact .here ⟨_, rfl, closing_leads later_can fun _ _ _ => Or.inl (Or.inl ⟨‹_›, rfl⟩)⟩
  refine .next (moves_datetimeNow later_can) fun env r m' later ran => ?_
  obtain ⟨time, rfl, le, tables, aborted⟩ := alone_datetimeNow later ran
  have clear := clear.of_same (by rw [aborted, clear.usable]) (congrFun tables .idempotencyKeys)
  have stored : ((m'.tables .idempotencyKeys).slot k).committed = some a := by rwa [congrFun tables .idempotencyKeys]
  have stuck : time - a.createdAt > seconds PENDING_RECLAIM_SECONDS := lt_of_lt_of_le old (Int.sub_le_sub_right le _)
  change Leads _ _ _ _ (if ¬time - a.createdAt > seconds PENDING_RECLAIM_SECONDS then _ else _) m'
  rw [if_neg (not_not.mpr stuck)]
  obtain rfl : a.id = k := clear.keyed k a (Or.inl stored)
  have seen : ((m'.tables .idempotencyKeys).slot a.id).view i = some a := by
    rw [Slot.view_of_not_holder (clear.idle _), stored]
  have deletes : ∃ id, ∀ ctx : Context, ctx.id = id →
      Query.exec platform ctx i .idempotencyKeys (.delete a.id) (m'.tables .idempotencyKeys) ≠ .waits :=
    ⟨0, fun _ _ => changeRow_free (Or.inl (by rw [Slot.holder, clear.free _ a (Or.inl stored) owner]; rfl))⟩
  refine .next (moves_sql later_can clear.usable deletes) fun env r m₂ later ran => ?_
  rcases alone_sql_cases later clear.usable ran with ⟨u, rfl, usable, done⟩ | ⟨e, rfl, -, failed⟩ | ⟨may, rfl⟩
  rotate_left
  · exact (changeRow_not_fails failed).elim
  · exact .here ⟨_, rfl, closing_leads later_can fun _ _ _ => Or.inr ⟨may, false, rfl⟩⟩
  rcases changeRow_ok done with ⟨-, missed⟩ | ⟨b, -, -, -, table⟩
  · cases missed a seen
  refine .next (moves_commit later_can) fun env r m₃ later ran => ?_
  rcases alone_commit_cases later usable ran with ⟨rfl, usable, tables⟩ | ⟨may, applied, rfl⟩
  · obtain ⟨clear, none⟩ := clear.deleted stored owner usable ((tables .idempotencyKeys).trans (congrArg _ table))
    refine .here ⟨_, rfl, closing_leads later_can fun m₄ usable tables => ?_⟩
    have same := (tables .idempotencyKeys).trans (rollback_of_idle clear.idle)
    exact Or.inl (Or.inr ⟨rfl, clear.of_same usable same, by rwa [same]⟩)
  · exact .here ⟨_, rfl, closing_leads later_can fun _ _ _ => Or.inr ⟨may, applied, rfl⟩⟩

/-! ### The work of a call that has its row -/

/-- `mark_completed` and the cleanup raise no verdict on the key, so a call with its row ends as its work does. -/
theorem alone_runReserved {rowId : Id} {work : Prog Dict} {r : Except Error Dict}
    (alone : Alone (application platform settings) i (runReserved rowId work) s r s') :
    ∃ done m, Alone (application platform settings) i work s done m ∧ EndsAs done r := by
  rcases alone_bind.mp alone with ⟨tried, m, attempted, rest⟩ | ⟨e, -, attempted⟩
  · obtain ⟨_, same, went⟩ := alone_attempt.mp attempted
    cases same
    obtain ⟨completed, m₁, body, ends⟩ := alone_unitOfWork went
    have cleaned : EndsAs tried r := by
      cases tried with
      | ok responseBody => exact Or.inl (alone_done.mp rest).1
      | error e =>
        rcases alone_bind.mp rest with ⟨u, m', -, raised⟩ | ⟨e', rfl, failed⟩
        · exact Or.inl (alone_done.mp raised).1
        · obtain ⟨done, m', deleted, ends⟩ := alone_unitOfWork failed
          refine Or.inr ⟨e', rfl, ?_⟩
          rcases ends with same | ⟨e, same, other⟩
          · subst same
            obtain ⟨env, ran⟩ := alone_perform.mp deleted
            exact exec_not_verdict ran
          · cases same
            exact other
    rcases alone_bind.mp body with ⟨responseBody, m', worked, marking⟩ | ⟨e, rfl, worked⟩
    · refine ⟨.ok responseBody, m', worked, EndsAs.trans ?_ (ends.trans cleaned)⟩
      rcases alone_bind.mp marking with ⟨u, m'', -, returned⟩ | ⟨e, rfl, marked⟩
      · exact Or.inl (alone_done.mp returned).1
      · obtain ⟨env, ran⟩ := alone_perform.mp marked
        exact Or.inr ⟨e, rfl, exec_not_verdict ran⟩
    · exact ⟨.error e, m₁, worked, ends.trans cleaned⟩
  · obtain ⟨_, same, -⟩ := alone_attempt.mp attempted
    cases same

theorem RowFree.exec {rowId : Id} (free : RowFree s i rowId) {env : Env} {c : Cmd} {r : Except Error c.Ret}
    (ran : exec platform env i c s = some (r, s')) : RowFree s' i rowId := by
  by_contra locked
  unfold RowFree Slot.Free at locked
  push Not at locked
  cases held : ((s'.tables .idempotencyKeys).slot rowId).pending with
  | none => exact locked.1 (by rw [Slot.holder, held]; rfl)
  | some p =>
    obtain ⟨j, v⟩ := p
    have holder := Slot.holder_of_pending held
    have other : j ≠ i := fun same => locked.2 (same ▸ holder)
    have before := Slot.holder_of_pending ((exec_pending ran other .idempotencyKeys rowId v).mp held)
    rcases free with none | mine
    · cases none.symm.trans before
    · exact other (Option.some.inj (before.symm.trans mine))

/-- A statement on a row that nobody else has locked runs, if only to fail in an aborted transaction. -/
theorem moves_free {q : IdempotencyQuery}
    (answers : ∃ id, ∀ ctx : Context, ctx.id = id →
      Query.exec platform ctx i .idempotencyKeys q (s.tables .idempotencyKeys) ≠ .waits) :
    ∃ env a m, Later lossy now env ∧ exec platform env i (.sql .idempotencyKeys q) s = some (a, m) := by
  cases usable : s.aborted i with
  | false => exact moves_sql later_can usable answers
  | true =>
    refine moves_of_some later_can 0 ?_
    unfold exec
    rw [if_neg (not_lt.mpr (le_max_right _ _))]
    simp [Cmd.run, usable]

theorem unitOfWork_finishes {α : Type} {tx : Tx} {body : Prog α} {R : Database → Prop}
    (keeps : ∀ env c r m m', R m → exec platform env i c m = some (r, m') → R m')
    (works : Leads (application platform settings) i (Later lossy now) (Finishes fun _ m => R m) body s) :
    Leads (application platform settings) i (Later lossy now) (Finishes fun _ m => R m) (unitOfWork tx body) s := by
  refine leads_bind (leads_attempt (works.mono ?_))
  rintro _ m ⟨r, rfl, kept⟩
  refine ⟨r, rfl, ?_⟩
  cases r with
  | ok a =>
    refine .next (moves_commit later_can) fun env r m' later ran => ?_
    cases r with
    | ok u => exact .here ⟨_, rfl, keeps _ _ _ _ _ kept ran⟩
    | error e => exact .here ⟨_, rfl, keeps _ _ _ _ _ kept ran⟩
  | error e =>
    refine .next (moves_rollback later_can) fun env r m' later ran => ?_
    cases r with
    | ok u => exact .here ⟨_, rfl, keeps _ _ _ _ _ kept ran⟩
    | error e => exact .here ⟨_, rfl, keeps _ _ _ _ _ kept ran⟩

theorem runReserved_finishes {rowId : Id} {work : Prog Dict} (free : RowFree s i rowId)
    (works : Leads (application platform settings) i (Later lossy now) (Finishes fun _ _ => True) work s) :
    Leads (application platform settings) i (Later lossy now) (Finishes fun _ _ => True)
      (runReserved rowId work) s := by
  have body : Leads (application platform settings) i (Later lossy now) (Finishes fun _ m => RowFree m i rowId)
      (do
        let responseBody ← work
        IdempotencyKeyRepository.markCompleted rowId responseBody
        return responseBody) s := by
    refine leads_bind ((works.keeps (I := fun m => RowFree m i rowId)
      (fun _ _ _ _ _ kept ran => kept.exec ran) free).mono ?_)
    rintro _ m ⟨⟨r, rfl, -⟩, free⟩
    refine ⟨r, rfl, ?_⟩
    cases r with
    | ok responseBody =>
      have marks : ∀ ctx, Query.exec platform ctx i .idempotencyKeys (.markCompleted rowId responseBody)
          (m.tables .idempotencyKeys) ≠ .waits := fun _ => changeRow_free free
      refine .next (moves_free ⟨0, fun ctx _ => marks ctx⟩) fun env r m' later ran => ?_
      cases r with
      | ok u => exact .here ⟨_, rfl, free.exec ran⟩
      | error e => exact .here ⟨_, rfl, free.exec ran⟩
    | error e => exact ⟨_, rfl, free⟩
  refine leads_handle ((unitOfWork_finishes (R := fun m => RowFree m i rowId)
    (fun _ _ _ _ _ kept ran => kept.exec ran) body).mono ?_)
  rintro _ m ⟨r, rfl, free⟩
  refine ⟨r, rfl, ?_⟩
  cases r with
  | ok responseBody => trivial
  | error e =>
    refine leads_bind ((unitOfWork_finishes (R := fun _ => True) (fun _ _ _ _ _ _ _ => trivial) ?_).mono ?_)
    · have deletes : ∀ ctx, Query.exec platform ctx i .idempotencyKeys (.delete rowId) (m.tables .idempotencyKeys) ≠
          .waits := fun _ => changeRow_free free
      refine .next (moves_free ⟨0, fun ctx _ => deletes ctx⟩) fun env r m' later ran => ?_
      exact .here ⟨_, rfl, trivial⟩
    · rintro _ m' ⟨r, rfl, -⟩
      refine ⟨r, rfl, ?_⟩
      cases r with
      | ok u => exact .here ⟨_, rfl, trivial⟩
      | error e => exact ⟨_, rfl, trivial⟩

/-- What is left of a call with its row: the work is run, the call ends as the work does, and it ends if the
work does. -/
structure Executes (platform : Platform) (settings : Settings) (i : Nat) (ok : Env → Prop) (work rest : Prog Dict)
    (s : Database) : Prop where
  reserved : ∃ rowId, rest = runReserved rowId work
  ends : ∀ r s', Alone (application platform settings) i rest s r s' →
    ∃ done m, Alone (application platform settings) i work s done m ∧ EndsAs done r
  finishes : Leads (application platform settings) i ok (Finishes fun _ _ => True) work s →
    Leads (application platform settings) i ok (Finishes fun _ _ => True) rest s

theorem executes_of_reserved {rowId : Id} {work : Prog Dict} (free : RowFree s i rowId) :
    Executes platform settings i (Later lossy now) work (runReserved rowId work) s where
  reserved := ⟨rowId, rfl⟩
  ends _ _ := alone_runReserved
  finishes := runReserved_finishes free

/-- A call on a key that nobody uses ends in a replay, or gets to run its work. -/
theorem runIdempotent_leads (clear : Clear s i userId key) {work : Prog Dict}
    (stored : ∀ k a, ((s.tables .idempotencyKeys).slot k).committed = some a → a.owner = (userId, key) →
      a.requestHash = requestHash ∧ a.Stuck now) :
    Leads (application platform settings) i (Later lossy now) (fun p m =>
      (∃ k a, ((s.tables .idempotencyKeys).slot k).committed = some a ∧ a.owner = (userId, key) ∧
        a.status = .completed ∧ p = .done (.ok (a.responseBody.getD []))) ∨
      Executes platform settings i (Later lossy now) work p m ∨ ∃ r, p = .done r ∧ Lost lossy r)
      (runIdempotent userId key requestHash ttlHours work) s := by
  refine leads_bind ((tryReserve_yields clear).mono ?_)
  rintro _ m ⟨r, rfl, (⟨rfl, clear', same, k, a, row, owner⟩ | ⟨rowId, rfl, free⟩) | ⟨may, applied, rfl⟩⟩
  · obtain ⟨hash, old⟩ := stored k a row owner
    refine ⟨_, rfl, leads_bind ((resolveExisting_yields clear' (same ▸ row) owner hash old).mono ?_)⟩
    rintro _ m' ⟨r, rfl, (⟨completed, rfl⟩ | ⟨rfl, clear'', none⟩) | ⟨may, applied, rfl⟩⟩
    · exact ⟨_, rfl, .here (Or.inl ⟨k, a, row, owner, completed, rfl⟩)⟩
    · refine ⟨_, rfl, leads_bind ((tryReserve_yields clear'').mono ?_)⟩
      rintro _ m'' ⟨r, rfl, (⟨rfl, -, -, k', b, row', owner'⟩ | ⟨rowId, rfl, free⟩) | ⟨may, applied, rfl⟩⟩
      · exact (none k' b row' owner').elim
      · exact ⟨_, rfl, .here (Or.inr (Or.inl (executes_of_reserved free)))⟩
      · exact ⟨_, rfl, Or.inr (Or.inr ⟨_, rfl, may, applied, rfl⟩)⟩
    · exact ⟨_, rfl, Or.inr (Or.inr ⟨_, rfl, may, applied, rfl⟩)⟩
  · exact ⟨_, rfl, .here (Or.inr (Or.inl (executes_of_reserved free)))⟩
  · exact ⟨_, rfl, Or.inr (Or.inr ⟨_, rfl, may, applied, rfl⟩)⟩

/-- No key is wedged. Whatever calls with the key have left behind, once none of them is running
and the row, if there is one, has been there for too long, another call with its request hash
replays the stored response or executes its work, and then raises that the key is in progress or
in conflict only if the work does. -/
theorem no_key_wedged {w : World (application platform settings)} (reached : Reachable Keeping w)
    (dead : ∀ j hash, Calls w j userId key hash → ∀ c, ¬w.AboutTo j c)
    (stored : ∀ k a, ((w.state.tables .idempotencyKeys).slot k).committed = some a → a.owner = (userId, key) →
      a.requestHash = requestHash ∧ a.Stuck now)
    (fresh : w.request i = none) (work : Prog Dict) :
    Leads (application platform settings) i (Later lossy now) (fun p m =>
      (∃ k a body, ((w.state.tables .idempotencyKeys).slot k).committed = some a ∧ a.owner = (userId, key) ∧
        a.status = .completed ∧ a.responseBody = some body ∧ p = .done (.ok body)) ∨
      Executes platform settings i (Later lossy now) work p m ∨ ∃ r, p = .done r ∧ Lost lossy r)
      (runIdempotent userId key requestHash ttlHours work) w.state := by
  have clear : Clear w.state i userId key := by
    refine ⟨?_, unstarted_idle reached fresh .idempotencyKeys, fun k a version owner => ?_, reachable_oneRow reached,
      reachable_keyed reached .idempotencyKeys⟩
    · rw [Bool.eq_false_iff]
      exact fun aborted => aborted_started reached i aborted fresh
    · cases locked : ((w.state.tables .idempotencyKeys).slot k).pending with
      | none => rfl
      | some p =>
        obtain ⟨j, v⟩ := p
        obtain ⟨hash, calls⟩ := locked_calls (fun _ _ => id) reached locked version
        obtain ⟨rfl, rfl⟩ := Prod.mk.inj owner
        obtain ⟨c, running⟩ := holder_running reached (Slot.holder_of_pending locked)
        exact (dead j hash calls c running).elim
  refine (runIdempotent_leads clear stored).mono ?_
  rintro p m (⟨k, a, row, owner, completed, rfl⟩ | rest)
  · obtain ⟨j, own, -, -, won, some⟩ := (reachable_keyRows (fun _ _ => id) reached).completed k a row completed
    rw [won] at some
    obtain ⟨body, stored⟩ := Option.ne_none_iff_exists'.mp some
    exact Or.inl ⟨k, a, body, row, owner, completed, stored, by rw [stored]; rfl⟩
  · exact Or.inr rest

/-- User 12 registers, and a deposit dies right after its reservation. -/
def abandonedDeposit : SampleWorld := sampleRun (sampleRegistration ++
  .start 1 (.createDeposit 12 "deposit-1" [49] 1000) :: turns 1 2 30 3 ++ [.kill 1])

/-- What `POST /wallet/deposit` runs for 1000 from user 12. -/
def depositWork : Prog Dict := BalanceView.toDict <$> deposit samplePlatform sampleSettings 12 "deposit-1" 1000

/-- The second call reclaims the row and deposits. -/
theorem no_key_wedged_abandonedDeposit : Leads (application samplePlatform sampleSettings) 2 (Later False (seconds 40))
    (fun p m => (∃ k a body, ((abandonedDeposit.state.tables .idempotencyKeys).slot k).committed = some a ∧
        a.owner = (12, "deposit-1") ∧ a.status = .completed ∧ a.responseBody = some body ∧ p = .done (.ok body)) ∨
      Executes samplePlatform sampleSettings 2 (Later False (seconds 40)) depositWork p m ∨
        ∃ r, p = .done r ∧ Lost False r)
    (runIdempotent 12 "deposit-1" (hashRequestBody samplePlatform [49]) 24 depositWork) abandonedDeposit.state ∧
    ∃ responseBody m, Alone (application samplePlatform sampleSettings) 2
      (runIdempotent 12 "deposit-1" (hashRequestBody samplePlatform [49]) 24 depositWork) abandonedDeposit.state
      (.ok responseBody) m ∧ balanceIn responseBody = some 1000 := by
  have reached : Reachable Keeping abandonedDeposit := by
    refine (sampleRun_reachable _).mono fun w l useCase => ?_
    cases l with
    | start j q => cases q <;> trivial
    | _ => trivial
  have stopped : ∀ j ∈ abandonedDeposit.started, (match abandonedDeposit.proc j with
      | some (.call _ _) => false
      | some (.done _) | none => true) = true := by decide +kernel
  have stored : ∀ a ∈ (abandonedDeposit.state.tables .idempotencyKeys).committedRows,
      a.requestHash = hashRequestBody samplePlatform [49] ∧ a.Stuck (seconds 40) := by decide +kernel
  have fresh : abandonedDeposit.request 2 = none := Option.isNone_iff_eq_none.mp (by decide +kernel)
  constructor
  · refine no_key_wedged reached ?_ (fun k a row _ => stored a (Table.mem_committedRows.mpr ⟨k, row⟩)) fresh _
    rintro j hash - c ⟨next, running⟩
    have quiet := stopped j (started_of_proc reached j _ running)
    rw [running] at quiet
    cases quiet
  · have ran : ((solo (application samplePlatform sampleSettings) 2
        ((List.range 30).map fun n => { now := seconds 40, id := 60 + n, bytes := [] })
        (runIdempotent 12 "deposit-1" (hashRequestBody samplePlatform [49]) 24 depositWork)
        abandonedDeposit.state).any fun x => match x.1 with
          | .ok responseBody => balanceIn responseBody = some 1000
          | .error _ => false) = true := by decide +kernel
    obtain ⟨⟨r, m⟩, ran, told⟩ := (Option.any_eq_true _ _).mp ran
    cases r with
    | ok responseBody => exact ⟨responseBody, m, alone_solo ran, of_decide_eq_true told⟩
    | error e => cases told

end TheClub
