import TheClub.Requests

/-!
The rows of every table in every run. A row is stored under its own id, it comes from one INSERT,
and what no statement changes of it is as inserted in all its versions.
-/

namespace TheClub
open ReadCommitted

def Row.id : (f : TableName) → Row f → Id
  | .users => User.id
  | .wallets => fun (w : WalletRow) => w.id
  | .ledgerEntries => LedgerEntry.id
  | .seedPairs => SeedPair.id
  | .rounds => Round.id
  | .bets => Bet.id
  | .outbox => OutboxEvent.id
  | .idempotencyKeys => IdempotencyKey.id
  | .refreshTokens => RefreshToken.id

/-- The row with the columns that statements change set to fixed values. -/
def Row.fixed : (f : TableName) → Row f → Row f
  | .users => UserQuery.fixed
  | .wallets => WalletQuery.fixed
  | .ledgerEntries => fun row => row
  | .seedPairs => SeedPairQuery.fixed
  | .rounds => fun row => row
  | .bets => fun row => row
  | .outbox => OutboxQuery.fixed
  | .idempotencyKeys => IdempotencyQuery.fixed
  | .refreshTokens => RefreshTokenQuery.fixed

/-- The row that a statement has inserted. -/
def Query.inserted : (f : TableName) → (q : Query f) → Query.Ret f q → Option (Row f)
  | .users => UserQuery.inserted
  | .wallets => WalletQuery.inserted
  | .ledgerEntries => LedgerQuery.inserted
  | .seedPairs => SeedPairQuery.inserted
  | .rounds => RoundQuery.inserted
  | .bets => BetQuery.inserted
  | .outbox => OutboxQuery.inserted
  | .idempotencyKeys => IdempotencyQuery.inserted
  | .refreshTokens => RefreshTokenQuery.inserted

variable {platform : Platform} {settings : Settings} {ctx : Context} {env : Env} {i : Nat} {s s' : Database}

theorem Query.exec_moved {f : TableName} {q : Query f} {t t' : Table Id (Row f)} {r : Query.Ret f q}
    (h : Query.exec platform ctx i f q t = .ok r t') :
    t.Moved (Row.id f) (Row.fixed f) i (Query.inserted f q r) t' := by
  cases f with
  | users => exact UserQuery.exec_moved h
  | wallets => exact WalletQuery.exec_moved h
  | ledgerEntries => exact LedgerQuery.exec_moved h
  | seedPairs => exact SeedPairQuery.exec_moved h
  | rounds => exact RoundQuery.exec_moved h
  | bets => exact BetQuery.exec_moved h
  | outbox => exact OutboxQuery.exec_moved h
  | idempotencyKeys => exact IdempotencyQuery.exec_moved h
  | refreshTokens => exact RefreshTokenQuery.exec_moved h

/-- A command is a successful statement on table `f`, or does to it what it means for its transaction. -/
theorem exec_table {c : Cmd} {r : Except Error c.Ret} (ran : exec platform env i c s = some (r, s')) (f : TableName) :
    ((∀ q a, (.ran c r : Event signature) ≠ .ran (.sql f q) (.ok a)) ∧
      s'.tables f = (s.tables f).settle i (fate c r)) ∨
    ∃ q a, (.ran c r : Event signature) = .ran (.sql f q) (.ok a) ∧
      (s.tables f).Moved (Row.id f) (Row.fixed f) i (Query.inserted f q a) (s'.tables f) := by
  by_cases mine : ∃ q, c = .sql f q
  · obtain ⟨q, rfl⟩ := mine
    rcases exec_sql ran with ⟨e, rfl, table⟩ | ⟨a, rfl, done⟩
    · exact Or.inl ⟨fun q' a same => (by cases same), table⟩
    · exact Or.inr ⟨q, a, rfl, Query.exec_moved done⟩
  · refine Or.inl ⟨fun q a same => mine ⟨q, ?_⟩, exec_frame ran f fun q same => mine ⟨q, same⟩⟩
    cases same
    rfl

/-- A committed row changes only when the transaction that has locked it commits. -/
theorem exec_committed {c : Cmd} {r : Except Error c.Ret} (ran : exec platform env i c s = some (r, s')) (f : TableName)
    (k : Id) : ((s'.tables f).slot k).committed = ((s.tables f).slot k).committed ∨
      fate c r = .applied ∧ ((s.tables f).slot k).pending = some (i, ((s'.tables f).slot k).committed) := by
  rcases exec_table ran f with ⟨-, table⟩ | ⟨q, a, -, moved⟩
  · rw [table]
    exact Table.committed_settle i _ k _
  · exact Or.inl (moved.committed k)

/-! ### Where rows come from -/

section
variable {ok : World (application platform settings) → Label (application platform settings) → Prop}
  {w w' : World (application platform settings)}

theorem reachable_keyed (reached : Reachable ok w) (f : TableName) : (w.state.tables f).Keyed (Row.id f) := by
  induction reached with
  | refl => exact .empty
  | step _ _ moved ih =>
    rcases World.step_cases moved with ⟨i, q, -, -, rfl⟩ | ⟨i, env, c, next, r, s, -, -, ran, rfl⟩ | ⟨i, c, -, -, rfl⟩
    · exact ih
    · rcases exec_table ran f with ⟨-, table⟩ | ⟨q, a, -, moved⟩
      · rw [table]
        exact ih.settle _
      · exact ih.moved moved
    · simpa using ih.settle .undone

theorem reachable_kept (reached : Reachable ok w) (f : TableName) : (w.state.tables f).Kept (Row.fixed f) := by
  induction reached with
  | refl => exact .empty
  | step _ _ moved ih =>
    rcases World.step_cases moved with ⟨i, q, -, -, rfl⟩ | ⟨i, env, c, next, r, s, -, -, ran, rfl⟩ | ⟨i, c, -, -, rfl⟩
    · exact ih
    · rcases exec_table ran f with ⟨-, table⟩ | ⟨q, a, -, moved⟩
      · rw [table]
        exact ih.settle _
      · exact ih.moved moved
    · simpa using ih.settle .undone

/-- Some process has inserted `row`. -/
def Inserted (f : TableName) (w : World (application platform settings)) (row : Row f) : Prop :=
  ∃ i q a, w.Ran i (.sql f q) (.ok a) ∧ Query.inserted f q a = some row

/-- Rows have the ids they were inserted with, no id is used twice, and every version of a row
agrees with what was inserted. -/
structure Origins (f : TableName) (w : World (application platform settings)) : Prop where
  listed : ∀ row, Inserted f w row → Row.id f row ∈ (w.state.tables f).keys
  unique : ∀ row row', Inserted f w row → Inserted f w row' → Row.id f row = Row.id f row' → row = row'
  origin : ∀ k a, ((w.state.tables f).slot k).Version a →
    ∃ row, Inserted f w row ∧ Row.id f row = k ∧ Row.fixed f a = Row.fixed f row

theorem Inserted.mono {f : TableName} {row : Row f} (run : Run ok w w') (h : Inserted f w row) : Inserted f w' row := by
  obtain ⟨i, q, a, ran, new⟩ := h
  exact ⟨i, q, a, run.ran ran, new⟩

theorem inserted_update {f : TableName} {e : Event signature} {state : Database} {proc : Nat → Option (Prog Reply)}
    {row : Row f} (h : Inserted f ({ w with
      state := state
      proc := proc
      history := Function.update w.history i (w.history i ++ [e]) } : World (application platform settings)) row) :
    Inserted f w row ∨ ∃ q a, e = .ran (.sql f q) (.ok a) ∧ Query.inserted f q a = some row := by
  obtain ⟨j, q, a, ran, new⟩ := h
  rcases (World.ran_update ..).mp ran with ran | ⟨-, same⟩
  · exact Or.inl ⟨j, q, a, ran, new⟩
  · exact Or.inr ⟨q, a, same, new⟩

/-- A step that inserts no row. -/
theorem Origins.keeps {f : TableName} (origins : Origins f w) (old : ∀ row, Inserted f w' row → Inserted f w row)
    (grown : ∀ row, Inserted f w row → Inserted f w' row)
    (keys : (w'.state.tables f).keys = (w.state.tables f).keys)
    (versions : ∀ k a, ((w'.state.tables f).slot k).Version a → ((w.state.tables f).slot k).Version a) :
    Origins f w' where
  listed row new := keys ▸ origins.listed row (old row new)
  unique row row' new new' := origins.unique row row' (old row new) (old row' new')
  origin k a version := by
    obtain ⟨row, new, key, fixed⟩ := origins.origin k a (versions k a version)
    exact ⟨row, grown row new, key, fixed⟩

/-- A statement, which inserts the row it reports. -/
theorem Origins.moved {f : TableName} {new : Option (Row f)} (origins : Origins f w)
    (split : ∀ row, Inserted f w' row ↔ Inserted f w row ∨ new = some row)
    (moved : (w.state.tables f).Moved (Row.id f) (Row.fixed f) i new (w'.state.tables f)) : Origins f w' where
  listed row known := ((split row).mp known).elim (fun old => moved.keys (origins.listed row old))
    fun reports => (moved.reported reports).2
  unique row row' known known' key := by
    have apart : ∀ row row', Inserted f w row → new = some row' → Row.id f row ≠ Row.id f row' :=
      fun row row' old reports key => (moved.reported reports).1 (key ▸ origins.listed row old)
    rcases (split row).mp known with old | reports <;> rcases (split row').mp known' with old' | reports'
    · exact origins.unique row row' old old' key
    · exact (apart row row' old reports' key).elim
    · exact (apart row' row old' reports key.symm).elim
    · exact Option.some.inj (reports.symm.trans reports')
  origin k a version := by
    rcases moved.version version with ⟨b, old, -, fixed⟩ | ⟨reports, key⟩
    · obtain ⟨row, known, key, fixed'⟩ := origins.origin k b old
      exact ⟨row, (split row).mpr (Or.inl known), key, fixed.trans fixed'⟩
    · exact ⟨a, (split a).mpr (Or.inr reports), key, rfl⟩

theorem reachable_origins (reached : Reachable ok w) (f : TableName) : Origins f w := by
  induction reached with
  | refl =>
    refine ⟨?_, ?_, fun k a version => (Table.not_version_empty version).elim⟩
    · rintro row ⟨i, q, a, ran, -⟩
      cases ran
    · rintro row row' ⟨i, q, a, ran, -⟩
      cases ran
  | @step w w' l before allowed moved ih =>
    have grown : ∀ row, Inserted f w row → Inserted f w' row := fun row => .mono (.step (.refl w) allowed moved)
    rcases World.step_cases moved with ⟨i, q, -, -, rfl⟩ | ⟨i, env, c, next, r, s, -, -, ran, rfl⟩ | ⟨i, c, -, -, rfl⟩
    · exact ⟨ih.listed, ih.unique, ih.origin⟩
    · rcases exec_table ran f with ⟨other, table⟩ | ⟨q, a, same, moved⟩
      · refine ih.keeps (fun row new => ?_) grown ?_ fun k a version => ?_
        · exact (inserted_update new).resolve_right fun ⟨q, a, same, _⟩ => other q a same
        · rw [table, Table.keys_settle]
        · rw [table] at version
          exact Table.version_settle version
      · refine ih.moved (fun row => ⟨fun new => ?_, fun known => ?_⟩) moved
        · refine (inserted_update new).imp_right ?_
          rintro ⟨q', a', same', reports⟩
          cases same'.symm.trans same
          exact reports
        · exact known.elim (grown row) fun reports => ⟨i, q, a, (World.ran_update ..).mpr (Or.inr ⟨rfl, same⟩), reports⟩
    · refine ih.keeps (fun row new => ?_) grown (by simp) fun k a version => ?_
      · exact (inserted_update new).resolve_right fun ⟨q, a, same, _⟩ => by cases same
      · exact Slot.version_rollback version

/-- What no statement changes of a row stays the same for the rest of the run. -/
theorem fixed_of_run (reached : Reachable ok w) (run : Run ok w w') {f : TableName} {k : Id} {a b : Row f}
    (before : ((w.state.tables f).slot k).Version a) (after : ((w'.state.tables f).slot k).Version b) :
    Row.fixed f b = Row.fixed f a := by
  obtain ⟨row, new, key, fixed⟩ := (reachable_origins reached f).origin k a before
  have origins := reachable_origins (reached.trans run) f
  obtain ⟨row', new', key', fixed'⟩ := origins.origin k b after
  rw [fixed, fixed', origins.unique row' row new' (new.mono run) (key'.trans key.symm)]

end

end TheClub
