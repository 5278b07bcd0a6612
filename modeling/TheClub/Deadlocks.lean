import TheClub.LockOrder
import TheClub.Locks
import TheClub.Registered

/-!
No cycle of transactions that wait for each other. A waiting transaction waits for one that has
locked something above all it has itself, except that two transactions may both have revealed a
seed pair; then the one waited for does not wait.
-/

namespace TheClub
open ReadCommitted

variable {platform : Platform} {settings : Settings} {env : Env} {i j : Nat} {s s' : Database}

theorem held_moved {α σ : Type} {key : α → Id} {fixed : α → σ} {new : Option α} {t t' : Table Id α}
    (moved : t.Moved key fixed i new t') {k : Id} (held : (t.slot k).holder = some i) :
    (t'.slot k).holder = some i := by
  cases moved with
  | still => exact held
  | @wrote k' a v none seen free same =>
    by_cases here : k = k'
    · subst here
      rw [Table.slot_write_self (Table.mem_keys_of_view seen)]
      rfl
    · rwa [Table.slot_write_other here]
  | inserted reports fresh =>
    rw [Table.slot_insert_other]
    · exact held
    rintro rfl
    rw [t.slot_outside _ fresh] at held
    cases held

theorem move_locks {t t' : Table Id WalletRow} {k : Id} {p : WalletRow → Bool} {amount : Int} {balance : Option Int}
    (done : WalletQuery.move i t k p amount = .ok balance t') :
    balance = none ∧ t' = t ∨ (∃ b, balance = some b) ∧ (t'.slot k).holder = some i := by
  unfold WalletQuery.move at done
  split at done
  · cases done
    exact Or.inl ⟨rfl, rfl⟩
  · cases done
  · rename_i wrote
    obtain ⟨seen, -, -, rfl⟩ := Table.updateRow_wrote wrote
    split at done
    · cases done
      refine Or.inr ⟨⟨_, rfl⟩, ?_⟩
      rw [Table.slot_write_self (Table.mem_keys_of_view seen)]
      rfl
    · cases done

/-! ### What the order says about the locks a process has -/

/-- What process `i` has locked in state `s`, by where it is in the order. -/
structure InOrder (s : Database) (i : Nat) (g : Locked) : Prop where
  below : ∀ f k, ((s.tables f).slot k).holder = some i → f.level ≤ g.level
  wallet : ∀ k, g.wallet = some k → ((s.tables .wallets).slot k).holder = some i
  /-- Having revealed a pair, it has locked no other. -/
  revealed : g.level = 3 → ∃ userId seedPairId, g.seen = some (userId, seedPairId) ∧
    ∀ k v, ((s.tables .seedPairs).slot k).pending = some (i, v) →
      k = seedPairId ∧ ∀ pair, v = some pair → pair.status = .revealed

namespace InOrder
variable {g : Locked}

theorem of_idle (idle : ∀ f k, ((s.tables f).slot k).holder ≠ some i) : InOrder s i {} where
  below f k held := (idle f k held).elim
  wallet k same := by cases same
  revealed level := by cases level

theorem of_pending (inv : InOrder s j g)
    (same : ∀ f k v, ((s'.tables f).slot k).pending = some (j, v) ↔ ((s.tables f).slot k).pending = some (j, v)) :
    InOrder s' j g where
  below f k held := inv.below f k (Slot.holder_of_pending ((same f k _).mp (Slot.pending_of_holder held)))
  wallet k own := Slot.holder_of_pending ((same .wallets k _).mpr (Slot.pending_of_holder (inv.wallet k own)))
  revealed level := by
    obtain ⟨userId, seedPairId, seen, only⟩ := inv.revealed level
    exact ⟨userId, seedPairId, seen, fun k v pending => only k v ((same .seedPairs k v).mp pending)⟩

end InOrder

theorem level_mono {g : Locked} {f : TableName} {q : Query f} {a : Query.Ret f q} (allowed : g.allowed (.sql f q)) :
    g.level ≤ (g.after (.sql f q) (.ok a)).level := by
  have below : ∀ {n}, g.Below n → g.level ≤ n := fun h => h.1.le
  cases f with
  | users =>
    cases q with
    | create email passwordHash => exact Nat.le_of_lt allowed
    | setStatus id status => exact allowed.elim
    | _ => exact le_rfl
  | wallets =>
    cases q with
    | getByUserId userId => exact le_rfl
    | add userId balanceMinor => exact Nat.le_of_lt allowed
    | debit walletId amount =>
      cases a with
      | none => exact le_rfl
      | some balance => exact Nat.le_of_lt allowed
    | credit walletId amount =>
      cases a with
      | none => exact le_rfl
      | some balance => exact le_max_left _ _
  | seedPairs =>
    cases q with
    | getActiveByUserId userId =>
      unfold Locked.after
      split <;> first | exact le_rfl | simp_all
    | createActive userId serverSeed serverSeedHash clientSeed =>
      change g.level ≤ 5
      rcases allowed with low | ⟨level, -⟩ <;> omega
    | consumeNonce seedPairId => exact (Nat.le_of_lt allowed).trans (show 3 ≤ 4 by decide)
    | revealAndDeactivate seedPairId revealedAt => exact Nat.le_of_lt allowed.1
  | rounds => cases q <;> first | exact below allowed | exact le_rfl
  | idempotencyKeys => cases q <;> first | exact below allowed | exact le_rfl
  | refreshTokens => cases q <;> first | exact below allowed | exact le_rfl
  | _ => exact le_rfl

theorem locks_level {ctx : Context} {g : Locked} {f : TableName} {q : Query f} {a : Query.Ret f q}
    {t t' : Table Id (Row f)} (allowed : g.allowed (.sql f q)) (done : Query.exec platform ctx i f q t = .ok a t') :
    t' = t ∨ f.level ≤ (g.after (.sql f q) (.ok a)).level := by
  cases f with
  | users =>
    cases q with
    | create email passwordHash => exact Or.inr le_rfl
    | setStatus id status => exact allowed.elim
    | _ => cases done; exact Or.inl rfl
  | wallets =>
    cases q with
    | getByUserId userId => cases done; exact Or.inl rfl
    | add userId balanceMinor => exact Or.inr le_rfl
    | debit walletId amount =>
      rcases move_locks done with ⟨-, same⟩ | ⟨⟨balance, rfl⟩, -⟩
      · exact Or.inl same
      · exact Or.inr le_rfl
    | credit walletId amount =>
      rcases move_locks done with ⟨-, same⟩ | ⟨⟨balance, rfl⟩, -⟩
      · exact Or.inl same
      · exact Or.inr (le_max_right _ _)
  | seedPairs =>
    cases q with
    | getActiveByUserId userId => cases done; exact Or.inl rfl
    | createActive userId serverSeed serverSeedHash clientSeed => exact Or.inr (show 3 ≤ 5 by decide)
    | consumeNonce seedPairId => exact Or.inr (show 3 ≤ 4 by decide)
    | revealAndDeactivate seedPairId revealedAt => exact Or.inr le_rfl
  | rounds =>
    cases q with
    | insert userId seedPairId nonce outcome settledAt => exact Or.inr le_rfl
    | listByUser userId cursor limit => cases done; exact Or.inl rfl
  | idempotencyKeys =>
    cases q with
    | get userId key => cases done; exact Or.inl rfl
    | _ => exact Or.inr le_rfl
  | refreshTokens =>
    cases q with
    | getByHash tokenHash => cases done; exact Or.inl rfl
    | create userId familyId tokenHash expiresAt => exact Or.inr le_rfl
    | _ => exact allowed.elim
  | _ => exact Or.inr (Nat.zero_le _)

theorem locks_wallet {ctx : Context} {g : Locked} {f : TableName} {q : Query f} {a : Query.Ret f q} {k : Id}
    {t t' : Table Id (Row f)} (done : Query.exec platform ctx i f q t = .ok a t')
    (own : (g.after (.sql f q) (.ok a)).wallet = some k) :
    g.wallet = some k ∨ f = .wallets ∧ (t'.slot k).holder = some i := by
  cases f with
  | wallets =>
    cases q with
    | debit walletId amount =>
      rcases move_locks done with ⟨rfl, -⟩ | ⟨⟨balance, rfl⟩, held⟩
      · exact Or.inl own
      · cases own
        exact Or.inr ⟨rfl, held⟩
    | credit walletId amount =>
      rcases move_locks done with ⟨rfl, -⟩ | ⟨⟨balance, rfl⟩, held⟩
      · exact Or.inl own
      · cases own
        exact Or.inr ⟨rfl, held⟩
    | _ => exact Or.inl own
  | seedPairs =>
    cases q with
    | getActiveByUserId userId =>
      unfold Locked.after at own
      split at own <;> first | exact Or.inl own | simp_all
    | _ => exact Or.inl own
  | users => cases q <;> exact Or.inl own
  | rounds => cases q <;> exact Or.inl own
  | idempotencyKeys => cases q <;> exact Or.inl own
  | refreshTokens => cases q <;> exact Or.inl own
  | _ => exact Or.inl own

theorem reveals {g : Locked} {f : TableName} {q : Query f} {a : Query.Ret f q} (allowed : g.allowed (.sql f q))
    (level : (g.after (.sql f q) (.ok a)).level = 3) :
    (g.level = 3 ∧ f ≠ .seedPairs ∧ (g.after (.sql f q) (.ok a)).seen = g.seen) ∨
      ∃ seedPairId revealedAt, (⟨f, q⟩ : Σ f, Query f) = ⟨.seedPairs, .revealAndDeactivate seedPairId revealedAt⟩ := by
  cases f with
  | users => cases q <;> first | cases level | exact Or.inl ⟨level, by simp, rfl⟩
  | wallets =>
    cases q with
    | getByUserId userId => exact Or.inl ⟨level, by simp, rfl⟩
    | add userId balanceMinor => cases level
    | debit walletId amount =>
      cases a with
      | none => exact Or.inl ⟨level, by simp, rfl⟩
      | some balance => cases level
    | credit walletId amount =>
      cases a with
      | none => exact Or.inl ⟨level, by simp, rfl⟩
      | some balance =>
        change max g.level 2 = 3 at level
        exact Or.inl ⟨by omega, by simp, rfl⟩
  | seedPairs =>
    cases q with
    | getActiveByUserId userId =>
      have same : (g.after (.sql .seedPairs (.getActiveByUserId userId)) (.ok a)).level = g.level := by
        unfold Locked.after
        split <;> first | rfl | simp_all
      have low : g.level < 3 := allowed
      omega
    | revealAndDeactivate seedPairId revealedAt => exact Or.inr ⟨seedPairId, revealedAt, rfl⟩
    | _ => cases level
  | rounds => cases q <;> first | cases level | exact Or.inl ⟨level, by simp, rfl⟩
  | idempotencyKeys => cases q <;> first | cases level | exact Or.inl ⟨level, by simp, rfl⟩
  | refreshTokens => cases q <;> first | cases level | exact Or.inl ⟨level, by simp, rfl⟩
  | _ => exact Or.inl ⟨level, by simp, rfl⟩

namespace InOrder
variable {g : Locked}

theorem statement (inv : InOrder s i g) {f : TableName} {q : Query f} {a : Query.Ret f q}
    (allowed : g.allowed (.sql f q))
    (ran : exec platform env i (.sql f q) s = some (.ok a, s')) : InOrder s' i (g.after (.sql f q) (.ok a)) := by
  obtain ⟨e, absurd, -⟩ | ⟨b, same, done⟩ := exec_sql ran
  · cases absurd
  cases same
  have other : ∀ f', f' ≠ f → s'.tables f' = s.tables f' := fun f' ne =>
    exec_frame ran f' fun q' same => ne (by cases same; rfl)
  have mono := level_mono (a := a) allowed
  refine ⟨fun f' k held => ?_, fun k own => ?_, fun level => ?_⟩
  · by_cases here : f' = f
    · subst here
      rcases locks_level allowed done with still | high
      · rw [still] at held
        exact (inv.below f' k held).trans mono
      · exact high
    · rw [other f' here] at held
      exact (inv.below f' k held).trans mono
  · rcases locks_wallet done own with old | ⟨rfl, held⟩
    · by_cases here : f = .wallets
      · subst here
        exact held_moved (Query.exec_moved done) (inv.wallet k old)
      · rw [other .wallets fun same => here same.symm]
        exact inv.wallet k old
    · exact held
  · rcases reveals allowed level with ⟨before, apart, same⟩ | ⟨seedPairId, revealedAt, same⟩
    · rw [other .seedPairs apart.symm, same]
      exact inv.revealed before
    · cases same
      obtain ⟨low, userId, seen⟩ := allowed
      have none_held : ∀ k, ((s.tables .seedPairs).slot k).holder ≠ some i := fun k held =>
        absurd (inv.below .seedPairs k held) (by simpa [TableName.level] using low)
      refine ⟨userId, seedPairId, seen, fun k v pending => ?_⟩
      rcases changeRow_ok done with ⟨table, -⟩ | ⟨pair, -, -, -, table⟩
      · rw [table] at pending
        exact (none_held k (Slot.holder_of_pending pending)).elim
      · rw [table] at pending
        by_cases here : k = seedPairId
        · subst here
          refine ⟨rfl, fun revealed same => ?_⟩
          unfold Table.write at pending
          dsimp only at pending
          split at pending
          · cases pending
            cases same
            rfl
          · exact (none_held k (Slot.holder_of_pending pending)).elim
        · rw [Table.slot_write_other here] at pending
          exact (none_held k (Slot.holder_of_pending pending)).elim

end InOrder

variable {w : World (application platform settings)}

theorem reachable_inOrder (reached : Reachable GameRequests w) (i : Nat) :
    InOrder w.state i (w.ghost (lockOrder platform) i) := by
  refine game_ordered.invariant (fun s g => ∀ i, InOrder s i (g i)) (fun i => ?_) ?_ ?_ reached i
  · exact .of_idle fun f k held => by cases held
  · intro w i env c r s' _ inv _ _ allowed _ ran j
    by_cases same : j = i
    · subst same
      rw [Function.update_self]
      change InOrder s' j (if fate c r = .isOpen then (w.ghost (lockOrder platform) j : Locked).after c r else {})
      split
      · rename_i isOpen
        by_cases statement : ∃ f q, c = .sql f q
        · obtain ⟨f, q, rfl⟩ := statement
          cases r with
          | error e => cases isOpen
          | ok a => exact (inv j).statement allowed ran
        · have apart : ∀ f q, c ≠ .sql f q := fun f q same => statement ⟨f, q, same⟩
          have still : (w.ghost (lockOrder platform) j : Locked).after c r = w.ghost (lockOrder platform) j := by
            cases c with
            | sql f q => exact (apart f q rfl).elim
            | _ => rfl
          rw [still]
          refine (inv j).of_pending fun f k v => ?_
          rw [exec_frame ran f (apart f), isOpen]
          exact Iff.rfl
      · rename_i ends
        refine .of_idle fun f k held => ?_
        rw [exec_ends ran ends f] at held
        exact (Table.holder_settle ends held).1 rfl
    · rw [Function.update_of_ne same]
      exact (inv j).of_pending fun f k v => exec_pending ran same f k v
  · intro w i c _ inv _ _ j
    by_cases same : j = i
    · subst same
      rw [Function.update_self]
      exact .of_idle fun f k held => Slot.holder_rollback_ne j _ held
    · rw [Function.update_of_ne same]
      exact (inv j).of_pending fun f k v => Slot.pending_rollback.trans (and_iff_right same)

theorem seen_eq (w : World (application platform settings)) (i : Nat) :
    (w.ghost (householdProtocol platform) i : Household).seen = (w.ghost (lockOrder platform) i : Locked).seen := by
  unfold World.ghost
  induction w.history i using List.reverseRecOn with
  | nil => rfl
  | append_singleton h e ih =>
    simp only [List.foldl_append, List.foldl_cons, List.foldl_nil]
    generalize h.foldl (World.observe (householdProtocol platform)) (householdProtocol platform).start = house at ih ⊢
    generalize h.foldl (World.observe (lockOrder platform)) (lockOrder platform).start = locked at ih ⊢
    cases e with
    | died => rfl
    | ran c r =>
      change (if fate c r = .isOpen then Household.after house c r else {}).seen =
        (if fate c r = .isOpen then Locked.after locked c r else {}).seen
      split
      · cases c with
        | sql f q =>
          cases f with
          | seedPairs =>
            cases q with
            | getActiveByUserId userId => rcases r with e | (_ | ⟨pair, _ | ⟨_, _⟩⟩) <;> first | rfl | exact ih
            | _ => cases r <;> exact ih
          | wallets =>
            cases q with
            | debit walletId amount => rcases r with e | (_ | balance) <;> exact ih
            | credit walletId amount => rcases r with e | (_ | balance) <;> exact ih
            | _ => cases r <;> exact ih
          | _ => cases q <;> cases r <;> exact ih
        | _ => exact ih
      · rfl

/-! ### Who waits for whom -/

/-- Process `i` is about to run a statement that needs what process `j` has locked. -/
def WaitsFor (w : World (application platform settings)) (i j : Nat) : Prop :=
  ∃ f q, w.AboutTo i (.sql f q) ∧ (w.state.tables f).Blocks j i (Query.wants platform f q)

instance (w : World (application platform settings)) (i j : Nat) : Decidable (WaitsFor w i j) :=
  decidable_of_iff ((match w.proc i with
      | some (.call (.sql f q) _) => decide ((w.state.tables f).Blocks j i (Query.wants platform f q))
      | _ => false) = true) <| by
    constructor
    · intro blocked
      split at blocked
      · rename_i f q next running
        exact ⟨f, q, ⟨next, running⟩, of_decide_eq_true blocked⟩
      · cases blocked
    · rintro ⟨f, q, ⟨next, running⟩, blocks⟩
      rw [running]
      exact decide_eq_true blocks

/-- A process waits for one that is further in the order, or has revealed a seed pair as the other has. -/
theorem waits_level (reached : Reachable GameRequests w) (waits : WaitsFor w i j) :
    (w.ghost (lockOrder platform) i : Locked).level < (w.ghost (lockOrder platform) j : Locked).level ∨
      (w.ghost (lockOrder platform) j : Locked).level = 3 ∧
        ∃ userId, (w.state.tables .seedPairs).Blocks j i (.value (SeedPairQuery.activeOf userId)) := by
  obtain ⟨f, q, about, blocks⟩ := waits
  have allowed : (w.ghost (lockOrder platform) i : Locked).allowed (.sql f q) := game_ordered.allowed reached about
  obtain ⟨ne, k, held⟩ := blocks.holds
  have above := (reachable_inOrder reached j).below f k held
  have below : ∀ {n}, (w.ghost (lockOrder platform) i : Locked).Below n → n ≤ f.level →
      (w.ghost (lockOrder platform) i : Locked).level < (w.ghost (lockOrder platform) j : Locked).level :=
    fun low level => low.1.trans_le (level.trans above)
  cases f with
  | users =>
    cases q with
    | create email passwordHash => exact Or.inl (Nat.lt_of_lt_of_le allowed above)
    | setStatus id status => exact allowed.elim
    | _ => exact blocks.elim
  | wallets =>
    cases q with
    | getByUserId userId => exact blocks.elim
    | credit walletId amount =>
      rcases allowed with low | own
      · exact Or.inl (Nat.lt_of_lt_of_le low above)
      · cases blocks.2.1.symm.trans ((reachable_inOrder reached i).wallet walletId own)
        exact (ne rfl).elim
    | _ => exact Or.inl (Nat.lt_of_lt_of_le allowed above)
  | seedPairs =>
    cases q with
    | getActiveByUserId userId => exact blocks.elim
    | consumeNonce seedPairId => exact Or.inl (Nat.lt_of_lt_of_le allowed above)
    | revealAndDeactivate seedPairId revealedAt => exact Or.inl (Nat.lt_of_lt_of_le allowed.1 above)
    | createActive userId serverSeed serverSeedHash clientSeed =>
      change 3 ≤ _ at above
      rcases allowed with low | ⟨level, -⟩
      · exact Or.inl (Nat.lt_of_lt_of_le low above)
      · rcases Nat.eq_or_lt_of_le above with same | higher
        · exact Or.inr ⟨same.symm, userId, blocks⟩
        · exact Or.inl (level ▸ higher)
  | rounds => cases q <;> first | exact blocks.elim | exact Or.inl (below allowed le_rfl)
  | outbox => cases q <;> first | exact blocks.elim | exact allowed.elim
  | idempotencyKeys => cases q <;> first | exact blocks.elim | exact Or.inl (below allowed le_rfl)
  | refreshTokens => cases q <;> first | exact blocks.elim | exact allowed.elim | exact Or.inl (below allowed le_rfl)
  | _ => cases q <;> exact blocks.elim

/-- After revealing a seed pair, a process waits only to create the pair that replaces it. -/
theorem waits_revealed (reached : Reachable GameRequests w)
    (level : (w.ghost (lockOrder platform) i : Locked).level = 3)
    (waits : WaitsFor w i j) : ∃ userId k, (w.ghost (lockOrder platform) i : Locked).seen = some (userId, k) ∧
      (w.state.tables .seedPairs).Blocks j i (.value (SeedPairQuery.activeOf userId)) := by
  obtain ⟨f, q, about, blocks⟩ := waits
  have allowed : (w.ghost (lockOrder platform) i : Locked).allowed (.sql f q) := game_ordered.allowed reached about
  have high : ∀ {n}, (w.ghost (lockOrder platform) i : Locked).level < n → ¬n ≤ 3 := by omega
  have apart : ∀ {n}, ¬(w.ghost (lockOrder platform) i : Locked).Below n := fun low => low.2 level
  cases f with
  | users =>
    cases q with
    | create email passwordHash => exact (high allowed (by decide)).elim
    | setStatus id status => exact allowed.elim
    | _ => exact blocks.elim
  | wallets =>
    cases q with
    | getByUserId userId => exact blocks.elim
    | credit walletId amount =>
      rcases allowed with low | own
      · exact (high low (by decide)).elim
      · cases blocks.2.1.symm.trans ((reachable_inOrder reached i).wallet walletId own)
        exact (blocks.1 rfl).elim
    | _ => exact (high allowed (by decide)).elim
  | seedPairs =>
    cases q with
    | getActiveByUserId userId => exact blocks.elim
    | consumeNonce seedPairId => exact (high allowed (by decide)).elim
    | revealAndDeactivate seedPairId revealedAt => exact (high allowed.1 (by decide)).elim
    | createActive userId serverSeed serverSeedHash clientSeed =>
      rcases allowed with low | ⟨-, k, seen⟩
      · exact (high low (by decide)).elim
      · exact ⟨userId, k, seen, blocks⟩
  | rounds => cases q <;> first | exact blocks.elim | exact (apart allowed).elim
  | outbox => cases q <;> first | exact blocks.elim | exact allowed.elim
  | idempotencyKeys => cases q <;> first | exact blocks.elim | exact (apart allowed).elim
  | refreshTokens => cases q <;> first | exact blocks.elim | exact allowed.elim | exact (apart allowed).elim
  | _ => cases q <;> exact blocks.elim

/-- A process that has revealed the active pair of a user and blocks others who create one for
that user, is not blocked by another such process: the user has one active pair. -/
theorem revealed_runs (reached : Reachable GameRequests w) (level : (w.ghost (lockOrder platform) j : Locked).level = 3)
    {userId : Id} (blocks : (w.state.tables .seedPairs).Blocks j i (.value (SeedPairQuery.activeOf userId))) (k : Nat) :
    ¬WaitsFor w j k := by
  intro waits
  have housed := reachable_housed (reached.mono gameRequests_useCases)
  obtain ⟨-, held, v, pending, conflict⟩ := blocks
  obtain ⟨owner, seedPairId, seen, only⟩ := (reachable_inOrder reached j).revealed level
  obtain ⟨rfl, revealed⟩ := only held v pending
  -- its own version is revealed, so the committed one is the active pair
  have active : ∃ pair, ((w.state.tables .seedPairs).slot held).committed = some pair ∧
      SeedPair.activeUser pair = some owner := by
    rcases conflict with mine | old
    · obtain ⟨pair, rfl, matched⟩ := (Option.any_eq_true _ _).mp mine
      simp [SeedPairQuery.activeOf, revealed pair rfl] at matched
    · obtain ⟨pair, committed, matched⟩ := (Option.any_eq_true _ _).mp old
      have own := (housed.seen j owner held ((seen_eq w j).trans seen)).2 pair (Or.inl committed)
      have same : pair.userId = userId := (of_decide_eq_true matched).1
      exact ⟨pair, committed, SeedPair.activeUser_eq.mpr (own.symm.trans same ▸ matched)⟩
  obtain ⟨pair, committed, keyed⟩ := active
  obtain ⟨other, k', seen', ne, held', v', pending', conflict'⟩ := waits_revealed reached level waits
  obtain ⟨rfl, rfl⟩ : owner = other ∧ held = k' := by simpa using seen.symm.trans seen'
  have apart : held ≠ held' := by
    rintro rfl
    cases pending.symm.trans pending'
    exact ne rfl
  rcases conflict' with new | old
  · obtain ⟨pair', rfl, matched⟩ := (Option.any_eq_true _ _).mp new
    refine apart (housed.onePair {k} held held' pair pair' owner ?_ ?_ keyed (SeedPair.activeUser_eq.mpr matched))
    · rw [Table.under, Slot.under_of_holder (Slot.holder_of_pending pending) (by simpa using Ne.symm ne), committed]
    · rw [Table.under, Slot.under_singleton, Slot.view_of_pending pending']
  · obtain ⟨pair', committed', matched⟩ := (Option.any_eq_true _ _).mp old
    exact apart (housed.onePair.committed committed committed' keyed (SeedPair.activeUser_eq.mpr matched))

theorem waits_rise (reached : Reachable GameRequests w) (i j k : Nat) (waits : WaitsFor w i j)
    (onwards : WaitsFor w j k) :
    (w.ghost (lockOrder platform) i : Locked).level < (w.ghost (lockOrder platform) j : Locked).level := by
  rcases waits_level reached waits with higher | ⟨level, userId, blocks⟩
  · exact higher
  · exact (revealed_runs reached level blocks k onwards).elim

theorem after_level_le {g : Locked} (low : g.level ≤ 7) (c : Cmd) (r : Except Error c.Ret) :
    (g.after c r).level ≤ 7 := by
  unfold Locked.after
  split <;> first | exact low | exact max_le low (by decide) | exact Nat.le_of_ble_eq_true rfl

theorem level_le (w : World (application platform settings)) (i : Nat) :
    (w.ghost (lockOrder platform) i : Locked).level ≤ 7 := by
  refine World.ghost_history (lockOrder platform) (R := fun (g : Locked) _ => g.level ≤ 7) (Nat.zero_le _) ?_ w i
  intro g h e low
  cases e with
  | died => exact Nat.zero_le _
  | ran c r =>
    change (if fate c r = .isOpen then Locked.after g c r else {}).level ≤ 7
    split
    · exact after_level_le low c r
    · exact Nat.zero_le _

/-- How the transactions of a state wait for each other. -/
structure DeadlockFree (w : World (application platform settings)) : Prop where
  /-- No transaction waits, through others, for itself. -/
  acyclic : ∀ i, ¬Relation.TransGen (WaitsFor w) i i
  /-- A statement that cannot be run waits for another transaction. -/
  waits : ∀ i f q env, w.AboutTo i (.sql f q) → w.state.clock ≤ env.now → env.id ∉ (w.state.tables f).keys →
    exec platform env i (.sql f q) w.state = none → ∃ j, WaitsFor w i j
  /-- What another transaction waits for is locked by a process that is still running. -/
  running : ∀ i j, WaitsFor w i j → ∃ c, w.AboutTo j c

theorem stuck_waits (reached : Reachable GameRequests w) {f : TableName} {q : Query f} (about : w.AboutTo i (.sql f q))
    (later : w.state.clock ≤ env.now) (fresh : env.id ∉ (w.state.tables f).keys)
    (stuck : exec platform env i (.sql f q) w.state = none) : ∃ j, WaitsFor w i j := by
  have allowed : (w.ghost (lockOrder platform) i : Locked).allowed (.sql f q) := game_ordered.allowed reached about
  unfold exec at stuck
  rw [if_neg (Int.not_lt.mpr later)] at stuck
  simp only [Cmd.run] at stuck
  split at stuck
  · cases stuck
  · split at stuck
    · cases stuck
    · split at stuck
      · cases stuck
      · cases stuck
      · rename_i waits
        obtain ⟨j, blocks⟩ := Query.exec_waits fresh (fun now same => by cases same; exact allowed) waits
        exact ⟨j, f, q, about, blocks⟩

theorem waited_runs (reached : Reachable GameRequests w) (waits : WaitsFor w i j) : ∃ c, w.AboutTo j c := by
  obtain ⟨f, q, -, blocks⟩ := waits
  obtain ⟨-, k, held⟩ := blocks.holds
  exact holder_running reached held

theorem no_deadlock (reached : Reachable GameRequests w) : DeadlockFree w where
  acyclic := acyclic_of_rises (waits_rise reached)
  waits _ _ _ _ about later fresh stuck := stuck_waits reached about later fresh stuck
  running _ _ waits := waited_runs reached waits

/-- Two bets of user 12 at once: the second waits for the wallet that the first has debited. -/
def sampleContention : SampleWorld := World.initial.replay isGame (sampleRegistration ++
  .start 1 (.deposit 12 "deposit-1" 1000) :: turns 1 2 30 7 ++
  .start 2 (.placeBet 12 "bet-1" sampleBets) :: turns 2 3 50 2 ++
  .start 3 (.placeBet 12 "bet-2" sampleBets) :: turns 3 4 80 1)

theorem sampleContention_reachable : Reachable GameRequests sampleContention := run_replay (fun _ _ => id) _ _

theorem no_deadlock_sampleContention : WaitsFor sampleContention 3 2 ∧ DeadlockFree sampleContention :=
  ⟨by decide +kernel, no_deadlock sampleContention_reachable⟩

/-! ### Some process can always go on -/

/-- Process `i` can run command `c` next, with its connection up: no statement gets by without the locks it wants. -/
def CanRun (w : World (application platform settings)) (i : Nat) (c : Cmd) : Prop :=
  ∃ env : Env, env.fault = none ∧ ∃ r s', exec platform env i c w.state = some (r, s')

theorem canRun_of_some {c : Cmd} (env : Env) (up : env.fault = none) (runs : exec platform env i c w.state ≠ none) :
    CanRun w i c := by
  obtain ⟨⟨r, s'⟩, ran⟩ := Option.ne_none_iff_exists'.mp runs
  exact ⟨env, up, r, s', ran⟩

theorem canRun (reached : Reachable GameRequests w) {c : Cmd} (about : w.AboutTo i c) (free : ∀ k, ¬WaitsFor w i k) :
    CanRun w i c ∨ ∃ seed, c = .spin seed ∧ ∀ n, Roulette.spin platform.hmacSha256 n seed = none := by
  have timely : ∀ env : Env, env.fault = none → env.now = w.state.clock →
      c.run platform env i { w.state with clock := env.now } ≠ none → CanRun w i c := by
    intro env up now runs
    refine canRun_of_some env up ?_
    unfold exec
    rwa [if_neg (Int.not_lt.mpr now.ge)]
  cases c with
  | sql f q =>
    obtain ⟨id, fresh⟩ := Infinite.exists_notMem_finset (w.state.tables f).keys.toFinset
    refine Or.inl (canRun_of_some { now := w.state.clock, id } rfl fun stuck => ?_)
    obtain ⟨k, waits⟩ := stuck_waits reached about le_rfl (by simpa using fresh) stuck
    exact free k waits
  | commit tx =>
    refine Or.inl (timely { now := w.state.clock } rfl rfl ?_)
    simp only [Cmd.run]
    split <;> simp
  | uuid4 =>
    obtain ⟨id, fresh⟩ := Infinite.exists_notMem_finset w.state.issued.toFinset
    refine Or.inl (timely { now := w.state.clock, id } rfl rfl ?_)
    simp only [Cmd.run]
    rw [if_neg (by simpa using fresh)]
    simp
  | tokenBytes n =>
    exact Or.inl (timely { now := w.state.clock, bytes := List.replicate n 0 } rfl rfl (by simp [Cmd.run]))
  | spin seed =>
    by_cases derived : ∃ n outcome, Roulette.spin platform.hmacSha256 n seed = some outcome
    · obtain ⟨n, outcome, derived⟩ := derived
      exact Or.inl (timely { now := w.state.clock, fuel := n } rfl rfl (by simp [Cmd.run, derived]))
    · refine Or.inr ⟨seed, rfl, fun n => ?_⟩
      by_contra some
      obtain ⟨outcome, derived'⟩ := Option.ne_none_iff_exists'.mp some
      exact derived ⟨n, outcome, derived'⟩
  | _ => exact Or.inl (timely { now := w.state.clock } rfl rfl (by simp [Cmd.run]))

/-- However the transactions wait for each other, a process that still has something to run can run
it, or waits through others for one that can. -/
theorem waiting_ends (reached : Reachable GameRequests w) {c : Cmd} (about : w.AboutTo i c) :
    ∃ j d, Relation.ReflTransGen (WaitsFor w) i j ∧ w.AboutTo j d ∧
      (CanRun w j d ∨ ∃ seed, d = .spin seed ∧ ∀ n, Roulette.spin platform.hmacSha256 n seed = none) := by
  obtain ⟨j, chain, free⟩ := ends_of_rises (waits_rise reached) (level_le w) i
  obtain ⟨d, about'⟩ : ∃ d, w.AboutTo j d := by
    rcases Relation.ReflTransGen.cases_tail chain with rfl | ⟨k, -, waits⟩
    · exact ⟨c, about⟩
    · exact waited_runs reached waits
  exact ⟨j, d, chain, about', canRun reached about' free⟩

theorem waiting_ends_sampleContention : WaitsFor sampleContention 3 2 ∧ ∃ j d,
    Relation.ReflTransGen (WaitsFor sampleContention) 3 j ∧ sampleContention.AboutTo j d ∧
      (CanRun sampleContention j d ∨
      ∃ seed, d = .spin seed ∧ ∀ n, Roulette.spin samplePlatform.hmacSha256 n seed = none) := by
  have waits : WaitsFor sampleContention 3 2 := by decide +kernel
  obtain ⟨f, q, about, blocks⟩ := waits
  exact ⟨⟨f, q, about, blocks⟩, waiting_ends sampleContention_reachable about⟩

end TheClub
