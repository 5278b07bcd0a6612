import TheClub.Household
import TheClub.Infra.Rows
import TheClub.Exceptions
import TheClub.ReadCommitted.Possible

/-!
Every registered user has one wallet and one active seed pair, whichever of the open transactions
commit: what a transaction takes away or has not given yet it owes, and a transaction in debt
does not commit.
-/

namespace TheClub
open ReadCommitted

variable {platform : Platform} {settings : Settings}

/-- Whose active pair this is. -/
def SeedPair.activeUser (pair : SeedPair) : Option Id := if pair.status = .active then some pair.userId else none

theorem SeedPair.activeUser_eq {pair : SeedPair} {userId : Id} :
    pair.activeUser = some userId ↔ SeedPairQuery.activeOf userId pair = true := by
  unfold SeedPair.activeUser SeedPairQuery.activeOf
  split <;> simp_all

def OwnedBy (userId : Id) (w : WalletRow) : Prop := w.userId = userId

def ActiveOf (userId : Id) (pair : SeedPair) : Prop := pair.userId = userId ∧ pair.status = .active

/-- Users, wallets and seed pairs between the statements, whichever set `C` of transactions commits. -/
structure Housed (users : Table Id User) (wallets : Table Id WalletRow) (pairs : Table Id SeedPair)
    (g : Nat → Household) : Prop where
  stays : ∀ k a, (users.slot k).committed = some a → (users.slot k).pending = none
  newcomers : ∀ i, ∀ u ∈ (g i).owesWallet, (users.slot u).holder = some i
  oneWallet : wallets.Unique fun w => some w.userId
  onePair : pairs.Unique SeedPair.activeUser
  seen : ∀ i userId k, (g i).seen = some (userId, k) → k ∈ pairs.keys ∧ ∀ a, (pairs.slot k).Version a →
    a.userId = userId
  housed : ∀ C u user, users.under C u = some user → (∃ i ∈ C, u ∈ (g i).owesWallet) ∨ wallets.Holds (OwnedBy u) C
  seeded : ∀ C u user, users.under C u = some user → (∃ i ∈ C, u ∈ (g i).owesPair) ∨ pairs.Holds (ActiveOf u) C

namespace Housed
variable {users users' : Table Id User} {wallets wallets' : Table Id WalletRow} {pairs pairs' : Table Id SeedPair}
  {g : Nat → Household} {i : Nat} {d : Household} {ctx : Context}

theorem empty : Housed Table.empty Table.empty Table.empty fun _ => {} where
  stays _ _ committed := by cases committed
  newcomers _ _ member := absurd member List.not_mem_nil
  oneWallet := .empty
  onePair := .empty
  seen _ _ _ none := by cases none
  housed C u user row := by
    rw [Table.under_outside List.not_mem_nil] at row
    cases row
  seeded C u user row := by
    rw [Table.under_outside List.not_mem_nil] at row
    cases row

/-- A debt stays unless process `i` has settled it. -/
theorem owes_of {f : Household → List Id} {C : Set Nat} {u : Id} (kept : i ∈ C → u ∈ f (g i) → u ∈ f d)
    (owes : ∃ j ∈ C, u ∈ f (g j)) : ∃ j ∈ C, u ∈ f (Function.update g i d j) := by
  obtain ⟨j, member, debt⟩ := owes
  refine ⟨j, member, ?_⟩
  by_cases mine : j = i
  · subst mine
    rw [Function.update_self]
    exact kept member debt
  · rwa [Function.update_of_ne mine]

theorem seen_of (inv : Housed users wallets pairs g) {userId k : Id} {j : Nat}
    (own : d.seen = some (userId, k) → k ∈ pairs.keys ∧ ∀ a, (pairs.slot k).Version a → a.userId = userId)
    (seen : (Function.update g i d j).seen = some (userId, k)) :
    k ∈ pairs.keys ∧ ∀ a, (pairs.slot k).Version a → a.userId = userId := by
  by_cases mine : j = i
  · subst mine
    rw [Function.update_self] at seen
    exact own seen
  · rw [Function.update_of_ne mine] at seen
    exact inv.seen j userId k seen

theorem newcomers_of (inv : Housed users wallets pairs g) (sub : ∀ u ∈ d.owesWallet, u ∈ (g i).owesWallet) {j : Nat}
    {u : Id} (owes : u ∈ (Function.update g i d j).owesWallet) : (users.slot u).holder = some j := by
  by_cases mine : j = i
  · subst mine
    rw [Function.update_self] at owes
    exact inv.newcomers j u (sub u owes)
  · rw [Function.update_of_ne mine] at owes
    exact inv.newcomers j u owes

/-- A statement on the users table. -/
theorem userQuery (inv : Housed users wallets pairs g) {q : UserQuery} {a : q.Ret}
    (allowed : (g i).allowed (.sql .users q))
    (done : UserQuery.exec platform ctx i users q = .ok a users') :
    Housed users' wallets pairs (Function.update g i ((g i).after (.sql .users q) (.ok a))) := by
  cases q with
  | setStatus id status => exact allowed.elim
  | getById id =>
    cases done
    simpa [Household.after] using inv
  | getByEmail email =>
    cases done
    simpa [Household.after] using inv
  | create email passwordHash =>
    obtain ⟨built, fresh, table, -⟩ := insertRow_ok done
    have own : a.id = ctx.id := by rw [built]
    rw [← built] at table
    subst table
    have earlier : ∀ C u user, (users.insert i ctx.id a fresh).under C u = some user →
        i ∈ C ∧ u = a.id ∨ users.under C u = some user := by
      intro C u user row
      rw [Table.under_insert] at row
      split at row
      · rename_i new
        exact Or.inl ⟨new.1, new.2.trans own.symm⟩
      · exact Or.inr row
    refine ⟨fun k b committed => ?_, fun j u owes => ?_, inv.oneWallet, inv.onePair, fun j userId k => ?_,
      fun C u user row => ?_, fun C u user row => ?_⟩
    · rw [Table.committed_insert] at committed
      have apart : k ≠ ctx.id := by
        rintro rfl
        rw [users.slot_outside _ fresh] at committed
        cases committed
      rw [Table.slot_insert_other apart]
      exact inv.stays k b committed
    · have old : ∀ j, u ∈ (g j).owesWallet → ((users.insert i ctx.id a fresh).slot u).holder = some j := by
        intro j owes
        have held := inv.newcomers j u owes
        have apart : u ≠ ctx.id := by
          rintro rfl
          rw [users.slot_outside _ fresh] at held
          cases held
        rw [Table.slot_insert_other apart]
        exact held
      by_cases mine : j = i
      · subst mine
        rw [Function.update_self] at owes
        rcases List.mem_append.mp owes with owes | new
        · exact old j owes
        · rw [List.mem_singleton.mp new, own, Table.slot_insert_self]
          rfl
      · rw [Function.update_of_ne mine] at owes
        exact old j owes
    · exact inv.seen_of (inv.seen i userId k)
    · rcases earlier C u user row with ⟨mine, rfl⟩ | row
      · exact Or.inl ⟨i, mine, by rw [Function.update_self]; exact List.mem_append_right _ (List.mem_singleton.mpr rfl)⟩
      · exact (inv.housed C u user row).imp_left (owes_of fun _ => List.mem_append_left _)
    · rcases earlier C u user row with ⟨mine, rfl⟩ | row
      · exact Or.inl ⟨i, mine, by rw [Function.update_self]; exact List.mem_append_right _ (List.mem_singleton.mpr rfl)⟩
      · exact (inv.seeded C u user row).imp_left (owes_of fun _ => List.mem_append_left _)

/-- A statement that writes nothing. -/
theorem still (inv : Housed users wallets pairs g) (wallet : d.owesWallet = (g i).owesWallet)
    (owes : ∀ u ∈ (g i).owesPair, u ∈ d.owesPair)
    (seen : ∀ userId k, d.seen = some (userId, k) →
      k ∈ pairs.keys ∧ ∀ a, (pairs.slot k).Version a → a.userId = userId) :
    Housed users wallets pairs (Function.update g i d) where
  stays := inv.stays
  newcomers _ _ := inv.newcomers_of fun _ => wallet ▸ id
  oneWallet := inv.oneWallet
  onePair := inv.onePair
  seen _ userId k := inv.seen_of (seen userId k)
  housed C u user row := (inv.housed C u user row).imp_left (owes_of fun _ => wallet ▸ id)
  seeded C u user row := (inv.seeded C u user row).imp_left (owes_of fun _ => owes u)

theorem pairWrite (inv : Housed users wallets pairs g) {k : Id} {b c : SeedPair} (seen : (pairs.slot k).view i = some b)
    (free : (pairs.slot k).Free i) (same : c.userId = b.userId) (active : c.status = .active → b.status = .active)
    (wallet : d.owesWallet = (g i).owesWallet) (owes : ∀ u ∈ (g i).owesPair, u ∈ d.owesPair)
    (lost : b.status = .active → c.status = .active ∨ b.userId ∈ d.owesPair) (read : d.seen = (g i).seen) :
    Housed users wallets (pairs.write i k (some c)) (Function.update g i d) := by
  have version : ∀ {k' a}, ((pairs.write i k (some c)).slot k').Version a →
      ∃ a', (pairs.slot k').Version a' ∧ a.userId = a'.userId := by
    intro k' a version
    rcases Table.version_write version with old | ⟨rfl, written⟩
    · exact ⟨a, old, rfl⟩
    · cases written
      exact ⟨b, Slot.version_view seen, same⟩
  refine ⟨inv.stays, fun j u => inv.newcomers_of fun u => wallet ▸ id, inv.oneWallet, ?_, fun j userId k' looked => ?_,
    fun C u user row => ?_, fun C u user row => ?_⟩
  · refine inv.onePair.write seen free fun a u written keyed => ?_
    cases written
    rw [SeedPair.activeUser_eq, SeedPairQuery.activeOf, decide_eq_true_eq] at keyed ⊢
    exact ⟨same ▸ keyed.1, active keyed.2⟩
  · obtain ⟨listed, own⟩ := inv.seen_of (fun mine => inv.seen i userId k' (read ▸ mine)) looked
    refine ⟨listed, fun a version' => ?_⟩
    obtain ⟨a', old, user⟩ := version version'
    exact user.trans (own a' old)
  · exact (inv.housed C u user row).imp_left (owes_of fun _ => wallet ▸ id)
  · rcases inv.seeded C u user row with debt | holds
    · exact Or.inl (owes_of (fun _ => owes u) debt)
    by_cases kept : b.status = .active → c.status = .active
    · exact Or.inr (holds.write seen free fun ⟨own, active⟩ => ⟨c, rfl, same.trans own, kept active⟩)
    obtain ⟨was, is⟩ := Classical.not_imp.mp kept
    have debt := (lost was).resolve_left is
    by_cases affected : u = b.userId ∧ i ∈ C
    · obtain ⟨rfl, mine⟩ := affected
      exact Or.inl ⟨i, mine, by rwa [Function.update_self]⟩
    · refine Or.inr ?_
      obtain ⟨k', a, row', own⟩ := holds
      refine ⟨k', a, ?_, own⟩
      rw [Table.under_write free (Table.mem_keys_of_view seen), if_neg, row']
      rintro ⟨mine, rfl⟩
      rw [Table.under, Slot.under_of_free free mine, seen] at row'
      cases row'
      exact affected ⟨own.1.symm, mine⟩

/-- A statement on the seed_pairs table. -/
theorem pairQuery (inv : Housed users wallets pairs g) (keyed : pairs.Keyed SeedPair.id)
    (kept : pairs.Kept SeedPairQuery.fixed) {q : SeedPairQuery} {a : q.Ret}
    (allowed : (g i).allowed (.sql .seedPairs q)) (done : SeedPairQuery.exec ctx i pairs q = .ok a pairs') :
    Housed users wallets pairs' (Function.update g i ((g i).after (.sql .seedPairs q) (.ok a))) := by
  cases q with
  | getActiveByUserId userId =>
    simp only [SeedPairQuery.exec] at done
    injection done with same table
    subst table
    have unchanged : Housed users wallets pairs (Function.update g i (g i)) := by simpa using inv
    rcases a with _ | ⟨pair, _ | ⟨_, _⟩⟩
    · exact unchanged
    · refine inv.still rfl (fun _ => id) fun user k looked => ?_
      cases looked
      have member : pair ∈ (pairs.rows i).filter (SeedPairQuery.activeOf userId) := same ▸ List.mem_singleton.mpr rfl
      obtain ⟨row, active⟩ := List.mem_filter.mp member
      obtain ⟨k, seen⟩ := Table.mem_rows.mp row
      rw [keyed k pair (Slot.version_view seen)]
      refine ⟨Table.mem_keys_of_view seen, fun b version => ?_⟩
      have user : b.userId = pair.userId := by
        have same := congrArg SeedPair.userId (kept.version seen version)
        exact same
      rw [SeedPairQuery.activeOf, decide_eq_true_eq] at active
      exact user.trans active.1
    · exact unchanged
  | createActive userId serverSeed serverSeedHash clientSeed =>
    obtain ⟨built, fresh, rfl, alone⟩ := insertRow_ok done
    obtain ⟨d, given⟩ : ∃ d, d = { g i with owesPair := (g i).owesPair.filter (· ≠ userId) } := ⟨_, rfl⟩
    have after : (g i).after (.sql .seedPairs (.createActive userId serverSeed serverSeedHash clientSeed))
        (.ok a) = d :=
      given.symm
    rw [after]
    have wallet : d.owesWallet = (g i).owesWallet := by rw [given]
    have looks : d.seen = (g i).seen := by rw [given]
    refine ⟨inv.stays, fun j u owes => ?_, inv.oneWallet, ?_, fun j user k looked => ?_,
      fun C u user row => ?_, fun C u user row => ?_⟩
    · exact inv.newcomers_of (fun _ => wallet ▸ id) owes
    · refine inv.onePair.insert fun k b version visible u own other => ?_
      have apart := alone k b version visible
      cases own
      rw [SeedPair.activeUser_eq.mp other] at apart
      cases apart
    · obtain ⟨listed, own⟩ := inv.seen_of (fun mine => inv.seen i user k (looks ▸ mine)) looked
      refine ⟨List.mem_append_left _ listed, fun b version => ?_⟩
      rcases Table.version_insert version with old | ⟨rfl, -⟩
      · exact own b old
      · exact (fresh listed).elim
    · exact (inv.housed C u user row).imp_left (owes_of fun _ => wallet ▸ id)
    · by_cases own : u = userId
      · subst own
        by_cases mine : i ∈ C
        · exact Or.inr (Table.Holds.inserted mine ⟨rfl, rfl⟩)
        · exact (inv.seeded C u user row).imp (owes_of fun member => (mine member).elim) fun holds => holds.insert
      · refine (inv.seeded C u user row).imp (owes_of fun _ debt => ?_) fun holds => holds.insert
        rw [given]
        exact List.mem_filter.mpr ⟨debt, by simpa using own⟩
  | consumeNonce seedPairId =>
    rcases SeedPairQuery.consumeNonce_ok done with ⟨-, rfl⟩ | ⟨pair, seen, free, -, rfl⟩
    · exact inv.still rfl (fun _ => id) (inv.seen i)
    · exact inv.pairWrite seen free rfl id rfl (fun _ => id) Or.inl rfl
  | revealAndDeactivate seedPairId revealedAt =>
    obtain ⟨userId, looked⟩ := allowed
    rcases changeRow_ok done with ⟨rfl, -⟩ | ⟨pair, seen, -, free, rfl⟩
    · exact inv.still rfl (fun _ => List.mem_append_left _) (inv.seen i)
    · have own := (inv.seen i userId seedPairId looked).2 pair (Slot.version_view seen)
      refine inv.pairWrite seen free rfl (by rintro ⟨⟩) rfl (fun _ => List.mem_append_left _) (fun _ => Or.inr ?_) rfl
      refine List.mem_append_right _ ?_
      rw [looked, own]
      exact List.mem_singleton.mpr rfl

theorem walletMove (inv : Housed users wallets pairs g) {walletId : Id} {p : WalletRow → Bool} {amount : Int}
    {balance : Option Int} (done : WalletQuery.move i wallets walletId p amount = .ok balance wallets') :
    Housed users wallets' pairs g := by
  unfold WalletQuery.move at done
  split at done
  · cases done
    exact inv
  · cases done
  · rename_i w t wrote
    obtain ⟨seen, -, free, rfl⟩ := Table.updateRow_wrote wrote
    split at done
    · cases done
      refine ⟨inv.stays, inv.newcomers, ?_, inv.onePair, inv.seen, fun C u user row => ?_, inv.seeded⟩
      · exact inv.oneWallet.write seen free fun b u same keyed => by cases same; exact keyed
      · exact (inv.housed C u user row).imp_right fun holds =>
          holds.write seen free fun owned => ⟨_, rfl, owned⟩
    · cases done

/-- A statement on the wallets table. -/
theorem walletQuery (inv : Housed users wallets pairs g) {q : WalletQuery} {a : q.Ret}
    (done : WalletQuery.exec ctx i wallets q = .ok a wallets') :
    Housed users wallets' pairs (Function.update g i ((g i).after (.sql .wallets q) (.ok a))) := by
  cases q with
  | getByUserId userId =>
    cases done
    simpa [Household.after] using inv
  | add userId balanceMinor =>
    simp only [WalletQuery.exec] at done
    split at done
    · cases done
    · split at done
      · rename_i inserted
        obtain ⟨rfl, fresh, rfl, alone⟩ := insertRow_ok inserted
        cases done
        refine ⟨inv.stays, fun j u => inv.newcomers_of fun u => List.mem_of_mem_filter, ?_, inv.onePair,
          fun j userId k => inv.seen_of (inv.seen i userId k), fun C u user row => ?_, fun C u user row => ?_⟩
        · refine inv.oneWallet.insert fun k' b version visible u own other => ?_
          have apart := alone k' b version visible
          cases own
          cases other
          simp at apart
        · by_cases given : u = userId
          · subst given
            by_cases mine : i ∈ C
            · exact Or.inr (Table.Holds.inserted mine rfl)
            · refine (inv.housed C u user row).imp (owes_of fun member => (mine member).elim) fun holds => holds.insert
          · refine (inv.housed C u user row).imp (owes_of fun _ debt => ?_) fun holds => holds.insert
            exact List.mem_filter.mpr ⟨debt, by simpa using given⟩
        · exact (inv.seeded C u user row).imp_left (owes_of fun _ => id)
      · cases done
      · cases done
  | debit walletId amount =>
    have moved := inv.walletMove done
    simpa [Household.after] using moved
  | credit walletId amount =>
    have moved := inv.walletMove done
    simpa [Household.after] using moved

/-- The end of a transaction, which owes nothing if it is a commit. -/
theorem settle (inv : Housed users wallets pairs g) {fate : Fate} (ends : fate ≠ .isOpen)
    (settled : fate = .applied → (g i).Settled) :
    Housed (users.settle i fate) (wallets.settle i fate) (pairs.settle i fate) (Function.update g i {}) := by
  have debts : ∀ {f : Household → List Id} {C C' : Set Nat} {u : Id}, (∀ j ∈ C', j ≠ i → j ∈ C) →
      (i ∈ C' → f (g i) = []) → (∃ j ∈ C', u ∈ f (g j)) → ∃ j ∈ C, u ∈ f (Function.update g i {} j) := by
    rintro f C C' u sub none ⟨j, member, debt⟩
    have other : j ≠ i := by
      rintro rfl
      rw [none member] at debt
      cases debt
    exact ⟨j, sub j member other, by rwa [Function.update_of_ne other]⟩
  refine ⟨fun k a committed => ?_, fun j u owes => ?_, inv.oneWallet.settle fate, inv.onePair.settle fate,
    fun j userId k looked => ?_, fun C u user row => ?_, fun C u user row => ?_⟩
  · by_contra held
    obtain ⟨⟨j, v⟩, pending⟩ := Option.ne_none_iff_exists'.mp held
    have same := Table.slot_settle_held pending
    rw [same] at committed pending
    cases (inv.stays k a committed).symm.trans pending
  · by_cases mine : j = i
    · subst mine
      rw [Function.update_self] at owes
      cases owes
    · rw [Function.update_of_ne mine] at owes
      have held := inv.newcomers j u owes
      rw [Table.slot_settle_other fate (by rw [held]; simpa using mine)]
      exact held
  · obtain ⟨listed, own⟩ := inv.seen_of (by rintro ⟨⟩) looked
    rw [Table.keys_settle]
    exact ⟨listed, fun a version => own a (Table.version_settle version)⟩
  · cases fate with
    | isOpen => exact (ends rfl).elim
    | applied =>
      change (users.commit i).under C u = some user at row
      rw [Table.under_commit] at row
      exact (inv.housed _ u user row).imp (debts (fun j member => member.resolve_left) fun _ => (settled rfl).1)
        Table.Holds.commit
    | undone =>
      change (users.rollback i).under C u = some user at row
      rw [Table.under_rollback] at row
      exact (inv.housed _ u user row).imp (debts (fun _ member _ => member.1) fun mine => (mine.2 rfl).elim)
        Table.Holds.rollback
  · cases fate with
    | isOpen => exact (ends rfl).elim
    | applied =>
      change (users.commit i).under C u = some user at row
      rw [Table.under_commit] at row
      exact (inv.seeded _ u user row).imp (debts (fun j member => member.resolve_left) fun _ => (settled rfl).2)
        Table.Holds.commit
    | undone =>
      change (users.rollback i).under C u = some user at row
      rw [Table.under_rollback] at row
      exact (inv.seeded _ u user row).imp (debts (fun _ member _ => member.1) fun mine => (mine.2 rfl).elim)
        Table.Holds.rollback

theorem step {s s' : Database} {env : Env} {c : Cmd} {r : Except Error c.Ret}
    (inv : Housed (s.tables .users) (s.tables .wallets) (s.tables .seedPairs) g)
    (keyed : Table.Keyed SeedPair.id (s.tables .seedPairs))
    (kept : Table.Kept SeedPairQuery.fixed (s.tables .seedPairs))
    (allowed : (g i).allowed c) (ran : exec platform env i c s = some (r, s')) :
    Housed (s'.tables .users) (s'.tables .wallets) (s'.tables .seedPairs)
      (Function.update g i ((householdProtocol platform).next (g i) c r)) := by
  by_cases ends : fate c r = .isOpen
  · have next : (householdProtocol platform).next (g i) c r = (g i).after c r := if_pos ends
    rw [next]
    have frame : ∀ f, (∀ q, c ≠ .sql f q) → s'.tables f = s.tables f := by
      intro f other
      rw [exec_frame ran f other, ends]
      rfl
    have unchanged : (∀ q, c ≠ .sql .users q) → (∀ q, c ≠ .sql .wallets q) → (∀ q, c ≠ .sql .seedPairs q) →
        Housed (s'.tables .users) (s'.tables .wallets) (s'.tables .seedPairs)
          (Function.update g i ((g i).after c r)) := by
      intro users wallets pairs
      have same : (g i).after c r = g i := by
        unfold Household.after
        split <;> first | rfl | exact (users _ rfl).elim | exact (wallets _ rfl).elim | exact (pairs _ rfl).elim
      rw [frame _ users, frame _ wallets, frame _ pairs, same]
      exact inv.still rfl (fun _ => id) (inv.seen i)
    cases c with
    | sql f q =>
      rcases exec_sql ran with ⟨e, rfl, -⟩ | ⟨a, rfl, done⟩
      · cases ends
      cases f with
      | users =>
        rw [frame .wallets (by simp), frame .seedPairs (by simp)]
        exact inv.userQuery allowed done
      | wallets =>
        rw [frame .users (by simp), frame .seedPairs (by simp)]
        exact inv.walletQuery done
      | seedPairs =>
        rw [frame .users (by simp), frame .wallets (by simp)]
        exact inv.pairQuery keyed kept allowed done
      | _ => exact unchanged (by simp) (by simp) (by simp)
    | _ => exact unchanged (by simp) (by simp) (by simp)
  · have next : (householdProtocol platform).next (g i) c r = {} := if_neg ends
    rw [next, exec_ends ran ends, exec_ends ran ends, exec_ends ran ends]
    refine inv.settle ends fun applied => ?_
    obtain ⟨tx, rfl⟩ := fate_applied applied
    exact allowed

end Housed

variable {w : World (application platform settings)}

theorem reachable_housed (reached : Reachable UseCases w) :
    Housed (w.state.tables .users) (w.state.tables .wallets) (w.state.tables .seedPairs)
      (w.ghost (householdProtocol platform)) := by
  refine useCases_settle.invariant (fun s g => Housed (s.tables .users) (s.tables .wallets) (s.tables .seedPairs) g)
    .empty ?_ ?_ reached
  · intro w i env c r s' reached inv _ _ allowed _ ran
    exact inv.step (reachable_keyed reached .seedPairs) (reachable_kept reached .seedPairs) allowed ran
  · intro w i c _ inv _ _
    have settled := inv.settle (i := i) (show Fate.undone ≠ .isOpen by simp) (by simp)
    have same : ∀ f, ((application platform settings).die i w.state).tables f = (w.state.tables f).settle i .undone :=
      Database.tables_settle i .undone w.state
    rw [same, same, same]
    exact settled

def Registered (w : World (application platform settings)) (userId : Id) : Prop :=
  ∃ user, ((w.state.tables .users).slot userId).committed = some user

namespace Housed
variable {users : Table Id User} {wallets : Table Id WalletRow} {pairs : Table Id SeedPair} {g : Nat → Household}
  {userId : Id} {user : User}

theorem under_of_committed (inv : Housed users wallets pairs g) (committed : (users.slot userId).committed = some user)
    (C : Set Nat) : users.under C userId = some user := by
  rw [Table.under, Slot.under, inv.stays userId user committed]
  exact committed

theorem committedWallet (inv : Housed users wallets pairs g) (committed : (users.slot userId).committed = some user) :
    ∃ wallet, wallets.committedRows.filter (fun w => w.userId = userId) = [wallet] := by
  have owned := (inv.housed ∅ userId user (inv.under_of_committed committed ∅)).resolve_left
    fun ⟨_, member, _⟩ => member
  obtain ⟨k, w, row, own⟩ := owned
  rw [Table.under, Slot.under_empty] at row
  refine ⟨w, Table.filter_committedRows row (decide_eq_true own) fun k' w' row' own' => ?_⟩
  exact inv.oneWallet.committed row' row (congrArg some (of_decide_eq_true own')) (congrArg some own)

theorem committedPair (inv : Housed users wallets pairs g) (committed : (users.slot userId).committed = some user) :
    ∃ pair, pairs.committedRows.filter (SeedPairQuery.activeOf userId) = [pair] := by
  have owned := (inv.seeded ∅ userId user (inv.under_of_committed committed ∅)).resolve_left
    fun ⟨_, member, _⟩ => member
  obtain ⟨k, pair, row, own⟩ := owned
  have active : SeedPairQuery.activeOf userId pair = true := decide_eq_true own
  rw [Table.under, Slot.under_empty] at row
  refine ⟨pair, Table.filter_committedRows row active fun k' pair' row' own' => ?_⟩
  exact inv.onePair.committed row' row (SeedPair.activeUser_eq.mpr own') (SeedPair.activeUser_eq.mpr active)

/-- The user's wallet, as process `i` sees it. -/
theorem seenWallet (inv : Housed users wallets pairs g)
    (committed : (users.slot userId).committed = some user) (i : Nat) :
    ∃ wallet, (wallets.rows i).filter (fun w => w.userId = userId) = [wallet] := by
  have none : ¬∃ j ∈ ({i} : Set Nat), userId ∈ (g j).owesWallet := by
    rintro ⟨j, -, owes⟩
    have pending := Slot.pending_of_holder (inv.newcomers j userId owes)
    cases (inv.stays userId user committed).symm.trans pending
  obtain ⟨k, w, row, own⟩ := (inv.housed {i} userId user (inv.under_of_committed committed _)).resolve_left none
  rw [Table.under, Slot.under_singleton] at row
  refine ⟨w, Table.filter_rows row (decide_eq_true own) fun k' w' row' own' => ?_⟩
  refine inv.oneWallet {i} k' k w' w userId ?_ ?_ (congrArg some (of_decide_eq_true own')) (congrArg some own)
  · rw [Table.under, Slot.under_singleton, row']
  · rw [Table.under, Slot.under_singleton, row]

/-- The user's active pair, as a process that owes none sees it. -/
theorem seenPair (inv : Housed users wallets pairs g) (committed : (users.slot userId).committed = some user) {i : Nat}
    (none : (g i).owesPair = []) : ∃ pair, (pairs.rows i).filter (SeedPairQuery.activeOf userId) = [pair] := by
  have clear : ¬∃ j ∈ ({i} : Set Nat), userId ∈ (g j).owesPair := by
    rintro ⟨j, rfl, owes⟩
    rw [none] at owes
    cases owes
  obtain ⟨k, pair, row, own⟩ := (inv.seeded {i} userId user (inv.under_of_committed committed _)).resolve_left clear
  have active : SeedPairQuery.activeOf userId pair = true := decide_eq_true own
  rw [Table.under, Slot.under_singleton] at row
  refine ⟨pair, Table.filter_rows row active fun k' pair' row' own' => ?_⟩
  refine inv.onePair {i} k' k pair' pair userId ?_ ?_ (SeedPair.activeUser_eq.mpr own')
    (SeedPair.activeUser_eq.mpr active)
  · rw [Table.under, Slot.under_singleton, row']
  · rw [Table.under, Slot.under_singleton, row]

end Housed

theorem Registered.step {w' : World (application platform settings)} {l : Label (application platform settings)}
    (reached : Reachable UseCases w) (moved : w.step l = some w') {userId : Id} (registered : Registered w userId) :
    Registered w' userId := by
  obtain ⟨user, committed⟩ := registered
  have free := (reachable_housed reached).stays userId user committed
  rcases World.step_cases moved with ⟨i, q, -, -, rfl⟩ | ⟨i, env, c, next, r, s, -, -, ran, rfl⟩ | ⟨i, c, -, -, rfl⟩
  · exact ⟨user, committed⟩
  · rcases exec_committed ran .users userId with same | ⟨-, pending⟩
    · exact ⟨user, same.trans committed⟩
    · cases free.symm.trans pending
  · refine ⟨user, ?_⟩
    have table := Database.tables_settle i .undone w.state .users
    change (((w.state.settle i .undone).tables .users).slot userId).committed = some user
    rw [table]
    exact (Slot.committed_rollback i _).trans committed

theorem walletLookup (reached : Reachable UseCases w) {userId : Id} (registered : Registered w userId)
    {i : Nat} {env : Env}
    {rows : List Wallet} {s' : Database}
    (ran : exec platform env i (.sql .wallets (.getByUserId userId)) w.state = some (.ok rows, s')) :
    ∃ wallet, rows = [wallet] := by
  obtain ⟨user, committed⟩ := registered
  obtain ⟨wallet, found⟩ := (reachable_housed reached).seenWallet committed i
  rcases exec_sql ran with ⟨e, same, -⟩ | ⟨a, same, done⟩
  · cases same
  · cases same
    simp only [Query.exec, WalletQuery.exec] at done
    injection done with same
    rw [found] at same
    exact ⟨wallet.toWallet, same.symm⟩

theorem pairLookup (reached : Reachable UseCases w) {userId : Id} (registered : Registered w userId)
    {i : Nat} {env : Env}
    {rows : List SeedPair} {s' : Database} (about : w.AboutTo i (.sql .seedPairs (.getActiveByUserId userId)))
    (ran : exec platform env i (.sql .seedPairs (.getActiveByUserId userId)) w.state = some (.ok rows, s')) :
    ∃ pair, rows = [pair] := by
  obtain ⟨user, committed⟩ := registered
  have none : (w.ghost (householdProtocol platform) i : Household).owesPair = [] :=
    useCases_settle.allowed reached about
  obtain ⟨pair, found⟩ := (reachable_housed reached).seenPair committed none
  rcases exec_sql ran with ⟨e, same, -⟩ | ⟨a, same, done⟩
  · cases same
  · cases same
    simp only [Query.exec, SeedPairQuery.exec] at done
    injection done with same
    exact ⟨pair, same.symm.trans found⟩

/-! ### DataIntegrityError -/

/-- No lookup for the user comes back empty, and no command raises a `DataIntegrityError`. -/
def Found (userId : Id) : (c : Cmd) → Except Error c.Ret → Prop
  | .sql .wallets (.getByUserId user), .ok rows => user = userId → rows ≠ []
  | .sql .seedPairs (.getActiveByUserId user), .ok rows => user = userId → rows ≠ []
  | _, .error e => ∀ message, e ≠ .dataIntegrityError message
  | _, _ => True

theorem found_exceptions {userId : Id} :
    Exceptions (Found userId) (fun e => ∀ message, e ≠ .dataIntegrityError message) userId where
  fails c e answer := by
    unfold Found at answer
    split at answer <;> simp_all
  mapped e mapped := by
    rintro message rfl
    cases mapped
  noWallet answer := (answer rfl rfl).elim
  noPair answer := (answer rfl rfl).elim
  manyWallets := by simp
  manyPairs := by simp
  manyUsers := by simp
  manyTokens := by simp
  manyKeys := by simp
  noCredit := by simp
  noNonce := by simp
  assertion := by simp
  validation := by simp

theorem exec_finds (reached : Reachable UseCases w) {userId : Id} (registered : Registered w userId)
    {i : Nat} {env : Env}
    {c : Cmd} {r : Except Error c.Ret} {s' : Database} (about : w.AboutTo i c)
    (ran : exec platform env i c w.state = some (r, s')) : Found userId c r := by
  unfold Found
  split
  · rintro rfl rfl
    obtain ⟨wallet, found⟩ := walletLookup reached registered ran
    cases found
  · rintro rfl rfl
    obtain ⟨pair, found⟩ := pairLookup reached registered about ran
    cases found
  · rintro message rfl
    rcases exec_raises ran with same | same | ⟨_, same⟩ | ⟨_, same⟩ | same | ⟨_, same⟩ <;> cases same
  · trivial

/-- A registered user's request never ends with a `DataIntegrityError`. -/
theorem request_intact {before after : World (application platform settings)} (reached : Reachable UseCases before)
    {userId : Id} (registered : Registered before userId) {i : Nat} {q : Request} (asked : q.user = some userId)
    (started : before.step (.start i q) = some after) (run : Run UseCases after w) {e : Error}
    (finished : w.Finished i (.error e)) (message : String) : e ≠ .dataIntegrityError message := by
  have endpoint : q.isEndpoint = true := by
    cases q <;> first | rfl | cases asked
  have useCase : UseCases before (.start i q) := by
    cases q <;> first | rfl | cases asked
  have reached' : Reachable UseCases after := .step reached useCase started
  have follows := run.keeps (J := fun w => Registered w userId ∧ w.request i ≠ none ∧ ∀ p, w.proc i = some p →
    p.Follows (answers (Found userId)) (fun _ r => ∀ e, r = .error e → ∀ message, e ≠ .dataIntegrityError message) ())
    reached' ?_ ?_
  · exact follows.2.2 _ finished e rfl message
  · refine ⟨registered.step reached started, ?_⟩
    rcases World.step_cases started with ⟨j, q', same, -, rfl⟩ | ⟨j, env, c, next, r, s, same, -⟩ | ⟨j, c, same, -⟩
    · cases same
      refine ⟨by simp, fun p running => ?_⟩
      simp only [Function.update_self, Option.some.injEq] at running
      subst running
      refine found_exceptions.code endpoint fun u own => ?_
      exact Option.some.inj (own.symm.trans asked)
    · cases same
    · cases same
  · rintro w l w' reached ⟨registered, known, programs⟩ - moved
    refine ⟨registered.step reached moved, ?_⟩
    rcases World.step_cases moved with
      ⟨j, q', -, fresh, rfl⟩ | ⟨j, env, c, next, r, s, -, called, ran, rfl⟩ | ⟨j, c, -, -, rfl⟩
    · have other : i ≠ j := by
        rintro rfl
        exact known fresh
      exact ⟨by simpa [other] using known, fun p running => programs p (by simpa [other] using running)⟩
    · refine ⟨known, fun p running => ?_⟩
      by_cases mine : i = j
      · subst mine
        simp only [Function.update_self, Option.some.injEq] at running
        subst running
        exact (programs _ called).2 r (exec_finds reached registered ⟨next, called⟩ ran)
      · exact programs p (by simpa [mine] using running)
    · refine ⟨known, fun p running => ?_⟩
      by_cases mine : i = j
      · subst mine
        simp at running
      · exact programs p (by simpa [mine] using running)

/-- Every registered user has exactly one wallet and one active seed pair, and finds them. -/
structure RegisteredUsers (w : World (application platform settings)) : Prop where
  wallet : ∀ userId, Registered w userId →
    ∃ wallet, (w.state.tables .wallets).committedRows.filter (fun (row : WalletRow) => row.userId = userId) = [wallet]
  pair : ∀ userId, Registered w userId →
    ∃ pair, (w.state.tables .seedPairs).committedRows.filter (SeedPairQuery.activeOf userId) = [pair]
  /-- `get_by_user_id` returns one row. -/
  walletLookup : ∀ userId i env rows s', Registered w userId → w.AboutTo i (.sql .wallets (.getByUserId userId)) →
    exec platform env i (.sql .wallets (.getByUserId userId)) w.state = some (.ok rows, s') → ∃ wallet, rows = [wallet]
  /-- `get_active_by_user_id` returns one row. -/
  pairLookup : ∀ userId i env rows s', Registered w userId → w.AboutTo i (.sql .seedPairs (.getActiveByUserId userId)) →
    exec platform env i (.sql .seedPairs (.getActiveByUserId userId)) w.state = some (.ok rows, s') →
      ∃ pair, rows = [pair]
  /-- No request that a registered user has started ends with a `DataIntegrityError`. -/
  intact : ∀ before after userId i q, Reachable UseCases before → Registered before userId →
    (q : Request).user = some userId → before.step (.start i q) = some after → Run UseCases after w →
    ∀ message, ¬w.Finished i (.error (.dataIntegrityError message))

theorem registered_users (reached : Reachable UseCases w) : RegisteredUsers w where
  wallet _ := fun ⟨_, committed⟩ => (reachable_housed reached).committedWallet committed
  pair _ := fun ⟨_, committed⟩ => (reachable_housed reached).committedPair committed
  walletLookup _ _ _ _ _ registered _ ran := TheClub.walletLookup reached registered ran
  pairLookup _ _ _ _ _ registered about ran := TheClub.pairLookup reached registered about ran
  intact _ _ _ _ _ reached' registered asked started run message finished :=
    request_intact reached' registered asked started run finished message rfl

/-- Two rotations of user 12 that have both read pair 16: the second one fails. -/
def sampleRotations : SampleWorld := sampleRun (sampleRegistration ++
  .start 1 (.rotateSeed 12) :: turns 1 2 30 1 ++ .start 2 (.rotateSeed 12) :: turns 2 2 40 1 ++ turns 1 3 50 6 ++
  turns 2 4 60 7)

theorem registered_users_sampleRotations :
    ((sampleRotations.state.tables .seedPairs).committedRows.map fun (pair : SeedPair) => (pair.id, pair.status)) =
      [(16, .revealed), (54, .active)] ∧ RegisteredUsers sampleRotations :=
  ⟨by decide +kernel, registered_users (sampleRun_reachable _)⟩

end TheClub
