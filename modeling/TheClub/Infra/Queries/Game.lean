import TheClub.Infra.Queries.Wallets

/-! Queries of the seed_pairs, rounds and bets tables. -/

namespace TheClub
open ReadCommitted

inductive SeedPairQuery where
  | getActiveByUserId (userId : Id)
  | createActive (userId : Id) (serverSeed : Bytes) (serverSeedHash clientSeed : String)
  | consumeNonce (seedPairId : Id)
  | revealAndDeactivate (seedPairId : Id) (revealedAt : Time)

namespace SeedPairQuery

abbrev Ret : SeedPairQuery → Type
  | getActiveByUserId _ => List SeedPair
  | createActive _ _ _ _ => SeedPair
  | consumeNonce _ => Option Nat
  | revealAndDeactivate _ _ => Unit

/-- The row that a statement has inserted. -/
def inserted : (q : SeedPairQuery) → q.Ret → Option SeedPair
  | createActive _ _ _ _, row => some row
  | _, _ => none

/-- `user_id = userId AND status = 'active'`. -/
def activeOf (userId : Id) (pair : SeedPair) : Bool := pair.userId = userId ∧ pair.status = .active

def exec (ctx : Context) (i : Nat) (t : Table Id SeedPair) :
    (q : SeedPairQuery) → Outcome Error q.Ret (Table Id SeedPair)
  | getActiveByUserId userId => .ok ((t.rows i).filter (activeOf userId)) t
  | createActive userId serverSeed serverSeedHash clientSeed =>
    insertRow ctx i t "uq_one_active_seed_pair_per_user" (activeOf userId)
      { id := ctx.id, userId, serverSeed, serverSeedHash, clientSeed, nonce := 0, status := .active,
        revealedAt := none, createdAt := ctx.now }
  | consumeNonce seedPairId =>
    match t.updateRow i seedPairId (fun _ => true) fun pair => some { pair with nonce := pair.nonce + 1 } with
    | .missed => .ok none t
    | .waits => .waits
    | .wrote pair t' => if (pair.nonce + 1 : Int) ≤ INT_MAX then .ok (some (pair.nonce + 1)) t' else .fails .dataError
  | revealAndDeactivate seedPairId revealedAt =>
    changeRow i t seedPairId (fun _ => true) fun pair =>
      some { pair with status := .revealed, revealedAt := some revealedAt }

/-- What a seed pair keeps all its life. -/
def fixed (pair : SeedPair) : SeedPair := { pair with nonce := 0, status := .active, revealedAt := none }

theorem of_fixed {a b : SeedPair} (h : fixed a = fixed b) : a.id = b.id ∧ a.serverSeed = b.serverSeed ∧
    a.serverSeedHash = b.serverSeedHash ∧ a.clientSeed = b.clientSeed := by
  simp only [fixed, SeedPair.mk.injEq] at h
  exact ⟨h.1, h.2.2.1, h.2.2.2.1, h.2.2.2.2.1⟩

variable {ctx : Context} {i : Nat} {t t' : Table Id SeedPair}

theorem consumeNonce_ok {seedPairId : Id} {nonce : Option Nat}
    (h : exec ctx i t (.consumeNonce seedPairId) = .ok nonce t') :
    (nonce = none ∧ t' = t) ∨ ∃ pair, (t.slot seedPairId).view i = some pair ∧ (t.slot seedPairId).Free i ∧
      nonce = some (pair.nonce + 1) ∧ t' = t.write i seedPairId (some { pair with nonce := pair.nonce + 1 }) := by
  simp only [exec] at h
  split at h
  · cases h
    exact Or.inl ⟨rfl, rfl⟩
  · cases h
  · rename_i pair t'' wrote
    obtain ⟨seen, -, free, rfl⟩ := Table.updateRow_wrote wrote
    split at h
    · cases h
      exact Or.inr ⟨pair, seen, free, rfl, rfl⟩
    · cases h

theorem exec_moved {q : SeedPairQuery} {r : q.Ret} (h : exec ctx i t q = .ok r t') :
    t.Moved SeedPair.id fixed i (inserted q r) t' := by
  cases q with
  | getActiveByUserId userId => cases h; exact .still rfl
  | createActive userId serverSeed serverSeedHash clientSeed => exact insertRow_moved rfl h
  | consumeNonce seedPairId =>
    rcases consumeNonce_ok h with ⟨-, rfl⟩ | ⟨pair, seen, free, -, rfl⟩
    · exact .still rfl
    · exact .wrote rfl seen free (by rintro b ⟨⟩; exact ⟨rfl, rfl⟩)
  | revealAndDeactivate seedPairId revealedAt => exact changeRow_moved (by rintro a b ⟨⟩; exact ⟨rfl, rfl⟩) h

end SeedPairQuery

inductive RoundQuery where
  | insert (userId seedPairId : Id) (nonce : Nat) (outcome : Int) (settledAt : Time)
  | listByUser (userId : Id) (cursor : Option (Time × Id)) (limit : Nat)

namespace RoundQuery

abbrev Ret : RoundQuery → Type
  | insert _ _ _ _ _ => Round
  | listByUser _ _ _ => List Round

/-- The row that a statement has inserted. -/
def inserted : (q : RoundQuery) → q.Ret → Option Round
  | insert _ _ _ _ _, row => some row
  | _, _ => none

def exec (ctx : Context) (i : Nat) (t : Table Id Round) :
    (q : RoundQuery) → Outcome Error q.Ret (Table Id Round)
  | insert userId seedPairId nonce outcome settledAt =>
    if ¬(nonce : Int) ≤ INT_MAX then .fails .dataError
    else if ¬(0 ≤ outcome ∧ outcome ≤ 36) then .fails (.integrityError "ck_rounds_valid_outcome")
    else insertRow ctx i t "uq_seed_pair_nonce" (fun r => r.seedPairId = seedPairId ∧ r.nonce = nonce)
      { id := ctx.id, userId, seedPairId, nonce, outcome := some outcome, status := .settled, createdAt := ctx.now,
        settledAt := some settledAt }
  | listByUser userId cursor limit =>
    let rows := (t.rows i).filter fun r => r.userId = userId
    let page := rows.filter (afterCursor Round.createdAt Round.id cursor)
    .ok ((newestFirst Round.createdAt Round.id page).take limit) t

variable {ctx : Context} {i : Nat} {t t' : Table Id Round}

theorem insert_ok {userId seedPairId : Id} {nonce : Nat} {outcome : Int} {settledAt : Time} {r : Round}
    (h : exec ctx i t (.insert userId seedPairId nonce outcome settledAt) = .ok r t') :
    0 ≤ outcome ∧ outcome ≤ 36 ∧
    insertRow ctx i t "uq_seed_pair_nonce" (fun other => other.seedPairId = seedPairId ∧ other.nonce = nonce)
      { id := ctx.id, userId, seedPairId, nonce, outcome := some outcome, status := .settled, createdAt := ctx.now,
        settledAt := some settledAt } = .ok r t' := by
  simp only [exec] at h
  split at h
  · cases h
  · split at h
    · cases h
    · rename_i valid
      exact ⟨(not_not.mp valid).1, (not_not.mp valid).2, h⟩

theorem exec_moved {q : RoundQuery} {r : q.Ret} (h : exec ctx i t q = .ok r t') :
    t.Moved Round.id id i (inserted q r) t' := by
  cases q with
  | insert userId seedPairId nonce outcome settledAt => exact insertRow_moved rfl (insert_ok h).2.2
  | listByUser userId cursor limit => cases h; exact .still rfl

end RoundQuery

inductive BetQuery where
  | insert (roundId : Id) (betType : Roulette.BetType) (selection : Roulette.Selection) (stakeMinor payoutMinor : Int)
      (status : BetStatus)
  | selectIn (roundIds : List Id)

namespace BetQuery

abbrev Ret : BetQuery → Type
  | insert _ _ _ _ _ _ => Bet
  | selectIn _ => List Bet

/-- The row that a statement has inserted. -/
def inserted : (q : BetQuery) → q.Ret → Option Bet
  | insert _ _ _ _ _ _, row => some row
  | _, _ => none

def exec (ctx : Context) (i : Nat) (t : Table Id Bet) : (q : BetQuery) → Outcome Error q.Ret (Table Id Bet)
  | insert roundId betType selection stakeMinor payoutMinor status =>
    if !(fitsBigint stakeMinor && fitsBigint payoutMinor) then .fails .dataError
    else if stakeMinor ≤ 0 then .fails (.integrityError "ck_bets_positive_stake")
    else if payoutMinor < 0 then .fails (.integrityError "ck_bets_non_negative_payout")
    else insertRow ctx i t "pk_bets" (fun _ => false)
      { id := ctx.id, roundId, betType, selection, stakeMinor, payoutMinor, status }
  | selectIn roundIds => .ok ((t.rows i).filter fun b => b.roundId ∈ roundIds) t

variable {ctx : Context} {i : Nat} {t t' : Table Id Bet}

theorem insert_ok {roundId : Id} {betType : Roulette.BetType} {selection : Roulette.Selection}
    {stakeMinor payoutMinor : Int} {status : BetStatus} {b : Bet}
    (h : exec ctx i t (.insert roundId betType selection stakeMinor payoutMinor status) = .ok b t') :
    insertRow ctx i t "pk_bets" (fun _ => false)
      { id := ctx.id, roundId, betType, selection, stakeMinor, payoutMinor, status } = .ok b t' := by
  simp only [exec] at h
  split at h
  · cases h
  · split at h
    · cases h
    · split at h
      · cases h
      · exact h

theorem exec_moved {q : BetQuery} {r : q.Ret} (h : exec ctx i t q = .ok r t') :
    t.Moved Bet.id id i (inserted q r) t' := by
  cases q with
  | insert roundId betType selection stakeMinor payoutMinor status => exact insertRow_moved rfl (insert_ok h)
  | selectIn roundIds => cases h; exact .still rfl

end BetQuery

end TheClub
