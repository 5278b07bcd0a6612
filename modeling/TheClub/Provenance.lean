import TheClub.Game
import TheClub.Infra.Rows

/-!
Where the numbers come from. A seed pair is committed to by the hash of its seed, a round's
outcome is derived from the pair it names and from its nonce, and a bet's payout is what the
outcome of its round gives.
-/

namespace TheClub
open ReadCommitted Program Roulette

variable {platform : Platform} {settings : Settings} {w : World (application platform settings)}

/-! ### What the ghost state of the game says about the history -/

theorem after_seen (g : Play) (c : Cmd) (r : Except Error c.Ret) : (g.after c r).seen = g.seen ∨
    ∃ userId pair, (.ran c r : Event signature) = .ran (.sql .seedPairs (.getActiveByUserId userId)) (.ok [pair]) ∧
      (g.after c r).seen = some pair := by
  unfold Play.after
  split
  · exact Or.inr ⟨_, _, rfl, rfl⟩
  all_goals exact Or.inl rfl

theorem after_round (g : Play) (c : Cmd) (r : Except Error c.Ret) : (g.after c r).round = g.round ∨
    ∃ userId seedPairId nonce outcome settledAt round, (.ran c r : Event signature) =
      .ran (.sql .rounds (.insert userId seedPairId nonce outcome settledAt)) (.ok round) ∧
      (g.after c r).round = some (round.id, outcome) := by
  unfold Play.after
  split
  case h_5 => exact Or.inr ⟨_, _, _, _, _, _, rfl, rfl⟩
  all_goals exact Or.inl rfl

theorem ghost_seen {i : Nat} {pair : SeedPair} (seen : (w.ghost (gameProtocol platform) i).seen = some pair) :
    ∃ userId, w.Ran i (.sql .seedPairs (.getActiveByUserId userId)) (.ok [pair]) := by
  refine World.ghost_history (gameProtocol platform) (R := fun g h => g.seen = some pair →
    ∃ userId, .ran (.sql .seedPairs (.getActiveByUserId userId)) (.ok [pair]) ∈ h) ?_ ?_ w i seen
  · intro seen
    cases seen
  · intro g h e ih seen
    cases e with
    | died => cases seen
    | ran c r =>
      change (if fate c r = .isOpen then g.after c r else {}).seen = some pair at seen
      split at seen
      · rcases after_seen g c r with same | ⟨userId, read, ran, now⟩
        · exact (ih (same ▸ seen)).imp fun userId member => List.mem_append_left _ member
        · cases now.symm.trans seen
          exact ⟨userId, ran ▸ List.mem_append_right _ (List.mem_singleton.mpr rfl)⟩
      · cases seen

theorem ghost_round {i : Nat} {roundId : Id} {outcome : Int}
    (written : (w.ghost (gameProtocol platform) i).round = some (roundId, outcome)) :
    ∃ userId seedPairId nonce settledAt round, round.id = roundId ∧
      w.Ran i (.sql .rounds (.insert userId seedPairId nonce outcome settledAt)) (.ok round) := by
  refine World.ghost_history (gameProtocol platform) (R := fun g h => g.round = some (roundId, outcome) →
    ∃ userId seedPairId nonce settledAt round, round.id = roundId ∧
      .ran (.sql .rounds (.insert userId seedPairId nonce outcome settledAt)) (.ok round) ∈ h) ?_ ?_ w i written
  · intro written
    cases written
  · intro g h e ih written
    cases e with
    | died => cases written
    | ran c r =>
      change (if fate c r = .isOpen then g.after c r else {}).round = some (roundId, outcome) at written
      split at written
      · rcases after_round g c r with same | ⟨userId, seedPairId, nonce, outcome', settledAt, round, ran, now⟩
        · obtain ⟨userId, seedPairId, nonce, settledAt, round, own, member⟩ := ih (same ▸ written)
          exact ⟨userId, seedPairId, nonce, settledAt, round, own, List.mem_append_left _ member⟩
        · cases now.symm.trans written
          exact ⟨userId, seedPairId, nonce, settledAt, round, rfl,
            ran ▸ List.mem_append_right _ (List.mem_singleton.mpr rfl)⟩
      · cases written

/-! ### Pairs, rounds and bets at their insertion -/

theorem inserted_pair {pair : SeedPair} (h : Inserted .seedPairs w pair) :
    ∃ i userId serverSeed serverSeedHash clientSeed,
    w.Ran i (.sql .seedPairs (.createActive userId serverSeed serverSeedHash clientSeed)) (.ok pair) := by
  obtain ⟨i, q, a, ran, new⟩ := h
  cases q with
  | createActive userId serverSeed serverSeedHash clientSeed =>
    cases new
    exact ⟨i, userId, serverSeed, serverSeedHash, clientSeed, ran⟩
  | _ => cases new

theorem inserted_round {round : Round} (h : Inserted .rounds w round) : ∃ i userId seedPairId nonce outcome settledAt,
    w.Ran i (.sql .rounds (.insert userId seedPairId nonce outcome settledAt)) (.ok round) := by
  obtain ⟨i, q, a, ran, new⟩ := h
  cases q with
  | insert userId seedPairId nonce outcome settledAt =>
    cases new
    exact ⟨i, userId, seedPairId, nonce, outcome, settledAt, ran⟩
  | listByUser userId cursor limit => cases new

theorem inserted_bet {bet : Bet} (h : Inserted .bets w bet) :
    ∃ i roundId betType selection stakeMinor payoutMinor status,
    w.Ran i (.sql .bets (.insert roundId betType selection stakeMinor payoutMinor status)) (.ok bet) := by
  obtain ⟨i, q, a, ran, new⟩ := h
  cases q with
  | insert roundId betType selection stakeMinor payoutMinor status =>
    cases new
    exact ⟨i, roundId, betType, selection, stakeMinor, payoutMinor, status, ran⟩
  | selectIn roundIds => cases new

/-- A pair is created with the hash of its seed. -/
theorem pair_hashed (reached : Reachable UseCases w) {pair : SeedPair} (h : Inserted .seedPairs w pair) :
    pair.serverSeedHash = hashSeed platform pair.serverSeed := by
  obtain ⟨i, userId, serverSeed, serverSeedHash, clientSeed, ran⟩ := inserted_pair h
  obtain ⟨before, after, env, start, about, -, -, done, -⟩ := Run.moment reached ran
  have hashed : serverSeedHash = hashSeed platform serverSeed := useCases_play.allowed start about
  rcases exec_sql done with ⟨e, bad, -⟩ | ⟨a, same, done⟩
  · cases bad
  · cases same
    obtain ⟨rfl, -⟩ := insertRow_ok done
    exact hashed

/-- A row that a process has read was inserted as it read it, up to what statements change. -/
theorem read_pair (reached : Reachable UseCases w) {i : Nat} {userId : Id} {pair : SeedPair}
    (ran : w.Ran i (.sql .seedPairs (.getActiveByUserId userId)) (.ok [pair])) :
    ∃ row : SeedPair, Inserted .seedPairs w row ∧ SeedPairQuery.fixed pair = SeedPairQuery.fixed row ∧
      row.userId = userId := by
  obtain ⟨before, after, env, start, -, allowed, moved, done, rest⟩ := Run.moment reached ran
  rcases exec_sql done with ⟨e, bad, -⟩ | ⟨a, same, done⟩
  · cases bad
  · cases same
    simp only [Query.exec, SeedPairQuery.exec] at done
    injection done with found _
    have member : pair ∈ ((before.state.tables .seedPairs).rows i).filter (SeedPairQuery.activeOf userId) := by
      rw [found]
      exact List.mem_singleton.mpr rfl
    obtain ⟨member, active⟩ := List.mem_filter.mp member
    obtain ⟨k, seen⟩ := Table.mem_rows.mp member
    obtain ⟨row, new, -, fixed⟩ := (reachable_origins start .seedPairs).origin k pair (Slot.version_view seen)
    refine ⟨row, new.mono (.trans (.step (.refl _) allowed moved) rest), fixed, ?_⟩
    exact (congrArg SeedPair.userId fixed).symm.trans (of_decide_eq_true active).1

/-- A round's outcome is derived from the pair it names, with its nonce. -/
theorem round_derived (reached : Reachable UseCases w) {i : Nat} {userId seedPairId : Id} {nonce : Nat} {outcome : Int}
    {settledAt : Time} {round : Round}
    (ran : w.Ran i (.sql .rounds (.insert userId seedPairId nonce outcome settledAt)) (.ok round)) :
    round.outcome = some outcome ∧ ∃ (pair : SeedPair) (n : Nat), Inserted .seedPairs w pair ∧
      pair.id = round.seedPairId ∧ outcome = Int.ofNat n ∧
      DerivesOutcome platform.hmacSha256 (pair.material round.nonce) POCKET_COUNT n := by
  obtain ⟨before, after, env, start, about, allowed, moved, done, rest⟩ := Run.moment reached ran
  obtain ⟨pair, _, n, seen, own, -, natural, derived⟩ := useCases_play.allowed start about
  obtain ⟨_, read⟩ := ghost_seen seen
  obtain ⟨row, new, fixed, -⟩ := read_pair start read
  rcases exec_sql done with ⟨e, bad, -⟩ | ⟨a, same, done⟩
  · cases bad
  · cases same
    obtain ⟨rfl, -⟩ := insertRow_ok (RoundQuery.insert_ok done).2.2
    obtain ⟨id, seed, -, client⟩ := SeedPairQuery.of_fixed fixed
    refine ⟨rfl, row, n, new.mono (.trans (.step (.refl _) allowed moved) rest), id.symm.trans own, natural, ?_⟩
    simpa [SeedPair.material, seed, client] using derived

/-- A bet is paid as the outcome of its round says. -/
theorem bet_resolved (reached : Reachable UseCases w) {bet : Bet} (h : Inserted .bets w bet) :
    ∃ (round : Round) (outcome : Int), Inserted .rounds w round ∧ round.id = bet.roundId ∧
      round.outcome = some outcome ∧
      ResolvesTo outcome bet.betType bet.selection bet.stakeMinor bet.payoutMinor bet.status := by
  obtain ⟨i, roundId, betType, selection, stakeMinor, payoutMinor, status, ran⟩ := inserted_bet h
  obtain ⟨before, after, env, start, about, allowed, moved, done, rest⟩ := Run.moment reached ran
  obtain ⟨outcome, written, resolved⟩ := useCases_play.allowed start about
  obtain ⟨_, _, _, _, round, own, drawn⟩ := ghost_round written
  rcases exec_sql done with ⟨e, bad, -⟩ | ⟨a, same, done⟩
  · cases bad
  · cases same
    obtain ⟨rfl, -⟩ := insertRow_ok (BetQuery.insert_ok done)
    have new : Inserted .rounds before round := ⟨i, _, _, drawn, rfl⟩
    exact ⟨round, outcome, new.mono (.trans (.step (.refl _) allowed moved) rest), own,
      (round_derived start drawn).1, resolved⟩

end TheClub
