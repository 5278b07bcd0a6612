import TheClub.Requests

/-!
The house edge. Every figure of the table covers as many pockets as its ratio pays for, so a slip
of valid bets pays back 36 times its stake over the 37 outcomes, whatever bets are on it.
-/

namespace TheClub
open Roulette

namespace Roulette

/-- A figure lies on the table, and its coverage times its full payout is 36. -/
def Fair (ratio : Int) (covered : Finset Int) : Prop :=
  (∀ n ∈ covered, 0 ≤ n ∧ n ≤ 36) ∧ (covered.card : Int) * (ratio + 1) = 36

instance (ratio : Int) (covered : Finset Int) : Decidable (Fair ratio covered) := by unfold Fair; infer_instance

theorem fixed_fair {betType : BetType} {covered : Finset Int} (h : FIXED_SELECTIONS betType = some covered) :
    Fair (BET_SPECS betType).payoutRatio covered := by
  cases betType <;> cases h <;> decide +kernel

theorem numbers_fair {betType : BetType} {figures : List (Finset Int)} (h : NUMBERS_SELECTIONS betType = some figures) :
    ∀ covered ∈ figures, Fair (BET_SPECS betType).payoutRatio covered := by
  cases betType <;> cases h <;> decide +kernel

theorem dozen_fair {index : Int} {covered : Finset Int} (h : DOZEN_BY_INDEX index = some covered) : Fair 2 covered := by
  unfold DOZEN_BY_INDEX at h
  split at h
  · cases h
    decide +kernel
  · split at h
    · cases h
      decide +kernel
    · split at h
      · cases h
        decide +kernel
      · cases h

theorem column_fair {index : Int} {covered : Finset Int} (h : COLUMN_BY_INDEX index = some covered) :
    Fair 2 covered := by
  have every : ∀ column ∈ columns, Fair 2 column := by decide +kernel
  unfold COLUMN_BY_INDEX at h
  split at h
  · exact every covered (List.mem_of_getElem? h)
  · cases h

theorem index_fair {betType : BetType} {byIndex : Int → Option (Finset Int)} {index : Int} {covered : Finset Int}
    (h : INDEX_SELECTIONS betType = some byIndex) (found : byIndex index = some covered) :
    Fair (BET_SPECS betType).payoutRatio covered := by
  cases betType with
  | dozen =>
    cases h
    exact dozen_fair found
  | column =>
    cases h
    exact column_fair found
  | _ => cases h

/-- Whatever selection is accepted, it describes a fair figure. -/
theorem covered_fair {betType : BetType} {selection : Selection} {covered : Finset Int}
    (h : coveredNumbers betType selection = .ok covered) : Fair (BET_SPECS betType).payoutRatio covered := by
  unfold coveredNumbers at h
  split at h
  · rename_i fixed found
    split at h
    · cases h
    · cases h
      exact fixed_fair found
  · split at h
    · rename_i figures found
      split at h
      · dsimp only at h
        split at h
        · rename_i member
          cases h
          exact numbers_fair found _ member
        · cases h
      · cases h
    · split at h
      · rename_i byIndex index kind _
        split at h
        · rename_i numbers found
          cases h
          exact index_fair kind found
        · cases h
      · cases h

/-! ### One bet -/

/-- What `resolve_bets` makes of a bet on these numbers. -/
def resolvedAs (outcome : Int) (covered : Finset Int) (bet : PlacedBet) : ResolvedBet :=
  { bet, won := decide (outcome ∈ covered)
    payout := if outcome ∈ covered then bet.stake.mul ((BET_SPECS bet.betType).payoutRatio + 1)
      else Money.zero bet.stake.currency }

theorem resolveBet_covered {outcome : Int} {bet : PlacedBet} {covered : Finset Int}
    (h : coveredNumbers bet.betType bet.selection = .ok covered) :
    resolveBet outcome bet = .ok (resolvedAs outcome covered bet) := by
  unfold resolveBet resolvedAs
  rw [h]
  by_cases won : outcome ∈ covered <;> simp [won, bind, Except.bind, pure, Except.pure]

theorem resolvedAs_payout (outcome : Int) (covered : Finset Int) (bet : PlacedBet) :
    (resolvedAs outcome covered bet).payout.minor =
      if outcome ∈ covered then bet.stake.minor * ((BET_SPECS bet.betType).payoutRatio + 1) else 0 := by
  unfold resolvedAs
  by_cases won : outcome ∈ covered <;> simp [won, Money.mul, Money.zero]

theorem fair_ratio {ratio : Int} {covered : Finset Int} (fair : Fair ratio covered) :
    0 < ratio + 1 ∧ ratio + 1 ≤ 36 := by
  obtain ⟨-, product⟩ := fair
  have positive : 0 < ratio + 1 := by
    by_contra small
    have := mul_nonpos_of_nonneg_of_nonpos (Int.natCast_nonneg covered.card) (not_lt.mp small)
    omega
  refine ⟨positive, ?_⟩
  have some_pocket : 1 ≤ (covered.card : Int) := by
    by_contra empty
    have none : (covered.card : Int) = 0 := by omega
    rw [none] at product
    omega
  nlinarith

/-- A fair bet pays 36 times its stake over the pockets. -/
theorem fair_total {bet : PlacedBet} {covered : Finset Int} (fair : Fair (BET_SPECS bet.betType).payoutRatio covered) :
    ∑ outcome ∈ Finset.range POCKET_COUNT, (resolvedAs outcome covered bet).payout.minor = 36 * bet.stake.minor := by
  obtain ⟨on_table, product⟩ := fair
  have image : ((Finset.range POCKET_COUNT).filter fun n : Nat => (n : Int) ∈ covered).image Nat.cast = covered := by
    ext n
    simp only [Finset.mem_image, Finset.mem_filter, Finset.mem_range]
    constructor
    · rintro ⟨m, ⟨-, member⟩, rfl⟩
      exact member
    · intro member
      obtain ⟨low, high⟩ := on_table n member
      have pockets : POCKET_COUNT = 37 := rfl
      have back : (n.toNat : Int) = n := Int.toNat_of_nonneg low
      exact ⟨n.toNat, ⟨by omega, by rwa [back]⟩, back⟩
  have count : ((Finset.range POCKET_COUNT).filter fun n : Nat => (n : Int) ∈ covered).card = covered.card := by
    rw [← Finset.card_image_of_injective _ (Nat.cast_injective (R := Int)), image]
  simp only [resolvedAs_payout, ← Finset.sum_filter, Finset.sum_const, count, nsmul_eq_mul]
  linear_combination bet.stake.minor * product

/-! ### A slip -/

def totalStake (bets : List PlacedBet) : Int := (bets.map fun bet => bet.stake.minor).sum

def totalPayout (resolved : List ResolvedBet) : Int := (resolved.map fun r => r.payout.minor).sum

/-- `total_payout` of `resolve_bets` at one outcome. -/
def payoutAt (bets : List PlacedBet) (outcome : Int) : Int :=
  match resolveBets bets outcome with
  | .ok resolved => totalPayout resolved
  | .error _ => 0

/-- What `resolve_bets` promises about one outcome of a slip of valid bets. -/
structure Settled (bets : List PlacedBet) (resolved : List ResolvedBet) : Prop where
  inOrder : resolved.map ResolvedBet.bet = bets
  won : ∀ r ∈ resolved, r.won = true ↔ 0 < r.payout.minor
  nonneg : 0 ≤ totalPayout resolved
  bounded : totalPayout resolved ≤ 36 * totalStake bets

theorem resolveBets_settled {bets : List PlacedBet} (outcome : Int) (stakes : ∀ bet ∈ bets, 0 < bet.stake.minor)
    (covers : ∀ bet ∈ bets, ∃ covered, coveredNumbers bet.betType bet.selection = .ok covered) :
    ∃ resolved, resolveBets bets outcome = .ok resolved ∧ Settled bets resolved := by
  unfold resolveBets
  induction bets with
  | nil => exact ⟨[], rfl, rfl, by simp, by simp [totalPayout], by simp [totalPayout, totalStake]⟩
  | cons bet bets ih =>
    obtain ⟨covered, valid⟩ := covers bet List.mem_cons_self
    have stake := stakes bet List.mem_cons_self
    obtain ⟨ratio, small⟩ := fair_ratio (covered_fair valid)
    obtain ⟨rest, resolved, settled⟩ := ih (fun other member => stakes other (List.mem_cons_of_mem _ member))
      fun other member => covers other (List.mem_cons_of_mem _ member)
    have payout := resolvedAs_payout outcome covered bet
    have low : 0 ≤ (resolvedAs outcome covered bet).payout.minor := by
      rw [payout]
      split
      · exact (Int.mul_pos stake ratio).le
      · exact le_refl 0
    have high : (resolvedAs outcome covered bet).payout.minor ≤ 36 * bet.stake.minor := by
      rw [payout]
      split
      · nlinarith
      · omega
    refine ⟨resolvedAs outcome covered bet :: rest, ?_, ?_, ?_, ?_, ?_⟩
    · rw [List.mapM_cons, resolveBet_covered valid, resolved]
      rfl
    · rw [List.map_cons, settled.inOrder]
      rfl
    · intro r member
      rcases List.mem_cons.mp member with rfl | later
      · rw [payout]
        by_cases hit : outcome ∈ covered
        · have positive := Int.mul_pos stake ratio
          simp [resolvedAs, hit, positive]
        · simp [resolvedAs, hit]
      · exact settled.won r later
    · have nonneg := settled.nonneg
      simp only [totalPayout, List.map_cons, List.sum_cons] at nonneg ⊢
      omega
    · have bounded := settled.bounded
      simp only [totalPayout, totalStake, List.map_cons, List.sum_cons] at bounded ⊢
      omega

theorem payoutAt_cons {bet : PlacedBet} {bets : List PlacedBet} {covered : Finset Int} {outcome : Int}
    (valid : coveredNumbers bet.betType bet.selection = .ok covered)
    (rest : ∃ resolved, resolveBets bets outcome = .ok resolved) :
    payoutAt (bet :: bets) outcome = (resolvedAs outcome covered bet).payout.minor + payoutAt bets outcome := by
  obtain ⟨resolved, rest⟩ := rest
  have both : resolveBets (bet :: bets) outcome = .ok (resolvedAs outcome covered bet :: resolved) := by
    unfold resolveBets at rest ⊢
    rw [List.mapM_cons, resolveBet_covered valid, rest]
    rfl
  simp [payoutAt, both, rest, totalPayout]

theorem payoutAt_sum {bets : List PlacedBet} (stakes : ∀ bet ∈ bets, 0 < bet.stake.minor)
    (covers : ∀ bet ∈ bets, ∃ covered, coveredNumbers bet.betType bet.selection = .ok covered) :
    ∑ outcome ∈ Finset.range POCKET_COUNT, payoutAt bets outcome = 36 * totalStake bets := by
  induction bets with
  | nil => simp [payoutAt, resolveBets, totalPayout, totalStake, pure, Except.pure]
  | cons bet bets ih =>
    obtain ⟨covered, valid⟩ := covers bet List.mem_cons_self
    have stakes' : ∀ other ∈ bets, 0 < other.stake.minor := fun other member =>
      stakes other (List.mem_cons_of_mem _ member)
    have covers' : ∀ other ∈ bets, ∃ covered, coveredNumbers other.betType other.selection = .ok covered :=
      fun other member => covers other (List.mem_cons_of_mem _ member)
    have split : ∀ outcome : Nat, payoutAt (bet :: bets) outcome =
        (resolvedAs outcome covered bet).payout.minor + payoutAt bets outcome := fun outcome =>
      payoutAt_cons valid ((resolveBets_settled outcome stakes' covers').imp fun _ => And.left)
    simp only [split, Finset.sum_add_distrib, fair_total (covered_fair valid), ih stakes' covers']
    simp only [totalStake, List.map_cons, List.sum_cons]
    ring

/-- A bet that passes `validate_bet` has a stake within the limits and covers a figure. -/
theorem validateBet_ok {bet : PlacedBet} {minBet maxBet : Money} (h : validateBet bet minBet maxBet = .ok ()) :
    minBet.minor ≤ bet.stake.minor ∧ ∃ covered, coveredNumbers bet.betType bet.selection = .ok covered := by
  by_cases same : bet.stake.currency = minBet.currency
  · have lower := Money.lt_of_same same
    by_cases below : bet.stake.minor < minBet.minor
    · simp [validateBet, same, lower, below, Except.mapError, bind, Except.bind, pure, Except.pure, throw,
        throwThe, MonadExceptOf.throw] at h
    · refine ⟨not_lt.mp below, ?_⟩
      cases covers : coveredNumbers bet.betType bet.selection with
      | ok covered => exact ⟨covered, rfl⟩
      | error e =>
        rcases above : maxBet.lt bet.stake with mismatch | beyond
        · simp [validateBet, same, lower, below, above, Except.mapError, bind, Except.bind] at h
        · rcases beyond with _ | _ <;>
            simp [validateBet, same, lower, below, above, covers, Except.mapError, bind, Except.bind, throw, throwThe,
              MonadExceptOf.throw] at h
  · simp [validateBet, same, bind, Except.bind, throw, throwThe, MonadExceptOf.throw] at h

theorem payoutRatio_nonneg (betType : BetType) : 0 ≤ (BET_SPECS betType).payoutRatio := by
  cases betType <;> decide

theorem resolveBet_payout {bet : PlacedBet} {outcome : Int} {r : ResolvedBet} (stake : 0 < bet.stake.minor)
    (h : resolveBet outcome bet = .ok r) : r.bet = bet ∧ 0 ≤ r.payout.minor := by
  unfold resolveBet at h
  cases covers : coveredNumbers bet.betType bet.selection with
  | error e => simp [covers, bind, Except.bind] at h
  | ok covered =>
    simp only [covers, bind, Except.bind, pure, Except.pure, Except.ok.injEq] at h
    subst h
    refine ⟨rfl, ?_⟩
    have ratio := payoutRatio_nonneg bet.betType
    dsimp only
    split
    · exact mul_nonneg stake.le (by omega)
    · exact le_refl 0

theorem resolveBets_payouts {bets : List PlacedBet} {outcome : Int} {resolved : List ResolvedBet}
    (stakes : ∀ bet ∈ bets, 0 < bet.stake.minor) (h : resolveBets bets outcome = .ok resolved) :
    resolved.map ResolvedBet.bet = bets ∧ ∀ r ∈ resolved, 0 ≤ r.payout.minor := by
  unfold resolveBets at h
  induction bets generalizing resolved with
  | nil =>
    cases h
    exact ⟨rfl, by simp⟩
  | cons bet bets ih =>
    rw [List.mapM_cons] at h
    cases first : resolveBet outcome bet with
    | error e => simp [first, bind, Except.bind] at h
    | ok r =>
      cases rest : bets.mapM (resolveBet outcome) with
      | error e => simp [first, rest, bind, Except.bind] at h
      | ok rs =>
        simp only [first, rest, bind, Except.bind, pure, Except.pure, Except.ok.injEq] at h
        subst h
        obtain ⟨same, payout⟩ := resolveBet_payout (stakes bet List.mem_cons_self) first
        obtain ⟨others, payouts⟩ := ih (fun other member => stakes other (List.mem_cons_of_mem _ member)) rest
        exact ⟨by rw [List.map_cons, same, others], by simpa using ⟨payout, payouts⟩⟩

end Roulette

/-- For every slip of bets that pass `validate_bet`: each outcome resolves every bet, in order, won
exactly when it pays, and pays between 0 and 36 times the stake; over the outcomes 0 to 36 the
payouts come to exactly 36 times the stake. -/
theorem house_edge {settings : Settings} {bets : List PlacedBet} (valid : ∀ bet ∈ bets,
      validateBet bet { minor := settings.tableMinBetMinor } { minor := settings.tableMaxBetMinor } = .ok ()) :
    (∀ outcome : Nat, outcome ≤ 36 → ∃ resolved, resolveBets bets outcome = .ok resolved ∧ Settled bets resolved) ∧
    ∑ outcome ∈ Finset.range POCKET_COUNT, payoutAt bets outcome = 36 * totalStake bets := by
  have stakes : ∀ bet ∈ bets, 0 < bet.stake.minor := by
    intro bet member
    have low := (validateBet_ok (valid bet member)).1
    have least := settings.tableMinBet_ge
    simp only at low
    omega
  have covers : ∀ bet ∈ bets, ∃ covered, coveredNumbers bet.betType bet.selection = .ok covered :=
    fun bet member => (validateBet_ok (valid bet member)).2
  exact ⟨fun outcome _ => resolveBets_settled outcome stakes covers, payoutAt_sum stakes covers⟩

/-- A corner with its numbers out of order and repeated, and a bet on red. -/
def sampleSlip : List PlacedBet :=
  [{ betType := .corner, selection := { entries := [("numbers", .list [5, 1, 4, 2, 5])] }, stake := { minor := 250 } },
   { betType := .red, selection := { entries := [] }, stake := { minor := 100 } }]

theorem house_edge_sampleSlip : ∑ outcome ∈ Finset.range POCKET_COUNT, payoutAt sampleSlip outcome = 36 * 350 := by
  have valid : ∀ bet ∈ sampleSlip, validateBet bet { minor := sampleSettings.tableMinBetMinor }
      { minor := sampleSettings.tableMaxBetMinor } = .ok () := by decide +kernel
  exact (house_edge valid).2

end TheClub
