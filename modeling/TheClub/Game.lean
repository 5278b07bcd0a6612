import TheClub.Conduct

/-!
What the services do with seed pairs, rounds and bets: a nonce is taken before the transaction
has written a seed pair, the round accounts for it with the outcome the pair gives, and the bets
are paid as the outcome says.
-/

namespace TheClub
open ReadCommitted Program Roulette

/-- What the open transaction has done: nonces taken without a round yet (pair, nonce), the
seed pair read last, whether it has written a seed pair, and the round written last (id, outcome). -/
structure Play where
  owed : List (Id × Nat) := []
  seen : Option SeedPair := none
  wrote : Bool := false
  round : Option (Id × Int) := none

/-- The bet that a row stores, and what `resolve_bets` must have made of it. -/
def ResolvesTo (outcome : Int) (betType : BetType) (selection : Selection) (stakeMinor payoutMinor : Int)
    (status : BetStatus) : Prop :=
  ∃ won, resolveBet outcome { betType, selection, stake := { minor := stakeMinor } } =
    .ok { bet := { betType, selection, stake := { minor := stakeMinor } }, won, payout := { minor := payoutMinor } } ∧
    status = if won then .won else .lost

def SeedPair.material (pair : SeedPair) (nonce : Nat) : SeedMaterial :=
  { serverSeed := pair.serverSeed, clientSeed := pair.clientSeed, nonce }

namespace Play

def allowed (platform : Platform) (g : Play) : Cmd → Prop
  | .sql .seedPairs (.createActive _ serverSeed serverSeedHash _) => serverSeedHash = hashSeed platform serverSeed
  | .sql .seedPairs (.consumeNonce _) => g.wrote = false
  | .sql .rounds (.insert _ seedPairId nonce outcome _) => ∃ pair rest n, g.seen = some pair ∧ pair.id = seedPairId ∧
      g.owed = (seedPairId, nonce) :: rest ∧ outcome = Int.ofNat n ∧
      DerivesOutcome platform.hmacSha256 (pair.material nonce) POCKET_COUNT n
  | .sql .bets (.insert roundId betType selection stakeMinor payoutMinor status) => ∃ outcome,
      g.round = some (roundId, outcome) ∧ ResolvesTo outcome betType selection stakeMinor payoutMinor status
  | .commit _ => g.owed = []
  | _ => True

def after (g : Play) : (c : Cmd) → Except Error c.Ret → Play
  | .sql .seedPairs (.getActiveByUserId _), .ok [pair] => { g with seen := some pair }
  | .sql .seedPairs (.createActive _ _ _ _), .ok _ => { g with wrote := true }
  | .sql .seedPairs (.consumeNonce seedPairId), .ok (some nonce) =>
    { g with owed := g.owed ++ [(seedPairId, nonce)], wrote := true }
  | .sql .seedPairs (.revealAndDeactivate _ _), .ok _ => { g with wrote := true }
  | .sql .rounds (.insert _ _ _ outcome _), .ok round =>
    { g with owed := g.owed.tail, round := some (round.id, outcome) }
  | _, _ => g

end Play

def gameProtocol (platform : Platform) : Protocol signature where
  Ghost := Play
  start := {}
  allowed := Play.allowed platform
  possible := Answer platform
  next := fun g c r => if fate c r = .isOpen then g.after c r else {}
  died := fun _ => {}

/-- The commands that are no part of the game. -/
def Offstage : Cmd → Prop
  | .sql .seedPairs _ => False
  | .sql .rounds (.insert _ _ _ _ _) => False
  | .sql .bets (.insert _ _ _ _ _ _) => False
  | .commit _ => False
  | .rollback => False
  | _ => True

variable {platform : Platform} {settings : Settings}

theorem gameProtocol_transactional :
    Transactional platform (gameProtocol platform) Offstage (fun g => g.owed = []) where
  possible := rfl
  off g c quiet := by
    cases c with
    | sql f q => cases f <;> cases q <;> first | exact quiet.elim | exact ⟨trivial, fun a => rfl⟩
    | commit tx => exact quiet.elim
    | rollback => exact quiet.elim
    | _ => exact ⟨trivial, fun a => rfl⟩
  ends g c r h := if_neg h
  stays g message e := rfl
  commit g tx ready := ready
  rollback g := trivial
  readyStart := rfl

section
variable {α : Type} {p : Prog α} {g : Play}

theorem uses_offstage {L : List TableName} (seeds : .seedPairs ∉ L) (rounds : .rounds ∉ L) (bets : .bets ∉ L) {c : Cmd}
    (h : Uses L c) : Offstage c := by
  cases c with
  | sql f q =>
    cases f with
    | seedPairs => exact (seeds h).elim
    | rounds => exact (rounds h).elim
    | bets => exact (bets h).elim
    | _ => trivial
  | commit tx => exact h.elim
  | rollback => exact h.elim
  | _ => trivial

/-- A plain program that is no part of the game changes nothing. -/
theorem keepsPlay {A : Cmd → Prop} (h : p.Plain A) (quiet : ∀ c, A c → Offstage c) :
    p.Follows (gameProtocol platform) (Then fun g' _ => g' = g) g :=
  h.follows fun c member => gameProtocol_transactional.off g c (quiet c member)

theorem uses_keepsPlay {L : List TableName} (h : p.Plain (Uses L)) (seeds : .seedPairs ∉ L) (rounds : .rounds ∉ L)
    (bets : .bets ∉ L) : p.Follows (gameProtocol platform) (Then fun g' _ => g' = g) g :=
  keepsPlay h fun _ => uses_offstage seeds rounds bets

theorem perform_keepsPlay {c : Cmd} (quiet : Offstage c) :
    (perform c).Follows (gameProtocol platform) (Then fun g' _ => g' = g) g :=
  keepsPlay (plain_perform (S := signature) quiet) fun _ => id

theorem requireActiveSeedPair_seen {userId : Id} :
    (requireActiveSeedPair platform userId).Follows (gameProtocol platform)
      (Then fun g' pair => g' = { g with seen := some pair }) g := by
  refine ⟨trivial, fun r _ => ?_⟩
  rcases r with e | (_ | ⟨pair, _ | ⟨_, _⟩⟩)
  · trivial
  · trivial
  · rfl
  · trivial

theorem createActive_wrote {userId : Id} {serverSeed : Bytes} {clientSeed : String} :
    (SeedPairRepository.createActive userId serverSeed (hashSeed platform serverSeed) clientSeed).Follows
      (gameProtocol platform) (Then fun g' _ => g' = { g with wrote := true }) g := by
  refine ⟨rfl, fun r _ => ?_⟩
  cases r <;> trivial

theorem consumeNonce_owes {seedPairId : Id} (fresh : g.wrote = false) :
    (SeedPairRepository.consumeNonce seedPairId).Follows (gameProtocol platform)
      (Then fun g' nonce => g' = { g with owed := g.owed ++ [(seedPairId, nonce)], wrote := true }) g := by
  refine ⟨fresh, fun r _ => ?_⟩
  rcases r with e | (_ | nonce)
  · trivial
  · trivial
  · rfl

theorem revealAndDeactivate_wrote {seedPairId : Id} :
    (SeedPairRepository.revealAndDeactivate seedPairId).Follows (gameProtocol platform)
      (Then fun g' _ => g' = { g with wrote := true }) g := by
  refine (perform_keepsPlay (c := .datetimeNow) trivial).seq fun now => ?_
  refine ⟨trivial, fun r _ => ?_⟩
  cases r <;> trivial

theorem spin_derives {seed : SeedMaterial} :
    (perform (.spin seed)).Follows (gameProtocol platform)
      (Then fun g' n => g' = g ∧ DerivesOutcome platform.hmacSha256 seed POCKET_COUNT n) g := by
  refine ⟨trivial, fun r answer => ?_⟩
  cases r with
  | ok n => exact ⟨rfl, answer⟩
  | error e => trivial

theorem insertBet_resolved {roundId : Id} {outcome : Int} {bet : ResolvedBetInput}
    (written : g.round = some (roundId, outcome))
    (resolved : ResolvesTo outcome bet.betType bet.selection bet.stakeMinor bet.payoutMinor
      (if bet.won then .won else .lost)) :
    (RoundRepository.insertBet roundId bet).Follows (gameProtocol platform) (Then fun g' _ => g' = g) g := by
  refine ⟨⟨outcome, written, resolved⟩, fun r _ => ?_⟩
  cases r <;> trivial

/-- The round accounts for the oldest nonce, and its bets are paid as its outcome says. -/
theorem createSettledRound_accounts {userId : Id} {pair : SeedPair} {nonce n : Nat} {rest : List (Id × Nat)}
    {bets : List ResolvedBetInput} (seen : g.seen = some pair) (oldest : g.owed = (pair.id, nonce) :: rest)
    (derived : DerivesOutcome platform.hmacSha256 (pair.material nonce) POCKET_COUNT n)
    (resolved : ∀ bet ∈ bets, ResolvesTo n bet.betType bet.selection bet.stakeMinor bet.payoutMinor
      (if bet.won then .won else .lost)) :
    (RoundRepository.createSettledRound userId pair.id nonce n bets).Follows (gameProtocol platform)
      (Then fun g' _ => g'.owed = rest) g := by
  refine (perform_keepsPlay (c := .datetimeNow) trivial).seq fun now => ?_
  refine ⟨⟨pair, rest, n, seen, rfl, oldest, rfl, derived⟩, fun r _ => ?_⟩
  cases r with
  | error e => trivial
  | ok round =>
    refine (follows_then_mapM fun bet member => insertBet_resolved rfl (resolved bet member)).seq fun rows => ?_
    exact congrArg List.tail oldest

end

theorem resolveBet_ok {outcome : Int} {request : BetRequest} {r : ResolvedBet}
    (h : resolveBet outcome (placedBet request) = .ok r) :
    ResolvesTo outcome r.bet.betType r.bet.selection r.bet.stake.minor r.payout.minor
      (if r.won then .won else .lost) := by
  unfold resolveBet at h
  cases covers : coveredNumbers (placedBet request).betType (placedBet request).selection with
  | error e => rw [covers] at h; cases h
  | ok covered =>
    rw [covers] at h
    cases h
    refine ⟨_, ?_, rfl⟩
    simp only [placedBet] at covers
    simp only [resolveBet, placedBet, covers]
    by_cases won : outcome ∈ covered <;> simp [won, Money.mul, Money.zero, Bind.bind, Except.bind, pure, Except.pure]

/-- What `resolve_bets` returned for bets in the table's currency, as the rows will store it. -/
theorem resolveBets_ok {requests : List BetRequest} {outcome : Int} {resolved : List ResolvedBet}
    (h : resolveBets (requests.map placedBet) outcome = .ok resolved) :
    ∀ bet ∈ resolved.map resolvedBetInput, ResolvesTo outcome bet.betType bet.selection bet.stakeMinor bet.payoutMinor
      (if bet.won then .won else .lost) := by
  unfold resolveBets at h
  induction requests generalizing resolved with
  | nil =>
    cases h
    simp
  | cons request requests ih =>
    rw [List.map_cons, List.mapM_cons] at h
    cases first : resolveBet outcome (placedBet request) with
    | error e => rw [first] at h; cases h
    | ok r =>
      rw [first] at h
      cases rest : (requests.map placedBet).mapM (resolveBet outcome) with
      | error e => simp only [rest] at h; cases h
      | ok rs =>
        simp only [rest] at h
        cases h
        intro bet member
        rcases List.mem_cons.mp member with rfl | later
        · exact resolveBet_ok first
        · exact ih rest bet later

/-! ### The services follow it -/

theorem settleRound_accounts {g : Play} {userId : Id} {key : String} {wallet : Wallet} {pair : SeedPair} {nonce n : Nat}
    {totalStake balanceAfterStake : Int} {resolved : List ResolvedBet} (seen : g.seen = some pair)
    (oldest : g.owed = [(pair.id, nonce)])
    (derived : DerivesOutcome platform.hmacSha256 (pair.material nonce) POCKET_COUNT n)
    (paid : ∀ bet ∈ resolved.map resolvedBetInput, ResolvesTo n bet.betType bet.selection bet.stakeMinor bet.payoutMinor
      (if bet.won then .won else .lost)) :
    (settleRound platform settings userId key wallet pair nonce totalStake balanceAfterStake n resolved).Follows
      (gameProtocol platform) (Then fun g' _ => g'.owed = []) g := by
  refine (uses_keepsPlay (creditPayout_uses (L := [.wallets]) (by decide))
    (by decide) (by decide) (by decide)).seq fun balanceAfterPayout => ?_
  refine follows_then_bind.mpr ((createSettledRound_accounts seen oldest derived paid).then_mono
    fun g' round done => ?_)
  refine (uses_keepsPlay (append_uses (L := [.ledgerEntries]) (by decide))
    (by decide) (by decide) (by decide)).seq fun stakeEntry => ?_
  refine (uses_keepsPlay (appendPayout_uses (L := [.ledgerEntries]) (by decide))
    (by decide) (by decide) (by decide)).seq fun payoutEntryId => ?_
  exact (uses_keepsPlay (enqueueRoundEvents_uses (L := [.outbox]) (by decide))
    (by decide) (by decide) (by decide)).seq fun _ => done

theorem placeBet_plays {userId : Id} {key : String} {betRequests : List BetRequest} :
    (placeBet platform settings userId key betRequests).Follows (gameProtocol platform)
      (Then fun g _ => g.owed = []) {} := by
  refine (uses_keepsPlay (L := []) lift_uses (by decide) (by decide) (by decide)).seq fun _ => ?_
  refine (uses_keepsPlay (requireWallet_uses (L := [.wallets]) (by decide))
    (by decide) (by decide) (by decide)).seq fun wallet => ?_
  refine (uses_keepsPlay (debit_uses (L := [.wallets]) (by decide))
    (by decide) (by decide) (by decide)).seq fun balanceAfterStake => ?_
  refine requireActiveSeedPair_seen.seq fun pair => ?_
  refine (consumeNonce_owes rfl).seq fun nonce => ?_
  refine follows_then_bind.mpr (spin_derives.then_mono fun g n spun => ?_)
  obtain ⟨rfl, derived⟩ := spun
  cases resolves : resolveBets (betRequests.map placedBet) n with
  | error reason => trivial
  | ok resolved => exact settleRound_accounts rfl rfl derived (resolveBets_ok resolves)

theorem rotateSeed_plays {userId : Id} :
    (rotateSeed platform userId).Follows (gameProtocol platform) (Then fun g _ => g.owed = []) {} := by
  refine requireActiveSeedPair_seen.seq fun current => ?_
  refine revealAndDeactivate_wrote.seq fun _ => ?_
  refine (perform_keepsPlay (c := .tokenBytes _) trivial).seq fun newSeed => ?_
  refine (perform_keepsPlay (c := .tokenHex _) trivial).seq fun clientSeed => ?_
  exact createActive_wrote.seq fun newPair => rfl

theorem getCurrentSeed_plays {userId : Id} :
    (getCurrentSeed platform userId).Follows (gameProtocol platform) (Then fun g _ => g.owed = []) {} :=
  requireActiveSeedPair_seen.seq fun _ => rfl

theorem registerUser_plays {email password : String} :
    (registerUser platform settings email password).Follows (gameProtocol platform)
    (Then fun g _ => g.owed = []) {} := by
  refine (uses_keepsPlay (getByEmail_uses (L := [.users]) (by decide))
    (by decide) (by decide) (by decide)).seq fun found => ?_
  cases found with
  | some user => trivial
  | none =>
    refine (perform_keepsPlay (c := .hashPassword _) trivial).seq fun passwordHash => ?_
    refine (perform_keepsPlay (c := .sql .users _) trivial).seq fun user => ?_
    refine (perform_keepsPlay (c := .tokenBytes _) trivial).seq fun serverSeed => ?_
    refine (perform_keepsPlay (c := .tokenHex _) trivial).seq fun clientSeed => ?_
    refine (perform_keepsPlay (c := .sql .wallets _) trivial).seq fun _ => ?_
    refine createActive_wrote.seq fun _ => ?_
    refine (perform_keepsPlay (c := .uuid4) trivial).seq fun familyId => ?_
    exact (uses_keepsPlay (issueTokens_uses (L := [.refreshTokens]) (by decide))
      (by decide) (by decide) (by decide)).seq fun tokens => rfl

theorem background_offstage : Transactional.Background Offstage where
  accounts _ h := uses_offstage (by decide) (by decide) (by decide) h.uses
  looks c h := by
    unfold Looks at h
    split at h <;> trivial
  outbox _ := trivial
  send _ := trivial
  idempotency _ := trivial

theorem useCase_plays {q : Request} (useCase : q.isUseCase = true) :
    (q.code platform settings).Follows (gameProtocol platform) (fun g _ => g = {}) {} :=
  gameProtocol_transactional.useCase background_offstage (fun _ _ => registerUser_plays) (fun _ => getCurrentSeed_plays)
    (fun _ => rotateSeed_plays) (fun _ _ _ => placeBet_plays)
    (fun _ _ _ => uses_keepsPlay deposit_uses (by decide) (by decide) (by decide) |>.then_mono
      fun _ _ same => same ▸ rfl) useCase

theorem useCases_play : Disciplined (Y := application platform settings) UseCases (gameProtocol platform)
    fun _ g _ => g = {} where
  code _ _ _ start := useCase_plays start
  answers _ _ _ _ _ _ ran := exec_answer ran

end TheClub
