import TheClub.Conduct

/-!
What the services do with the wallet and the active seed pair that every user has. A transaction
that creates a user, or takes an active pair away, gives the user what is missing before it commits.
-/

namespace TheClub
open ReadCommitted Program

/-- What the open transaction still owes: the users who lack a wallet or an active pair because of
it, and the user and id of the active pair it has looked up last. -/
structure Household where
  owesWallet : List Id := []
  owesPair : List Id := []
  seen : Option (Id × Id) := none

namespace Household

def allowed (g : Household) : Cmd → Prop
  | .sql .users (.setStatus _ _) => False
  | .sql .seedPairs (.getActiveByUserId _) => g.owesPair = []
  | .sql .seedPairs (.revealAndDeactivate seedPairId _) => ∃ userId, g.seen = some (userId, seedPairId)
  | .commit _ => g.owesWallet = [] ∧ g.owesPair = []
  | _ => True

def after (g : Household) : (c : Cmd) → Except Error c.Ret → Household
  | .sql .users (.create _ _), .ok user =>
    { g with owesWallet := g.owesWallet ++ [user.id], owesPair := g.owesPair ++ [user.id] }
  | .sql .wallets (.add userId _), .ok _ => { g with owesWallet := g.owesWallet.filter (· ≠ userId) }
  | .sql .seedPairs (.getActiveByUserId userId), .ok [pair] => { g with seen := some (userId, pair.id) }
  | .sql .seedPairs (.createActive userId _ _ _), .ok _ => { g with owesPair := g.owesPair.filter (· ≠ userId) }
  | .sql .seedPairs (.revealAndDeactivate _ _), .ok _ =>
    { g with owesPair := g.owesPair ++ (g.seen.map Prod.fst).toList }
  | _, _ => g

end Household

def householdProtocol (platform : Platform) : Protocol signature where
  Ghost := Household
  start := {}
  allowed := Household.allowed
  possible := Answer platform
  next := fun g c r => if fate c r = .isOpen then g.after c r else {}
  died := fun _ => {}

/-- The commands that change nothing about who has a wallet or an active pair. -/
def Elsewhere : Cmd → Prop
  | .sql .users (.create _ _) => False
  | .sql .users (.setStatus _ _) => False
  | .sql .wallets (.add _ _) => False
  | .sql .seedPairs _ => False
  | .commit _ => False
  | .rollback => False
  | _ => True

def Household.Settled (g : Household) : Prop := g.owesWallet = [] ∧ g.owesPair = []

variable {platform : Platform} {settings : Settings}

theorem householdProtocol_transactional :
    Transactional platform (householdProtocol platform) Elsewhere Household.Settled where
  possible := rfl
  off g c quiet := by
    cases c with
    | sql f q => cases f <;> cases q <;> first | exact quiet.elim | exact ⟨trivial, fun a => rfl⟩
    | commit tx => exact quiet.elim
    | rollback => exact quiet.elim
    | _ => exact ⟨trivial, fun a => rfl⟩
  ends g c r h := if_neg h
  stays g message e := rfl
  commit g tx ready := ready
  rollback g := trivial
  readyStart := ⟨rfl, rfl⟩

section
variable {α : Type} {p : Prog α} {g : Household}

theorem uses_elsewhere {L : List TableName} (users : .users ∉ L) (wallets : .wallets ∉ L) (seeds : .seedPairs ∉ L)
    {c : Cmd} (h : Uses L c) : Elsewhere c := by
  cases c with
  | sql f q =>
    cases f with
    | users => exact (users h).elim
    | wallets => exact (wallets h).elim
    | seedPairs => exact (seeds h).elim
    | _ => trivial
  | commit tx => exact h.elim
  | rollback => exact h.elim
  | _ => trivial

theorem looks_elsewhere {c : Cmd} (h : Looks c) : Elsewhere c := by
  unfold Looks at h
  split at h <;> trivial

theorem signs_elsewhere {c : Cmd} (h : Signs c) : Elsewhere c := by
  rcases h with ⟨email, rfl⟩ | h
  · trivial
  · exact uses_elsewhere (by decide) (by decide) (by decide) h

theorem keepsHouse {A : Cmd → Prop} (h : p.Plain A) (quiet : ∀ c, A c → Elsewhere c) :
    p.Follows (householdProtocol platform) (Then fun g' _ => g' = g) g :=
  h.follows fun c member => householdProtocol_transactional.off g c (quiet c member)

theorem uses_keepsHouse {L : List TableName} (h : p.Plain (Uses L)) (users : .users ∉ L) (wallets : .wallets ∉ L)
    (seeds : .seedPairs ∉ L) : p.Follows (householdProtocol platform) (Then fun g' _ => g' = g) g :=
  keepsHouse h fun _ => uses_elsewhere users wallets seeds

theorem perform_keepsHouse {c : Cmd} (quiet : Elsewhere c) :
    (perform c).Follows (householdProtocol platform) (Then fun g' _ => g' = g) g :=
  keepsHouse (plain_perform (S := signature) quiet) fun _ => id

theorem requireActiveSeedPair_looksUp {userId : Id} (settled : g.owesPair = []) :
    (requireActiveSeedPair platform userId).Follows (householdProtocol platform)
      (Then fun g' pair => g' = { g with seen := some (userId, pair.id) }) g := by
  refine ⟨settled, fun r _ => ?_⟩
  rcases r with e | (_ | ⟨pair, _ | ⟨_, _⟩⟩)
  · trivial
  · trivial
  · rfl
  · trivial

theorem createActive_gives {userId : Id} {serverSeed : Bytes} {serverSeedHash clientSeed : String} :
    (SeedPairRepository.createActive userId serverSeed serverSeedHash clientSeed).Follows (householdProtocol platform)
      (Then fun g' _ => g' = { g with owesPair := g.owesPair.filter (· ≠ userId) }) g := by
  refine ⟨trivial, fun r _ => ?_⟩
  cases r <;> trivial

theorem revealAndDeactivate_takes {userId seedPairId : Id} (seen : g.seen = some (userId, seedPairId)) :
    (SeedPairRepository.revealAndDeactivate seedPairId).Follows (householdProtocol platform)
      (Then fun g' _ => g' = { g with owesPair := g.owesPair ++ [userId] }) g := by
  refine (perform_keepsHouse (c := .datetimeNow) trivial).seq fun now => ?_
  refine ⟨⟨userId, seen⟩, fun r _ => ?_⟩
  cases r with
  | error e => trivial
  | ok u =>
    change ({ g with owesPair := g.owesPair ++ (g.seen.map Prod.fst).toList } : Household) = _
    rw [seen]
    rfl

theorem consumeNonce_keepsHouse {seedPairId : Id} : (SeedPairRepository.consumeNonce seedPairId).Follows
    (householdProtocol platform) (Then fun g' _ => g' = g) g := by
  refine ⟨trivial, fun r _ => ?_⟩
  rcases r with e | (_ | nonce)
  · trivial
  · trivial
  · rfl

theorem create_owes {email passwordHash : String} :
    (UserRepository.create email passwordHash).Follows (householdProtocol platform) (Then fun g' user => g' = { g with
      owesWallet := g.owesWallet ++ [user.id]
      owesPair := g.owesPair ++ [user.id] }) g := by
  refine ⟨trivial, fun r _ => ?_⟩
  cases r <;> trivial

theorem add_gives {userId : Id} {balanceMinor : Int} : (sql .wallets (.add userId balanceMinor)).Follows
    (householdProtocol platform) (Then fun g' _ =>
      g' = { g with owesWallet := g.owesWallet.filter (· ≠ userId) }) g := by
  refine ⟨trivial, fun r _ => ?_⟩
  cases r <;> trivial

end

theorem credit_elsewhere {walletId : Id} {amount : Money} : (WalletRepository.credit walletId amount).Plain Elsewhere :=
  Plain.bind (plain_perform (S := signature) trivial) fun _ => by unfold scalarOne; split <;> trivial

theorem debit_elsewhere {walletId : Id} {amount : Money} :
    (WalletRepository.debit platform walletId amount).Plain Elsewhere := by
  refine Plain.bind (plain_perform (S := signature) trivial) fun newBalance => ?_
  cases newBalance <;> trivial

theorem creditPayout_elsewhere {walletId : Id} {totalPayout : Int} :
    (creditPayout walletId totalPayout).Plain Elsewhere := by
  unfold creditPayout
  split
  · exact credit_elsewhere.bind fun _ => trivial
  · trivial

theorem away_elsewhere {α : Type} {L : List TableName} {p : Prog α} (h : p.Plain (Uses L)) (users : .users ∉ L)
    (wallets : .wallets ∉ L) (seeds : .seedPairs ∉ L) : p.Plain Elsewhere :=
  h.mono fun _ => uses_elsewhere users wallets seeds

theorem settleRound_elsewhere {userId : Id} {key : String} {wallet : Wallet} {pair : SeedPair} {nonce n : Nat}
    {totalStake balanceAfterStake : Int} {resolved : List Roulette.ResolvedBet} :
    (settleRound platform settings userId key wallet pair nonce totalStake balanceAfterStake n resolved).Plain
      Elsewhere := by
  refine creditPayout_elsewhere.bind fun balanceAfterPayout => ?_
  refine (away_elsewhere (createSettledRound_uses (L := [.rounds, .bets]) (by decide) (by decide))
    (by decide) (by decide) (by decide)).bind fun round => ?_
  refine (away_elsewhere (append_uses (L := [.ledgerEntries]) (by decide))
    (by decide) (by decide) (by decide)).bind fun stakeEntry => ?_
  refine (away_elsewhere (appendPayout_uses (L := [.ledgerEntries]) (by decide))
    (by decide) (by decide) (by decide)).bind fun payoutEntryId => ?_
  exact (away_elsewhere (enqueueRoundEvents_uses (L := [.outbox]) (by decide))
    (by decide) (by decide) (by decide)).bind fun _ => trivial

theorem deposit_elsewhere {userId : Id} {key : String} {amountMinor : Int} :
    (deposit platform settings userId key amountMinor).Plain Elsewhere := by
  refine (requireWallet_looks.mono fun _ => looks_elsewhere).bind fun wallet => ?_
  refine credit_elsewhere.bind fun balanceAfter => ?_
  refine (away_elsewhere (append_uses (L := [.ledgerEntries]) (by decide))
    (by decide) (by decide) (by decide)).bind fun entry => ?_
  refine (away_elsewhere (newEnvelope_uses (L := [])) (by decide) (by decide) (by decide)).bind fun envelope => ?_
  exact (away_elsewhere (enqueueEvent_uses (L := [.outbox]) (by decide))
    (by decide) (by decide) (by decide)).bind fun _ => trivial

/-! ### The services follow it -/

theorem placeBet_settles {userId : Id} {key : String} {betRequests : List BetRequest} :
    (placeBet platform settings userId key betRequests).Follows (householdProtocol platform)
      (Then fun g _ => g.Settled) {} := by
  refine (uses_keepsHouse (L := []) lift_uses (by decide) (by decide) (by decide)).seq fun _ => ?_
  refine (keepsHouse requireWallet_looks fun _ => looks_elsewhere).seq fun wallet => ?_
  refine (keepsHouse debit_elsewhere fun _ => id).seq fun balanceAfterStake => ?_
  refine (requireActiveSeedPair_looksUp rfl).seq fun pair => ?_
  refine (consumeNonce_keepsHouse).seq fun nonce => ?_
  refine (perform_keepsHouse (c := .spin _) trivial).seq fun outcome => ?_
  refine (uses_keepsHouse (L := []) lift_uses (by decide) (by decide) (by decide)).seq fun resolved => ?_
  exact (keepsHouse settleRound_elsewhere fun _ => id).then_mono fun _ _ same => same ▸ ⟨rfl, rfl⟩

theorem rotateSeed_settles {userId : Id} :
    (rotateSeed platform userId).Follows (householdProtocol platform) (Then fun g _ => g.Settled) {} := by
  refine (requireActiveSeedPair_looksUp rfl).seq fun current => ?_
  refine (revealAndDeactivate_takes rfl).seq fun _ => ?_
  refine (perform_keepsHouse (c := .tokenBytes _) trivial).seq fun newSeed => ?_
  refine (perform_keepsHouse (c := .tokenHex _) trivial).seq fun clientSeed => ?_
  exact createActive_gives.seq fun newPair => ⟨rfl, by simp⟩

theorem getCurrentSeed_settles {userId : Id} :
    (getCurrentSeed platform userId).Follows (householdProtocol platform) (Then fun g _ => g.Settled) {} :=
  (requireActiveSeedPair_looksUp rfl).seq fun _ => ⟨rfl, rfl⟩

theorem registerUser_settles {email password : String} :
    (registerUser platform settings email password).Follows (householdProtocol platform)
      (Then fun g _ => g.Settled) {} := by
  have lookup : (UserRepository.getByEmail email).Plain Elsewhere :=
    Plain.bind (plain_perform (S := signature) trivial) fun _ => by unfold scalarOneOrNone; split <;> trivial
  refine (keepsHouse lookup fun _ => id).seq fun found => ?_
  cases found with
  | some user => trivial
  | none =>
    refine (perform_keepsHouse (c := .hashPassword _) trivial).seq fun passwordHash => ?_
    refine create_owes.seq fun user => ?_
    refine (perform_keepsHouse (c := .tokenBytes _) trivial).seq fun serverSeed => ?_
    refine (perform_keepsHouse (c := .tokenHex _) trivial).seq fun clientSeed => ?_
    refine add_gives.seq fun _ => ?_
    refine createActive_gives.seq fun _ => ?_
    refine (perform_keepsHouse (c := .uuid4) trivial).seq fun familyId => ?_
    exact (uses_keepsHouse (issueTokens_uses (L := [.refreshTokens]) (by decide))
      (by decide) (by decide) (by decide)).seq fun tokens => ⟨by simp, by simp⟩

theorem background_elsewhere : Transactional.Background Elsewhere where
  accounts _ := signs_elsewhere
  looks _ := looks_elsewhere
  outbox _ := trivial
  send _ := trivial
  idempotency _ := trivial

theorem useCase_settles {q : Request} (useCase : q.isUseCase = true) :
    (q.code platform settings).Follows (householdProtocol platform) (fun g _ => g = {}) {} :=
  householdProtocol_transactional.useCase background_elsewhere (fun _ _ => registerUser_settles)
    (fun _ => getCurrentSeed_settles) (fun _ => rotateSeed_settles) (fun _ _ _ => placeBet_settles)
    (fun _ _ _ => (keepsHouse deposit_elsewhere fun _ => id).then_mono fun _ _ same => same ▸ ⟨rfl, rfl⟩) useCase

theorem useCases_settle : Disciplined (Y := application platform settings) UseCases (householdProtocol platform)
    fun _ g _ => g = {} where
  code _ _ _ start := useCase_settles start
  answers _ _ _ _ _ _ ran := exec_answer ran

end TheClub
