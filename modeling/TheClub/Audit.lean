import TheClub.Provenance

/-!
The audit of a player. What the service published about a seed pair before the bets is what the
rotation reveals, and the revealed seed reproduces every round of the pair.
-/

namespace TheClub
open ReadCommitted Program Roulette

variable {platform : Platform} {settings : Settings}

/-! ### What a reply shows -/

section
variable {α : Type} {p : Prog α} {h : List (Event signature)}

theorem perform_transcript {c : Cmd} :
    (perform c).Follows (transcript signature) (Then fun h' a => h' = h ++ [.ran c (.ok a)]) h := by
  refine ⟨trivial, fun r _ => ?_⟩
  cases r with
  | ok a => rfl
  | error e => trivial

/-- A unit of work returns what its body returned, once its COMMIT has been acknowledged. -/
theorem unitOfWork_transcript {tx : Tx} {Q : List (Event signature) → α → Prop}
    (follows : p.Follows (transcript signature) (Then Q) h) :
    (unitOfWork tx p).Follows (transcript signature)
      (Then fun h' a => ∃ body, Q body a ∧ h' = body ++ [.ran (.commit tx) (.ok ())]) h := by
  refine follows_bind.mpr (follows_attempt.mpr (follows.mono fun body r done => ?_))
  cases r with
  | ok a =>
    refine ⟨trivial, fun r _ => ?_⟩
    cases r with
    | ok u => exact ⟨body, done, rfl⟩
    | error e => trivial
  | error e =>
    refine ⟨trivial, fun r _ => ?_⟩
    cases r <;> trivial

theorem requireActiveSeedPair_transcript {userId : Id} :
    (requireActiveSeedPair platform userId).Follows (transcript signature)
      (Then fun h' pair => h' = h ++ [.ran (.sql .seedPairs (.getActiveByUserId userId)) (.ok [pair])]) h := by
  refine ⟨trivial, fun r _ => ?_⟩
  rcases r with e | (_ | ⟨pair, _ | ⟨_, _⟩⟩)
  · trivial
  · trivial
  · rfl
  · trivial

end

/-- What a finished request has been through and answered, for the requests that show seeds. -/
def Shows : Request → List (Event signature) → Except Error Reply → Prop
  | .currentSeed userId, h, .ok reply => ∃ pair,
    h = [.ran (.sql .seedPairs (.getActiveByUserId userId)) (.ok [pair]), .ran (.commit .request) (.ok ())] ∧
    reply = .currentSeed
      { serverSeedHash := pair.serverSeedHash, clientSeed := pair.clientSeed, nonce := pair.nonce }
  | .rotateSeed userId, h, .ok reply => ∃ current now newSeed clientSeed newPair serverSeedHash,
    h = [.ran (.sql .seedPairs (.getActiveByUserId userId)) (.ok [current]), .ran .datetimeNow (.ok now),
      .ran (.sql .seedPairs (.revealAndDeactivate current.id now)) (.ok ()),
      .ran (.tokenBytes SEED_BYTES) (.ok newSeed), .ran (.tokenHex CLIENT_SEED_BYTES) (.ok clientSeed),
      .ran (.sql .seedPairs (.createActive userId newSeed serverSeedHash clientSeed)) (.ok newPair),
      .ran (.commit .request) (.ok ())] ∧
    reply = .rotated
      { revealedServerSeed := hex current.serverSeed, revealedServerSeedHash := current.serverSeedHash,
        newServerSeedHash := newPair.serverSeedHash, newClientSeed := newPair.clientSeed }
  | _, _, _ => True

theorem currentSeed_shows {userId : Id} :
    ((Request.currentSeed userId).code platform settings).Follows (transcript signature)
      (Shows (.currentSeed userId)) [] := by
  have body : (getCurrentSeed platform userId).Follows (transcript signature) (Then fun h view => ∃ pair,
      h = [.ran (.sql .seedPairs (.getActiveByUserId userId)) (.ok [pair])] ∧
      view = { serverSeedHash := pair.serverSeedHash, clientSeed := pair.clientSeed, nonce := pair.nonce }) [] :=
    requireActiveSeedPair_transcript.seq fun pair => ⟨pair, rfl, rfl⟩
  refine follows_bind.mpr ((unitOfWork_transcript body).mono fun h r done => ?_)
  cases r with
  | ok view =>
    obtain ⟨_, ⟨pair, rfl, rfl⟩, rfl⟩ := done
    exact ⟨pair, rfl, rfl⟩
  | error e => trivial

theorem rotateSeed_shows {userId : Id} :
    ((Request.rotateSeed userId).code platform settings).Follows (transcript signature)
      (Shows (.rotateSeed userId)) [] := by
  have body : (rotateSeed platform userId).Follows (transcript signature) (Then fun (h : List (Event signature)) view =>
      Shows (.rotateSeed userId) (h ++ [.ran (.commit .request) (.ok ())]) (.ok (.rotated view))) [] := by
    refine requireActiveSeedPair_transcript.seq fun current => ?_
    refine follows_then_bind.mpr (perform_transcript.seq fun now => ?_)
    refine perform_transcript.then_mono fun h revealed same => ?_
    subst same
    refine perform_transcript.seq fun newSeed => ?_
    refine perform_transcript.seq fun clientSeed => ?_
    refine perform_transcript.seq fun newPair => ?_
    exact ⟨current, _, newSeed, clientSeed, newPair, _, rfl, rfl⟩
  refine follows_bind.mpr ((unitOfWork_transcript body).mono fun h r done => ?_)
  cases r with
  | ok view =>
    obtain ⟨before, shows_it, rfl⟩ := done
    exact shows_it
  | error e => trivial

theorem request_shows (q : Request) :
    (q.code platform settings).Follows (transcript signature) (Shows q) [] := by
  cases q with
  | currentSeed userId => exact currentSeed_shows
  | rotateSeed userId => exact rotateSeed_shows
  | _ => exact (follows_anything _ (fun _ _ => trivial) _).mono fun _ _ _ => trivial

theorem useCases_show : Disciplined (Y := application platform settings) UseCases (transcript signature) Shows where
  code _ _ q _ := request_shows q
  answers _ _ _ _ _ _ _ := trivial

variable {w : World (application platform settings)}

theorem finished_shows (reached : Reachable UseCases w) {i : Nat} {q : Request} {r : Except Error Reply}
    (asked : w.request i = some q) (finished : w.Finished i r) : Shows q (w.history i) r := by
  obtain ⟨q', asked', shown⟩ := useCases_show.finished reached finished
  rw [ghost_transcript] at shown
  rw [asked] at asked'
  cases asked'
  exact shown

/-! ### Publication and revelation -/

/-- `GET /fairness/seed`, or the rotation that created pair `k`, has answered with this hash and client seed. -/
def Published (w : World (application platform settings)) (k : Id) (serverSeedHash clientSeed : String) : Prop :=
  (∃ i userId pair view, w.request i = some (.currentSeed userId) ∧ w.Finished i (.ok (.currentSeed view)) ∧
    w.Ran i (.sql .seedPairs (.getActiveByUserId userId)) (.ok [pair]) ∧ pair.id = k ∧
    view.serverSeedHash = serverSeedHash ∧ view.clientSeed = clientSeed) ∨
  ∃ i userId newSeed newHash newClient pair view, w.request i = some (.rotateSeed userId) ∧
    w.Finished i (.ok (.rotated view)) ∧
    w.Ran i (.sql .seedPairs (.createActive userId newSeed newHash newClient)) (.ok pair) ∧ pair.id = k ∧
    view.newServerSeedHash = serverSeedHash ∧ view.newClientSeed = clientSeed

/-- The rotation that reveals pair `k` has answered with this seed, in hexadecimal, and this hash. -/
def Revealed (w : World (application platform settings)) (k : Id) (serverSeed serverSeedHash : String) : Prop :=
  ∃ i userId now view, w.request i = some (.rotateSeed userId) ∧ w.Finished i (.ok (.rotated view)) ∧
    w.Ran i (.sql .seedPairs (.revealAndDeactivate k now)) (.ok ()) ∧
    view.revealedServerSeed = serverSeed ∧ view.revealedServerSeedHash = serverSeedHash

/-- What was published is what the pair was created with. -/
theorem published_inserted (reached : Reachable UseCases w) {k : Id} {serverSeedHash clientSeed : String}
    (published : Published w k serverSeedHash clientSeed) :
    ∃ row : SeedPair, Inserted .seedPairs w row ∧ row.id = k ∧ row.serverSeedHash = serverSeedHash ∧
      row.clientSeed = clientSeed := by
  rcases published with ⟨i, userId, pair, view, asked, finished, ran, rfl, rfl, rfl⟩ |
    ⟨i, userId, newSeed, newHash, newClient, pair, view, asked, finished, ran, rfl, rfl, rfl⟩
  · obtain ⟨pair', history, same⟩ := finished_shows reached asked finished
    cases same
    have same : pair = pair' := by simpa [World.Ran, history] using ran
    subst same
    obtain ⟨row, new, fixed, -⟩ := read_pair reached ran
    obtain ⟨id, -, hash, client⟩ := SeedPairQuery.of_fixed fixed
    exact ⟨row, new, id.symm, hash.symm, client.symm⟩
  · obtain ⟨_, _, _, _, pair', _, history, same⟩ := finished_shows reached asked finished
    cases same
    have same : pair = pair' := by
      have member : _ ∈ w.history i := ran
      rw [history] at member
      simp at member
      exact member.2
    subst same
    exact ⟨pair, ⟨i, _, _, ran, rfl⟩, rfl, rfl, rfl⟩

/-- What was revealed is what the pair was created with. -/
theorem revealed_inserted (reached : Reachable UseCases w) {k : Id} {serverSeed serverSeedHash : String}
    (revealed : Revealed w k serverSeed serverSeedHash) :
    ∃ row : SeedPair, Inserted .seedPairs w row ∧ row.id = k ∧ row.serverSeedHash = serverSeedHash ∧
      hex row.serverSeed = serverSeed := by
  obtain ⟨i, userId, now, view, asked, finished, ran, rfl, rfl⟩ := revealed
  obtain ⟨current, now', _, _, _, _, history, same⟩ := finished_shows reached asked finished
  cases same
  have own : k = current.id := by
    have member : _ ∈ w.history i := ran
    rw [history] at member
    simp at member
    exact member.1
  have read : w.Ran i (.sql .seedPairs (.getActiveByUserId userId)) (.ok [current]) := by
    simp [World.Ran, history]
  obtain ⟨row, new, fixed, -⟩ := read_pair reached read
  obtain ⟨id, seed, hash, -⟩ := SeedPairQuery.of_fixed fixed
  exact ⟨row, new, by rw [own, id], hash.symm, by rw [seed]⟩

/-- Pair `k` was created for the user. -/
def PairOf (w : World (application platform settings)) (userId k : Id) : Prop :=
  ∃ row : SeedPair, Inserted .seedPairs w row ∧ row.id = k ∧ row.userId = userId

theorem read_pairOf (reached : Reachable UseCases w) {i : Nat} {userId : Id} {pair : SeedPair}
    (ran : w.Ran i (.sql .seedPairs (.getActiveByUserId userId)) (.ok [pair])) : PairOf w userId pair.id := by
  obtain ⟨row, new, fixed, owner⟩ := read_pair reached ran
  exact ⟨row, new, (SeedPairQuery.of_fixed fixed).1.symm, owner⟩

theorem created_pairOf (reached : Reachable UseCases w) {i : Nat} {userId : Id} {serverSeed : Bytes}
    {serverSeedHash clientSeed : String} {pair : SeedPair}
    (ran : w.Ran i (.sql .seedPairs (.createActive userId serverSeed serverSeedHash clientSeed)) (.ok pair)) :
    PairOf w userId pair.id := by
  obtain ⟨before, after, env, start, about, -, -, done, -⟩ := Run.moment reached ran
  rcases exec_sql done with ⟨e, bad, -⟩ | ⟨a, same, done⟩
  · cases bad
  · cases same
    obtain ⟨rfl, -⟩ := insertRow_ok done
    exact ⟨_, ⟨i, _, _, ran, rfl⟩, rfl, rfl⟩

theorem currentSeed_publishes (reached : Reachable UseCases w) {i : Nat} {userId : Id} {reply : Reply}
    (asked : w.request i = some (.currentSeed userId)) (finished : w.Finished i (.ok reply)) :
    ∃ view k, reply = .currentSeed view ∧ PairOf w userId k ∧ Published w k view.serverSeedHash view.clientSeed := by
  obtain ⟨pair, history, rfl⟩ := finished_shows reached asked finished
  have read : w.Ran i (.sql .seedPairs (.getActiveByUserId userId)) (.ok [pair]) := by
    simp [World.Ran, history]
  exact ⟨_, pair.id, rfl, read_pairOf reached read,
    Or.inl ⟨i, userId, pair, _, asked, finished, read, rfl, rfl, rfl⟩⟩

theorem rotateSeed_reveals (reached : Reachable UseCases w) {i : Nat} {userId : Id} {reply : Reply}
    (asked : w.request i = some (.rotateSeed userId)) (finished : w.Finished i (.ok reply)) :
    ∃ view k k', reply = .rotated view ∧ PairOf w userId k ∧ PairOf w userId k' ∧
      Revealed w k view.revealedServerSeed view.revealedServerSeedHash ∧
      Published w k' view.newServerSeedHash view.newClientSeed := by
  obtain ⟨current, now, newSeed, newClient, newPair, newHash, history, rfl⟩ := finished_shows reached asked finished
  have read : w.Ran i (.sql .seedPairs (.getActiveByUserId userId)) (.ok [current]) := by
    simp [World.Ran, history]
  have revealed : w.Ran i (.sql .seedPairs (.revealAndDeactivate current.id now)) (.ok ()) := by
    simp [World.Ran, history]
  have created : w.Ran i (.sql .seedPairs (.createActive userId newSeed newHash newClient)) (.ok newPair) := by
    simp [World.Ran, history]
  exact ⟨_, current.id, newPair.id, rfl, read_pairOf reached read, created_pairOf reached created,
    ⟨i, userId, now, _, asked, finished, revealed, rfl, rfl⟩,
    Or.inr ⟨i, userId, newSeed, newHash, newClient, newPair, _, asked, finished, created, rfl, rfl, rfl⟩⟩

/-! ### The audit -/

/-- The committed bets of a round, in the order in which they were written. -/
def betsOf (s : Database) (roundId : Id) : List Bet :=
  (s.tables .bets).committedRows.filter fun bet => bet.roundId = roundId

def Bet.placed (bet : Bet) : PlacedBet :=
  { betType := bet.betType, selection := bet.selection, stake := { minor := bet.stakeMinor } }

/-- The seeds and the stored nonce derive the stored outcome, and running `resolve_bets` again on
the stored bets gives the stored payouts and statuses. -/
def Reproduced (platform : Platform) (s : Database) (round : Round) (serverSeed : Bytes) (clientSeed : String) : Prop :=
  ∃ n : Nat, DerivesOutcome platform.hmacSha256 { serverSeed, clientSeed, nonce := round.nonce } POCKET_COUNT n ∧
    n ≤ 36 ∧ round.outcome = some (n : Int) ∧
    ∃ resolved, resolveBets ((betsOf s round.id).map Bet.placed) n = .ok resolved ∧
      resolved.map (fun r => r.payout.minor) = (betsOf s round.id).map Bet.payoutMinor ∧
      resolved.map (fun r => if r.won then .won else .lost) = (betsOf s round.id).map Bet.status

theorem resolveBets_again {outcome : Int} {bets : List Bet} (each : ∀ bet ∈ bets,
      ResolvesTo outcome bet.betType bet.selection bet.stakeMinor bet.payoutMinor bet.status) :
    ∃ resolved, resolveBets (bets.map Bet.placed) outcome = .ok resolved ∧
      resolved.map (fun r => r.payout.minor) = bets.map Bet.payoutMinor ∧
      resolved.map (fun r => if r.won then .won else .lost) = bets.map Bet.status := by
  unfold resolveBets
  induction bets with
  | nil => exact ⟨[], rfl, rfl, rfl⟩
  | cons bet bets ih =>
    obtain ⟨won, resolves, status⟩ := each bet List.mem_cons_self
    obtain ⟨rest, resolved, payouts, statuses⟩ := ih fun other member => each other (List.mem_cons_of_mem _ member)
    have first : resolveBet outcome bet.placed = _ := resolves
    refine ⟨{ bet := bet.placed, won, payout := { minor := bet.payoutMinor } } :: rest, ?_, ?_, ?_⟩
    · rw [List.map_cons, List.mapM_cons, first, resolved]
      rfl
    · rw [List.map_cons, List.map_cons, payouts]
    · rw [List.map_cons, List.map_cons, statuses, status]

/-- The committed bets of a round that was inserted are the bets of that round. -/
theorem betsOf_resolved (reached : Reachable UseCases w) {round : Round} (drawn : Inserted .rounds w round)
    {outcome : Int}
    (spun : round.outcome = some outcome) : ∀ bet ∈ betsOf w.state round.id,
      ResolvesTo outcome bet.betType bet.selection bet.stakeMinor bet.payoutMinor bet.status := by
  intro bet member
  obtain ⟨committed, own⟩ := List.mem_filter.mp member
  obtain ⟨k, committed⟩ := Table.mem_committedRows.mp committed
  obtain ⟨row, new, -, same⟩ := (reachable_origins reached .bets).origin k bet (Or.inl committed)
  have same : bet = row := same
  subst same
  obtain ⟨round', outcome', drawn', id, spun', resolved⟩ := bet_resolved reached new
  have one : round' = round :=
    (reachable_origins reached .rounds).unique round' round drawn' drawn (id.trans (of_decide_eq_true own))
  subst one
  rw [spun] at spun'
  cases spun'
  exact resolved

/-- The pair a round names reproduces it. -/
theorem round_reproduced (reached : Reachable UseCases w) {m : Id} {round : Round}
    (committed : ((w.state.tables .rounds).slot m).committed = some round) {row : SeedPair}
    (pair : Inserted .seedPairs w row) (own : row.id = round.seedPairId) :
    Reproduced platform w.state round row.serverSeed row.clientSeed := by
  obtain ⟨drawn, new, -, same⟩ := (reachable_origins reached .rounds).origin m round (Or.inl committed)
  have same : round = drawn := same
  subst same
  obtain ⟨i, userId, seedPairId, nonce, outcome, settledAt, ran⟩ := inserted_round new
  obtain ⟨spun, pair', n, inserted, id, natural, derived⟩ := round_derived reached ran
  have one : pair' = row := (reachable_origins reached .seedPairs).unique pair' row inserted pair (id.trans own.symm)
  subst one
  rw [natural] at spun
  have bound : n < POCKET_COUNT := derivesOutcome_lt (by decide) derived
  have small : n ≤ 36 := by
    have : POCKET_COUNT = 37 := rfl
    omega
  exact ⟨n, derived, small, spun, resolveBets_again (betsOf_resolved reached new spun)⟩

/-- What commit and reveal come to in `w`. -/
structure Audited (w : World (application platform settings)) : Prop where
  /-- A pair's seed, hash and client seed stay as created, and the hash is the seed's. -/
  fixed : ∀ k a, ((w.state.tables .seedPairs).slot k).Version a → a.serverSeedHash = hashSeed platform a.serverSeed ∧
    ∀ w', Run UseCases w w' → ∀ b, ((w'.state.tables .seedPairs).slot k).Version b →
      b.serverSeed = a.serverSeed ∧ b.serverSeedHash = a.serverSeedHash ∧ b.clientSeed = a.clientSeed
  /-- Every answer of `GET /fairness/seed` publishes a pair of the user who asked. -/
  publishes : ∀ i userId reply, w.request i = some (.currentSeed userId) → w.Finished i (.ok reply) →
    ∃ view k, reply = .currentSeed view ∧ PairOf w userId k ∧ Published w k view.serverSeedHash view.clientSeed
  /-- Every answer of a rotation reveals a pair of the user who asked and publishes another one. -/
  reveals : ∀ i userId reply, w.request i = some (.rotateSeed userId) → w.Finished i (.ok reply) →
    ∃ view k k', reply = .rotated view ∧ PairOf w userId k ∧ PairOf w userId k' ∧
      Revealed w k view.revealedServerSeed view.revealedServerSeedHash ∧
      Published w k' view.newServerSeedHash view.newClientSeed
  /-- What was shown of a pair is what is stored of it. -/
  stored : ∀ k a, ((w.state.tables .seedPairs).slot k).Version a →
    (∀ serverSeedHash clientSeed, Published w k serverSeedHash clientSeed →
      serverSeedHash = a.serverSeedHash ∧ clientSeed = a.clientSeed) ∧
    ∀ seed hash, Revealed w k seed hash → seed = hex a.serverSeed ∧ hash = a.serverSeedHash
  /-- Whatever hash was published for a pair is the one revealed with it, and the hash of the seed revealed. -/
  agrees : ∀ k serverSeedHash clientSeed, Published w k serverSeedHash clientSeed →
    ∀ seed hash, Revealed w k seed hash → hash = serverSeedHash ∧
      ∃ serverSeed, seed = hex serverSeed ∧ hashSeed platform serverSeed = serverSeedHash
  /-- The revealed seed with the published client seed reproduces every committed round of the pair. -/
  reproduces : ∀ m round, ((w.state.tables .rounds).slot m).committed = some round →
    (∀ a, ((w.state.tables .seedPairs).slot round.seedPairId).Version a →
      Reproduced platform w.state round a.serverSeed a.clientSeed) ∧
    ∀ serverSeedHash clientSeed, Published w round.seedPairId serverSeedHash clientSeed →
      ∀ serverSeed hash, Revealed w round.seedPairId (hex serverSeed) hash →
        Reproduced platform w.state round serverSeed clientSeed

/-- Commit and reveal can be audited in every state of every run of the use cases. -/
theorem commit_reveal_audit (reached : Reachable UseCases w) : Audited w where
  fixed := by
    refine fun k a version => ⟨?_, fun w' run b later => ?_⟩
    · obtain ⟨row, new, -, fixed⟩ := (reachable_origins reached .seedPairs).origin k a version
      obtain ⟨-, seed, hash, -⟩ := SeedPairQuery.of_fixed fixed
      rw [hash, seed]
      exact pair_hashed reached new
    · obtain ⟨-, seed, hash, client⟩ := SeedPairQuery.of_fixed (fixed_of_run reached run version later)
      exact ⟨seed, hash, client⟩
  publishes _ _ _ := currentSeed_publishes reached
  reveals _ _ _ := rotateSeed_reveals reached
  stored := by
    intro k a version
    obtain ⟨row, new, id, fixed⟩ := (reachable_origins reached .seedPairs).origin k a version
    obtain ⟨-, seed, hash, client⟩ := SeedPairQuery.of_fixed fixed
    have one : ∀ row' : SeedPair, Inserted .seedPairs w row' → row'.id = k → row' = row := fun row' new' id' =>
      (reachable_origins reached .seedPairs).unique row' row new' new (id'.trans id.symm)
    constructor
    · intro serverSeedHash clientSeed published
      obtain ⟨row', new', id', hash', client'⟩ := published_inserted reached published
      rw [one row' new' id'] at hash' client'
      exact ⟨hash'.symm.trans hash.symm, client'.symm.trans client.symm⟩
    · intro text textHash revealed
      obtain ⟨row', new', id', hash', text'⟩ := revealed_inserted reached revealed
      rw [one row' new' id'] at hash' text'
      exact ⟨text'.symm.trans (congrArg hex seed.symm), hash'.symm.trans hash.symm⟩
  agrees := by
    intro k serverSeedHash clientSeed published seed hash revealed
    obtain ⟨row, new, id, hashed, -⟩ := published_inserted reached published
    obtain ⟨row', new', id', hashed', text⟩ := revealed_inserted reached revealed
    have same : row' = row := (reachable_origins reached .seedPairs).unique row' row new' new (id'.trans id.symm)
    subst same
    exact ⟨hashed'.symm.trans hashed, row'.serverSeed, text.symm, (pair_hashed reached new).symm.trans hashed⟩
  reproduces := by
    refine fun m round committed => ⟨fun a version => ?_, ?_⟩
    · obtain ⟨row, new, id, fixed⟩ := (reachable_origins reached .seedPairs).origin _ a version
      obtain ⟨-, seed, -, client⟩ := SeedPairQuery.of_fixed fixed
      rw [seed, client]
      exact round_reproduced reached committed new id
    · intro serverSeedHash clientSeed published serverSeed hash revealed
      obtain ⟨row, new, id, -, client⟩ := published_inserted reached published
      obtain ⟨row', new', id', -, text⟩ := revealed_inserted reached revealed
      have same : row' = row := (reachable_origins reached .seedPairs).unique row' row new' new (id'.trans id.symm)
      subst same
      rw [← client, ← hex_injective text]
      exact round_reproduced reached committed new id

/-- User 12 looks at the seed, deposits 1000, wins a bet of 100 on number 7 and rotates the pair. -/
def sampleAudit : SampleWorld := sampleRun (sampleRegistration ++
  .start 1 (.currentSeed 12) :: turns 1 2 30 2 ++
  .start 2 (.deposit 12 "deposit-1" 1000) :: turns 2 3 40 7 ++
  .start 3 (.placeBet 12 "bet-1" sampleBets) :: turns 3 4 50 40 ++
  .start 4 (.rotateSeed 12) :: turns 4 5 100 7)

def sampleSeed : Bytes := List.replicate SEED_BYTES 0

/-- Who has asked for the seed with process `i`, and the answer. -/
def seedAnswer (w : World (application platform settings)) (i : Nat) : Option (Id × CurrentSeedView) :=
  match w.request i, w.proc i with
  | some (.currentSeed userId), some (.done (.ok (.currentSeed view))) => some (userId, view)
  | _, _ => none

def rotationAnswer (w : World (application platform settings)) (i : Nat) : Option (Id × RotateSeedView) :=
  match w.request i, w.proc i with
  | some (.rotateSeed userId), some (.done (.ok (.rotated view))) => some (userId, view)
  | _, _ => none

theorem seedAnswer_some {i : Nat} {userId : Id} {view : CurrentSeedView}
    (answered : seedAnswer w i = some (userId, view)) :
    w.request i = some (.currentSeed userId) ∧ w.Finished i (.ok (.currentSeed view)) := by
  unfold seedAnswer at answered
  split at answered
  · rename_i asked running
    cases answered
    exact ⟨asked, running⟩
  · cases answered

theorem rotationAnswer_some {i : Nat} {userId : Id} {view : RotateSeedView}
    (answered : rotationAnswer w i = some (userId, view)) :
    w.request i = some (.rotateSeed userId) ∧ w.Finished i (.ok (.rotated view)) := by
  unfold rotationAnswer at answered
  split at answered
  · rename_i asked running
    cases answered
    exact ⟨asked, running⟩
  · cases answered

/-- The ids of the pairs that a process has read. -/
def pairsRead (h : List (Event signature)) : List Id := h.flatMap fun
  | .ran (.sql .seedPairs (.getActiveByUserId _)) (.ok pairs) => pairs.map SeedPair.id
  | _ => []

theorem sampleAudit_reachable : Reachable UseCases sampleAudit := sampleRun_reachable _

theorem sampleAudit_published : Published sampleAudit 16 (hex sampleSeed) "" := by
  have answered : seedAnswer sampleAudit 1 =
      some (12, { serverSeedHash := hex sampleSeed, clientSeed := "", nonce := 0 }) := by decide +kernel
  obtain ⟨asked, finished⟩ := seedAnswer_some answered
  obtain ⟨pair, history, -⟩ := finished_shows sampleAudit_reachable asked finished
  have one : pairsRead (sampleAudit.history 1) = [16] := by decide +kernel
  rw [history] at one
  have id : pair.id = 16 := by simpa [pairsRead] using one
  exact Or.inl ⟨1, 12, pair, _, asked, finished, by simp [World.Ran, history], id, rfl, rfl⟩

theorem sampleAudit_revealed : Revealed sampleAudit 16 (hex sampleSeed) (hex sampleSeed) := by
  have answered : rotationAnswer sampleAudit 4 = some (12,
      { revealedServerSeed := hex sampleSeed, revealedServerSeedHash := hex sampleSeed,
        newServerSeedHash := hex (List.replicate SEED_BYTES 4), newClientSeed := "" }) := by decide +kernel
  obtain ⟨asked, finished⟩ := rotationAnswer_some answered
  obtain ⟨current, now, _, _, _, _, history, -⟩ := finished_shows sampleAudit_reachable asked finished
  have one : pairsRead (sampleAudit.history 4) = [16] := by decide +kernel
  rw [history] at one
  have id : current.id = 16 := by simpa [pairsRead] using one
  exact ⟨4, 12, now, _, asked, finished, by simp [World.Ran, history, id], rfl, rfl⟩

/-- What user 12 was shown before the bet is what the rotation reveals, and reproduces the round. -/
theorem commit_reveal_audit_sampleAudit :
    Published sampleAudit 16 (hex sampleSeed) "" ∧ Revealed sampleAudit 16 (hex sampleSeed) (hex sampleSeed) ∧
    (∃ serverSeed, hex sampleSeed = hex serverSeed ∧ hashSeed samplePlatform serverSeed = hex sampleSeed) ∧
    Reproduced samplePlatform sampleAudit.state
      { id := 57, userId := 12, seedPairId := 16, nonce := 1, outcome := some 7, status := .settled, createdAt := 4,
        settledAt := some 4 } sampleSeed "" :=
  ⟨sampleAudit_published, sampleAudit_revealed,
    ((commit_reveal_audit sampleAudit_reachable).agrees 16 _ _ sampleAudit_published _ _ sampleAudit_revealed).2,
    ((commit_reveal_audit sampleAudit_reachable).reproduces 57 _ (by decide +kernel)).2 _ _ sampleAudit_published
      sampleSeed _ sampleAudit_revealed⟩

end TheClub
