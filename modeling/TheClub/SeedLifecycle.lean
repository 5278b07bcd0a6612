import TheClub.Nonces

/-!
The life of a seed pair. A bet reads the active pair and takes its nonce in two statements, and
the second looks for the id only; a rotation that commits in between leaves the bet with a
revealed seed. In the runs where no rotation does, a revealed pair is never used again.
-/

namespace TheClub
open ReadCommitted Program

variable {platform : Platform} {settings : Settings}

/-! ### A nonce is taken right after its pair was read -/

/-- The pair that the last command has read, if it was the lookup of an active pair. -/
def lookupProtocol (platform : Platform) : Protocol signature where
  Ghost := Option Id
  start := none
  allowed := fun read c => match c with
    | .sql .seedPairs (.consumeNonce seedPairId) => read = some seedPairId
    | _ => True
  possible := Answer platform
  next := fun _ c r => match c, r with
    | .sql .seedPairs (.getActiveByUserId _), .ok [pair] => some pair.id
    | _, _ => none
  died := fun _ => none

/-- The commands that take no nonce. -/
def TakesNone : Cmd → Prop
  | .sql .seedPairs (.consumeNonce _) => False
  | _ => True

theorem takesNone_allowed {g : Option Id} {c : Cmd} (none : TakesNone c) : (lookupProtocol platform).allowed g c := by
  cases c with
  | sql f q => cases f <;> cases q <;> first | exact none.elim | trivial
  | _ => trivial

section
variable {α : Type} {p : Prog α}

theorem takesNone_always (h : p.Only TakesNone) : p.Always (lookupProtocol platform) :=
  h.always fun _ _ => takesNone_allowed

theorem uses_takesNone {L : List TableName} (seeds : .seedPairs ∉ L) {c : Cmd} (h : Uses L c) : TakesNone c := by
  cases c with
  | sql f q =>
    cases f with
    | seedPairs => exact (seeds h).elim
    | _ => trivial
  | _ => trivial

theorem uses_always {L : List TableName} (h : p.Plain (Uses L)) (seeds : .seedPairs ∉ L) :
    p.Always (lookupProtocol platform) := takesNone_always (h.only.mono fun _ => uses_takesNone seeds)

end

theorem background_takesNone : Transactional.Background TakesNone where
  accounts _ h := uses_takesNone (by decide) h.uses
  looks c h := by
    unfold Looks at h
    split at h <;> trivial
  outbox _ := trivial
  send _ := trivial
  idempotency _ := trivial

theorem idle_takesNone {α : Type} {p : Prog α} (h : p.Only (Transactional.Idle TakesNone)) :
    p.Always (lookupProtocol platform) := by
  refine takesNone_always (h.mono fun c idle => ?_)
  rcases idle with quiet | ⟨tx, rfl⟩ | rfl
  · exact quiet
  · trivial
  · trivial

theorem reserves_free {userId : Id} {key requestHash : String} :
    Reserves (fun c => ∀ g, (lookupProtocol platform).allowed g c) userId key requestHash :=
  .of_statement (fun _ _ => trivial) (fun _ => trivial) (fun _ => trivial) fun _ _ => trivial

theorem requireActiveSeedPair_read {userId : Id} {read : Option Id} :
    (requireActiveSeedPair platform userId).Follows (lookupProtocol platform)
      (Then fun read' pair => read' = some pair.id) read := by
  refine ⟨trivial, fun r _ => ?_⟩
  rcases r with e | (_ | ⟨pair, _ | ⟨_, _⟩⟩)
  · trivial
  · trivial
  · rfl
  · trivial

theorem placeBet_always {userId : Id} {key : String} {betRequests : List BetRequest} :
    (placeBet platform settings userId key betRequests).Always (lookupProtocol platform) := by
  refine (uses_always (L := []) lift_uses (by decide)).bind fun _ => ?_
  refine (uses_always (requireWallet_uses (L := [.wallets]) (by decide)) (by decide)).bind fun wallet => ?_
  refine (uses_always (debit_uses (L := [.wallets]) (by decide)) (by decide)).bind fun balanceAfterStake => ?_
  intro read
  refine follows_bind.mpr (requireActiveSeedPair_read.mono fun read r found => ?_)
  cases r with
  | error e => trivial
  | ok pair =>
    subst found
    refine ⟨rfl, fun r _ => ?_⟩
    have rest : ∀ nonce, Always (lookupProtocol platform)
        (Program.bind (perform (.spin (pair.material nonce))) fun outcome =>
        (liftBet (Roulette.resolveBets (betRequests.map placedBet) outcome)).bind fun resolved =>
          settleRound platform settings userId key wallet pair nonce
            ((betRequests.map placedBet).map fun bet => bet.stake.minor).sum balanceAfterStake outcome resolved) :=
      fun nonce => (perform_always (c := .spin _) fun _ => trivial).bind fun outcome =>
        (uses_always (L := []) lift_uses (by decide)).bind fun resolved => uses_always settleRound_uses (by decide)
    rcases r with e | (_ | nonce)
    · trivial
    · trivial
    · exact rest nonce _

theorem requireActiveSeedPair_takesNone {userId : Id} : (requireActiveSeedPair platform userId).Plain TakesNone := by
  refine Plain.bind (Plain.bind (plain_perform (S := signature) trivial) fun rows => ?_) fun pair => ?_
  · unfold scalarOneOrNone
    split <;> trivial
  · cases pair <;> trivial

theorem rotateSeed_takesNone {userId : Id} : (rotateSeed platform userId).Plain TakesNone := by
  refine requireActiveSeedPair_takesNone.bind fun current => ?_
  refine Plain.bind (Plain.bind (plain_perform (S := signature) trivial) fun now =>
    plain_perform (S := signature) trivial) fun _ => ?_
  refine Plain.bind (plain_perform (S := signature) trivial) fun newSeed => ?_
  refine Plain.bind (plain_perform (S := signature) trivial) fun clientSeed => ?_
  exact Plain.bind (plain_perform (S := signature) trivial) fun newPair => trivial

theorem registerUser_takesNone {email password : String} :
    (registerUser platform settings email password).Plain TakesNone := by
  have away : ∀ {L : List TableName} {α : Type} {p : Prog α}, p.Plain (Uses L) → .seedPairs ∉ L → p.Plain TakesNone :=
    fun h seeds => h.mono fun _ => uses_takesNone seeds
  refine (away (getByEmail_uses (L := [.users]) (by decide)) (by decide)).bind fun found => ?_
  cases found with
  | some user => trivial
  | none =>
    refine Plain.bind (plain_perform (S := signature) trivial) fun passwordHash => ?_
    refine Plain.bind (plain_perform (S := signature) trivial) fun user => ?_
    refine Plain.bind (plain_perform (S := signature) trivial) fun serverSeed => ?_
    refine Plain.bind (plain_perform (S := signature) trivial) fun clientSeed => ?_
    refine Plain.bind (plain_perform (S := signature) trivial) fun _ => ?_
    refine Plain.bind (plain_perform (S := signature) trivial) fun _ => ?_
    refine Plain.bind (plain_perform (S := signature) trivial) fun familyId => ?_
    exact (away (issueTokens_uses (L := [.refreshTokens]) (by decide)) (by decide)).bind fun tokens => trivial

theorem useCase_always {q : Request} (useCase : q.isUseCase = true) :
    (q.code platform settings).Always (lookupProtocol platform) := by
  have reply : ∀ {α : Type} {p : Prog α} {f : α → Reply}, p.Always (lookupProtocol platform) →
      (f <$> p).Always (lookupProtocol platform) := fun h => h.bind fun _ _ => trivial
  have work : ∀ {α : Type} {p : Prog α} {f : α → Dict}, p.Always (lookupProtocol platform) →
      (f <$> p).Always (lookupProtocol platform) := fun h => h.bind fun _ _ => trivial
  have account : ∀ {α : Type} {p : Prog α}, p.Plain (Uses [.users, .refreshTokens]) →
      (unitOfWork .request p).Always (lookupProtocol platform) :=
    fun h => unitOfWork_always (fun _ => trivial) (fun _ => trivial) (uses_always h (by decide))
  have look : ∀ {α : Type} {p : Prog α}, p.Plain Looks → (unitOfWork .request p).Always (lookupProtocol platform) :=
    fun h => unitOfWork_always (fun _ => trivial) (fun _ => trivial)
      (takesNone_always (h.only.mono background_takesNone.looks))
  have seeds : ∀ {α : Type} {p : Prog α}, p.Plain TakesNone →
      (unitOfWork .request p).Always (lookupProtocol platform) :=
    fun h => unitOfWork_always (fun _ => trivial) (fun _ => trivial) (takesNone_always h.only)
  have depositing : ∀ userId key amountMinor,
      (deposit platform settings userId key amountMinor).Always (lookupProtocol platform) :=
    fun _ _ _ => uses_always deposit_uses (by decide)
  cases q with
  | registerUser email password => exact reply (seeds registerUser_takesNone)
  | login email password => exact reply (account login_uses)
  | refresh rawRefreshToken => exact reply (idle_takesNone (Transactional.refresh_idle background_takesNone))
  | logout userId rawRefreshToken => exact reply (account (logout_uses.mono fun c => Uses.mono (by decide)))
  | getBalance userId => exact reply (look getBalance_looks)
  | listTransactions userId cursor limit => exact reply (look listTransactions_looks)
  | listRounds userId cursor limit => exact reply (look listRounds_looks)
  | currentSeed userId => exact reply (seeds (requireActiveSeedPair_takesNone.bind fun _ => trivial))
  | rotateSeed userId => exact reply (seeds rotateSeed_takesNone)
  | placeBet userId key bets => exact reply (unitOfWork_always (fun _ => trivial) (fun _ => trivial) placeBet_always)
  | deposit userId key amountMinor =>
      exact reply (unitOfWork_always (fun _ => trivial) (fun _ => trivial) (depositing _ _ _))
  | createRound userId key body bets => exact reply (runIdempotent_always reserves_free (work placeBet_always))
  | createDeposit userId key body amountMinor =>
      exact reply (runIdempotent_always reserves_free (work (depositing _ _ _)))
  | relayOnce batchSize =>
    exact reply (idle_takesNone (relayOnce_only (Transactional.relaying_idle background_takesNone)))
  | purgeOnce retentionHours =>
    exact reply (idle_takesNone (purgeOnce_only (Transactional.relaying_idle background_takesNone)))
  | runIdempotent userId key requestHash ttlHours work => cases useCase
  | transaction work => cases useCase

theorem useCases_lookUp : Disciplined (Y := application platform settings) UseCases (lookupProtocol platform)
    fun _ _ _ => True where
  code _ _ _ start := useCase_always start _
  answers _ _ _ _ _ _ ran := exec_answer ran

/-! ### Whoever has not written a seed pair holds none -/

def Unlocked (s : Database) (g : Nat → Play) : Prop :=
  ∀ i, (g i).wrote = false → ∀ k, ((s.tables .seedPairs).slot k).holder ≠ some i

/-- A statement that leaves `wrote` alone has not written. -/
theorem after_wrote {g : Play} {i : Nat} {ctx : Context} {t t' : Table Id SeedPair} {q : SeedPairQuery} {a : q.Ret}
    (done : SeedPairQuery.exec ctx i t q = .ok a t') (still : (g.after (.sql .seedPairs q) (.ok a)).wrote = false) :
    t' = t ∧ g.wrote = false := by
  cases q with
  | getActiveByUserId userId =>
    cases done
    refine ⟨rfl, ?_⟩
    unfold Play.after at still
    split at still <;> first | exact still | simp_all
  | createActive userId serverSeed serverSeedHash clientSeed => cases still
  | consumeNonce seedPairId =>
    rcases SeedPairQuery.consumeNonce_ok done with ⟨rfl, rfl⟩ | ⟨pair, -, -, rfl, -⟩
    · exact ⟨rfl, still⟩
    · cases still
  | revealAndDeactivate seedPairId revealedAt => cases still

namespace Unlocked
variable {s s' : Database} {g : Nat → Play} {env : Env} {i : Nat}

theorem ended (inv : Unlocked s g) (fate : Fate) (ends : fate ≠ .isOpen)
    (pairs : s'.tables .seedPairs = (s.tables .seedPairs).settle i fate) (p : Play) :
    Unlocked s' (Function.update g i p) := by
  intro j unwritten k held
  rw [pairs] at held
  obtain ⟨ne, held⟩ := Table.holder_settle ends held
  rw [Function.update_of_ne ne] at unwritten
  exact inv j unwritten k held

theorem step (inv : Unlocked s g) {c : Cmd} {r : Except Error c.Ret}
    (ran : exec platform env i c s = some (r, s')) :
    Unlocked s' (Function.update g i ((gameProtocol platform).next (g i) c r)) := by
  by_cases ends : fate c r = .isOpen
  · have next : (gameProtocol platform).next (g i) c r = (g i).after c r := if_pos ends
    rw [next]
    by_cases isPairs : ∃ q, c = .sql .seedPairs q
    · obtain ⟨q, rfl⟩ := isPairs
      rcases exec_sql ran with ⟨e, rfl, -⟩ | ⟨a, rfl, done⟩
      · cases ends
      · intro j unwritten k held
        by_cases mine : j = i
        · subst mine
          rw [Function.update_self] at unwritten
          obtain ⟨table, before⟩ := after_wrote done unwritten
          rw [table] at held
          exact inv j before k held
        · rw [Function.update_of_ne mine] at unwritten
          exact inv j unwritten k ((SeedPairQuery.exec_moved done).holder mine held)
    · have pairs := exec_frame ran .seedPairs fun q same => isPairs ⟨q, same⟩
      rw [ends] at pairs
      intro j unwritten k held
      rw [pairs] at held
      refine inv j ?_ k held
      by_cases mine : j = i
      · subst mine
        rw [Function.update_self] at unwritten
        unfold Play.after at unwritten
        split at unwritten <;> first | exact unwritten | exact (isPairs ⟨_, rfl⟩).elim
      · rwa [Function.update_of_ne mine] at unwritten
  · exact inv.ended _ ends (exec_ends ran ends .seedPairs) _

end Unlocked

theorem reachable_unlocked {w : World (application platform settings)} (reached : Reachable UseCases w) :
    Unlocked w.state (w.ghost (gameProtocol platform)) := by
  refine useCases_play.invariant Unlocked ?_ ?_ ?_ reached
  · intro i _ k held
    cases held
  · intro w i env c r s' _ inv _ _ _ _ ran
    exact Unlocked.step inv ran
  · intro w i c _ inv _ _
    exact Unlocked.ended inv .undone (by simp) (by simp) _

end TheClub
