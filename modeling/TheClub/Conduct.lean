import TheClub.Footprints

/-!
Protocols about the open transaction. The end of a transaction clears them, so a request
follows one if the body of each of its units of work does, and a request whose commands do not
concern the protocol follows it for free.
-/

namespace TheClub
open ReadCommitted Program

/-- Only commands outside `off` concern `P`, and a transaction may commit when it is `ready`. -/
structure Transactional (platform : Platform) (P : Protocol signature) (off : Cmd → Prop) (ready : P.Ghost → Prop) :
    Prop where
  possible : P.possible = Answer platform
  off : ∀ g c, off c → P.allowed g c ∧ ∀ a, P.next g c (.ok a) = g
  ends : ∀ g c r, fate c r ≠ .isOpen → P.next g c r = P.start
  stays : ∀ g message e, P.next g (.send message) (.error e) = g
  commit : ∀ g tx, ready g → P.allowed g (.commit tx)
  rollback : ∀ g, P.allowed g .rollback
  readyStart : ready P.start

theorem fate_error_open {platform : Platform} {c : Cmd} {e : Error} (answer : Answer platform c (.error e))
    (h : fate c (.error e) = .isOpen) : ∃ message, c = .send message := by
  cases c with
  | send message => exact ⟨message, rfl⟩
  | commit tx => exact (fate_commit_ends tx _ h).elim
  | _ => first | exact False.elim answer | cases h

namespace Transactional
variable {platform : Platform} {P : Protocol signature} {off : Cmd → Prop} {ready : P.Ghost → Prop}

/-- A failed command ends the transaction, unless it is a failed send. -/
theorem error (T : Transactional platform P off ready) {g : P.Ghost} {c : Cmd} {e : Error}
    (answer : Answer platform c (.error e)) : P.next g c (.error e) = P.start ∨ P.next g c (.error e) = g := by
  by_cases h : fate c (.error e) = .isOpen
  · obtain ⟨message, rfl⟩ := fate_error_open answer h
    exact Or.inr (T.stays g message e)
  · exact Or.inl (T.ends g c _ h)

/-- Commands that do not concern the protocol, and the ends of empty transactions. -/
def Idle (off : Cmd → Prop) (c : Cmd) : Prop := off c ∨ (∃ tx, c = .commit tx) ∨ c = .rollback

theorem idle (T : Transactional platform P off ready) {α : Type} {p : Prog α} (h : p.Only (Idle off)) :
    p.Follows P (fun g _ => g = P.start) P.start := by
  refine h.follows rfl ?_
  rintro g c rfl (quiet | ⟨tx, rfl⟩ | rfl)
  · obtain ⟨allowed, stays⟩ := T.off P.start c quiet
    refine ⟨allowed, fun r answer => ?_⟩
    rw [T.possible] at answer
    cases r with
    | ok a => exact stays a
    | error e => exact (T.error answer).elim id id
  · exact ⟨T.commit _ tx T.readyStart, fun r _ => T.ends _ (.commit tx) r (fate_commit_ends tx r)⟩
  · exact ⟨T.rollback _, fun r _ => T.ends _ .rollback r (by simp [fate])⟩

theorem unitOfWork (T : Transactional platform P off ready) {α : Type} {tx : Tx} {body : Prog α} {g : P.Ghost}
    (h : body.Follows P (Then fun g _ => ready g) g) :
    (unitOfWork tx body).Follows P (fun g _ => g = P.start) g := by
  refine follows_bind.mpr (follows_attempt.mpr (h.mono fun g r done => ?_))
  cases r with
  | ok a =>
    refine ⟨T.commit g tx done, fun r _ => ?_⟩
    have cleared := T.ends g (.commit tx) r (fate_commit_ends tx r)
    cases r <;> exact cleared
  | error e =>
    refine ⟨T.rollback g, fun r _ => ?_⟩
    have cleared := T.ends g .rollback r (by simp [fate])
    cases r <;> exact cleared

/-- The protocol is about bets, deposits, seeds and registrations only. -/
structure Background (off : Cmd → Prop) : Prop where
  accounts : ∀ c, Signs c → off c
  looks : ∀ c, Looks c → off c
  outbox : ∀ q, off (.sql .outbox q)
  send : ∀ message, off (.send message)
  idempotency : ∀ q, off (.sql .idempotencyKeys q)

theorem Background.now {off : Cmd → Prop} (background : Background off) : off .datetimeNow :=
  background.accounts _ (Or.inr trivial)

theorem unitOfWork_idle {off : Cmd → Prop} {α : Type} {tx : Tx} {body : Prog α} (h : body.Only off) :
    (TheClub.unitOfWork tx body).Only (Idle off) := by
  refine Only.bind (h.mono fun c quiet => Or.inl quiet).attempt fun r => ?_
  cases r with
  | ok a => exact Only.bind (only_perform (S := signature) (Or.inr (Or.inl ⟨tx, rfl⟩))) fun _ => trivial
  | error e => exact Only.bind (only_perform (S := signature) (Or.inr (Or.inr rfl))) fun _ => trivial

theorem reserves_idle {off : Cmd → Prop} (background : Background off) {userId : Id} {key requestHash : String} :
    Reserves (Idle off) userId key requestHash :=
  .of_statement (fun tx => Or.inr (Or.inl ⟨tx, rfl⟩)) (Or.inr (Or.inr rfl)) (Or.inl background.now)
    fun q => Or.inl (background.idempotency q)

theorem relaying_idle {off : Cmd → Prop} (background : Background off) : Relaying (Idle off) :=
  ⟨Or.inr (Or.inl ⟨_, rfl⟩), Or.inr (Or.inl ⟨_, rfl⟩), Or.inr (Or.inr rfl), Or.inl background.now,
    fun q _ => Or.inl (background.outbox q), fun message => Or.inl (background.send message)⟩

theorem runReserved (T : Transactional platform P off ready) (background : Background off) {rowId : Id}
    {work : Prog Dict}
    (h : work.Follows P (Then fun g _ => ready g) P.start) :
    (runReserved rowId work).Follows P (fun g _ => g = P.start) P.start := by
  refine follows_handle.mpr ((T.unitOfWork (g := P.start) ?_).mono fun g r cleared => ?_)
  · refine follows_then_bind.mpr (h.then_mono fun g body done => ?_)
    obtain ⟨allowed, stays⟩ := T.off g (.sql .idempotencyKeys (.markCompleted rowId body)) (background.idempotency _)
    refine ⟨allowed, fun r _ => ?_⟩
    cases r with
    | ok a =>
      rw [stays a]
      exact done
    | error e => trivial
  · cases r with
    | ok body => exact cleared
    | error e =>
      subst cleared
      exact T.idle (Only.bind
        (unitOfWork_idle (only_perform (S := signature) (background.idempotency _))) fun _ => trivial)

/-- A request through `run_idempotent` follows the protocol if its work does. -/
theorem runIdempotent (T : Transactional platform P off ready) (background : Background off) {userId : Id}
    {key requestHash : String} {ttlHours : Int} {work : Prog Dict}
    (h : work.Follows P (Then fun g _ => ready g) P.start) :
    (runIdempotent userId key requestHash ttlHours work).Follows P (fun g _ => g = P.start) P.start := by
  refine follows_bind.mpr ((T.idle (tryReserve_only (reserves_idle background).toFinds)).mono fun g r cleared => ?_)
  subst cleared
  rcases r with e | (_ | rowId)
  · rfl
  · refine follows_bind.mpr ((T.idle (resolveExisting_only (reserves_idle background).toFinds)).mono
      fun g r cleared => ?_)
    subst cleared
    rcases r with e | (_ | cached)
    · rfl
    · refine follows_bind.mpr ((T.idle (tryReserve_only (reserves_idle background).toFinds)).mono fun g r cleared => ?_)
      subst cleared
      rcases r with e | (_ | rowId)
      · rfl
      · rfl
      · exact T.runReserved background h
    · rfl
  · exact T.runReserved background h

theorem refresh_idle {off : Cmd → Prop} (background : Background off) {settings : Settings} {rawRefreshToken : String} :
    (TheClub.unitOfWork .request (refreshAccessToken platform settings rawRefreshToken)).Only (Idle off) := by
  have body : (refreshAccessToken platform settings rawRefreshToken).Only (Idle off) := by
    refine refreshAccessToken_uses.mono fun c used => ?_
    rcases used with used | rfl
    · exact Or.inl (background.accounts c (Or.inr used))
    · exact Or.inr (Or.inl ⟨_, rfl⟩)
  refine Only.bind body.attempt fun r => ?_
  cases r with
  | ok a => exact Only.bind (only_perform (S := signature) (Or.inr (Or.inl ⟨_, rfl⟩))) fun _ => trivial
  | error e => exact Only.bind (only_perform (S := signature) (Or.inr (Or.inr rfl))) fun _ => trivial

/-- Every use case follows the protocol if bets, deposits, seeds and registrations do. -/
theorem useCase (T : Transactional platform P off ready) (background : Background off) {settings : Settings}
    (register : ∀ email password,
      (registerUser platform settings email password).Follows P (Then fun g _ => ready g) P.start)
    (seed : ∀ userId, (getCurrentSeed platform userId).Follows P (Then fun g _ => ready g) P.start)
    (rotate : ∀ userId, (rotateSeed platform userId).Follows P (Then fun g _ => ready g) P.start)
    (bet : ∀ userId key bets,
      (placeBet platform settings userId key bets).Follows P (Then fun g _ => ready g) P.start)
    (deposits : ∀ userId key amountMinor,
      (deposit platform settings userId key amountMinor).Follows P (Then fun g _ => ready g) P.start)
    {q : Request} (isUseCase : q.isUseCase = true) :
    (q.code platform settings).Follows P (fun g _ => g = P.start) P.start := by
  have reply : ∀ {α : Type} {p : Prog α} {f : α → Reply}, p.Follows P (fun g _ => g = P.start) P.start →
      (f <$> p).Follows P (fun g _ => g = P.start) P.start := by
    intro α p f h
    refine follows_bind.mpr (h.mono fun g r cleared => ?_)
    cases r <;> exact cleared
  have work : ∀ {α : Type} {p : Prog α} {f : α → Dict}, p.Follows P (Then fun g _ => ready g) P.start →
      (f <$> p).Follows P (Then fun g _ => ready g) P.start :=
    fun h => follows_then_bind.mpr (h.then_mono fun g a done => done)
  have account : ∀ {α : Type} {p : Prog α}, p.Plain Signs →
      (TheClub.unitOfWork .request p).Follows P (fun g _ => g = P.start) P.start :=
    fun h => T.idle (unitOfWork_idle (h.only.mono background.accounts))
  have look : ∀ {α : Type} {p : Prog α}, p.Plain Looks →
      (TheClub.unitOfWork .request p).Follows P (fun g _ => g = P.start) P.start :=
    fun h => T.idle (unitOfWork_idle (h.only.mono background.looks))
  cases q with
  | registerUser email password => exact reply (T.unitOfWork (register email password))
  | login email password => exact reply (account login_signs)
  | refresh rawRefreshToken => exact reply (T.idle (refresh_idle background))
  | logout userId rawRefreshToken =>
    exact reply (account (logout_uses.mono fun c => Or.inr))
  | getBalance userId => exact reply (look getBalance_looks)
  | listTransactions userId cursor limit => exact reply (look listTransactions_looks)
  | listRounds userId cursor limit => exact reply (look listRounds_looks)
  | currentSeed userId => exact reply (T.unitOfWork (seed userId))
  | rotateSeed userId => exact reply (T.unitOfWork (rotate userId))
  | placeBet userId key bets => exact reply (T.unitOfWork (bet userId key bets))
  | deposit userId key amountMinor => exact reply (T.unitOfWork (deposits userId key amountMinor))
  | createRound userId key body bets => exact reply (T.runIdempotent background (work (bet userId key bets)))
  | createDeposit userId key body amountMinor =>
    exact reply (T.runIdempotent background (work (deposits userId key amountMinor)))
  | relayOnce batchSize => exact reply (T.idle (relayOnce_only (relaying_idle background)))
  | purgeOnce retentionHours => exact reply (T.idle (purgeOnce_only (relaying_idle background)))
  | runIdempotent userId key requestHash ttlHours work => cases isUseCase
  | transaction work => cases isUseCase

end Transactional

end TheClub
