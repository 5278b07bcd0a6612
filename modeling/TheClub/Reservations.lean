import TheClub.Footprints

/-!
What one call of `run_idempotent` does to the idempotency keys. A call inserts at most one row,
runs the work only once the insert is committed, and deletes a row only if it has inserted it or
has found it pending for too long.
-/

namespace TheClub
open ReadCommitted Program

/-- How far the open transaction of a call has got. -/
inductive CallStage where
  | idle
  /-- The row of the call has been inserted. -/
  | inserted
  | looked (row : IdempotencyKey)
  /-- The row that was found has been pending for longer than `PENDING_RECLAIM_SECONDS`. -/
  | stale (row : IdempotencyKey)
  | reclaimed (row : IdempotencyKey)
  /-- The row of the call is committed, and its open transaction has not written to the table. -/
  | working
  | marked (responseBody : Dict)
  | deleted

namespace CallStage

def undone : CallStage → CallStage
  | working => working
  | marked _ => working
  | _ => idle

def applied : CallStage → CallStage
  | inserted => working
  | working => working
  | marked _ => working
  | _ => idle

end CallStage

/-- The row that a call has inserted and the response that its work has committed. -/
structure Call where
  stage : CallStage := .idle
  held : Option IdempotencyKey := none
  won : Option Dict := none
  /-- A failed statement has aborted the open transaction. -/
  broken : Bool := false

/-- `datetime.now(UTC) - existing.created_at > timedelta(seconds=PENDING_RECLAIM_SECONDS)`. -/
def IdempotencyKey.Stuck (row : IdempotencyKey) (now : Time) : Prop :=
  now - row.createdAt > seconds PENDING_RECLAIM_SECONDS

instance (row : IdempotencyKey) (now : Time) : Decidable (row.Stuck now) := by
  unfold IdempotencyKey.Stuck; infer_instance

namespace Call

def after (g : Call) : (c : Cmd) → Except Error c.Ret → Call
  | .sql .idempotencyKeys (.createPending _ _ _ _), .ok row => { g with stage := .inserted, held := some row }
  | .sql .idempotencyKeys (.get _ _), .ok [row] => { g with stage := .looked row }
  | .datetimeNow, .ok now => match g.stage with
    | .looked row => if row.Stuck now then { g with stage := .stale row } else g
    | _ => g
  | .sql .idempotencyKeys (.markCompleted _ responseBody), .ok _ => match g.stage with
    | .working => { g with stage := .marked responseBody }
    | _ => g
  | .sql .idempotencyKeys (.delete _), .ok _ => match g.stage with
    | .stale row => { g with stage := .reclaimed row }
    | .working => { g with stage := .deleted }
    | _ => g
  | _, _ => g

def settle (g : Call) : Fate → Call
  | .isOpen => g
  | .undone => { g with stage := g.stage.undone, broken := false }
  | .applied => { g with
      stage := g.stage.applied
      won := match g.stage with
        | .marked responseBody => some responseBody
        | _ => g.won
      broken := false }

def next (g : Call) (c : Cmd) (r : Except Error c.Ret) : Call :=
  match fate c r with
  | .isOpen => g.after c r
  | ends => match c with
    | .sql _ _ => { g.settle ends with broken := true }
    | _ => g.settle ends

end Call

def callProtocol (platform : Platform) : Protocol signature where
  Ghost := Call
  start := {}
  allowed := fun g c => match c with
    | .sql .idempotencyKeys (.createPending _ _ _ _) => g = {}
    | .sql .idempotencyKeys (.get _ _) => g = {}
    | .sql .idempotencyKeys (.markCompleted rowId _) =>
      g.stage = .working ∧ g.won = none ∧ ∃ row, g.held = some row ∧ row.id = rowId
    | .sql .idempotencyKeys (.delete rowId) =>
      (∃ row, g = { stage := .stale row } ∧ row.id = rowId ∧ row.status = .pending) ∨
        g.stage = .working ∧ ∃ row, g.held = some row ∧ row.id = rowId
    | .commit .work => ∃ responseBody, g.stage = .marked responseBody
    | .commit .reserve => ∃ row, g = { stage := .inserted, held := some row }
    | .commit .reclaim => ∃ row, g = { stage := .reclaimed row }
    | .commit .cleanup => g.stage = .deleted
    | .commit _ => g.stage = .idle
    | _ => True
  possible := Answer platform
  next := Call.next
  died := fun g => g.settle .undone

variable {platform : Platform} {settings : Settings}

/-! ### Commands that do not concern the idempotency keys -/

/-- Commands that neither touch the table nor commit a transaction of a call. -/
def Keyless (c : Cmd) : Prop :=
  (∀ q, c ≠ .sql .idempotencyKeys q) ∧ ∀ tx, c = .commit tx → tx = .request ∨ tx = .relay ∨ tx = .purge

def Works (c : Cmd) : Prop := (∀ q, c ≠ .sql .idempotencyKeys q) ∧ (∀ tx, c ≠ .commit tx) ∧ c ≠ .rollback

theorem Uses.works {L : List TableName} {c : Cmd} (h : Uses L c) (away : .idempotencyKeys ∉ L) : Works c := by
  refine ⟨?_, ?_, ?_⟩
  · rintro q rfl
    exact away h
  · rintro tx rfl
    exact h
  · rintro rfl
    exact h

theorem Works.keyless {c : Cmd} (h : Works c) : Keyless c := ⟨h.1, fun tx same => (h.2.1 tx same).elim⟩

def Call.Quiet (g : Call) : Prop := g.stage = .idle ∧ g.held = none ∧ g.won = none

theorem Call.after_keyless {g : Call} {c : Cmd} {r : Except Error c.Ret} (away : ∀ q, c ≠ .sql .idempotencyKeys q)
    (apart : ∀ row, g.stage ≠ .looked row) : g.after c r = g := by
  unfold Call.after
  split
  · exact (away _ rfl).elim
  · exact (away _ rfl).elim
  · split
    · exact (apart _ ‹_›).elim
    · rfl
  · exact (away _ rfl).elim
  · exact (away _ rfl).elim
  · rfl

theorem quiet_keyless {g : Call} {c : Cmd} (quiet : g.Quiet) (away : Keyless c) :
    (callProtocol platform).allowed g c ∧ ∀ r, (callProtocol platform).possible c r →
      ((callProtocol platform).next g c r : Call).Quiet := by
  obtain ⟨stage, held, won⟩ := quiet
  have settled : ∀ fate : Fate, (g.settle fate).Quiet := by
    intro fate
    cases fate with
    | isOpen => exact ⟨stage, held, won⟩
    | applied =>
      unfold Call.settle
      rw [stage]
      exact ⟨rfl, held, won⟩
    | undone =>
      unfold Call.settle
      rw [stage]
      exact ⟨rfl, held, won⟩
  constructor
  · cases c with
    | sql f q =>
      cases f with
      | idempotencyKeys => exact (away.1 q rfl).elim
      | _ => trivial
    | commit tx => rcases away.2 tx rfl with rfl | rfl | rfl <;> exact stage
    | _ => trivial
  · intro r _
    change (g.next c r).Quiet
    unfold Call.next
    split
    · rw [Call.after_keyless away.1 (by simp [stage])]
      exact ⟨stage, held, won⟩
    · split
      · exact settled _
      · exact settled _

theorem work_follows {α : Type} {work : Prog α} {row : IdempotencyKey} (works : work.Only Works) :
    work.Follows (callProtocol platform) (fun g _ => ∃ broken, g = { stage := .working, held := some row, broken })
      { stage := .working, held := some row } := by
  refine works.follows ⟨false, rfl⟩ ?_
  rintro g c ⟨broken, rfl⟩ ⟨away, stays, keeps⟩
  constructor
  · cases c with
    | sql f q =>
      cases f with
      | idempotencyKeys => exact (away q rfl).elim
      | _ => trivial
    | commit tx => exact (stays tx rfl).elim
    | _ => trivial
  · intro r _
    change ∃ broken', Call.next _ c r = _
    unfold Call.next
    split
    · exact ⟨broken, Call.after_keyless away (by simp)⟩
    · rename_i ends
      cases c with
      | sql f q =>
        cases r with
        | ok a => exact (ends rfl).elim
        | error e => exact ⟨true, rfl⟩
      | commit tx => exact (stays tx rfl).elim
      | rollback => exact (keeps rfl).elim
      | _ => exact (ends (by cases r <;> rfl)).elim

/-! ### run_idempotent -/

theorem tryReserve_follows {userId : Id} {key requestHash : String} {ttlHours : Int} :
    (tryReserve userId key requestHash ttlHours).Follows (callProtocol platform) (Then fun g reserved =>
      match reserved with
      | some rowId => ∃ row : IdempotencyKey, row.id = rowId ∧ g = { stage := .working, held := some row }
      | none => g = {}) {} := by
  have reserves : (unitOfWork .reserve do
      let now ← datetimeNow
      let row ← IdempotencyKeyRepository.createPending userId key requestHash (now + hours ttlHours)
      return row.id).Follows (callProtocol platform) (fun g r => match r with
        | .ok rowId => ∃ row : IdempotencyKey, row.id = rowId ∧ g = { stage := .working, held := some row }
        | .error e => (∃ constraint, e = .integrityError constraint) → g = {}) {} := by
    refine ⟨trivial, fun r answer => ?_⟩
    rcases r with e | now
    · exact answer.elim
    refine ⟨rfl, fun r _ => ?_⟩
    rcases r with e | row
    · refine ⟨trivial, fun r _ => ?_⟩
      cases r <;> exact fun _ => rfl
    · refine ⟨⟨row, rfl⟩, fun r answer => ?_⟩
      rcases r with e | u
      · rcases answer with rfl | ⟨applied, rfl⟩
        · rintro ⟨constraint, same⟩
          cases same
        · rintro ⟨constraint, same⟩
          cases same
      · exact ⟨row, rfl, rfl⟩
  refine follows_handle.mpr (follows_bind.mpr (reserves.mono fun g r done => ?_))
  cases r with
  | ok rowId => exact done
  | error e =>
    cases e with
    | integrityError constraint => exact done ⟨constraint, rfl⟩
    | _ => trivial

/-- The stages of a transaction that has not written to the table or has deleted the row of another call. -/
def CallStage.IsForeign : CallStage → Prop
  | idle | looked _ | stale _ | reclaimed _ => True
  | _ => False

/-- A call that has no row of its own loses nothing but what it has seen when its transaction ends. -/
theorem Call.ended {stage : CallStage} (foreign : stage.IsForeign) (broken : Bool) {c : Cmd} {r : Except Error c.Ret}
    (ends : fate c r ≠ .isOpen) (whole : ∀ f q, c ≠ .sql f q) : ({ stage, broken } : Call).next c r = {} := by
  have settled : ∀ fate : Fate, fate ≠ .isOpen → ({ stage, broken } : Call).settle fate = {} := by
    intro fate ends
    cases fate with
    | isOpen => exact (ends rfl).elim
    | applied => cases stage <;> first | rfl | exact foreign.elim
    | undone => cases stage <;> first | rfl | exact foreign.elim
  unfold Call.next
  split
  · exact (ends ‹_›).elim
  · split
    · exact (whole _ _ rfl).elim
    · exact settled _ ends

theorem resolveExisting_follows {userId : Id} {key requestHash : String} :
    (resolveExisting userId key requestHash).Follows (callProtocol platform) (fun g _ => g = {}) {} := by
  refine follows_bind.mpr (follows_attempt.mpr (Follows.mono
    (Q := fun (g : Call) _ => ∃ stage broken, stage.IsForeign ∧ g = { stage, broken }) ?_ fun g r seen => ?_))
  · refine ⟨rfl, fun r _ => ?_⟩
    rcases r with e | (_ | ⟨row, _ | ⟨row', rows⟩⟩)
    · exact ⟨.idle, true, trivial, rfl⟩
    · exact ⟨.idle, false, trivial, rfl⟩
    · change Follows (callProtocol platform) _ (if row.requestHash ≠ requestHash then _ else _)
        ({ stage := .looked row } : Call)
      split
      · exact ⟨.looked row, false, trivial, rfl⟩
      split
      · exact ⟨.looked row, false, trivial, rfl⟩
      rename_i unfinished
      have pending : row.status = .pending := by
        cases status : row.status with
        | pending => rfl
        | completed => exact (unfinished status).elim
      refine ⟨trivial, fun r answer => ?_⟩
      rcases r with e | now
      · exact answer.elim
      by_cases stuck : row.Stuck now
      · have read : (callProtocol platform).next ({ stage := .looked row } : Call) .datetimeNow (.ok now) =
            ({ stage := .stale row } : Call) := if_pos stuck
        rw [read]
        change Follows (callProtocol platform) _ (if ¬row.Stuck now then _ else _) _
        rw [if_neg (not_not.mpr stuck)]
        refine ⟨Or.inl ⟨row, rfl, rfl, pending⟩, fun r _ => ?_⟩
        rcases r with e | u
        · exact ⟨.idle, true, trivial, rfl⟩
        refine ⟨⟨row, rfl⟩, fun r _ => ?_⟩
        have cleared : ({ stage := .reclaimed row } : Call).next (.commit .reclaim) r = {} :=
          Call.ended (show (CallStage.reclaimed row).IsForeign from trivial) false
            (fate_commit_ends .reclaim r) (by simp)
        cases r <;> exact ⟨.idle, false, trivial, cleared⟩
      · have read : (callProtocol platform).next ({ stage := .looked row } : Call) .datetimeNow (.ok now) =
            ({ stage := .looked row } : Call) := if_neg stuck
        rw [read]
        change Follows (callProtocol platform) _ (if ¬row.Stuck now then _ else _) _
        rw [if_pos stuck]
        exact ⟨.looked row, false, trivial, rfl⟩
    · exact ⟨.idle, false, trivial, rfl⟩
  · obtain ⟨stage, broken, foreign, rfl⟩ := seen
    refine ⟨trivial, fun answer _ => ?_⟩
    have cleared : ({ stage, broken } : Call).next .rollback answer = {} :=
      Call.ended foreign broken (by simp [fate]) (by simp)
    cases answer <;> exact cleared

theorem cleanup_follows {row : IdempotencyKey} {rowId : Id} {g : Call} (own : row.id = rowId)
    (working : g.stage = .working)
    (held : g.held = some row) : (unitOfWork .cleanup (IdempotencyKeyRepository.delete rowId)).Follows
      (callProtocol platform) (fun _ _ => True) g := by
  refine ⟨Or.inr ⟨working, row, held, own⟩, fun r _ => ?_⟩
  cases r with
  | ok u =>
    have deleted : g.next (.sql .idempotencyKeys (.delete rowId)) (.ok u) = { g with stage := .deleted } := by
      simp [Call.next, fate, Call.after, working]
    refine ⟨?_, fun r _ => by cases r <;> trivial⟩
    change (g.next _ _).stage = .deleted
    rw [deleted]
  | error e => exact ⟨trivial, fun r _ => by cases r <;> trivial⟩

theorem runReserved_follows {row : IdempotencyKey} {rowId : Id} {work : Prog Dict} (works : work.Only Works)
    (own : row.id = rowId) :
    (runReserved rowId work).Follows (callProtocol platform) (Then fun g responseBody => g.won = some responseBody)
      { stage := .working, held := some row } := by
  have body : (do
      let responseBody ← work
      IdempotencyKeyRepository.markCompleted rowId responseBody
      return responseBody : Prog Dict).Follows (callProtocol platform) (fun g r => match r with
        | .ok responseBody => ∃ broken, g = { stage := .marked responseBody, held := some row, broken }
        | .error _ => ∃ broken, g = { stage := .working, held := some row, broken })
      { stage := .working, held := some row } := by
    refine follows_bind.mpr ((work_follows works).mono fun g r worked => ?_)
    obtain ⟨broken, rfl⟩ := worked
    cases r with
    | error e => exact ⟨broken, rfl⟩
    | ok responseBody =>
      refine ⟨⟨rfl, rfl, row, rfl, own⟩, fun r _ => ?_⟩
      cases r with
      | ok u => exact ⟨broken, rfl⟩
      | error e => exact ⟨true, rfl⟩
  have cleans : ∀ (e : Error) (g : Call), g.stage = .working → g.held = some row →
      (do unitOfWork .cleanup (IdempotencyKeyRepository.delete rowId); raise e : Prog Dict).Follows
        (callProtocol platform)
        (Then fun g responseBody => g.won = some responseBody) g := fun e g working held =>
    follows_bind.mpr ((cleanup_follows own working held).mono fun g r _ => by cases r <;> trivial)
  refine follows_handle.mpr (follows_bind.mpr (follows_attempt.mpr (body.mono fun g r done => ?_)))
  cases r with
  | ok responseBody =>
    obtain ⟨broken, rfl⟩ := done
    refine ⟨⟨responseBody, rfl⟩, fun r answer => ?_⟩
    rcases r with e | u
    · rcases answer with rfl | ⟨applied, rfl⟩
      · exact cleans _ _ rfl rfl
      · cases applied <;> exact cleans _ _ rfl rfl
    · rfl
  | error e =>
    obtain ⟨broken, rfl⟩ := done
    refine ⟨trivial, fun r answer => ?_⟩
    cases r <;> exact cleans _ _ rfl rfl

theorem runIdempotent_follows {userId : Id} {key requestHash : String} {ttlHours : Int} {work : Prog Dict}
    (works : work.Only Works) : (runIdempotent userId key requestHash ttlHours work).Follows (callProtocol platform)
      (fun _ _ => True) {} := by
  have reserved : ∀ {row : IdempotencyKey} {rowId : Id}, row.id = rowId → (runReserved rowId work).Follows
      (callProtocol platform) (fun _ _ => True) { stage := .working, held := some row } :=
    fun own => (runReserved_follows works own).mono fun _ _ _ => trivial
  refine follows_bind.mpr (tryReserve_follows.mono fun g r done => ?_)
  rcases r with e | (_ | rowId)
  · trivial
  · subst done
    refine follows_bind.mpr (resolveExisting_follows.mono fun g r cleared => ?_)
    subst cleared
    rcases r with e | (_ | cached)
    · trivial
    · refine follows_bind.mpr (tryReserve_follows.mono fun g r done => ?_)
      rcases r with e | (_ | rowId)
      · trivial
      · trivial
      · obtain ⟨row, own, rfl⟩ := done
        exact reserved own
    · trivial
  · obtain ⟨row, own, rfl⟩ := done
    exact reserved own

/-- The works that a request runs leave the idempotency keys and the transaction to the application. -/
def Request.Keeping : Request → Prop
  | runIdempotent _ _ _ _ work => work.Only Works
  | transaction work => work.Only Works
  | _ => True

/-- Runs of the application, with any work that leaves the idempotency keys to it. -/
def Keeping (_ : World (application platform settings)) : Label (application platform settings) → Prop
  | .start _ q => q.Keeping
  | _ => True

theorem placeBet_works {userId : Id} {key : String} {bets : List BetRequest} :
    (PlaceBetResult.toDict platform <$> placeBet platform settings userId key bets).Only Works :=
  Only.bind (placeBet_uses.only.mono fun _ used => used.works (by decide)) fun _ => trivial

theorem deposit_works {userId : Id} {key : String} {amountMinor : Int} :
    (BalanceView.toDict <$> deposit platform settings userId key amountMinor).Only Works :=
  Only.bind (deposit_uses.only.mono fun _ used => used.works (by decide)) fun _ => trivial

theorem code_follows {q : Request} (keeping : q.Keeping) :
    (q.code platform settings).Follows (callProtocol platform) (fun _ _ => True) {} := by
  have reply : ∀ {userId : Id} {key requestHash : String} {ttlHours : Int} {work : Prog Dict}, work.Only Works →
      (Reply.body <$> runIdempotent userId key requestHash ttlHours work).Follows (callProtocol platform)
        (fun _ _ => True) {} :=
    fun works => follows_bind.mpr ((runIdempotent_follows works).mono fun _ r _ => by cases r <;> trivial)
  cases call : q.call platform with
  | some asked =>
    cases q with
    | createRound userId key bytes bets => exact reply placeBet_works
    | createDeposit userId key bytes amountMinor => exact reply deposit_works
    | runIdempotent userId key requestHash ttlHours work => exact reply keeping
    | _ => cases call
  | none =>
    have only : (q.code platform settings).Only Keyless := by
      refine code_only ?_ ?_ ?_ (fun _ => ?_) ?_ ?_ ?_
      · refine fun c used away => ⟨away, ?_⟩
        rintro tx rfl
        exact used.elim
      · exact ⟨by simp, fun tx same => by cases same; exact Or.inl rfl⟩
      · exact ⟨by simp, by simp⟩
      · exact ⟨⟨by simp, fun tx same => by cases same; exact Or.inr (Or.inl rfl)⟩,
          ⟨by simp, fun tx same => by cases same; exact Or.inr (Or.inr rfl)⟩, ⟨by simp, by simp⟩, ⟨by simp, by simp⟩,
          fun q _ => ⟨by simp, by simp⟩, fun message => ⟨by simp, by simp⟩⟩
      · exact fun _ _ _ asked => by cases call.symm.trans asked
      · rintro userId key requestHash ttlHours work rfl
        cases call
      · rintro work rfl
        exact Only.mono keeping fun c => Works.keyless
    exact (only.follows (J := Call.Quiet) ⟨rfl, rfl, rfl⟩ fun g c quiet away => quiet_keyless quiet away).mono
      fun _ _ _ => trivial

theorem disciplined_calls {ok : World (application platform settings) → Label (application platform settings) → Prop}
    (keeping : ∀ w l, ok w l → Keeping w l) :
    Disciplined (Y := application platform settings) ok (callProtocol platform) fun _ _ _ => True where
  code w _ _ allowed := code_follows (keeping w _ allowed)
  answers _ _ _ _ _ _ := exec_answer

end TheClub
