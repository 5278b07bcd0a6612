import TheClub.Executions

/-!
Calls that are done with their row before it is 30 seconds old. The row of such a call is there
when its work completes it, and whoever finds the row abandoned deletes it while it is pending,
unless it was completed between the SELECT that found it and the reading of the clock.
-/

namespace TheClub
open ReadCommitted Program

variable {platform : Platform} {settings : Settings} {w w' : World (application platform settings)}

/-- A call that has reserved a row runs nothing once the row may be reclaimed. -/
def Prompt (w : World (application platform settings)) : Label (application platform settings) → Prop
  | .run i env => ∀ userId key requestHash expiresAt row,
    w.Ran i (.sql .idempotencyKeys (.createPending userId key requestHash expiresAt)) (.ok row) → ¬row.Stuck env.now
  | _ => True

/-- No COMMIT of a work is applied whose caller gets an exception. -/
def Acknowledged (w : World (application platform settings)) : Label (application platform settings) → Prop
  | .run i env => w.AboutTo i (.commit .work) → env.fault ≠ some .after
  | _ => True

/-- A row that looks abandoned to the call that has found it is still pending when that call reads the clock. -/
def UpToDate (w : World (application platform settings)) : Label (application platform settings) → Prop
  | .run i env => ∀ userId key row, w.Ran i (.sql .idempotencyKeys (.get userId key)) (.ok [row]) →
    w.AboutTo i .datetimeNow → row.Stuck env.now →
      ∀ a, ((w.state.tables .idempotencyKeys).slot row.id).committed = some a → a.status = .pending
  | _ => True

/-- The runs in which calls are prompt, works are acknowledged and lookups are up to date. -/
structure Promptly (w : World (application platform settings)) (l : Label (application platform settings)) : Prop where
  keeping : Keeping w l
  prompt : Prompt w l
  acknowledged : Acknowledged w l
  upToDate : UpToDate w l

theorem promptly_keeping (w : World (application platform settings)) (l : Label (application platform settings))
    (promptly : Promptly w l) : Keeping w l := promptly.keeping

theorem IdempotencyKey.Stuck.later {row : IdempotencyKey} {now now' : Time} (stuck : row.Stuck now) (le : now ≤ now') :
    row.Stuck now' := lt_of_lt_of_le stuck (Int.sub_le_sub_right le _)

/-! ### A committed work is the last thing a call does -/

/-- The process has been told that its work is committed. -/
def acked : (c : Cmd) → Except Error c.Ret → Bool
  | .commit .work, .ok _ => true
  | _, _ => false

/-- Nothing is run once the work is known to be committed. -/
def lastProtocol (platform : Platform) : Protocol signature where
  Ghost := Bool
  start := false
  allowed := fun done _ => done = false
  possible := Answer platform
  next := fun done c r => done || acked c r
  died := id

/-- Every command but the COMMIT of a work. -/
def Inconclusive (c : Cmd) : Prop := c ≠ .commit .work

section
variable {α : Type} {p : Prog α}

theorem follows_last (only : p.Only Inconclusive) :
    p.Follows (lastProtocol platform) (fun done _ => done = false) false := by
  refine only.follows (P := lastProtocol platform) (J := fun done : Bool => done = false) rfl ?_
  rintro done c same other
  obtain rfl : done = false := same
  refine ⟨rfl, fun r _ => ?_⟩
  change (false || acked c r) = false
  unfold acked
  split
  · exact (other rfl).elim
  · rfl

variable {userId : Id} {key requestHash : String} {ttlHours : Int} {rowId : Id} {work : Prog Dict}

theorem tryReserve_idles : (tryReserve userId key requestHash ttlHours).Only Inconclusive := by
  refine Only.handle (Only.bind (unitOfWork_only (by simp [Inconclusive]) (by simp [Inconclusive]) ?_) fun rowId =>
    trivial) fun e => by cases e <;> trivial
  exact Only.bind (only_perform (S := signature) (by simp [Inconclusive])) fun now =>
    Only.bind (only_perform (S := signature) (by simp [Inconclusive])) fun row => trivial

theorem resolveExisting_idles : (resolveExisting userId key requestHash).Only Inconclusive := by
  refine Only.bind (Only.attempt ?_) fun r => ⟨by simp [Inconclusive], fun answer => by cases answer <;> trivial⟩
  refine ⟨by simp [Inconclusive], fun r => ?_⟩
  rcases r with e | (_ | ⟨row, _ | ⟨row', rows⟩⟩)
  · trivial
  · trivial
  · change Only _ (if row.requestHash ≠ requestHash then _ else _)
    split
    · trivial
    split
    · trivial
    refine ⟨by simp [Inconclusive], fun r => ?_⟩
    rcases r with e | now
    · trivial
    change Only _ (if _ then _ else _)
    split
    · trivial
    refine ⟨by simp [Inconclusive], fun r => ?_⟩
    rcases r with e | u
    · trivial
    · exact ⟨by simp [Inconclusive], fun r => by cases r <;> trivial⟩
  · trivial

theorem runReserved_last (works : work.Only Works) :
    (runReserved rowId work).Follows (lastProtocol platform) (fun _ _ => True) false := by
  have body : (do
      let responseBody ← work
      IdempotencyKeyRepository.markCompleted rowId responseBody
      return responseBody : Prog Dict).Only Inconclusive :=
    Only.bind (works.mono fun c works => works.2.1 .work) fun responseBody =>
      Only.bind (only_perform (S := signature) (by simp [Inconclusive])) fun u => trivial
  have cleans : ∀ e : Error, (do
      unitOfWork .cleanup (IdempotencyKeyRepository.delete rowId)
      raise e : Prog Dict).Follows (lastProtocol platform) (fun _ _ => True) false := by
    intro e
    have deletes : (IdempotencyKeyRepository.delete rowId).Only Inconclusive :=
      only_perform (S := signature) (by simp [Inconclusive])
    have only : (do unitOfWork .cleanup (IdempotencyKeyRepository.delete rowId); raise e : Prog Dict).Only
        Inconclusive :=
      Only.bind (unitOfWork_only (by simp [Inconclusive]) (by simp [Inconclusive]) deletes) fun u => trivial
    exact (follows_last only).mono fun _ _ _ => trivial
  refine follows_handle.mpr (follows_bind.mpr (follows_attempt.mpr ((follows_last body).mono fun done r same => ?_)))
  subst same
  cases r with
  | ok responseBody =>
    refine ⟨rfl, fun r _ => ?_⟩
    cases r with
    | ok u => trivial
    | error e => exact cleans e
  | error e =>
    refine ⟨rfl, fun r _ => ?_⟩
    cases r with
    | ok u => exact cleans e
    | error e' => exact cleans e'

theorem runIdempotent_last (works : work.Only Works) :
    (runIdempotent userId key requestHash ttlHours work).Follows (lastProtocol platform) (fun _ _ => True) false := by
  refine follows_bind.mpr ((follows_last tryReserve_idles).mono fun done r same => ?_)
  subst same
  rcases r with e | (_ | rowId)
  · trivial
  · refine follows_bind.mpr ((follows_last resolveExisting_idles).mono fun done r same => ?_)
    subst same
    rcases r with e | (_ | cached)
    · trivial
    · refine follows_bind.mpr ((follows_last tryReserve_idles).mono fun done r same => ?_)
      subst same
      rcases r with e | (_ | rowId)
      · trivial
      · trivial
      · exact runReserved_last works
    · trivial
  · exact runReserved_last works

end

/-- A request with a key is a call of `run_idempotent` whose work leaves the keys alone. -/
theorem code_of_call (settings : Settings) {q : Request} (keeping : q.Keeping) {userId : Id} {key requestHash : String}
    (call : q.call platform = some (userId, key, requestHash)) : ∃ ttlHours work, work.Only Works ∧
      q.code platform settings = Reply.body <$> runIdempotent userId key requestHash ttlHours work := by
  cases q with
  | createRound userId' key' bytes bets =>
    cases call
    exact ⟨_, _, placeBet_works, rfl⟩
  | createDeposit userId' key' bytes amountMinor =>
    cases call
    exact ⟨_, _, deposit_works, rfl⟩
  | runIdempotent userId' key' requestHash' ttlHours work =>
    cases call
    exact ⟨_, _, keeping, rfl⟩
  | _ => cases call

theorem code_last {q : Request} (keeping : q.Keeping) :
    (q.code platform settings).Follows (lastProtocol platform) (fun _ _ => True) false := by
  cases call : q.call platform with
  | some asked =>
    obtain ⟨userId, key, requestHash⟩ := asked
    obtain ⟨ttlHours, work, works, code⟩ := code_of_call settings keeping call
    rw [code]
    exact follows_bind.mpr ((runIdempotent_last works).mono fun _ r _ => by cases r <;> trivial)
  | none =>
    refine (follows_last (code_only ?_ (by simp [Inconclusive]) (by simp [Inconclusive]) (fun _ => ?_) ?_ ?_ ?_)).mono
      fun _ _ _ => trivial
    · rintro c used - rfl
      exact used.elim
    · exact ⟨by simp [Inconclusive], by simp [Inconclusive], by simp [Inconclusive], by simp [Inconclusive],
        fun _ _ => by simp [Inconclusive], fun _ => by simp [Inconclusive]⟩
    · exact fun _ _ _ asked => by cases call.symm.trans asked
    · rintro userId key requestHash ttlHours work rfl
      cases call
    · rintro work rfl
      exact Only.mono keeping fun c works => works.2.1 .work

theorem disciplined_last : Disciplined (Y := application platform settings) Promptly
    (lastProtocol platform) fun _ _ _ => True where
  code _ _ _ promptly := code_last promptly.keeping
  answers _ _ _ _ _ _ := exec_answer

/-- An applied COMMIT has been acknowledged, unless its acknowledgement was lost. -/
theorem commit_told {env : Env} {i : Nat} {s s' : Database} {tx : Tx} {r : Except Error Unit}
    (ran : exec platform env i (.commit tx) s = some (r, s')) (applied : fate (.commit tx) r = .applied) :
    r = .ok () ∨ env.fault = some .after := by
  obtain ⟨-, ran⟩ := exec_run ran
  simp only [Cmd.run] at ran
  split at ran
  · cases ran
    cases applied
  · split at ran
    · cases ran
      exact Or.inl rfl
    · cases ran
      cases applied
    · exact Or.inr ‹_›

/-- A call whose work is committed has nothing more to run. -/
theorem committed_rests (reached : Reachable Promptly w) {i : Nat} (commits : 0 < workCommits w i) (c : Cmd) :
    ¬w.AboutTo i c := by
  intro about
  obtain ⟨r, ran, applied⟩ := workCommits_pos.mp commits
  have told : r = .ok () := by
    obtain ⟨before, after, env, -, aboutBefore, promptly, -, done, -⟩ := Run.moment reached ran
    exact (commit_told done applied).resolve_right (promptly.acknowledged aboutBefore)
  subst told
  have allowed := disciplined_last.allowed reached about
  have done := World.ghost_history (lastProtocol platform)
    (R := fun done h => .ran (.commit .work) (.ok ()) ∈ h → done = true)
    (fun ran => by cases ran) (fun done h e old ran => ?_) w i
  · cases (done ran).symm.trans allowed
  · rcases List.mem_append.mp ran with before | new
    · cases e with
      | ran c r => exact (Bool.or_eq_true ..).mpr (Or.inl (old before))
      | died => exact old before
    · cases List.mem_singleton.mp new
      exact Bool.or_true _

/-! ### Rows that are attended to -/

/-- The row that a call deletes, or has deleted, as abandoned. -/
def CallStage.abandoned : CallStage → Option IdempotencyKey
  | stale row => some row
  | reclaimed row => some row
  | _ => none

theorem CallStage.undone_abandoned (stage : CallStage) : stage.undone.abandoned = none := by cases stage <;> rfl
theorem CallStage.applied_abandoned (stage : CallStage) : stage.applied.abandoned = none := by cases stage <;> rfl

/-- The work of the call is under way. -/
def CallStage.Busy (stage : CallStage) : Prop := stage = .working ∨ ∃ responseBody, stage = .marked responseBody

/-- Rows that are deleted as abandoned are old and pending, and a call that works has its row unless it is old. -/
structure Attended (t : Table Id IdempotencyKey) (now : Time) (g : Nat → Call) : Prop where
  abandoned : ∀ i row, (g i).stage.abandoned = some row → row.Stuck now ∧
    ∀ a, (t.slot row.id).committed = some a → a.status = .pending
  inserted : ∀ i, (g i).stage = .inserted → ∃ row, (g i).held = some row ∧ (t.slot row.id).pending = some (i, some row)
  present : ∀ i row, (g i).held = some row → (g i).won = none → (g i).stage.Busy →
    (∃ a, (t.slot row.id).committed = some a) ∨ row.Stuck now

/-- A row that is deleted as abandoned is as old as the one its owner has inserted. -/
def Coeval (g : Nat → Call) : Prop := ∀ i j row row', (g i).held = some row → (g j).stage.abandoned = some row' →
  row'.id = row.id → ∀ now, row'.Stuck now ↔ row.Stuck now

namespace Attended
variable {t t' : Table Id IdempotencyKey} {now now' : Time} {g : Nat → Call} {i : Nat} {g' : Call}

theorem empty : Attended Table.empty now fun _ => {} where
  abandoned _ _ stage := by cases stage
  inserted _ stage := by cases stage
  present _ _ held := by cases held

/-- A call moves on in its transaction. -/
theorem moves (inv : Attended t now g) (later : now ≤ now')
    (committed : ∀ k, (t'.slot k).committed = (t.slot k).committed)
    (others : ∀ k j v, j ≠ i → (t.slot k).pending = some (j, v) → (t'.slot k).pending = some (j, v))
    (abandoned : ∀ row, g'.stage.abandoned = some row → (g i).stage.abandoned = some row ∨
      row.Stuck now' ∧ ∀ a, (t.slot row.id).committed = some a → a.status = .pending)
    (inserted : g'.stage = .inserted → ∃ row, g'.held = some row ∧ (t'.slot row.id).pending = some (i, some row))
    (present : g'.won = none → g'.stage.Busy → g'.held = (g i).held ∧ (g i).won = none ∧ (g i).stage.Busy) :
    Attended t' now' (Function.update g i g') := by
  have old : ∀ j row, (g j).stage.abandoned = some row → row.Stuck now' ∧
      ∀ a, (t.slot row.id).committed = some a → a.status = .pending := fun j row stage =>
    ⟨(inv.abandoned j row stage).1.later later, (inv.abandoned j row stage).2⟩
  refine ⟨fun j row stage => ?_, fun j stage => ?_, fun j row held won busy => ?_⟩
  · rw [committed]
    by_cases same : j = i
    · subst same
      rw [Function.update_self] at stage
      exact (abandoned row stage).elim (old j row) id
    · rw [Function.update_of_ne same] at stage
      exact old j row stage
  · by_cases same : j = i
    · subst same
      rw [Function.update_self] at stage ⊢
      exact inserted stage
    · rw [Function.update_of_ne same] at stage ⊢
      obtain ⟨row, held, locked⟩ := inv.inserted j stage
      exact ⟨row, held, others _ j _ same locked⟩
  · rw [committed]
    refine Or.imp_right (fun stuck => IdempotencyKey.Stuck.later stuck later) ?_
    by_cases same : j = i
    · subst same
      rw [Function.update_self] at held won busy
      obtain ⟨own, none, was⟩ := present won busy
      exact inv.present j row (own ▸ held) none was
    · rw [Function.update_of_ne same] at held won busy
      exact inv.present j row held won busy

/-- What the end of a call's transaction can do to a committed row. -/
theorem settled (rows : KeyRows t g) (fate : Fate) (k : Id) :
    ((t.settle i fate).slot k).committed = (t.slot k).committed ∨
      fate = .applied ∧ (g i).Wrote k ((t.settle i fate).slot k).committed :=
  (Table.committed_settle i fate k t).imp_right fun h => ⟨h.1, rows.wrote k i _ h.2⟩

theorem settle (inv : Attended t now g) (later : now ≤ now') (rows : KeyRows t g) (coeval : Coeval g) (fate : Fate)
    (ends : fate ≠ .isOpen) (prompt : fate = .applied → ∀ row, (g i).held = some row → ¬row.Stuck now')
    (broken : Bool) :
    Attended (t.settle i fate) now' (Function.update g i { (g i).settle fate with broken }) := by
  refine ⟨fun j row stage => ?_, fun j stage => ?_, fun j row held won busy => ?_⟩
  · by_cases same : j = i
    · subst same
      rw [Function.update_self] at stage
      cases fate with
      | isOpen => exact (ends rfl).elim
      | undone => cases (CallStage.undone_abandoned (g j).stage).symm.trans stage
      | applied => cases (CallStage.applied_abandoned (g j).stage).symm.trans stage
    rw [Function.update_of_ne same] at stage
    obtain ⟨stuck, pending⟩ := inv.abandoned j row stage
    refine ⟨stuck.later later, fun a stored => ?_⟩
    rcases settled rows fate row.id with old | ⟨applied, wrote⟩
    · exact pending a (old ▸ stored)
    · rw [stored] at wrote
      unfold Call.Wrote at wrote
      split at wrote
      · obtain ⟨own, held, -, new⟩ := wrote
        cases new
        exact rows.pending i _ held
      · -- the owner completes its row in time, so that the row cannot have been found abandoned
        obtain ⟨own, b, held, id, -⟩ := wrote
        exact (prompt applied own held ((coeval i j own row held stage id.symm now').mp (stuck.later later))).elim
      · obtain ⟨own, -, -, new⟩ := wrote
        cases new
      · obtain ⟨-, new⟩ := wrote
        cases new
      · exact wrote.elim
  · by_cases same : j = i
    · subst same
      rw [Function.update_self] at stage
      have away : ∀ was : CallStage, was.undone ≠ .inserted ∧ was.applied ≠ .inserted := fun was => by
        cases was <;> simp [CallStage.undone, CallStage.applied]
      cases fate with
      | isOpen => exact (ends rfl).elim
      | undone => exact ((away _).1 stage).elim
      | applied => exact ((away _).2 stage).elim
    · rw [Function.update_of_ne same] at stage ⊢
      obtain ⟨row, held, locked⟩ := inv.inserted j stage
      refine ⟨row, held, ?_⟩
      rwa [Table.slot_settle_other fate (by rw [Slot.holder_of_pending locked]; simpa using same)]
  · by_cases same : j = i
    · subst same
      rw [Function.update_self] at held won busy
      have own : (g j).held = some row := by cases fate <;> exact held
      have none : (g j).won = none := by
        cases fate with
        | isOpen => exact won
        | undone => exact won
        | applied =>
          simp only [Call.settle] at won
          split at won
          · cases won
          · exact won
      by_cases was : (g j).stage.Busy
      · rcases inv.present j row own none was with ⟨a, stored⟩ | stuck
        · refine Or.inl ⟨a, ?_⟩
          rcases settled rows fate row.id with old | ⟨rfl, wrote⟩
          · exact old.trans stored
          · -- a work that has marked its row has been won by the COMMIT
            rcases was with working | ⟨responseBody, marked⟩
            · simp [Call.Wrote, working] at wrote
            · simp [Call.settle, marked] at won
        · exact Or.inr (stuck.later later)
      · have stage : fate = .applied ∧ (g j).stage = .inserted := by
          cases fate with
          | isOpen => exact (ends rfl).elim
          | undone =>
            change (g j).stage.undone.Busy at busy
            cases stage : (g j).stage with
            | working => exact (was (Or.inl stage)).elim
            | marked body => exact (was (Or.inr ⟨body, stage⟩)).elim
            | _ => simp [stage, CallStage.undone, CallStage.Busy] at busy
          | applied =>
            change (g j).stage.applied.Busy at busy
            cases stage : (g j).stage with
            | inserted => exact ⟨rfl, rfl⟩
            | working => exact (was (Or.inl stage)).elim
            | marked body => exact (was (Or.inr ⟨body, stage⟩)).elim
            | _ => simp [stage, CallStage.applied, CallStage.Busy] at busy
        obtain ⟨rfl, inserted⟩ := stage
        obtain ⟨row', held', locked⟩ := inv.inserted j inserted
        cases own.symm.trans held'
        refine Or.inl ⟨row, ?_⟩
        change ((t.slot row.id).commit j).committed = some row
        rw [Slot.committed_commit, Slot.view_of_pending locked]
    · rw [Function.update_of_ne same] at held won busy
      rcases inv.present j row held won busy with ⟨a, stored⟩ | stuck
      · rcases settled rows fate row.id with old | ⟨-, wrote⟩
        · exact Or.inl ⟨a, old.trans stored⟩
        · unfold Call.Wrote at wrote
          split at wrote
          · obtain ⟨own, -, -, new⟩ := wrote
            exact Or.inl ⟨own, new⟩
          · obtain ⟨own, b, -, -, new, -⟩ := wrote
            exact Or.inl ⟨b, new⟩
          · obtain ⟨own, held', id, -⟩ := wrote
            exact (same (rows.apart j i row own held held' id.symm)).elim
          · rename_i row' stage
            have found : (g i).stage.abandoned = some row' := by rw [stage]; rfl
            have stuck := (inv.abandoned i row' found).1
            exact Or.inr (((coeval j i row row' held found wrote.1 now).mp stuck).later later)
          · exact wrote.elim
      · exact Or.inr (stuck.later later)

/-- A statement on the table, at time `now'`. -/
theorem statement {env : Env} {s s' : Database} {q : IdempotencyQuery} {a : q.Ret}
    (ran : exec platform env i (.sql .idempotencyKeys q) s = some (.ok a, s'))
    (inv : Attended (s.tables .idempotencyKeys) now g) (later : now ≤ now')
    (allowed : (callProtocol platform).allowed (g i) (.sql .idempotencyKeys q)) :
    Attended (s'.tables .idempotencyKeys) now'
      (Function.update g i ((g i).after (.sql .idempotencyKeys q) (.ok a))) := by
  have done := exec_keys ran
  have writes : ∀ {k : Id} {f : IdempotencyKey → Option IdempotencyKey} {u : Unit},
      changeRow i (s.tables .idempotencyKeys) k (fun _ => true) f = .ok u (s'.tables .idempotencyKeys) →
      (∀ k, ((s'.tables .idempotencyKeys).slot k).committed = ((s.tables .idempotencyKeys).slot k).committed) ∧
      ∀ k j v, j ≠ i → ((s.tables .idempotencyKeys).slot k).pending = some (j, v) →
        ((s'.tables .idempotencyKeys).slot k).pending = some (j, v) := by
    intro k f u wrote
    rcases changeRow_ok wrote with ⟨same, -⟩ | ⟨b, -, -, free, same⟩
    · rw [same]
      exact ⟨fun _ => rfl, fun _ _ _ _ => id⟩
    · rw [same]
      refine ⟨fun k' => Table.committed_write .., fun k' j v ne locked => ?_⟩
      by_cases here : k' = k
      · subst here
        rcases free with none | own
        · cases (Slot.holder_of_pending locked).symm.trans none
        · exact (ne (Option.some.inj ((Slot.holder_of_pending locked).symm.trans own))).elim
      · rwa [Table.slot_write_other here]
  cases q with
  | get userId key =>
    have start : g i = {} := allowed
    obtain ⟨-, same⟩ := Outcome.ok.inj done
    rw [← same]
    rcases (g i).after_get userId key a with same | ⟨row, new⟩
    · rw [same]
      exact inv.moves later (fun _ => rfl) (fun _ _ _ _ => id) (fun _ => Or.inl) (inv.inserted i) fun won busy =>
        ⟨rfl, won, busy⟩
    · rw [new]
      exact inv.moves later (fun _ => rfl) (fun _ _ _ _ => id) (fun row stage => by cases stage)
        (fun stage => by cases stage)
        fun won busy => by simp [CallStage.Busy] at busy
  | createPending userId key requestHash expiresAt =>
    have start : g i = {} := allowed
    obtain ⟨new, fresh, table, -⟩ := insertRow_ok done
    have after : (g i).after (.sql .idempotencyKeys (.createPending userId key requestHash expiresAt)) (.ok a) =
        { stage := .inserted, held := some a } := by
      rw [start]
      rfl
    have inserted : ∀ k (fresh : k ∉ (s.tables .idempotencyKeys).keys), k = a.id → Attended
        ((s.tables .idempotencyKeys).insert i k a fresh) now'
            (Function.update g i { stage := .inserted, held := some a }) := by
      rintro k fresh rfl
      refine inv.moves later (fun k => Table.committed_insert ..) (fun k j v ne locked => ?_)
        (fun row stage => by cases stage)
        (fun _ => ⟨a, rfl, by rw [Table.slot_insert_self]⟩) fun won busy => by simp [CallStage.Busy] at busy
      have old : k ≠ a.id := by
        rintro rfl
        rw [(s.tables .idempotencyKeys).slot_outside _ fresh] at locked
        cases locked
      rwa [Table.slot_insert_other old]
    rw [after, table, ← new]
    exact inserted _ fresh (by rw [new])
  | markCompleted rowId responseBody =>
    obtain ⟨working, none, -⟩ := allowed
    obtain ⟨committed, others⟩ := writes done
    have after : (g i).after (.sql .idempotencyKeys (.markCompleted rowId responseBody)) (.ok a) =
        { g i with stage := .marked responseBody } := by simp [Call.after, working]
    rw [after]
    exact inv.moves later committed others (fun row stage => by cases stage) (fun stage => by cases stage)
      fun _ _ => ⟨rfl, none, Or.inl working⟩
  | delete rowId =>
    obtain ⟨committed, others⟩ := writes done
    rcases allowed with ⟨row, stale, -⟩ | ⟨working, -⟩
    · have after : (g i).after (.sql .idempotencyKeys (.delete rowId)) (.ok a) =
        { g i with stage := .reclaimed row } := by
        simp [Call.after, stale]
      rw [after]
      refine inv.moves later committed others (fun row' stage => Or.inl ?_) (fun stage => by cases stage)
        fun won busy => by simp [CallStage.Busy] at busy
      rw [stale]
      exact stage
    · have after : (g i).after (.sql .idempotencyKeys (.delete rowId)) (.ok a) = { g i with stage := .deleted } := by
        simp [Call.after, working]
      rw [after]
      exact inv.moves later committed others (fun row' stage => by cases stage) (fun stage => by cases stage)
        fun won busy => by simp [CallStage.Busy] at busy

theorem run {env : Env} {s s' : Database} {c : Cmd} {r : Except Error c.Ret}
    (ran : exec platform env i c s = some (r, s')) (inv : Attended (s.tables .idempotencyKeys) s.clock g)
    (rows : KeyRows (s.tables .idempotencyKeys) g) (coeval : Coeval g)
    (allowed : (callProtocol platform).allowed (g i) c)
    (prompt : ∀ row, (g i).held = some row → ¬row.Stuck env.now)
    (upToDate : ∀ row, (g i).stage = .looked row → c = .datetimeNow → row.Stuck env.now →
      ∀ a, ((s.tables .idempotencyKeys).slot row.id).committed = some a → a.status = .pending) :
    Attended (s'.tables .idempotencyKeys) s'.clock (Function.update g i ((g i).next c r)) := by
  obtain ⟨later, clock⟩ := exec_clock ran
  rw [clock]
  by_cases isOpen : fate c r = .isOpen
  · rw [Call.next_open isOpen]
    by_cases statement : ∃ q, c = .sql .idempotencyKeys q
    · obtain ⟨q, rfl⟩ := statement
      cases r with
      | ok a => exact .statement ran inv later allowed
      | error e => cases isOpen
    · rw [exec_frame ran .idempotencyKeys fun q same => statement ⟨q, same⟩, isOpen]
      rcases Call.after_other (r := r) fun q same => statement ⟨q, same⟩ with same | ⟨row, now, event, looked, stuck, new⟩
      · rw [same]
        exact inv.moves later (fun _ => rfl) (fun _ _ _ _ => id) (fun _ => Or.inl) (inv.inserted i) fun won busy =>
          ⟨rfl, won, busy⟩
      · rw [new]
        cases event
        obtain ⟨-, read⟩ := exec_run ran
        cases read
        refine inv.moves later (fun _ => rfl) (fun _ _ _ _ => id) (fun row' stage => Or.inr ?_)
          (fun stage => by cases stage)
          fun won busy => by simp [CallStage.Busy] at busy
        cases stage
        exact ⟨stuck, upToDate row looked rfl stuck⟩
  · obtain ⟨broken, next⟩ := Call.next_ends (g := g i) isOpen
    rw [next, exec_ends ran isOpen .idempotencyKeys]
    exact inv.settle later rows coeval _ isOpen (fun _ => prompt) broken

end Attended

theorem reachable_coeval (reached : Reachable Promptly w) : Coeval (w.ghost (callProtocol platform)) := by
  intro i j row row' held abandoned id now
  obtain ⟨userId, key, requestHash, expiresAt, ran⟩ :=
    ((reachable_recorded promptly_keeping reached i).held row).mp held
  have seen : (w.ghost (callProtocol platform) j : Call).stage.seen = some row' := by
    unfold CallStage.abandoned at abandoned
    split at abandoned
    · rename_i stage
      rw [stage]
      exact abandoned
    · rename_i stage
      rw [stage]
      exact abandoned
    · cases abandoned
  obtain ⟨userId', key', found⟩ := (reachable_recorded promptly_keeping reached j).seen row' seen
  have agree := (found_row promptly_keeping reached found).1.agree reached
    (created_row promptly_keeping reached ran).1 id
  unfold IdempotencyKey.Stuck
  rw [agree.2.2]

theorem reachable_attended (reached : Reachable Promptly w) :
    Attended (w.state.tables .idempotencyKeys) w.state.clock (w.ghost (callProtocol platform)) := by
  refine (disciplined_calls promptly_keeping).invariant
    (fun s g => Attended (s.tables .idempotencyKeys) s.clock g) .empty ?_ ?_ reached
  · intro w i env c r s' reached inv promptly about allowed _ ran
    refine inv.run ran (reachable_keyRows promptly_keeping reached) (reachable_coeval reached) allowed ?_ ?_
    · intro row held
      obtain ⟨userId, key, requestHash, expiresAt, created⟩ :=
        ((reachable_recorded promptly_keeping reached i).held row).mp held
      exact promptly.prompt _ _ _ _ row created
    · rintro row looked rfl
      obtain ⟨userId, key, found⟩ := (reachable_recorded promptly_keeping reached i).seen row (by rw [looked]; rfl)
      exact promptly.upToDate userId key row found about
  · intro w i c reached inv _ _
    refine Attended.settle inv (le_of_eq (Database.clock_settle ..).symm) (reachable_keyRows promptly_keeping reached)
      (reachable_coeval reached) .undone (by simp) (fun applied => by cases applied) false

/-! ### Prompt runs are guarded -/

/-- A call sees what is committed, unless it has written the row. -/
theorem view_of_clean (reached : Reachable Promptly w) {i : Nat} {k : Id}
    (clean : ∀ v, ¬(w.ghost (callProtocol platform) i : Call).Wrote k v) :
    ((w.state.tables .idempotencyKeys).slot k).view i = ((w.state.tables .idempotencyKeys).slot k).committed := by
  refine Slot.view_of_not_holder fun held => ?_
  exact clean _ ((reachable_keyRows promptly_keeping reached).wrote k i _ (Slot.pending_of_holder held))

/-- A row that is about to be deleted is pending. -/
theorem deletes_pending (reached : Reachable Promptly w) {i : Nat} {rowId : Id}
    (about : w.AboutTo i (.sql .idempotencyKeys (.delete rowId))) {a : IdempotencyKey}
    (seen : ((w.state.tables .idempotencyKeys).slot rowId).view i = some a) : a.status = .pending := by
  have rows := reachable_keyRows promptly_keeping reached
  rcases (disciplined_calls promptly_keeping).allowed reached about with
    ⟨row, stale, rfl, -⟩ | ⟨working, row, held, rfl⟩
  · rw [view_of_clean reached (by rw [stale]; exact fun _ => id)] at seen
    exact ((reachable_attended reached).abandoned i row (by rw [stale]; rfl)).2 a seen
  · rw [view_of_clean reached (by simp [Call.Wrote, working])] at seen
    cases status : a.status with
    | pending => rfl
    | completed =>
      obtain ⟨j, row', held', id, -, won⟩ := rows.completed row.id a seen status
      obtain rfl := rows.apart j i row' row held' held id
      exact (committed_rests reached ((workCommits_won promptly_keeping reached).mpr won) _ about).elim

/-- The steps that prompt runs take are guarded. -/
theorem promptly_guarded (reached : Reachable Promptly w) {l : Label (application platform settings)}
    (promptly : Promptly w l)
    (moved : w.step l = some w') : Guarded w l := by
  rcases World.step_cases moved with
    ⟨i, q, rfl, -, -⟩ | ⟨i, env, c, next, r, s, rfl, running, ran, -⟩ | ⟨i, c, rfl, -, -⟩
  · exact promptly.keeping
  · refine fun rowId => ⟨fun responseBody about => ?_, fun about row seen => deletes_pending reached about seen⟩
    obtain ⟨working, none, row, held, rfl⟩ := (disciplined_calls promptly_keeping).allowed reached about
    rw [view_of_clean reached (by simp [Call.Wrote, working])]
    refine ((reachable_attended reached).present i row held none (Or.inl working)).resolve_right fun stuck => ?_
    obtain ⟨userId, key, requestHash, expiresAt, created⟩ :=
      ((reachable_recorded promptly_keeping reached i).held row).mp held
    exact promptly.prompt _ _ _ _ row created (stuck.later (exec_clock ran).1)
  · trivial

theorem guarded_run (reached : Reachable Promptly w) (run : Run Promptly w w') : Run Guarded w w' :=
  run.strengthen reached fun _ _ _ start promptly moved => promptly_guarded start promptly moved

/-- Calls that are done with their row in time commit the work of their key once, and the DELETE with which a call
cleans up never finds its row completed, as long as works are acknowledged and lookups are up to date. -/
theorem fast_owners_commit_once (reached : Reachable Promptly w) (userId : Id) (key : String) :
    (∀ i, workCommits w i ≤ 1) ∧
    (∀ i j requestHash requestHash', Calls w i userId key requestHash → Calls w j userId key requestHash' →
      0 < workCommits w i → 0 < workCommits w j → i = j) ∧
    ∀ i requestHash expiresAt row,
      w.Ran i (.sql .idempotencyKeys (.createPending userId key requestHash expiresAt)) (.ok row) →
      w.AboutTo i (.sql .idempotencyKeys (.delete row.id)) →
      ∀ a, ((w.state.tables .idempotencyKeys).slot row.id).view i = some a → a.status = .pending :=
  ⟨workCommits_le promptly_keeping reached, fun _ _ _ _ calls calls' commits commits' =>
    one_execution (guarded_run (.refl _) reached) calls calls' commits commits',
    fun _ _ _ _ _ about _ seen => deletes_pending reached about seen⟩

/-! ### Checked runs -/

def isPrompt (w : World (application platform settings)) : Label (application platform settings) → Bool
  | .run i env => (w.history i).all fun
    | .ran (.sql .idempotencyKeys (.createPending _ _ _ _)) (.ok row) => ¬row.Stuck env.now
    | _ => true
  | _ => true

def isAcknowledged (w : World (application platform settings)) : Label (application platform settings) → Bool
  | .run i env => match w.proc i with
    | some (.call (.commit .work) _) => env.fault ≠ some .after
    | _ => true
  | _ => true

def isUpToDate (w : World (application platform settings)) : Label (application platform settings) → Bool
  | .run i env => match w.proc i with
    | some (.call .datetimeNow _) => (w.history i).all fun
      | .ran (.sql .idempotencyKeys (.get _ _)) (.ok [row]) => ¬row.Stuck env.now ∨
        (((w.state.tables .idempotencyKeys).slot row.id).committed.all fun a => a.status = .pending) = true
      | _ => true
    | _ => true
  | _ => true

def isPromptly (w : World (application platform settings)) (l : Label (application platform settings)) : Bool :=
  isUseCase w l && isPrompt w l && isAcknowledged w l && isUpToDate w l

theorem useCase_keeping {l : Label (application platform settings)} (useCase : UseCases w l) : Keeping w l := by
  cases l with
  | start i q => exact keeping_useCase useCase
  | _ => trivial

theorem isPrompt_sound {l : Label (application platform settings)} (checked : isPrompt w l = true) : Prompt w l := by
  cases l with
  | run i env =>
    intro userId key requestHash expiresAt row created
    exact of_decide_eq_true (List.all_eq_true.mp checked _ created)
  | _ => trivial

theorem isAcknowledged_sound {l : Label (application platform settings)} (checked : isAcknowledged w l = true) :
    Acknowledged w l := by
  cases l with
  | run i env =>
    rintro ⟨next, running⟩
    simp only [isAcknowledged, running] at checked
    exact of_decide_eq_true checked
  | _ => trivial

theorem isUpToDate_sound {l : Label (application platform settings)} (checked : isUpToDate w l = true) :
    UpToDate w l := by
  cases l with
  | run i env =>
    rintro userId key row found ⟨next, running⟩ stuck a stored
    simp only [isUpToDate, running] at checked
    have pending := (of_decide_eq_true (List.all_eq_true.mp checked _ found)).resolve_left (not_not.mpr stuck)
    rw [stored] at pending
    exact of_decide_eq_true pending
  | _ => trivial

theorem isPromptly_sound (w : World (application platform settings)) (l : Label (application platform settings))
    (checked : isPromptly w l = true) : Promptly w l := by
  simp only [isPromptly, Bool.and_eq_true] at checked
  obtain ⟨⟨⟨useCase, prompt⟩, acknowledged⟩, upToDate⟩ := checked
  exact ⟨useCase_keeping useCase, isPrompt_sound prompt, isAcknowledged_sound acknowledged,
    isUpToDate_sound upToDate⟩

/-- A deposit dies right after its reservation; a second call reclaims the row 40 seconds later, loses its connection
before its COMMIT is applied and deletes its row; a third call deposits. -/
def reclaimedDeposit : SampleWorld := World.initial.replay isPromptly (sampleRegistration ++
  .start 1 (.createDeposit 12 "deposit-1" [49] 1000) :: turns 1 2 30 3 ++ .kill 1 ::
  .start 2 (.createDeposit 12 "deposit-1" [49] 1000) :: turns 2 (seconds 40) 60 18 ++
  .run 2 { now := seconds 40, fault := some .before } :: turns 2 (seconds 40) 80 5 ++
  .start 3 (.createDeposit 12 "deposit-1" [49] 1000) :: turns 3 (seconds 41) 90 15)

theorem fast_owners_commit_once_reclaimedDeposit : (∀ i, workCommits reclaimedDeposit i ≤ 1) ∧
    (∀ i j requestHash requestHash', Calls reclaimedDeposit i 12 "deposit-1" requestHash →
      Calls reclaimedDeposit j 12 "deposit-1" requestHash' → 0 < workCommits reclaimedDeposit i →
      0 < workCommits reclaimedDeposit j → i = j) ∧
    workCommits reclaimedDeposit 2 = 0 ∧ workCommits reclaimedDeposit 3 = 1 := by
  obtain ⟨few, once, -⟩ := fast_owners_commit_once
    (run_replay isPromptly_sound _ _ : Reachable Promptly reclaimedDeposit)
    12 "deposit-1"
  exact ⟨few, once, by decide +kernel, by decide +kernel⟩

/-- The COMMIT of a deposit is applied and its acknowledgement lost; the client tries again with its key. -/
def lostAcknowledgement : SampleWorld :=
  World.initial.replay (fun w l => isUseCase w l && isPrompt w l && isUpToDate w l)
  (sampleRegistration ++ .start 1 (.createDeposit 12 "deposit-1" [49] 1000) :: turns 1 2 30 10 ++
  .run 1 { now := 2, fault := some .after } :: turns 1 2 50 5 ++
  .start 2 (.createDeposit 12 "deposit-1" [49] 1000) :: turns 2 3 60 15)

/-- The cleanup of the first call deletes its completed row, and the second call deposits again. -/
theorem lost_acknowledgement_deposits_twice :
    Reachable (fun w l => UseCases w l ∧ Prompt w l ∧ UpToDate w l) lostAcknowledgement ∧
    Calls lostAcknowledgement 1 12 "deposit-1" (hashRequestBody samplePlatform [49]) ∧
    Calls lostAcknowledgement 2 12 "deposit-1" (hashRequestBody samplePlatform [49]) ∧
    workCommits lostAcknowledgement 1 = 1 ∧ workCommits lostAcknowledgement 2 = 1 ∧
    (lostAcknowledgement.state.tables .wallets).committedRows.map (fun row => row.balanceMinor) = [2000] := by
  refine ⟨run_replay (fun w l checked => ?_) _ _, calls_iff.mpr ?_, calls_iff.mpr ?_, ?_, ?_, ?_⟩
  · simp only [Bool.and_eq_true] at checked
    exact ⟨checked.1.1, isPrompt_sound checked.1.2, isUpToDate_sound checked.2⟩
  all_goals decide +kernel

end TheClub
