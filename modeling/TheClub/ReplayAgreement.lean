import TheClub.Endpoints
import TheClub.Promptness

/-!
What the calls with one key return. The response of the one committed work is stored with its
row; every call that returns at all returns it, and a call that comes later finds it there.
-/

namespace TheClub
open ReadCommitted Program

variable {platform : Platform} {settings : Settings}
  {ok : World (application platform settings) → Label (application platform settings) → Prop}
  {w w₀ w' : World (application platform settings)}

/-! ### Where a returned response comes from -/

section
variable {h : List (Event signature)} {userId : Id} {key requestHash : String} {ttlHours : Int} {work : Prog Dict}

theorem tryReserve_created {rowId : Id}
    (resumed : (tryReserve userId key requestHash ttlHours).Resumed h (.done (.ok (some rowId)))) :
    ∃ expiresAt row, .ran (.sql .idempotencyKeys (.createPending userId key requestHash expiresAt)) (.ok row) ∈ h := by
  rcases resumed_handle_ok resumed with reserved | ⟨_, _, e, rfl, -, handled⟩
  · obtain ⟨first, _, id, rfl, reserved, -⟩ := resumed_bind_ok reserved
    obtain ⟨now, -, created⟩ := within_bind (unitOfWork_within reserved.within)
    obtain ⟨row, created, -⟩ := within_bind created
    exact ⟨_, row, List.mem_append_left _ (within_perform created)⟩
  · cases e <;> cases (resumed_done handled).2

theorem runIdempotent_replied {responseBody : Dict}
    (resumed : (runIdempotent userId key requestHash ttlHours work).Resumed h (.done (.ok responseBody))) :
    (∃ expiresAt row, .ran (.sql .idempotencyKeys (.createPending userId key requestHash expiresAt)) (.ok row) ∈ h) ∨
      ∃ row : IdempotencyKey, .ran (.sql .idempotencyKeys (.get userId key)) (.ok [row]) ∈ h ∧
        row.requestHash = requestHash ∧
        row.status = .completed ∧ responseBody = row.responseBody.getD [] := by
  obtain ⟨first, rest, reserved, rfl, went, later⟩ := resumed_bind_ok resumed
  cases reserved with
  | some rowId =>
    obtain ⟨expiresAt, row, created⟩ := tryReserve_created went
    exact Or.inl ⟨expiresAt, row, List.mem_append_left _ created⟩
  | none =>
    obtain ⟨second, rest, found, rfl, looked, later⟩ := resumed_bind_ok later
    cases found with
    | some cached =>
      obtain ⟨-, same⟩ := resumed_done later
      cases same
      obtain ⟨row, got, facts⟩ := resolveExisting_found looked
      exact Or.inr ⟨row, List.mem_append_right _ (List.mem_append_left _ got), facts⟩
    | none =>
      obtain ⟨third, rest, reserved, rfl, went, later⟩ := resumed_bind_ok later
      cases reserved with
      | some rowId =>
        obtain ⟨expiresAt, row, created⟩ := tryReserve_created went
        exact Or.inl ⟨expiresAt, row, by simp [created]⟩
      | none =>
        obtain ⟨-, same⟩ := resumed_done later
        cases same

theorem runIdempotent_won (works : work.Only Works) : (runIdempotent userId key requestHash ttlHours work).Follows
    (callProtocol platform) (Then fun g responseBody => g.won = some responseBody ∨ g.held = none) {} := by
  have reserved : ∀ {row : IdempotencyKey} {rowId : Id}, row.id = rowId → (runReserved rowId work).Follows
      (callProtocol platform) (Then fun g responseBody => g.won = some responseBody ∨ g.held = none)
      { stage := .working, held := some row } :=
    fun own => (runReserved_follows works own).then_mono fun _ _ => Or.inl
  refine follows_bind.mpr (tryReserve_follows.mono fun g r done => ?_)
  rcases r with e | (_ | rowId)
  · trivial
  · subst done
    refine follows_bind.mpr (resolveExisting_follows.mono fun g r cleared => ?_)
    subst cleared
    rcases r with e | (_ | cached)
    · trivial
    · refine follows_bind.mpr (tryReserve_follows.mono fun g r done => ?_)
      rcases r with e | (_ | rowId)
      · trivial
      · trivial
      · obtain ⟨row, own, rfl⟩ := done
        exact reserved own
    · exact Or.inr rfl
  · obtain ⟨row, own, rfl⟩ := done
    exact reserved own

end

/-- The response of a call, if it has a key: it is the one it has won, or it has not reserved a row. -/
def Owned (platform : Platform) (q : Request) (g : Call) (r : Except Error Reply) : Prop :=
  ∀ asked responseBody, q.call platform = some asked → r = .ok (.body responseBody) →
    g.won = some responseBody ∨ g.held = none

theorem disciplined_owned (keeping : ∀ w l, ok w l → Keeping w l) :
    Disciplined (Y := application platform settings) ok (callProtocol platform) fun q g r => Owned platform q g r where
  code w i q allowed := by
    cases call : q.call platform with
    | none =>
      refine (code_follows (keeping w _ allowed)).mono fun g r _ asked responseBody call' => ?_
      cases call.symm.trans call'
    | some asked =>
      obtain ⟨userId, key, requestHash⟩ := asked
      obtain ⟨ttlHours, work, works, code⟩ := code_of_call settings (keeping w _ allowed) call
      change (q.code platform settings).Follows _ _ _
      rw [code]
      refine follows_bind.mpr ((runIdempotent_won works).mono fun g r won => ?_)
      cases r with
      | ok responseBody =>
        rintro asked body - same
        cases same
        exact won
      | error e =>
        rintro asked body - same
        cases same
  answers _ _ _ _ _ _ := exec_answer

theorem request_keeping (keeping : ∀ w l, ok w l → Keeping w l) (reached : Reachable ok w) {i : Nat} {q : Request}
    (asked : w.request i = some q) : q.Keeping := by
  obtain ⟨before, -, allowed⟩ := asked_by reached asked
  exact keeping before _ allowed

theorem returned_won (keeping : ∀ w l, ok w l → Keeping w l) (reached : Reachable ok w) {i : Nat} {userId : Id}
    {key requestHash : String} (calls : Calls w i userId key requestHash) {responseBody : Dict}
    (finished : w.Finished i (.ok (.body responseBody))) : ∃ j requestHash', Calls w j userId key requestHash' ∧
      (w.ghost (callProtocol platform) j : Call).won = some responseBody := by
  obtain ⟨q, asked, call⟩ := calls
  obtain ⟨q', asked', owned⟩ := (disciplined_owned keeping).finished reached finished
  cases asked.symm.trans asked'
  rcases owned _ responseBody call rfl with won | unheld
  · exact ⟨i, requestHash, ⟨q, asked, call⟩, won⟩
  obtain ⟨q', asked', resumed⟩ := resumed_of_finished reached finished
  cases asked.symm.trans asked'
  obtain ⟨ttlHours, work, works, code⟩ := code_of_call settings (request_keeping keeping reached asked) call
  change (q.code platform settings).Resumed _ _ at resumed
  rw [code] at resumed
  obtain ⟨first, rest, body, past, went, ended⟩ := resumed_bind_ok resumed
  obtain ⟨rfl, same⟩ := resumed_done ended
  cases same
  rw [List.append_nil] at past
  rcases runIdempotent_replied went with ⟨expiresAt, row, created⟩ | ⟨row, got, rfl, completed, rfl⟩
  · rw [← past] at created
    cases unheld.symm.trans (((reachable_recorded keeping reached i).held row).mpr ⟨_, _, _, _, created⟩)
  · rw [← past] at got
    obtain ⟨j, stored, response, calls, won⟩ := found_won keeping reached got completed
    exact ⟨j, row.requestHash, calls, by rw [response]; exact won⟩

theorem won_produced (keeping : ∀ w l, ok w l → Keeping w l) (reached : Reachable ok w) {i : Nat} {userId : Id}
    {key requestHash : String} (calls : Calls w i userId key requestHash) {responseBody : Dict}
    (won : (w.ghost (callProtocol platform) i : Call).won = some responseBody) :
    ∃ q ttlHours work, w.request i = some q ∧
      q.code platform settings = Reply.body <$> runIdempotent userId key requestHash ttlHours work ∧
      work.Within (w.history i) responseBody := by
  obtain ⟨q, asked, call⟩ := calls
  obtain ⟨ttlHours, work, works, code⟩ := code_of_call settings (request_keeping keeping reached asked) call
  obtain ⟨-, rowId, marked⟩ := (reachable_recorded keeping reached i).won responseBody won
  exact ⟨q, ttlHours, work, asked, code, marked_within reached asked code works marked⟩

/-! ### Calls that find the row completed -/

def LooksUp (userId : Id) (key : String) (c : Cmd) : Prop :=
  c = .datetimeNow ∨ c = .rollback ∨ c = .sql .idempotencyKeys (.get userId key) ∨
    ∃ requestHash expiresAt, c = .sql .idempotencyKeys (.createPending userId key requestHash expiresAt)

/-- What a call meets while its key has the completed row `row`: its INSERT is refused and its SELECT finds the row. -/
def replayProtocol (lossy : Prop) (userId : Id) (key : String) (row : IdempotencyKey) : Protocol signature where
  Ghost := Unit
  start := ()
  allowed := fun _ c => LooksUp userId key c
  possible := fun c r => match c, r with
    | .sql .idempotencyKeys (.createPending _ _ _ _), .ok _ => False
    | .sql .idempotencyKeys (.createPending _ _ _ _), .error e => lossy ∨ ∃ constraint, e = .integrityError constraint
    | .sql .idempotencyKeys (.get _ _), .ok rows => rows = [row]
    | .sql .idempotencyKeys (.get _ _), .error _ => lossy
    | .datetimeNow, .error _ => False
    | .rollback, .error _ => False
    | _, _ => True
  next := fun _ _ _ => ()
  died := id

/-- The reply to a call that finds the completed row `row`. -/
def IdempotencyKey.reply (row : IdempotencyKey) (requestHash : String) : Except Error Dict :=
  if row.requestHash = requestHash then .ok (row.responseBody.getD []) else .error .idempotencyKeyConflictError

section
variable {lossy : Prop} {userId : Id} {key requestHash : String} {ttlHours : Int} {row : IdempotencyKey}
    {work : Prog Dict}

theorem tryReserve_replays : (tryReserve userId key requestHash ttlHours).Follows (replayProtocol lossy userId key row)
    (fun _ r => r = .ok none ∨ lossy ∧ ∃ e, r = .error e) () := by
  refine follows_handle.mpr (follows_bind.mpr (follows_bind.mpr (follows_attempt.mpr ?_)))
  refine ⟨Or.inl rfl, fun r answer => ?_⟩
  rcases r with e | now
  · exact answer.elim
  refine ⟨Or.inr (Or.inr (Or.inr ⟨_, _, rfl⟩)), fun r answer => ?_⟩
  rcases r with e | row'
  · refine ⟨Or.inr (Or.inl rfl), fun r ended => ?_⟩
    rcases r with e' | u
    · exact ended.elim
    rcases answer with lost | ⟨constraint, rfl⟩
    · cases e with
      | integrityError constraint => exact Or.inl rfl
      | _ => exact Or.inr ⟨lost, _, rfl⟩
    · exact Or.inl rfl
  · exact answer.elim

theorem resolveExisting_replays (completed : row.status = .completed) : (resolveExisting userId key requestHash).Follows
    (replayProtocol lossy userId key row)
    (fun _ r => r = some <$> row.reply requestHash ∨ lossy ∧ ∃ e, r = .error e) () := by
  have closes : ∀ r : Except Error (Option Dict), (r = some <$> row.reply requestHash ∨ lossy ∧ ∃ e, r = .error e) →
      (do perform .rollback; done r : Prog (Option Dict)).Follows (replayProtocol lossy userId key row)
        (fun _ r => r = some <$> row.reply requestHash ∨ lossy ∧ ∃ e, r = .error e) () := by
    refine fun r replied => ⟨Or.inr (Or.inl rfl), fun answer ended => ?_⟩
    cases answer with
    | ok u => exact replied
    | error e => exact ended.elim
  refine follows_bind.mpr (follows_attempt.mpr ?_)
  refine ⟨Or.inr (Or.inr (Or.inl rfl)), fun r answer => ?_⟩
  rcases r with e | rows
  · exact closes _ (Or.inr ⟨answer, e, rfl⟩)
  obtain rfl : rows = [row] := answer
  change Follows (replayProtocol lossy userId key row) _ (if row.requestHash ≠ requestHash then _ else _) ()
  split
  · rename_i other
    exact closes _ (Or.inl (by rw [IdempotencyKey.reply, if_neg other]; rfl))
  · rename_i same
    exact closes _ (Or.inl (by rw [IdempotencyKey.reply, if_pos (not_not.mp same)]; rfl))

theorem runIdempotent_replays (completed : row.status = .completed) :
    (runIdempotent userId key requestHash ttlHours work).Follows (replayProtocol lossy userId key row)
      (fun _ r => r = row.reply requestHash ∨ lossy ∧ ∃ e, r = .error e) () := by
  refine follows_bind.mpr (tryReserve_replays.mono fun g r tried => ?_)
  rcases tried with rfl | ⟨lost, e, rfl⟩
  · refine follows_bind.mpr ((resolveExisting_replays completed).mono fun g r resolved => ?_)
    rcases resolved with rfl | ⟨lost, e, rfl⟩
    · cases reply : row.reply requestHash with
      | ok cached => exact Or.inl rfl
      | error e => exact Or.inl rfl
    · exact Or.inr ⟨lost, e, rfl⟩
  · exact Or.inr ⟨lost, e, rfl⟩

end

def Failed (w : World (application platform settings)) (j : Nat) : Prop :=
  ∃ c e, w.Ran j c (.error e) ∧ (e = .inFailedSqlTransaction ∨ ∃ applied, e = .connectionLost applied)

theorem replays_answer (reached : Reachable Promptly w₀) (run : Run Promptly w₀ w) {k : Id} {row : IdempotencyKey}
    (stored : ((w₀.state.tables .idempotencyKeys).slot k).committed = some row)
    (completed : row.status = .completed) {j : Nat}
    {requestHash : String} (fresh : w₀.request j = none) (calls : Calls w j row.userId row.key requestHash) {c : Cmd}
    {r : Except Error c.Ret} (ran : w.Ran j c r) :
    (replayProtocol (Failed w j) row.userId row.key row).possible c r := by
  have unstarted : ¬w₀.Ran j c r := by
    unfold World.Ran
    rw [(history_of_unstarted reached j fresh).1]
    exact List.not_mem_nil
  obtain ⟨before, after, env, start, -, -, -, done, -⟩ := Run.moment_after run unstarted ran
  have reachedBefore := reached.trans start
  have guarded : Reachable Guarded before := guarded_run (.refl _) reachedBefore
  have row' := completed_stays (guarded_run (.refl _) reached) (guarded_run reached start) stored completed
  have view : ((before.state.tables .idempotencyKeys).slot k).view j = some row := by
    rw [Slot.view_of_not_holder (by
      rw [Slot.holder, (reachable_lasting guarded).still k row row' completed]; simp), row']
  obtain ⟨q, asked, call⟩ := calls
  obtain ⟨q', asked', names⟩ := ran_names promptly_keeping (reached.trans run) ran
  cases asked.symm.trans asked'
  cases c with
  | sql f q =>
    cases f with
    | idempotencyKeys =>
      cases q with
      | createPending userId key hash expiresAt =>
        cases call.symm.trans names
        cases r with
        | ok new =>
          obtain ⟨-, -, -, alone⟩ := insertRow_ok (exec_keys done)
          have apart := alone k row (Or.inl row') (Or.inl view)
          simp [IdempotencyQuery.ofKey] at apart
        | error e =>
          rcases exec_error done with rfl | rfl | failed
          · exact Or.inl ⟨_, _, ran, Or.inl rfl⟩
          · exact Or.inl ⟨_, _, ran, Or.inr ⟨_, rfl⟩⟩
          · exact Or.inr ⟨_, (insertRow_fails failed).1⟩
      | get userId key =>
        obtain ⟨hash, named⟩ := names
        cases call.symm.trans named
        cases r with
        | ok rows =>
          obtain ⟨found, -⟩ := Outcome.ok.inj (exec_keys done)
          change rows = [row]
          rw [← found]
          refine Table.filter_rows view (ofKey_iff.mpr rfl) fun k' b seen owner => ?_
          refine reachable_oneRow reachedBefore {j} k' k b row row.owner ?_ ?_ (congrArg some (ofKey_iff.mp owner)) rfl
          · exact Slot.under_singleton.trans seen
          · exact Slot.under_singleton.trans view
        | error e =>
          rcases exec_error done with rfl | rfl | failed
          · exact ⟨_, _, ran, Or.inl rfl⟩
          · exact ⟨_, _, ran, Or.inr ⟨_, rfl⟩⟩
          · cases failed
      | _ => trivial
    | _ => trivial
  | datetimeNow =>
    cases r with
    | ok now => trivial
    | error e => exact (exec_answer done).elim
  | rollback =>
    cases r with
    | ok u => trivial
    | error e => exact (exec_answer done).elim
  | _ => trivial

/-- A call that has started when the row was completed runs no work, and replays the row. -/
theorem replays (reached : Reachable Promptly w₀) (run : Run Promptly w₀ w) {k : Id} {row : IdempotencyKey}
    (stored : ((w₀.state.tables .idempotencyKeys).slot k).committed = some row)
    (completed : row.status = .completed) {j : Nat}
    {requestHash : String} (fresh : w₀.request j = none) (calls : Calls w j row.userId row.key requestHash) :
    (∀ c r, w.Ran j c r → LooksUp row.userId row.key c) ∧
    ∀ r, w.Finished j r → r = Reply.body <$> row.reply requestHash ∨ Failed w j := by
  have answers : ∀ c r, w.Ran j c r → (replayProtocol (Failed w j) row.userId row.key row).possible c r :=
    fun c r ran => replays_answer reached run stored completed fresh calls ran
  obtain ⟨q, asked, call⟩ := calls
  obtain ⟨ttlHours, work, -, code⟩ := code_of_call settings
    (request_keeping promptly_keeping (reached.trans run) asked) call
  have follows : (q.code platform settings).Follows (replayProtocol (Failed w j) row.userId row.key row)
      (fun _ r => r = Reply.body <$> row.reply requestHash ∨ Failed w j) () := by
    rw [code]
    refine follows_bind.mpr ((runIdempotent_replays completed).mono fun _ r replied => ?_)
    rcases replied with rfl | ⟨failed, e, rfl⟩
    · cases row.reply requestHash with
      | ok cached => exact Or.inl rfl
      | error e => exact Or.inl rfl
    · exact Or.inr failed
  obtain ⟨h, p, resumed, place⟩ := resumed_of_request (reached.trans run) j q asked
  have within : ∀ c r, .ran c r ∈ h ↔ w.Ran j c r := by
    intro c r
    unfold World.Ran
    rcases place with ⟨-, past⟩ | ⟨-, past⟩
    · rw [past]
    · simp [past]
  obtain ⟨⟨g, rest⟩, allowed⟩ := follows.resumed resumed fun c r member => answers c r ((within c r).mp member)
  refine ⟨fun c r ran => ?_, fun r finished => ?_⟩
  · obtain ⟨_, permitted⟩ := allowed c r ((within c r).mpr ran)
    exact permitted
  · rcases place with ⟨running, -⟩ | ⟨stopped, -⟩
    · cases running.symm.trans finished
      exact rest
    · cases stopped.symm.trans finished

/-! ### Agreement -/

/-- What the calls with one key have agreed on in `w`, and what `w₀` has settled for those that come later. -/
structure Agreement (w₀ w : World (application platform settings)) (userId : Id) (key : String) : Prop where
  /-- All calls that return return the same response. -/
  same : ∀ i j requestHash requestHash' body body', Calls w i userId key requestHash →
    Calls w j userId key requestHash' →
    w.Finished i (.ok (.body body)) → w.Finished j (.ok (.body body')) → body = body'
  /-- It is the result of the work of the one call that has committed it. -/
  produced : ∀ i requestHash body, Calls w i userId key requestHash → w.Finished i (.ok (.body body)) →
    ∃ j requestHash' q ttlHours work, Calls w j userId key requestHash' ∧ w.request j = some q ∧
      q.code platform settings = Reply.body <$> runIdempotent userId key requestHash' ttlHours work ∧
      work.Within (w.history j) body ∧ workCommits w j = 1 ∧
      ∀ k hash, Calls w k userId key hash → 0 < workCommits w k → k = j
  /-- Once it is committed, the calls that come run no work: they return it, or are refused for their hash. -/
  later : ∀ i requestHash, Calls w₀ i userId key requestHash → 0 < workCommits w₀ i → ∃ rowId body,
    w₀.Ran i (.sql .idempotencyKeys (.markCompleted rowId body)) (.ok ()) ∧
    ∀ j requestHash', w₀.request j = none → Calls w j userId key requestHash' →
      (∀ c r, w.Ran j c r → LooksUp userId key c) ∧
      ∀ r, w.Finished j r → Failed w j ∨
        r = if requestHash = requestHash' then .ok (.body body) else .error .idempotencyKeyConflictError
  /-- No completed row is ever deleted. -/
  kept : ∀ k row, ((w₀.state.tables .idempotencyKeys).slot k).committed = some row → row.status = .completed →
    ((w.state.tables .idempotencyKeys).slot k).committed = some row

/-- The calls with one key agree on one response, that of the one work that is committed, as long as calls are
prompt, works are acknowledged and lookups are up to date. -/
theorem replay_agreement (reached : Reachable Promptly w₀) (run : Run Promptly w₀ w) (userId : Id) (key : String) :
    Agreement w₀ w userId key := by
  have reached' := reached.trans run
  have guarded : Reachable Guarded w := guarded_run (.refl _) reached'
  have guarded₀ : Reachable Guarded w₀ := guarded_run (.refl _) reached
  have commits : ∀ {i : Nat} {body : Dict}, (w.ghost (callProtocol platform) i : Call).won = some body →
      0 < workCommits w i :=
    fun won => (workCommits_won guarded_keeping guarded).mpr (by simp [won])
  refine ⟨fun i j hash hash' body body' calls calls' returned returned' => ?_, fun i hash body calls returned => ?_,
    fun i hash calls committed => ?_, fun k row stored completed => ?_⟩
  · obtain ⟨k, _, owns, won⟩ := returned_won promptly_keeping reached' calls returned
    obtain ⟨k', _, owns', won'⟩ := returned_won promptly_keeping reached' calls' returned'
    obtain rfl := one_execution guarded owns owns' (commits won) (commits won')
    exact Option.some.inj (won.symm.trans won')
  · obtain ⟨j, hash', owns, won⟩ := returned_won promptly_keeping reached' calls returned
    obtain ⟨q, ttlHours, work, asked, code, within⟩ := won_produced promptly_keeping reached' owns won
    have few := workCommits_le promptly_keeping reached' j
    have some := commits won
    exact ⟨j, hash', q, ttlHours, work, owns, asked, code, within, by omega,
      fun k hash'' calls' committed => one_execution guarded calls' owns committed some⟩
  · obtain ⟨k, -, row, body, -, -, stored, completed, owner, hash', response, won⟩ := won_row guarded₀ calls committed
    obtain ⟨rfl, rfl⟩ := Prod.mk.inj owner
    obtain ⟨-, rowId, marked⟩ := (reachable_recorded promptly_keeping reached i).won body won
    refine ⟨rowId, body, marked, fun j hash'' fresh calls' => ?_⟩
    obtain ⟨looks, replied⟩ := replays reached run stored completed fresh calls'
    refine ⟨looks, fun r finished => ?_⟩
    rcases replied r finished with rfl | failed
    · refine Or.inr ?_
      unfold IdempotencyKey.reply
      rw [hash', response]
      split <;> rfl
    · exact Or.inl failed
  · exact completed_stays guarded₀ (guarded_run reached run) stored completed

/-- A deposit, and the same key again with the same body and with another one. -/
def repeatedDeposit₀ : SampleWorld := World.initial.replay isPromptly (sampleRegistration ++
  .start 1 (.createDeposit 12 "deposit-1" [49] 1000) :: turns 1 2 30 15)

def repeatedDeposit : SampleWorld := repeatedDeposit₀.replay isPromptly (
  .start 2 (.createDeposit 12 "deposit-1" [49] 1000) :: turns 2 3 60 10 ++
  .start 3 (.createDeposit 12 "deposit-1" [50] 5000) :: turns 3 4 90 10)

theorem replay_agreement_repeatedDeposit : Agreement repeatedDeposit₀ repeatedDeposit 12 "deposit-1" ∧
    workCommits repeatedDeposit₀ 1 = 1 :=
  ⟨replay_agreement (run_replay isPromptly_sound _ _)
    (run_replay isPromptly_sound _ _) 12 "deposit-1", by decide +kernel⟩

def returnedBody (w : World (application platform settings)) (i : Nat) : Option Dict :=
  match w.proc i with
  | some (.done (.ok (.body responseBody))) => some responseBody
  | _ => none

theorem returnedBody_iff {i : Nat} {responseBody : Dict} :
    returnedBody w i = some responseBody ↔ w.Finished i (.ok (.body responseBody)) := by
  unfold returnedBody World.Finished
  split
  · rename_i body running
    rw [running]
    simp
  · rename_i other
    constructor
    · intro none
      cases none
    · intro finished
      exact (other _ finished).elim

/-- No connection is lost at this step. -/
def isDelivered (_ : World (application platform settings)) : Label (application platform settings) → Bool
  | .run _ env => env.fault = none
  | _ => true

/-- A call finds the row of another one pending, which then completes it before it is 30 seconds old; the first call
reads the clock when it is older. -/
def overtakenLookup : SampleWorld := World.initial.replay (fun w l => isUseCase w l && isPrompt w l && isDelivered w l)
  (sampleRegistration ++ .start 1 (.createDeposit 12 "deposit-1" [49] 1000) :: turns 1 2 30 3 ++
  .start 2 (.createDeposit 12 "deposit-1" [49] 1000) :: turns 2 (seconds 29) 60 4 ++ turns 1 (seconds 30) 90 10 ++
  turns 2 (seconds 31) 120 30)

/-- It deletes the completed row and deposits again: both calls return, with different balances. -/
theorem overtaken_lookup_deposits_twice :
    Reachable (fun w l => UseCases w l ∧ Prompt w l ∧ isDelivered w l = true) overtakenLookup ∧
    Calls overtakenLookup 1 12 "deposit-1" (hashRequestBody samplePlatform [49]) ∧
    Calls overtakenLookup 2 12 "deposit-1" (hashRequestBody samplePlatform [49]) ∧
    workCommits overtakenLookup 1 = 1 ∧ workCommits overtakenLookup 2 = 1 ∧
    ∃ body body', overtakenLookup.Finished 1 (.ok (.body body)) ∧ overtakenLookup.Finished 2 (.ok (.body body')) ∧
      balanceIn body = some 1000 ∧ balanceIn body' = some 2000 := by
  refine ⟨run_replay (fun w l checked => ?_) _ _, calls_iff.mpr ?_, calls_iff.mpr ?_, ?_, ?_, ?_⟩
  · simp only [Bool.and_eq_true] at checked
    exact ⟨checked.1.1, isPrompt_sound checked.1.2, checked.2⟩
  · decide +kernel
  · decide +kernel
  · decide +kernel
  · decide +kernel
  · refine ⟨(returnedBody overtakenLookup 1).get (by decide +kernel),
      (returnedBody overtakenLookup 2).get (by decide +kernel),
      returnedBody_iff.mp (by simp), returnedBody_iff.mp (by simp), ?_, ?_⟩ <;> decide +kernel

end TheClub
