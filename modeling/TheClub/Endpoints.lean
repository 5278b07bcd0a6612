import TheClub.Api.RequestBodies
import TheClub.KeyRows
import TheClub.ReadCommitted.Resumed

/-!
The two endpoints share one key space. A response is returned again only for the body it was
computed for, and no body is accepted by both endpoints, so neither replays the other's responses.
-/

namespace TheClub
open ReadCommitted Program

variable {platform : Platform} {settings : Settings}

/-! ### Where the result of a call comes from -/

def Unmarking (c : Cmd) : Prop := ∀ rowId responseBody, c ≠ .sql .idempotencyKeys (.markCompleted rowId responseBody)

theorem finds_unmarking {userId : Id} {key requestHash : String} : Finds Unmarking userId key requestHash := by
  constructor <;> simp [Unmarking]

section
variable {h : List (Event signature)} {rowId : Id} {userId : Id} {key requestHash : String} {ttlHours : Int}
    {work : Prog Dict}

theorem resolveExisting_found {cached : Dict}
    (resumed : (resolveExisting userId key requestHash).Resumed h (.done (.ok (some cached)))) : ∃ row : IdempotencyKey,
      .ran (.sql .idempotencyKeys (.get userId key)) (.ok [row]) ∈ h ∧ row.requestHash = requestHash ∧
      row.status = .completed ∧ cached = row.responseBody.getD [] := by
  obtain ⟨first, rest, r, rfl, looked, rolled⟩ := resumed_bind_ok resumed
  obtain ⟨_, _, _, rfl, -, ended⟩ := resumed_bind_ok rolled
  obtain ⟨rfl, same⟩ := resumed_done ended
  cases same
  obtain ⟨found, later, existing, rfl, got, decided⟩ := resumed_bind_ok (resumed_attempt_ok looked)
  obtain ⟨asked, _, rows, rfl, ran, scalar⟩ := resumed_bind_ok got
  obtain rfl := resumed_perform_ok ran
  rcases rows with _ | ⟨row, _ | ⟨row', rows⟩⟩
  · obtain ⟨rfl, same⟩ := resumed_done scalar
    cases same
    obtain ⟨-, same⟩ := resumed_done decided
    cases same
  · obtain ⟨rfl, same⟩ := resumed_done scalar
    cases same
    refine ⟨row, by simp, ?_⟩
    dsimp only at decided
    split at decided
    · obtain ⟨-, same⟩ := resumed_done decided
      cases same
    rename_i matching
    split at decided
    · obtain ⟨-, same⟩ := resumed_done decided
      cases same
      exact ⟨not_not.mp matching, by assumption, rfl⟩
    obtain ⟨_, _, now, -, -, decided⟩ := resumed_bind_ok decided
    split at decided
    · obtain ⟨-, same⟩ := resumed_done decided
      cases same
    · obtain ⟨_, _, _, -, -, decided⟩ := resumed_bind_ok decided
      obtain ⟨_, _, _, -, -, decided⟩ := resumed_bind_ok decided
      obtain ⟨-, same⟩ := resumed_done decided
      cases same
  · obtain ⟨-, same⟩ := resumed_done scalar
    cases same

theorem runReserved_within {responseBody : Dict}
    (resumed : (runReserved rowId work).Resumed h (.done (.ok responseBody))) : work.Within h responseBody := by
  rcases resumed_handle_ok resumed with worked | ⟨first, rest, e, rfl, -, handled⟩
  · obtain ⟨body, within, completed⟩ := within_bind (unitOfWork_within worked.within)
    obtain ⟨_, -, ended⟩ := within_bind completed
    cases within_done ended
    exact within
  · obtain ⟨_, _, _, -, -, ended⟩ := resumed_bind_ok handled
    cases (resumed_done ended).2

theorem runIdempotent_returned {responseBody : Dict}
    (resumed : (runIdempotent userId key requestHash ttlHours work).Resumed h (.done (.ok responseBody))) :
    work.Within h responseBody ∨ ∃ row : IdempotencyKey,
      .ran (.sql .idempotencyKeys (.get userId key)) (.ok [row]) ∈ h ∧ row.requestHash = requestHash ∧
      row.status = .completed ∧ responseBody = row.responseBody.getD [] := by
  obtain ⟨first, rest, reserved, rfl, -, later⟩ := resumed_bind_ok resumed
  cases reserved with
  | some rowId => exact Or.inl ((runReserved_within later).prepend _)
  | none =>
    obtain ⟨second, rest, found, rfl, looked, later⟩ := resumed_bind_ok later
    cases found with
    | some cached =>
      obtain ⟨-, same⟩ := resumed_done later
      cases same
      obtain ⟨row, got, facts⟩ := resolveExisting_found looked
      exact Or.inr ⟨row, List.mem_append_right _ (List.mem_append_left _ got), facts⟩
    | none =>
      obtain ⟨third, rest, reserved, rfl, -, later⟩ := resumed_bind_ok later
      cases reserved with
      | some rowId => exact Or.inl ((((runReserved_within later).prepend _).prepend _).prepend _)
      | none =>
        obtain ⟨-, same⟩ := resumed_done later
        cases same

variable {p : Prog Dict} {rowId' : Id} {responseBody : Dict} {r : Except Error Unit}

theorem runReserved_marked (works : work.Only Works) (resumed : (runReserved rowId work).Resumed h p)
    (ran : .ran (.sql .idempotencyKeys (.markCompleted rowId' responseBody)) r ∈ h) : work.Within h responseBody := by
  have marking : ¬Unmarking (.sql .idempotencyKeys (.markCompleted rowId' responseBody)) := fun away => away _ _ rfl
  have cleans : ∀ e, (do unitOfWork .cleanup (IdempotencyKeyRepository.delete rowId); raise e : Prog Dict).Only
      Unmarking := by
    intro e
    refine Only.bind (unitOfWork_only ?_ ?_ (only_perform (S := signature) ?_)) fun _ => trivial
    all_goals simp [Unmarking]
  obtain ⟨first, _, _, rfl, attempted, ran⟩ := resumed.earlier (fun r => by
    cases r with
    | ok a => trivial
    | error e => exact cleans e) ran marking
  obtain ⟨_, went, -⟩ := resumed_attempt attempted
  obtain ⟨first, _, _, rfl, went, ran⟩ := unitOfWork_ran went ran (by simp)
  have unmarking : work.Only Unmarking := works.mono fun c works rowId responseBody => works.1 _
  obtain ⟨during, marked, result, rfl, worked, left, ran⟩ := went.later unmarking ran marking
  have only : (IdempotencyKeyRepository.markCompleted rowId result >>= fun _ => pure result : Prog Dict).Only
      (· = Cmd.sql .idempotencyKeys (.markCompleted rowId result)) :=
    Only.bind (only_perform (S := signature) rfl) fun _ => trivial
  have same := (left.only only).2 _ _ ran
  cases same
  exact ((worked.within.extend _).extend _).extend _

theorem runIdempotent_marked (works : work.Only Works)
    (resumed : (runIdempotent userId key requestHash ttlHours work).Resumed h p)
    (ran : .ran (.sql .idempotencyKeys (.markCompleted rowId' responseBody)) r ∈ h) : work.Within h responseBody := by
  have marking : ¬Unmarking (.sql .idempotencyKeys (.markCompleted rowId' responseBody)) := fun away => away _ _ rfl
  obtain ⟨first, rest, reserved, rfl, -, later, ran⟩ := resumed.later (tryReserve_only finds_unmarking) ran marking
  cases reserved with
  | some rowId => exact (runReserved_marked works later ran).prepend _
  | none =>
    obtain ⟨second, rest, found, rfl, -, later, ran⟩ := later.later (resolveExisting_only finds_unmarking) ran marking
    cases found with
    | some cached =>
      exact (not_ran_done later ran).elim
    | none =>
      obtain ⟨third, rest, reserved, rfl, -, later, ran⟩ := later.later (tryReserve_only finds_unmarking) ran marking
      cases reserved with
      | some rowId => exact (((runReserved_marked works later ran).prepend _).prepend _).prepend _
      | none =>
        exact (not_ran_done later ran).elim

end

/-! ### The response of a committed work -/

section
variable {ok : World (application platform settings) → Label (application platform settings) → Prop}
  {w w' : World (application platform settings)} {i : Nat} {userId : Id} {key requestHash : String}

theorem Call.next_won {g : Call} {c : Cmd} {r : Except Error c.Ret} {responseBody : Dict}
    (won : g.won = some responseBody)
    (once : ∀ body, g.stage = .marked body → g.won = none) : (g.next c r).won = some responseBody := by
  by_cases isOpen : fate c r = .isOpen
  · rw [Call.next_open isOpen, ← won]
    unfold Call.after
    split <;> first | rfl | split <;> first | rfl | split <;> rfl
  · obtain ⟨broken, next⟩ := Call.next_ends (g := g) isOpen
    rw [next]
    change (g.settle (fate c r)).won = some responseBody
    cases ends : fate c r with
    | isOpen => exact won
    | undone => exact won
    | applied =>
      simp only [Call.settle]
      split
      · cases (once _ ‹_›).symm.trans won
      · exact won

theorem won_stays (keeping : ∀ w l, ok w l → Keeping w l) (reached : Reachable ok w) (run : Run ok w w') {i : Nat}
    {responseBody : Dict} (won : (w.ghost (callProtocol platform) i : Call).won = some responseBody) :
    (w'.ghost (callProtocol platform) i : Call).won = some responseBody := by
  refine run.keeps (J := fun w => (w.ghost (callProtocol platform) i : Call).won = some responseBody) reached won ?_
  intro w l w' reached won _ moved
  rcases World.step_cases moved with ⟨j, q, -, -, rfl⟩ | ⟨j, env, c, next, r, s, -, called, -, rfl⟩ | ⟨j, c, -, -, rfl⟩
  · exact won
  · rw [World.ghost_update]
    by_cases same : i = j
    · subst same
      rw [Function.update_self]
      exact Call.next_won won fun body stage =>
        ((reachable_recorded keeping reached i).body body (by rw [stage]; rfl)).1
    · rwa [Function.update_of_ne same]
  · rw [World.ghost_update]
    by_cases same : i = j
    · subst same
      rw [Function.update_self]
      exact won
    · rwa [Function.update_of_ne same]

theorem found_won (keeping : ∀ w l, ok w l → Keeping w l) (reached : Reachable ok w) {row : IdempotencyKey}
    (ran : w.Ran i (.sql .idempotencyKeys (.get userId key)) (.ok [row])) (completed : row.status = .completed) :
    ∃ j responseBody, row.responseBody = some responseBody ∧ Calls w j userId key row.requestHash ∧
      (w.ghost (callProtocol platform) j : Call).won = some responseBody := by
  obtain ⟨known, owner, -⟩ := found_row keeping reached ran
  obtain ⟨before, after, env, start, about, accepted, moved, done, rest⟩ := Run.moment reached ran
  have later : Run ok before w := .trans (.step (.refl _) accepted moved) rest
  have idle := (disciplined_calls keeping).allowed start about
  have keyRows := reachable_keyRows keeping start
  obtain ⟨found, -⟩ := Outcome.ok.inj (exec_keys done)
  have member : row ∈ ((before.state.tables .idempotencyKeys).rows i).filter (IdempotencyQuery.ofKey userId key) := by
    rw [found]
    exact List.mem_singleton.mpr rfl
  obtain ⟨k, seen⟩ := Table.mem_rows.mp (List.mem_filter.mp member).1
  have free : ((before.state.tables .idempotencyKeys).slot k).holder ≠ some i := by
    intro held
    have wrote := keyRows.wrote k i _ (Slot.pending_of_holder held)
    rw [show before.ghost (callProtocol platform) i = ({} : Call) from idle] at wrote
    exact wrote
  rw [Slot.view_of_not_holder free] at seen
  obtain ⟨j, row', held, id, won, some⟩ := keyRows.completed k row seen completed
  obtain ⟨responseBody, won'⟩ := Option.ne_none_iff_exists'.mp some
  obtain ⟨userId', key', requestHash', expiresAt, inserted⟩ := ((reachable_recorded keeping start j).held row').mp held
  obtain ⟨known', owner', hash', calls⟩ := created_row keeping reached (later.ran inserted)
  have key' := (known_of_version start (Or.inl seen)).1
  obtain ⟨same, hash, -⟩ := known.agree reached known' (key'.trans id.symm)
  obtain ⟨rfl, rfl⟩ := Prod.mk.inj (owner.symm.trans (same.trans owner'))
  refine ⟨j, responseBody, won.symm.trans won', ?_, won_stays keeping start later won'⟩
  rw [hash, hash']
  exact calls

variable {q : Request} {ttlHours : Int} {work : Prog Dict}

theorem marked_within (reached : Reachable ok w) (asked : w.request i = some q)
    (code : q.code platform settings = Reply.body <$> runIdempotent userId key requestHash ttlHours work)
    (works : work.Only Works) {rowId : Id} {responseBody : Dict} {r : Except Error Unit}
    (ran : w.Ran i (.sql .idempotencyKeys (.markCompleted rowId responseBody)) r) :
    work.Within (w.history i) responseBody := by
  obtain ⟨h, tail, p, past, resumed, mine⟩ := resumed_of_ran reached asked ran
  change (q.code platform settings).Resumed h p at resumed
  rw [code] at resumed
  obtain ⟨first, rest, q, rfl, went, mine⟩ := resumed.earlier (A := fun _ => False) (fun _ => trivial) mine id
  rw [past]
  exact ((runIdempotent_marked works went mine).extend rest).extend tail

end

/-! ### Runs of the endpoints -/

/-- A request of the API, whose body the endpoint's model has accepted. -/
def Request.isAccepted (parser : BodyParser) : Request → Bool
  | createRound _ _ body bets => placeRoundRequest parser body = some bets
  | createDeposit _ _ body amountMinor => depositRequest parser body = some amountMinor
  | runIdempotent _ _ _ _ _ => false
  | transaction _ => false
  | _ => true

def isAccepted (parser : BodyParser) (_ : World (application platform settings)) :
    Label (application platform settings) → Bool
  | .start _ q => q.isAccepted parser
  | _ => true

abbrev Accepted (parser : BodyParser) (w : World (application platform settings))
    (l : Label (application platform settings)) : Prop := isAccepted parser w l = true

/-- The bytes that are hashed for a request's key. -/
def Request.body : Request → Option Bytes
  | createRound _ _ body _ => some body
  | createDeposit _ _ body _ => some body
  | _ => none

/-- SHA-256 does not collide on the bodies of the run. -/
def NoCollision (w : World (application platform settings)) : Prop :=
  ∀ i j q q' body body', w.request i = some q → w.request j = some q' → q.body = some body → q'.body = some body' →
    hashRequestBody platform body = hashRequestBody platform body' → body = body'

variable {parser : BodyParser} {w : World (application platform settings)}

theorem accepted_keeping (w : World (application platform settings)) (l : Label (application platform settings))
    (accepted : Accepted parser w l) : Keeping w l := by
  cases l with
  | start i q => cases q <;> trivial
  | _ => trivial

theorem request_accepted (reached : Reachable (Accepted parser) w) {i : Nat} {q : Request}
    (asked : w.request i = some q) :
    q.isAccepted parser = true := by
  obtain ⟨before, -, accepted⟩ := asked_by reached asked
  exact accepted

section
variable {i : Nat} {q : Request} {userId : Id} {key requestHash : String} {ttlHours : Int} {work : Prog Dict}

theorem returned_within (reached : Reachable (Accepted parser) w) (asked : w.request i = some q)
    (code : q.code platform settings = Reply.body <$> runIdempotent userId key requestHash ttlHours work)
    {responseBody : Dict} (finished : w.Finished i (.ok (.body responseBody))) :
    work.Within (w.history i) responseBody ∨ ∃ row : IdempotencyKey,
      w.Ran i (.sql .idempotencyKeys (.get userId key)) (.ok [row]) ∧ row.requestHash = requestHash ∧
      row.status = .completed ∧ responseBody = row.responseBody.getD [] := by
  obtain ⟨q', asked', resumed⟩ := resumed_of_finished reached finished
  cases asked.symm.trans asked'
  change (q.code platform settings).Resumed _ _ at resumed
  rw [code] at resumed
  obtain ⟨first, rest, body, past, went, ended⟩ := resumed_bind_ok resumed
  obtain ⟨rfl, same⟩ := resumed_done ended
  cases same
  rw [List.append_nil] at past
  unfold World.Ran
  rw [past]
  exact runIdempotent_returned went

/-- Two calls with one key and one hash are the same request. -/
theorem same_request (reached : Reachable (Accepted parser) w) (apart : NoCollision w) {j : Nat} {q' : Request}
    (asked : w.request i = some q) (asked' : w.request j = some q')
    (call : q.call platform = some (userId, key, requestHash))
    (call' : q'.call platform = some (userId, key, requestHash)) : q' = q := by
  have accepted := request_accepted reached asked
  have accepted' := request_accepted reached asked'
  have collide := apart i j q q'
  rw [← call] at call'
  cases q with
  | createRound userId key body bets =>
    cases q' with
    | createRound userId' key' body' bets' =>
      simp only [Request.call, Option.some.injEq, Prod.mk.injEq] at call'
      obtain ⟨rfl, rfl, hash⟩ := call'
      obtain rfl := collide body body' asked asked' rfl rfl hash.symm
      cases (of_decide_eq_true accepted).symm.trans (of_decide_eq_true accepted')
      rfl
    | createDeposit userId' key' body' amountMinor =>
      simp only [Request.call, Option.some.injEq, Prod.mk.injEq] at call'
      obtain rfl := collide body body' asked asked' rfl rfl call'.2.2.symm
      exact (bodies_disjoint (of_decide_eq_true accepted) (of_decide_eq_true accepted')).elim
    | runIdempotent => cases accepted'
    | _ => cases call'
  | createDeposit userId key body amountMinor =>
    cases q' with
    | createRound userId' key' body' bets =>
      simp only [Request.call, Option.some.injEq, Prod.mk.injEq] at call'
      obtain rfl := collide body body' asked asked' rfl rfl call'.2.2.symm
      exact (bodies_disjoint (of_decide_eq_true accepted') (of_decide_eq_true accepted)).elim
    | createDeposit userId' key' body' amountMinor' =>
      simp only [Request.call, Option.some.injEq, Prod.mk.injEq] at call'
      obtain ⟨rfl, rfl, hash⟩ := call'
      obtain rfl := collide body body' asked asked' rfl rfl hash.symm
      cases (of_decide_eq_true accepted).symm.trans (of_decide_eq_true accepted')
      rfl
    | runIdempotent => cases accepted'
    | _ => cases call'
  | runIdempotent => cases accepted
  | _ => cases call

theorem produced_within (reached : Reachable (Accepted parser) w) (apart : NoCollision w) (asked : w.request i = some q)
    (code : q.code platform settings = Reply.body <$> runIdempotent userId key requestHash ttlHours work)
    (call : q.call platform = some (userId, key, requestHash)) (works : work.Only Works) {responseBody : Dict}
    (finished : w.Finished i (.ok (.body responseBody))) :
    ∃ j, w.request j = some q ∧ work.Within (w.history j) responseBody := by
  rcases returned_within reached asked code finished with within | ⟨row, got, rfl, completed, rfl⟩
  · exact ⟨i, asked, within⟩
  · obtain ⟨j, stored, response, ⟨q', asked', call'⟩, won⟩ := found_won accepted_keeping reached got completed
    obtain ⟨-, rowId, marked⟩ := (reachable_recorded accepted_keeping reached j).won stored won
    obtain rfl := same_request reached apart asked asked' call call'
    refine ⟨j, asked', ?_⟩
    rw [response]
    exact marked_within reached asked' code works marked

end

/-- Every body returned by `create_round` was produced by an execution of `place_bet`, and every body
returned by `deposit` by an execution of the deposit use case. -/
theorem no_replay_across_endpoints (reached : Reachable (Accepted parser) w) (apart : NoCollision w) {i : Nat}
    {responseBody : Dict} (finished : w.Finished i (.ok (.body responseBody))) :
    (∀ userId key body bets, w.request i = some (.createRound userId key body bets) → ∃ j result,
      w.request j = some (.createRound userId key body bets) ∧
      (placeBet platform settings userId key bets).Within (w.history j) result ∧
        responseBody = result.toDict platform) ∧
    ∀ userId key body amountMinor, w.request i = some (.createDeposit userId key body amountMinor) → ∃ j view,
      w.request j = some (.createDeposit userId key body amountMinor) ∧
      (deposit platform settings userId key amountMinor).Within (w.history j) view ∧ responseBody = view.toDict := by
  constructor
  · intro userId key body bets asked
    obtain ⟨j, asked', within⟩ := produced_within reached apart asked rfl rfl placeBet_works finished
    obtain ⟨result, placed, rfl⟩ := within_map within
    exact ⟨j, result, asked', placed, rfl⟩
  · intro userId key body amountMinor asked
    obtain ⟨j, asked', within⟩ := produced_within reached apart asked rfl rfl deposit_works finished
    obtain ⟨view, deposited, rfl⟩ := within_map within
    exact ⟨j, view, asked', deposited, rfl⟩

/-- `{"amount_minor":1000}` -/
def depositBody : Bytes := encode "\x7b\"amount_minor\":1000\x7d"

/-- A bet of 100 on number 7. -/
def roundBody : Bytes := encode
  "\x7b\"bets\":[\x7b\"bet_type\":\"straight\",\"selection\":\x7b\"numbers\":[7]\x7d,\"stake_minor\":100\x7d]\x7d"

def jsonInt : Json → Option Int
  | .int n => some n
  | _ => none

def jsonSelectionValue : Json → Option Roulette.SelectionValue
  | .int n => some (.int n)
  | .arr items => .list <$> items.mapM jsonInt
  | _ => none

def jsonSelection : Json → Option Roulette.Selection
  | .obj fields => do
    let entries ← fields.mapM fun field => (fun value => (field.1, value)) <$> jsonSelectionValue field.2
    if nodup : (entries.map Prod.fst).Nodup then some ⟨entries, nodup⟩ else none
  | _ => none

/-- A parser that knows two texts, and reads them as `json.loads` does. -/
def sampleParser : BodyParser where
  Value := Json
  loads := fun body =>
    if body = depositBody then some (.obj [("amount_minor", .int 1000)])
    else if body = roundBody then some (.obj [("bets", .arr [.obj [("bet_type", .str "straight"),
      ("selection", .obj [("numbers", .arr [.int 7])]), ("stake_minor", .int 100)]])])
    else none
  dict := fun
    | .obj fields => some fields
    | _ => none
  list := fun
    | .arr items => some items
    | _ => none
  int := jsonInt
  betType := fun
    | .str value => [Roulette.BetType.straight, .split, .street, .corner, .line, .dozen, .column, .red, .black, .odd,
        .even, .high, .low].find? fun betType => betType.value = value
    | _ => none
  selection := jsonSelection

/-- User 12 deposits with a key, and tries to bet with the same key. -/
def sharedKey : SampleWorld := World.initial.replay (isAccepted sampleParser) (sampleRegistration ++
  .start 1 (.createDeposit 12 "key-1" depositBody 1000) :: turns 1 2 30 15 ++
  .start 2 (.createRound 12 "key-1" roundBody sampleBets) :: turns 2 3 60 10)

def reusedKey : SampleWorld :=
  sharedKey.replay (isAccepted sampleParser) (.start 3 (.createDeposit 12 "key-1" depositBody 1000) :: turns 3 4 80 10)

/-- The last reply is the cached one of the first deposit. -/
theorem no_replay_across_endpoints_reusedKey :
    ∃ responseBody, reusedKey.Finished 3 (.ok (.body responseBody)) ∧ ∃ j view,
    reusedKey.request j = some (.createDeposit 12 "key-1" depositBody 1000) ∧
    (deposit samplePlatform sampleSettings 12 "key-1" 1000).Within (reusedKey.history j) view ∧
    responseBody = view.toDict := by
  have reached : Reachable (Accepted sampleParser) reusedKey :=
    .trans (run_replay (fun _ _ => id) _ _) (run_replay (fun _ _ => id) _ _)
  have fresh : sharedKey.request 3 = none := Option.isNone_iff_eq_none.mp (by decide +kernel)
  have asked : reusedKey.request 3 = some (.createDeposit 12 "key-1" depositBody 1000) := by
    unfold reusedKey
    exact replay_asked (by decide +kernel) fresh _
  have replied : (match reusedKey.proc 3 with
      | some (.done (.ok _)) => true
      | some (.done (.error _)) => false
      | some (.call _ _) => false
      | none => false) = true := by decide +kernel
  generalize reusedKey = w at *
  obtain ⟨reply, finished⟩ : ∃ reply, w.Finished 3 (.ok reply) := by
    unfold World.Finished
    cases running : w.proc 3 with
    | none => simp [running] at replied
    | some p => rcases p with (e | reply) | ⟨c, next⟩ <;> simp [running] at replied ⊢
  obtain ⟨q, asked', resumed⟩ := resumed_of_finished reached finished
  cases asked.symm.trans asked'
  obtain ⟨_, _, responseBody, -, -, ended⟩ := resumed_bind_ok resumed
  cases (resumed_done ended).2
  refine ⟨responseBody, finished, (no_replay_across_endpoints reached ?_ finished).2 12 "key-1" depositBody 1000 asked⟩
  exact fun _ _ _ _ _ _ _ _ _ _ same => hex_injective same

end TheClub
