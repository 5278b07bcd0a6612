import TheClub.KeyRows

/-!
How often the work of a key is committed. A committed work leaves its row completed. As long as
`mark_completed` finds its row and only pending rows get deleted, the row stays, and the unique
constraint keeps a second one of its key out.
-/

namespace TheClub
open ReadCommitted Program

variable {platform : Platform} {settings : Settings}
  {ok : World (application platform settings) → Label (application platform settings) → Prop}
  {w w' : World (application platform settings)}

/-- The COMMIT of a work that the database has applied. -/
def commitsWork : Event signature → Bool
  | .ran (.commit .work) r => fate (.commit .work) r = .applied
  | _ => false

/-- How many works process `i` has committed. -/
def workCommits (w : World (application platform settings)) (i : Nat) : Nat := (w.history i).countP commitsWork

/-- `mark_completed` finds the row it completes, and a row that gets deleted is still pending. -/
def Guarded (w : World (application platform settings)) : Label (application platform settings) → Prop
  | .start _ q => q.Keeping
  | .run i _ => ∀ rowId,
    (∀ responseBody, w.AboutTo i (.sql .idempotencyKeys (.markCompleted rowId responseBody)) →
      ∃ row, ((w.state.tables .idempotencyKeys).slot rowId).view i = some row) ∧
    (w.AboutTo i (.sql .idempotencyKeys (.delete rowId)) → ∀ row,
      ((w.state.tables .idempotencyKeys).slot rowId).view i = some row → row.status = .pending)
  | .kill _ => True

theorem guarded_keeping (w : World (application platform settings)) (l : Label (application platform settings))
    (guarded : Guarded w l) : Keeping w l := by
  cases l with
  | start i q => exact guarded
  | _ => trivial

/-! ### A call commits its work once -/

theorem commitsWork_iff {e : Event signature} : commitsWork e = true ↔
    ∃ r, e = .ran (.commit .work) r ∧ fate (.commit .work) r = .applied := by
  constructor
  · intro h
    unfold commitsWork at h
    split at h
    · exact ⟨_, rfl, of_decide_eq_true h⟩
    · cases h
  · rintro ⟨r, rfl, applied⟩
    exact decide_eq_true applied

theorem workCommits_pos {i : Nat} :
    0 < workCommits w i ↔ ∃ r, w.Ran i (.commit .work) r ∧ fate (.commit .work) r = .applied := by
  unfold workCommits
  rw [List.countP_pos_iff]
  constructor
  · rintro ⟨e, member, commits⟩
    obtain ⟨r, rfl, applied⟩ := commitsWork_iff.mp commits
    exact ⟨r, member, applied⟩
  · rintro ⟨r, ran, applied⟩
    exact ⟨_, ran, commitsWork_iff.mpr ⟨r, rfl, applied⟩⟩

/-- A call has committed its work if and only if its row has been won. -/
theorem workCommits_won (keeping : ∀ w l, ok w l → Keeping w l) (reached : Reachable ok w) {i : Nat} :
    0 < workCommits w i ↔ (w.ghost (callProtocol platform) i : Call).won ≠ none := by
  rw [workCommits_pos]
  exact (reachable_recorded keeping reached i).committed.symm

theorem workCommits_le (keeping : ∀ w l, ok w l → Keeping w l) (reached : Reachable ok w) (i : Nat) :
    workCommits w i ≤ 1 := by
  induction reached with
  | refl => exact Nat.zero_le 1
  | @step w w' l before allowed moved ih =>
    have grows : ∀ (j : Nat) (e : Event signature), workCommits w i ≤ 1 →
        (i = j → commitsWork e = true → ¬0 < workCommits w i) →
        (Function.update w.history j (w.history j ++ [e]) i).countP commitsWork ≤ 1 := by
      intro j e few first
      by_cases same : i = j
      · subst same
        rw [Function.update_self, List.countP_append, List.countP_singleton]
        split
        · have none := first rfl ‹_›
          change workCommits w i + 1 ≤ 1
          omega
        · exact few
      · rwa [Function.update_of_ne same]
    rcases World.step_cases moved with
      ⟨j, q, -, -, rfl⟩ | ⟨j, env, c, next, r, s, rfl, called, ran, rfl⟩ | ⟨j, c, -, -, rfl⟩
    · exact ih
    · refine grows j _ ih ?_
      rintro rfl commits
      obtain ⟨r', same, -⟩ := commitsWork_iff.mp commits
      cases same
      obtain ⟨responseBody, stage⟩ := (disciplined_calls keeping).allowed before ⟨next, called⟩
      have none := ((reachable_recorded keeping before i).body responseBody (by rw [stage]; rfl)).1
      rw [workCommits_won keeping before]
      exact not_not.mpr none
    · exact grows j _ ih fun _ commits => by cases commits

/-! ### The rows of the committed works -/

/-- Committed works have their rows, completed and not locked. -/
structure Lasting (t : Table Id IdempotencyKey) (g : Nat → Call) : Prop where
  kept : ∀ i, (g i).won ≠ none → ∃ row a, (g i).held = some row ∧
    (t.slot row.id).committed = some a ∧ a.status = .completed
  marked : ∀ i responseBody, (g i).stage = .marked responseBody → ∃ row a, (g i).held = some row ∧
    (t.slot row.id).pending = some (i, some a) ∧ a.status = .completed
  still : ∀ k a, (t.slot k).committed = some a → a.status = .completed → (t.slot k).pending = none

namespace Lasting
variable {t t' : Table Id IdempotencyKey} {g : Nat → Call} {i : Nat} {g' : Call}

theorem empty : Lasting Table.empty fun _ => {} where
  kept _ won := (won rfl).elim
  marked _ _ stage := by cases stage
  still _ _ row := by cases row

theorem moves (inv : Lasting t g) (won : g'.won = (g i).won) (held : (g i).won ≠ none → g'.held = (g i).held)
    (committed : ∀ k, (t'.slot k).committed = (t.slot k).committed)
    (others : ∀ k j v, j ≠ i → (t.slot k).pending = some (j, v) → (t'.slot k).pending = some (j, v))
    (mine : ∀ responseBody, g'.stage = .marked responseBody → ∃ row a, g'.held = some row ∧
      (t'.slot row.id).pending = some (i, some a) ∧ a.status = .completed)
    (still : ∀ k a, (t.slot k).committed = some a → a.status = .completed → (t'.slot k).pending = none) :
    Lasting t' (Function.update g i g') := by
  refine ⟨fun j done => ?_, fun j responseBody stage => ?_, fun k a row => ?_⟩
  · by_cases same : j = i
    · subst same
      rw [Function.update_self] at done ⊢
      rw [won] at done
      obtain ⟨row, a, own, stored, completed⟩ := inv.kept j done
      exact ⟨row, a, (held done).trans own, (committed _).trans stored, completed⟩
    · rw [Function.update_of_ne same] at done ⊢
      obtain ⟨row, a, own, stored, completed⟩ := inv.kept j done
      exact ⟨row, a, own, (committed _).trans stored, completed⟩
  · by_cases same : j = i
    · subst same
      rw [Function.update_self] at stage ⊢
      exact mine responseBody stage
    · rw [Function.update_of_ne same] at stage ⊢
      obtain ⟨row, a, own, locked, completed⟩ := inv.marked j responseBody stage
      exact ⟨row, a, own, others _ j _ same locked, completed⟩
  · rw [committed] at row
    exact still k a row

theorem idle (inv : Lasting t g) (won : g'.won = (g i).won) (held : g'.held = (g i).held)
    (stage : ∀ responseBody, g'.stage = .marked responseBody → (g i).stage = .marked responseBody) :
    Lasting t (Function.update g i g') :=
  inv.moves won (fun _ => held) (fun _ => rfl) (fun _ _ _ _ => id)
    (fun responseBody marked => by rw [held]; exact inv.marked i responseBody (stage responseBody marked)) inv.still

theorem write (inv : Lasting t g) {k : Id} {v : Option IdempotencyKey} (member : k ∈ t.keys) (free : (t.slot k).Free i)
    (pending : ∀ a, (t.slot k).committed = some a → a.status ≠ .completed)
    (won : g'.won = (g i).won) (held : g'.held = (g i).held)
    (mine : ∀ responseBody, g'.stage = .marked responseBody → ∃ row a, g'.held = some row ∧ row.id = k ∧ v = some a ∧
      a.status = .completed) : Lasting (t.write i k v) (Function.update g i g') := by
  refine inv.moves won (fun _ => held) (fun k' => Table.committed_write ..) (fun k' j u ne locked => ?_)
    (fun body stage => ?_)
    fun k' a row done => ?_
  · by_cases here : k' = k
    · subst here
      rcases free with none | own
      · cases (Slot.holder_of_pending locked).symm.trans none
      · exact (ne (Option.some.inj ((Slot.holder_of_pending locked).symm.trans own))).elim
    · rwa [Table.slot_write_other here]
  · obtain ⟨row, a, own, rfl, rfl, completed⟩ := mine body stage
    exact ⟨row, a, own, by rw [Table.slot_write_self member, Slot.pending_write], completed⟩
  · by_cases here : k' = k
    · subst here
      exact (pending a row done).elim
    · rw [Table.slot_write_other here]
      exact inv.still k' a row done

theorem insert (inv : Lasting t g) {row : IdempotencyKey} (fresh : row.id ∉ t.keys) (start : g i = {}) :
    Lasting (t.insert i row.id row fresh) (Function.update g i { stage := .inserted, held := some row }) := by
  refine inv.moves (by rw [start]) (fun won => (won (by rw [start])).elim) (fun k => Table.committed_insert ..)
    (fun k j v ne locked => ?_) (fun body stage => (by cases stage)) fun k a stored done => ?_
  · have old : k ≠ row.id := by
      rintro rfl
      rw [t.slot_outside _ fresh] at locked
      cases locked
    rwa [Table.slot_insert_other old]
  · have old : k ≠ row.id := by
      rintro rfl
      rw [t.slot_outside _ fresh] at stored
      cases stored
    rw [Table.slot_insert_other old]
    exact inv.still k a stored done

theorem stays (inv : Lasting t g) {k : Id} {a : IdempotencyKey} (row : (t.slot k).committed = some a)
    (done : a.status = .completed) (fate : Fate) : (t.settle i fate).slot k = t.slot k :=
  Table.slot_settle_other fate (by rw [Slot.holder, inv.still k a row done]; simp)

theorem settle (inv : Lasting t g) (fate : Fate) (ends : fate ≠ .isOpen) (broken : Bool) :
    Lasting (t.settle i fate) (Function.update g i { (g i).settle fate with broken }) := by
  have closed : ∀ responseBody, ((g i).settle fate).stage ≠ .marked responseBody := by
    intro responseBody stage
    have body : ((g i).settle fate).stage.body = none := by
      cases fate with
      | isOpen => exact (ends rfl).elim
      | undone => exact CallStage.undone_body _
      | applied => exact CallStage.applied_body _
    rw [stage] at body
    cases body
  refine ⟨fun j done => ?_, fun j responseBody stage => ?_, fun k a row done => ?_⟩
  · by_cases same : j = i
    · subst same
      rw [Function.update_self] at done ⊢
      by_cases old : (g j).won = none
      · have applied : fate = .applied ∧ ∃ responseBody, (g j).stage = .marked responseBody := by
          cases fate with
          | isOpen => exact (ends rfl).elim
          | undone => exact (done old).elim
          | applied =>
            refine ⟨rfl, ?_⟩
            simp only [Call.settle] at done
            split at done
            · exact ⟨_, ‹_›⟩
            · exact (done old).elim
        obtain ⟨rfl, responseBody, stage⟩ := applied
        obtain ⟨row, a, own, locked, completed⟩ := inv.marked j responseBody stage
        refine ⟨row, a, own, ?_, completed⟩
        change ((t.slot row.id).commit j).committed = some a
        rw [Slot.committed_commit, Slot.view_of_pending locked]
      · obtain ⟨row, a, own, stored, completed⟩ := inv.kept j old
        refine ⟨row, a, ?_, by rw [inv.stays stored completed, stored], completed⟩
        cases fate <;> exact own
    · rw [Function.update_of_ne same] at done ⊢
      obtain ⟨row, a, own, stored, completed⟩ := inv.kept j done
      exact ⟨row, a, own, by rw [inv.stays stored completed, stored], completed⟩
  · by_cases same : j = i
    · subst same
      rw [Function.update_self] at stage
      exact (closed responseBody stage).elim
    · rw [Function.update_of_ne same] at stage ⊢
      obtain ⟨row, a, own, locked, completed⟩ := inv.marked j responseBody stage
      refine ⟨row, a, own, ?_, completed⟩
      rwa [Table.slot_settle_other fate (by rw [Slot.holder_of_pending locked]; simpa using same)]
  · rcases Table.committed_settle i fate k t with same | ⟨rfl, locked⟩
    · rw [same] at row
      rw [inv.stays row done]
      exact inv.still k a row done
    · change ((t.slot k).commit i).pending = none
      rw [Slot.commit_of_holder (Slot.holder_of_pending locked)]

theorem statement {env : Env} {s s' : Database} {q : IdempotencyQuery} {a : q.Ret}
    (ran : exec platform env i (.sql .idempotencyKeys q) s = some (.ok a, s'))
    (inv : Lasting (s.tables .idempotencyKeys) g)
    (rows : KeyRows (s.tables .idempotencyKeys) g)
    (allowed : (callProtocol platform).allowed (g i) (.sql .idempotencyKeys q))
    (finds : ∀ rowId responseBody, q = .markCompleted rowId responseBody →
      ∃ row, ((s.tables .idempotencyKeys).slot rowId).view i = some row)
    (deletes : ∀ rowId, q = .delete rowId → ∀ row, ((s.tables .idempotencyKeys).slot rowId).view i = some row →
      row.status = .pending) :
    Lasting (s'.tables .idempotencyKeys) (Function.update g i ((g i).after (.sql .idempotencyKeys q) (.ok a))) := by
  have done := exec_keys ran
  cases q with
  | get userId key =>
    have start : g i = {} := allowed
    obtain ⟨-, same⟩ := Outcome.ok.inj done
    rw [← same]
    rcases (g i).after_get userId key a with same | ⟨row, new⟩
    · rw [same]
      exact inv.idle rfl rfl fun _ => id
    · rw [new]
      exact inv.idle rfl rfl fun body stage => by cases stage
  | createPending userId key requestHash expiresAt =>
    have start : g i = {} := allowed
    obtain ⟨new, fresh, table, -⟩ := insertRow_ok done
    have after : (g i).after (.sql .idempotencyKeys (.createPending userId key requestHash expiresAt)) (.ok a) =
        { stage := .inserted, held := some a } := by
      rw [start]
      rfl
    have inserted : ∀ k (fresh : k ∉ (s.tables .idempotencyKeys).keys), k = a.id → Lasting
        ((s.tables .idempotencyKeys).insert i k a fresh)
            (Function.update g i { stage := .inserted, held := some a }) := by
      rintro k fresh rfl
      exact inv.insert fresh start
    rw [after, table, ← new]
    exact inserted _ fresh (by rw [new])
  | markCompleted rowId responseBody =>
    obtain ⟨working, fresh, row, held, own⟩ := allowed
    have after : (g i).after (.sql .idempotencyKeys (.markCompleted rowId responseBody)) (.ok a) =
        { g i with stage := .marked responseBody } := by simp [Call.after, working]
    rw [after]
    rcases changeRow_ok done with ⟨-, missed⟩ | ⟨b, seen, -, free, table⟩
    · obtain ⟨b, seen⟩ := finds rowId responseBody rfl
      cases missed b seen
    rw [table]
    refine inv.write (Table.mem_keys_of_view seen) free (fun b stored completed => ?_) rfl rfl fun body stage =>
      ⟨row, _, held, own, rfl, rfl⟩
    obtain ⟨j, row', held', id, -, won⟩ := rows.completed rowId b stored completed
    obtain rfl := rows.apart j i row' row held' held (id.trans own.symm)
    exact won fresh
  | delete rowId =>
    have stage : ∀ responseBody, ((g i).after (.sql .idempotencyKeys (.delete rowId)) (.ok a)).stage ≠
        .marked responseBody := by
      intro responseBody
      rcases allowed with ⟨row, stale, -⟩ | ⟨working, -⟩
      · simp [Call.after, stale]
      · simp [Call.after, working]
    have same : ((g i).after (.sql .idempotencyKeys (.delete rowId)) (.ok a)).won = (g i).won ∧
        ((g i).after (.sql .idempotencyKeys (.delete rowId)) (.ok a)).held = (g i).held := by
      rcases allowed with ⟨row, stale, -⟩ | ⟨working, -⟩
      · simp [Call.after, stale]
      · simp [Call.after, working]
    rcases changeRow_ok done with ⟨table, -⟩ | ⟨b, seen, -, free, table⟩
    · rw [table]
      exact inv.idle same.1 same.2 fun body marked => (stage body marked).elim
    · rw [table]
      refine inv.write (Table.mem_keys_of_view seen) free (fun b stored completed => ?_) same.1 same.2
        fun body marked => (stage body marked).elim
      have view : ((s.tables .idempotencyKeys).slot rowId).view i = some b := by
        rw [Slot.view_of_not_holder (by rw [Slot.holder, inv.still rowId b stored completed]; simp), stored]
      cases (deletes rowId rfl b view).symm.trans completed

theorem run {env : Env} {s s' : Database} {c : Cmd} {r : Except Error c.Ret}
    (ran : exec platform env i c s = some (r, s')) (inv : Lasting (s.tables .idempotencyKeys) g)
    (rows : KeyRows (s.tables .idempotencyKeys) g) (allowed : (callProtocol platform).allowed (g i) c)
    (finds : ∀ rowId responseBody, c = .sql .idempotencyKeys (.markCompleted rowId responseBody) →
      ∃ row, ((s.tables .idempotencyKeys).slot rowId).view i = some row)
    (deletes : ∀ rowId, c = .sql .idempotencyKeys (.delete rowId) → ∀ row,
      ((s.tables .idempotencyKeys).slot rowId).view i = some row → row.status = .pending) :
    Lasting (s'.tables .idempotencyKeys) (Function.update g i ((g i).next c r)) := by
  by_cases isOpen : fate c r = .isOpen
  · rw [Call.next_open isOpen]
    by_cases statement : ∃ q, c = .sql .idempotencyKeys q
    · obtain ⟨q, rfl⟩ := statement
      cases r with
      | ok a =>
        exact .statement ran inv rows allowed (fun _ _ same => finds _ _ (by rw [same]))
          (fun _ same => deletes _ (by rw [same]))
      | error e => cases isOpen
    · rw [exec_frame ran .idempotencyKeys fun q same => statement ⟨q, same⟩, isOpen]
      rcases Call.after_other (r := r) fun q same => statement ⟨q, same⟩ with same | ⟨row, now, -, looked, -, new⟩
      · rw [same]
        exact inv.idle rfl rfl fun _ => id
      · rw [new]
        exact inv.idle rfl rfl fun body stage => by cases stage
  · obtain ⟨broken, next⟩ := Call.next_ends (g := g i) isOpen
    rw [next, exec_ends ran isOpen .idempotencyKeys]
    exact inv.settle _ isOpen broken

end Lasting

theorem reachable_lasting (reached : Reachable Guarded w) :
    Lasting (w.state.tables .idempotencyKeys) (w.ghost (callProtocol platform)) := by
  refine (disciplined_calls guarded_keeping).invariant
    (fun s g => Lasting (s.tables .idempotencyKeys) g) .empty ?_ ?_ reached
  · intro w i env c r s' reached inv guarded about allowed _ ran
    refine inv.run ran (reachable_keyRows guarded_keeping reached) allowed ?_ ?_
    · rintro rowId responseBody rfl
      exact (guarded rowId).1 responseBody about
    · rintro rowId rfl
      exact (guarded rowId).2 about
  · intro w i c reached inv _ _
    exact inv.settle .undone (by simp) false

theorem completed_stays (reached : Reachable Guarded w) (run : Run Guarded w w') {k : Id} {row : IdempotencyKey}
    (stored : ((w.state.tables .idempotencyKeys).slot k).committed = some row) (completed : row.status = .completed) :
    ((w'.state.tables .idempotencyKeys).slot k).committed = some row := by
  refine run.keeps (J := fun w => ((w.state.tables .idempotencyKeys).slot k).committed = some row) reached stored ?_
  intro w l w' reached stored _ moved
  have inv := reachable_lasting reached
  rcases World.step_cases moved with ⟨i, q, -, -, rfl⟩ | ⟨i, env, c, next, r, s, -, -, ran, rfl⟩ | ⟨i, c, -, -, rfl⟩
  · exact stored
  · rcases exec_committed ran .idempotencyKeys k with same | ⟨-, locked⟩
    · exact same.trans stored
    · cases (inv.still k row stored completed).symm.trans locked
  · change (((w.state.settle i .undone).tables .idempotencyKeys).slot k).committed = some row
    rw [Database.tables_settle, inv.stays stored completed, stored]

theorem won_row (reached : Reachable Guarded w) {i : Nat} {userId : Id} {key requestHash : String}
    (calls : Calls w i userId key requestHash) (commits : 0 < workCommits w i) : ∃ k own row responseBody,
      (w.ghost (callProtocol platform) i : Call).held = some own ∧ own.id = k ∧
      ((w.state.tables .idempotencyKeys).slot k).committed = some row ∧ row.status = .completed ∧
      row.owner = (userId, key) ∧ row.requestHash = requestHash ∧ row.responseBody = some responseBody ∧
      (w.ghost (callProtocol platform) i : Call).won = some responseBody := by
  have won := (workCommits_won guarded_keeping reached).mp commits
  obtain ⟨row, a, held, stored, completed⟩ := (reachable_lasting reached).kept i won
  obtain ⟨userId', key', hash', expiresAt, ran⟩ := ((reachable_recorded guarded_keeping reached i).held row).mp held
  obtain ⟨known, owner, hash, q, asked, call⟩ := created_row guarded_keeping reached ran
  obtain ⟨q', asked', call'⟩ := calls
  cases asked.symm.trans asked'
  cases call.symm.trans call'
  obtain ⟨id, known'⟩ := known_of_version reached (Or.inl stored)
  obtain ⟨sameOwner, sameHash, -⟩ := known'.agree reached known id
  have rows := reachable_keyRows guarded_keeping reached
  obtain ⟨j, row', held', id', body, -⟩ := rows.completed row.id a stored completed
  obtain rfl := rows.apart j i row' row held' held id'
  obtain ⟨responseBody, some⟩ := Option.ne_none_iff_exists'.mp won
  exact ⟨row.id, row, a, responseBody, held, rfl, stored, completed, sameOwner.trans owner, sameHash.trans hash,
    body.symm.trans some, some⟩

/-- Two calls with one key that have both committed their work are the same call. -/
theorem one_execution (reached : Reachable Guarded w) {i j : Nat} {userId : Id} {key requestHash requestHash' : String}
    (calls : Calls w i userId key requestHash) (calls' : Calls w j userId key requestHash')
    (commits : 0 < workCommits w i)
    (commits' : 0 < workCommits w j) : i = j := by
  obtain ⟨k, own, row, body, held, id, stored, -, owner, -, -, -⟩ := won_row reached calls commits
  obtain ⟨k', own', row', body', held', id', stored', -, owner', -, -, -⟩ := won_row reached calls' commits'
  obtain rfl := (reachable_oneRow reached).committed stored stored' (congrArg some owner) (congrArg some owner')
  exact (reachable_keyRows guarded_keeping reached).apart i j own own' held held' (id.trans id'.symm)

/-- At most one call with a key ever commits its work, and that call commits it once, as long as every step
is guarded. -/
theorem at_most_once (reached : Reachable Guarded w) (userId : Id) (key : String) :
    (∀ i, workCommits w i ≤ 1) ∧ ∀ i j requestHash requestHash', Calls w i userId key requestHash →
      Calls w j userId key requestHash' → 0 < workCommits w i → 0 < workCommits w j → i = j :=
  ⟨workCommits_le guarded_keeping reached, fun _ _ _ _ calls calls' commits commits' =>
    one_execution reached calls calls' commits commits'⟩

theorem keeping_useCase {q : Request} (useCase : q.isUseCase = true) : q.Keeping := by
  cases q with
  | runIdempotent userId key requestHash ttlHours work => cases useCase
  | transaction work => cases useCase
  | _ => trivial

theorem calls_iff {i : Nat} {userId : Id} {key requestHash : String} : Calls w i userId key requestHash ↔
    (w.request i).bind (Request.call platform) = some (userId, key, requestHash) := by
  simp [Calls, Option.bind_eq_some_iff]

/-- A check of `Guarded` for the runs of the use cases. -/
def isGuarded (w : World (application platform settings)) : Label (application platform settings) → Bool
  | .start _ q => q.isUseCase
  | .run i _ => match w.proc i with
    | some (.call (.sql .idempotencyKeys (.markCompleted rowId _)) _) =>
      (((w.state.tables .idempotencyKeys).slot rowId).view i).isSome
    | some (.call (.sql .idempotencyKeys (.delete rowId)) _) =>
      (((w.state.tables .idempotencyKeys).slot rowId).view i).all fun row => row.status = .pending
    | _ => true
  | .kill _ => true

theorem isGuarded_sound (w : World (application platform settings)) (l : Label (application platform settings))
    (checked : isGuarded w l = true) : Guarded w l := by
  cases l with
  | start i q => exact keeping_useCase checked
  | run i env =>
    refine fun rowId => ⟨?_, ?_⟩
    · rintro responseBody ⟨next, running⟩
      simp only [isGuarded, running] at checked
      exact Option.isSome_iff_exists.mp checked
    · rintro ⟨next, running⟩ row seen
      simp only [isGuarded, running, seen, Option.all_some] at checked
      exact of_decide_eq_true checked
  | kill i => trivial

/-- The first call reserves the key, a second one finds it in progress, and a third one replays the response. -/
def sharedReservation : SampleWorld := World.initial.replay isGuarded (sampleRegistration ++
  .start 1 (.createDeposit 12 "deposit-1" [49] 1000) :: turns 1 2 30 3 ++
  .start 2 (.createDeposit 12 "deposit-1" [49] 1000) :: turns 2 3 60 9 ++ turns 1 4 100 15 ++
  .start 3 (.createDeposit 12 "deposit-1" [49] 1000) :: turns 3 5 130 9)

theorem at_most_once_sharedReservation : ((∀ i, workCommits sharedReservation i ≤ 1) ∧ ∀ i j requestHash requestHash',
    Calls sharedReservation i 12 "deposit-1" requestHash → Calls sharedReservation j 12 "deposit-1" requestHash' →
      0 < workCommits sharedReservation i → 0 < workCommits sharedReservation j → i = j) ∧
    workCommits sharedReservation 1 = 1 :=
  ⟨at_most_once (run_replay isGuarded_sound _ _) 12 "deposit-1", by decide +kernel⟩

/-- The owner of the reservation takes more than 30 seconds, and a second call reclaims its row. -/
def slowOwner : SampleWorld := sampleRun (sampleRegistration ++
  .start 1 (.createDeposit 12 "deposit-1" [49] 1000) :: turns 1 2 30 3 ++
  .start 2 (.createDeposit 12 "deposit-1" [49] 1000) :: turns 2 (seconds 40) 60 30 ++ turns 1 (seconds 41) 100 15)

/-- Both calls commit their deposit: nothing looks at how many rows `mark_completed` has changed. -/
theorem slow_owner_deposits_twice : Reachable UseCases slowOwner ∧
    Calls slowOwner 1 12 "deposit-1" (hashRequestBody samplePlatform [49]) ∧
    Calls slowOwner 2 12 "deposit-1" (hashRequestBody samplePlatform [49]) ∧
    workCommits slowOwner 1 = 1 ∧ workCommits slowOwner 2 = 1 ∧
    (slowOwner.state.tables .wallets).committedRows.map (fun row => row.balanceMinor) = [2000] := by
  refine ⟨sampleRun_reachable _, calls_iff.mpr ?_, calls_iff.mpr ?_, ?_, ?_, ?_⟩ <;> decide +kernel

end TheClub
