import TheClub.Queues.Retry
import TheClub.ReadCommitted.Observed
import TheClub.Relays

/-!
The retries of one event. Whatever relays run, as long as none of their transactions is rolled
back, the sends of an event and the marks they leave are a course of attempts: a failure is
recorded under the next number, the event is not sent before the time recorded with it, and
nothing is sent after publication. The backoff itself starts at four seconds, not at two: the
caller has already counted the failure that `mark_failed` takes the exponent from.
-/

namespace TheClub
open ReadCommitted Program

variable {platform : Platform} {settings : Settings}

/-- The outbox rows of a process and the clock it goes by. -/
structure Retrying where
  rows : Dispatch := {}
  /-- What the process has last read from its clock, if it has sent nothing since. -/
  reading : Option Time := none

namespace Retrying

def readingAfter (g : Retrying) : (c : Cmd) → Except Error c.Ret → Option Time
  | .datetimeNow, .ok now => some now
  | .send _, _ => none
  | _, _ => g.reading

def next (g : Retrying) (c : Cmd) (r : Except Error c.Ret) : Retrying :=
  { rows := g.rows.next c r, reading := g.readingAfter c r }

end Retrying

/-- A lock looks for rows that are ready at the process's last reading, and a failure is recorded
one higher than its row says, with the backoff for that number. -/
def retryProtocol (platform : Platform) : Protocol signature where
  Ghost := Retrying
  start := {}
  allowed := fun g c => match c with
    | .sql .outbox (.lockReady _ now) => g.reading = some now
    | .sql .outbox (.markFailed _ attempts _ next) => ∃ row now, g.rows.current = some (row, false) ∧
        g.reading = some now ∧ attempts = row.attempts + 1 ∧
        next = now + seconds (OutboxRepository.backoffSeconds attempts)
    | _ => True
  possible := Answer platform
  next := Retrying.next
  died := fun g => { g with rows := g.rows.settle .undone }

theorem lockEach_retries {now : Time} {limit : Nat} {ids : List Id} {g : Retrying} (reading : g.reading = some now) :
    (OutboxRepository.lockEach now limit ids).Follows (retryProtocol platform)
      (Then fun g' rows => g'.rows.todo = g.rows.todo ++ rows) g := by
  induction ids generalizing limit g with
  | nil => cases limit <;> exact (List.append_nil _).symm
  | cons id ids ih =>
    cases limit with
    | zero => exact (List.append_nil _).symm
    | succ limit =>
      refine ⟨reading, fun r _ => ?_⟩
      rcases r with e | (_ | row)
      · trivial
      · exact ih reading
      · refine follows_then_bind (p := OutboxRepository.lockEach now limit ids) |>.mpr ((ih (g := { g with
          rows := { g.rows with
            locked := g.rows.locked ++ [id]
            todo := g.rows.todo ++ [row] } }) reading).then_mono ?_)
        intro g' rows todo
        change g'.rows.todo = g.rows.todo ++ row :: rows
        rw [todo, List.append_assoc]
        rfl

theorem relayRow_retries {row : OutboxEvent} {rest : List OutboxEvent} {g : Retrying}
    (todo : g.rows.todo = row :: rest) :
    (relayRow platform row).Follows (retryProtocol platform) (Then fun g' _ => g'.rows.todo = rest) g := by
  refine ⟨trivial, fun r answer => ?_⟩
  have sent : g.next (.send (row.message platform)) r = {
      rows := { g.rows with
        current := some (row, r.toBool)
        todo := rest
        appended := if r.toBool then g.rows.appended ++ [row] else g.rows.appended }
      reading := none } := by
    simp only [Retrying.next, Retrying.readingAfter, Dispatch.next_send todo]
  rcases r with e | u
  · obtain ⟨message, rfl⟩ := answer
    change Follows (retryProtocol platform) _ (OutboxRepository.markFailed row.id (row.attempts + 1) _)
      (g.next (.send (row.message platform)) (.error (.kafkaError message)))
    rw [sent]
    refine ⟨trivial, fun r _ => ?_⟩
    rcases r with e | now
    · trivial
    refine ⟨⟨row, now, rfl, rfl, rfl, rfl⟩, fun r _ => ?_⟩
    rcases r with e | u
    · trivial
    · rfl
  · change Follows (retryProtocol platform) _ (OutboxRepository.markPublished row.id)
      (g.next (.send (row.message platform)) (.ok u))
    rw [sent]
    refine ⟨trivial, fun r _ => ?_⟩
    rcases r with e | now
    · trivial
    refine ⟨trivial, fun r _ => ?_⟩
    rcases r with e | u
    · trivial
    · rfl

theorem relayRows_retries {rows : List OutboxEvent} {g : Retrying} (todo : g.rows.todo = rows) :
    (rows.forM (relayRow platform)).Follows (retryProtocol platform) (fun _ _ => True) g := by
  induction rows generalizing g with
  | nil => trivial
  | cons row rows ih =>
    change ((relayRow platform row).bind fun _ => rows.forM (relayRow platform)).Follows _ _ _
    refine follows_bind.mpr ((relayRow_retries todo).mono fun g r q => ?_)
    cases r with
    | ok u => exact ih q
    | error e => trivial

theorem unitOfWork_retries {α : Type} {tx : Tx} {p : Prog α} {g : Retrying}
    (body : p.Follows (retryProtocol platform) (fun _ _ => True) g) :
    (unitOfWork tx p).Follows (retryProtocol platform) (fun _ _ => True) g := by
  refine follows_bind.mpr (follows_attempt.mpr (body.mono fun g r _ => ?_))
  cases r with
  | ok a => exact ⟨trivial, fun r _ => by cases r <;> trivial⟩
  | error e => exact ⟨trivial, fun r _ => by cases r <;> trivial⟩

theorem relayOnce_retries {batchSize : Nat} {g : Retrying} (todo : g.rows.todo = []) :
    (relayOnce platform batchSize).Follows (retryProtocol platform) (fun _ _ => True) g := by
  refine unitOfWork_retries ⟨trivial, fun r _ => ?_⟩
  rcases r with e | now
  · trivial
  refine ⟨trivial, fun r _ => ?_⟩
  rcases r with e | ids
  · trivial
  have locks : (OutboxRepository.lockEach now batchSize ids).Follows (retryProtocol platform) _ { g with
    reading := some now } := lockEach_retries rfl
  refine follows_bind (p := OutboxRepository.lockEach now batchSize ids) |>.mpr (locks.mono fun g' r queue => ?_)
  cases r with
  | error e => trivial
  | ok rows =>
    have queue : g'.rows.todo = g.rows.todo ++ rows := queue
    rw [todo, List.nil_append] at queue
    rw [andThen_ok]
    split
    · trivial
    · refine follows_bind.mpr ((relayRows_retries queue).mono fun g r _ => ?_)
      cases r <;> trivial

/-- The commands of a process that locks no row and marks none as failed. -/
def Unretried (c : Cmd) : Prop :=
  (∀ id now, c ≠ .sql .outbox (.lockReady id now)) ∧
    ∀ id attempts text next, c ≠ .sql .outbox (.markFailed id attempts text next)

theorem Enqueues.unretried {c : Cmd} (h : Enqueues c) : Unretried c := by
  constructor
  · rintro id now rfl
    exact h
  · rintro id attempts text next rfl
    exact h

theorem Purges.unretried {c : Cmd} (h : Purges c) : Unretried c := by
  constructor
  · rintro id now rfl
    exact h
  · rintro id attempts text next rfl
    exact h

theorem Unretried.allowed {g : Retrying} {c : Cmd} (h : Unretried c) : (retryProtocol platform).allowed g c := by
  cases c with
  | sql f q =>
    cases f with
    | outbox =>
      cases q with
      | lockReady id now => exact (h.1 id now rfl).elim
      | markFailed id attempts text next => exact (h.2 id attempts text next rfl).elim
      | _ => trivial
    | _ => trivial
  | _ => trivial

theorem follows_unretried {α : Type} {p : Prog α} {g : Retrying} (h : p.Only Unretried) :
    p.Follows (retryProtocol platform) (fun _ _ => True) g :=
  h.always (fun _ _ => Unretried.allowed) g

variable {s : Database}

theorem deliveries_retries {ok : World (applicationFrom platform settings s) →
    Label (applicationFrom platform settings s) → Prop} (deliveries : ∀ w l, ok w l → Deliveries w l) :
    Disciplined (Y := applicationFrom platform settings s) ok (retryProtocol platform) fun _ _ _ => True where
  answers _ _ _ _ _ _ ran := exec_answer ran
  code w i q start := by
    have enqueueing : q.Enqueueing := deliveries w _ start
    have reply : ∀ {α : Type} {p : Prog α} {f : α → Reply},
        p.Follows (retryProtocol platform) (fun _ _ => True) {} →
        (f <$> p).Follows (retryProtocol platform) (fun _ _ => True) {} := by
      intro α p f h
      refine Program.follows_bind.mpr (h.mono fun g r _ => ?_)
      cases r <;> trivial
    cases q with
    | relayOnce n => exact reply (relayOnce_retries rfl)
    | purgeOnce h => exact reply (follows_unretried (purgeOnce_purges.mono fun _ => Purges.unretried))
    | _ => exact follows_unretried ((@code_enqueues platform settings _ enqueueing (by simp) (by simp)).mono
        fun _ => Enqueues.unretried)

/-- The rows of the two protocols are the same. -/
theorem rows_ghost (w : World (applicationFrom platform settings s)) :
    (fun i => (w.ghost (retryProtocol platform) i : Retrying).rows) = w.ghost (dispatchProtocol platform) := by
  funext i
  have same := w.ghost_history (retryProtocol platform) (i := i)
    (R := fun g h => (g : Retrying).rows = h.foldl (World.observe (dispatchProtocol platform)) {}) rfl ?_
  · exact same
  · intro g h e ih
    refine Eq.trans ?_ List.foldl_append.symm
    cases e with
    | ran c r => exact congrArg (fun d : Dispatch => d.next c r) ih
    | died => exact congrArg (fun d : Dispatch => d.settle .undone) ih

/-! ### The rows a relay works through -/

/-- The rows of the open transaction that have no mark yet. -/
def Dispatch.unmarked (d : Dispatch) : List OutboxEvent := d.current.toList.map Prod.fst ++ d.todo

theorem Dispatch.unmarked_batch {d : Dispatch} {row : OutboxEvent} (member : row ∈ d.unmarked) : row ∈ d.batch := by
  unfold Dispatch.batch
  rw [List.append_assoc]
  exact List.mem_append_right _ member

theorem Dispatch.current_nil {d : Dispatch} (batch : d.batch = []) : d.current = none := by
  unfold Dispatch.batch at batch
  simp only [List.append_eq_nil_iff, List.map_eq_nil_iff, Option.toList_eq_nil_iff] at batch
  exact batch.1.2

theorem Dispatch.unmarked_settle {d : Dispatch} {fate : Fate} (ends : fate ≠ .isOpen) :
    (d.settle fate).unmarked = [] := by
  cases fate with
  | isOpen => exact (ends rfl).elim
  | _ => rfl

theorem Retrying.reading_exec {s s' : Database} {env : Env} {i : Nat} {c : Cmd} {r : Except Error c.Ret}
    (ran : exec platform env i c s = some (r, s')) (g : Retrying) :
    ∀ time ∈ g.readingAfter c r, time ∈ g.reading ∨ time = env.now := by
  intro time read
  unfold Retrying.readingAfter at read
  split at read
  · obtain ⟨-, ran⟩ := exec_run ran
    cases ran
    exact Or.inr (Option.some.inj read).symm
  · cases read
  · exact Or.inl read

def Due (clock : Time) (row : OutboxEvent) : Prop :=
  row.publishedAt = none ∧ ∀ next ∈ row.nextAttemptAt, next ≤ clock

theorem Due.later {clock clock' : Time} {row : OutboxEvent} (due : Due clock row) (later : clock ≤ clock') :
    Due clock' row := ⟨due.1, fun next set => (due.2 next set).trans later⟩

/-- A row without a mark is pending as it was when it was locked, and was due then. -/
structure Queued (t : Table Id OutboxEvent) (clock : Time) (g : Nat → Retrying) : Prop where
  held : ∀ i, ∀ row ∈ (g i).rows.unmarked, (t.slot row.id).pending = some (i, some row)
  due : ∀ i, ∀ row ∈ (g i).rows.unmarked, Due clock row
  read : ∀ i, ∀ time ∈ (g i).reading, time ≤ clock

namespace Queued
variable {t t' : Table Id OutboxEvent} {clock clock' : Time} {g : Nat → Retrying} {i : Nat} {d : Retrying}

/-- A step of process `i`. -/
theorem frame (inv : Queued t clock g) (later : clock ≤ clock')
    (others : ∀ j k a, j ≠ i → (t.slot k).pending = some (j, some a) → (t'.slot k).pending = some (j, some a))
    (held : ∀ row ∈ d.rows.unmarked, (t'.slot row.id).pending = some (i, some row))
    (due : ∀ row ∈ d.rows.unmarked, Due clock' row)
    (read : ∀ time ∈ d.reading, time ≤ clock') : Queued t' clock' (Function.update g i d) := by
  refine ⟨fun j row member => ?_, fun j row member => ?_, fun j time reading => ?_⟩
  all_goals by_cases mine : j = i
  · subst mine
    exact held row (by simpa using member)
  · rw [Function.update_of_ne mine] at member
    exact others j _ row mine (inv.held j row member)
  · subst mine
    exact due row (by simpa using member)
  · rw [Function.update_of_ne mine] at member
    exact (inv.due j row member).later later
  · subst mine
    exact read time (by simpa using reading)
  · rw [Function.update_of_ne mine] at reading
    exact (inv.read j time reading).trans later

/-- The rows of the process stay as they are. -/
theorem same (inv : Queued t clock g) (later : clock ≤ clock')
    (pending : ∀ j k a, k ∈ t.keys → (t.slot k).pending = some (j, some a) → (t'.slot k).pending = some (j, some a))
    (unmarked : ∀ row ∈ d.rows.unmarked, row ∈ (g i).rows.unmarked) (read : ∀ time ∈ d.reading, time ≤ clock') :
    Queued t' clock' (Function.update g i d) := by
  have known : ∀ {j k a}, (t.slot k).pending = some (j, some a) → k ∈ t.keys := fun held =>
    Table.mem_keys_of_version (Or.inr ⟨_, held⟩)
  refine inv.frame later (fun j k a _ held => pending j k a (known held) held) (fun row member => ?_)
    (fun row member => ?_) read
  · have held := inv.held i row (unmarked row member)
    exact pending i row.id row (known held) held
  · exact (inv.due i row (unmarked row member)).later later

theorem query (inv : Queued t clock g) (handles : Handles t i (g i).rows) (keyed : t.Keyed OutboxEvent.id)
    {ctx : Context} {q : OutboxQuery} {a : q.Ret} (later : clock ≤ clock')
    (dispatch : (dispatchProtocol platform).allowed (g i).rows (.sql .outbox q))
    (retry : (retryProtocol platform).allowed (g i) (.sql .outbox q))
    (done : OutboxQuery.exec ctx i t q = .ok a t') :
    Queued t' clock' (Function.update g i ((g i).next (.sql .outbox q) (.ok a))) := by
  have moved : t.Moved OutboxEvent.id OutboxQuery.fixed i (OutboxQuery.inserted q a) t' := OutboxQuery.exec_moved done
  have others : ∀ j k a, j ≠ i → (t.slot k).pending = some (j, some a) → (t'.slot k).pending = some (j, some a) :=
    fun j k a ne => (moved.pending ne).mpr
  have read : ∀ time ∈ (g i).reading, time ≤ clock' := fun time reading => (inv.read i time reading).trans later
  have still : t' = t → ∀ j k a, k ∈ t.keys → (t.slot k).pending = some (j, some a) →
      (t'.slot k).pending = some (j, some a) := by
    rintro rfl j k a - held
    exact held
  -- a mark leaves the rows still to be sent alone
  have mark : ∀ {row : OutboxEvent} {sent : Bool} {v}, (g i).rows.current = some (row, sent) →
      (t' = t ∨ t' = t.write i row.id v) → Queued t' clock' (Function.update g i { g i with
        rows := { (g i).rows with
          done := (g i).rows.done ++ (g i).rows.current.toList
          current := none } }) := by
    intro row sent v current wrote
    have rest : ∀ row' ∈ (g i).rows.todo, row' ∈ (g i).rows.unmarked ∧ row'.id ≠ row.id := by
      intro row' member
      refine ⟨List.mem_append_right _ member, fun same => ?_⟩
      have distinct := handles.distinct
      rw [handles.locked, Dispatch.batch, current, List.map_append] at distinct
      refine (List.disjoint_of_nodup_append distinct) (a := row.id) (by simp) ?_
      exact same ▸ List.mem_map_of_mem member
    refine inv.frame later others (fun row' member => ?_) (fun row' member => ?_) read
    · obtain ⟨member, apart⟩ := rest row' (by simpa [Dispatch.unmarked] using member)
      rcases wrote with rfl | rfl
      · exact inv.held i row' member
      · rw [Table.slot_write_other apart]
        exact inv.held i row' member
    · obtain ⟨member, -⟩ := rest row' (by simpa [Dispatch.unmarked] using member)
      exact (inv.due i row' member).later later
  cases q with
  | insert topic key payload =>
    obtain ⟨-, fresh, rfl, -⟩ := insertRow_ok done
    refine inv.same later (fun j k b known held => ?_) (fun row member => member) read
    have apart : k ≠ ctx.id := fun same => fresh (same ▸ known)
    rw [Table.slot_insert_other apart]
    exact held
  | readyIds now =>
    simp only [OutboxQuery.exec] at done
    split at done
    · cases done
      exact inv.same later (still rfl) (fun row member => member) read
    · cases done
  | lockReady id now =>
    simp only [OutboxQuery.exec] at done
    split at done
    · cases done
      exact inv.same later (still rfl) (fun row member => member) read
    · cases done
      exact inv.same later (still rfl) (fun row member => member) read
    · rename_i row t'' wrote
      cases done
      obtain ⟨seen, ready, -, rfl⟩ := Table.updateRow_wrote wrote
      obtain rfl : row.id = id := keyed id row (Slot.version_view seen)
      simp only [OutboxQuery.ready, decide_eq_true_eq] at ready
      obtain ⟨written, current, marks, fresh⟩ := dispatch
      have away := (handles.lock seen ready.1 written current marks fresh).2.1
      have rows : ∀ row' ∈ (g i).rows.unmarked ++ [row], row' ∈ (g i).rows.unmarked ∨ row' = row :=
        fun row' member => (List.mem_append.mp member).imp_right List.mem_singleton.mp
      have queue : ({ (g i).rows with
          locked := (g i).rows.locked ++ [row.id]
          todo := (g i).rows.todo ++ [row] } : Dispatch).unmarked = (g i).rows.unmarked ++ [row] := by
        simp [Dispatch.unmarked]
      refine inv.frame later others (fun row' member => ?_) (fun row' member => ?_) read
      · rcases rows row' (queue ▸ member) with old | rfl
        · have held := inv.held i row' old
          rw [Table.slot_write_other fun same => away (Slot.holder_of_pending (same ▸ held))]
          exact held
        · rw [Table.slot_write_self (Table.mem_keys_of_view seen)]
          rfl
      · rcases rows row' (queue ▸ member) with old | rfl
        · exact (inv.due i row' old).later later
        · refine ⟨ready.1, fun next set => ?_⟩
          have past : next ≤ now := by simpa [Option.mem_def.mp set] using ready.2
          exact past.trans (read now retry)
  | markPublished id publishedAt =>
    obtain ⟨row, current, rfl⟩ := dispatch
    rcases changeRow_ok done with ⟨rfl, -⟩ | ⟨b, -, -, -, rfl⟩
    · exact mark (v := none) current (Or.inl rfl)
    · exact mark current (Or.inr rfl)
  | markFailed id attempts lastError nextAttemptAt =>
    obtain ⟨row, current, rfl⟩ := dispatch
    simp only [OutboxQuery.exec] at done
    split at done
    · cases done
    · rcases changeRow_ok done with ⟨rfl, -⟩ | ⟨b, -, -, -, rfl⟩
      · exact mark (v := none) current (Or.inl rfl)
      · exact mark current (Or.inr rfl)
  | purgeableIds olderThan =>
    cases done
    exact inv.same later (still rfl) (fun row member => member) read
  | purgeRow id olderThan =>
    simp only [OutboxQuery.exec] at done
    split at done
    · cases done
      exact inv.same later (still rfl) (fun row member => member) read
    · cases done
    · cases done
      have none : ∀ row ∈ (g i).rows.unmarked, False := by
        intro row member
        have batch := Dispatch.unmarked_batch member
        rw [handles.batch_nil dispatch] at batch
        cases batch
      exact inv.frame later others (fun row member => (none row member).elim)
        (fun row member => (none row member).elim) read

theorem step {s s' : Database} {env : Env} {c : Cmd} {r : Except Error c.Ret}
    (inv : Queued (s.tables .outbox) s.clock g) (handling : Handling (s.tables .outbox) fun i => (g i).rows)
    (dispatch : (dispatchProtocol platform).allowed (g i).rows c) (retry : (retryProtocol platform).allowed (g i) c)
    (ran : exec platform env i c s = some (r, s')) :
    Queued (s'.tables .outbox) s'.clock (Function.update g i ((g i).next c r)) := by
  obtain ⟨forward, clock⟩ := exec_clock ran
  have later : s.clock ≤ s'.clock := clock ▸ forward
  have read : ∀ time ∈ ((g i).next c r).reading, time ≤ s'.clock := by
    intro time reading
    rcases (g i).reading_exec ran time reading with old | rfl
    · exact (inv.read i time old).trans later
    · exact clock.ge
  rcases Dispatch.step_cases ran (g i).rows with
    ⟨m, rfl⟩ | ⟨q, a, same, done⟩ | ⟨-, next, table⟩ | ⟨-, ends, next, table⟩
  · obtain ⟨current, row, rest, todo, -⟩ := dispatch
    refine inv.same later (fun j k a _ held => ?_) (fun row' member => ?_) read
    · rw [(exec_send ran).1]
      exact held
    · simp only [Retrying.next, Dispatch.next_send todo] at member
      simpa [Dispatch.unmarked, current, todo] using member
  · cases same
    exact inv.query (handling.handles i) handling.keyed later dispatch retry done
  · refine inv.same later (fun j k a _ held => ?_) (fun row member => ?_) read
    · rw [table]
      exact held
    · simpa only [Retrying.next, next] using member
  · have none : ∀ row ∈ ((g i).next c r).rows.unmarked, False := by
      intro row member
      simp only [Retrying.next, next, Dispatch.unmarked_settle ends] at member
      cases member
    refine inv.frame later (fun j k a ne held => ?_) (fun row member => (none row member).elim)
      (fun row member => (none row member).elim) read
    have other : ((s.tables .outbox).slot k).holder ≠ some i := by
      rw [Slot.holder_of_pending held]
      simpa using ne
    rw [table, Table.slot_settle_other _ other]
    exact held

theorem died (inv : Queued t clock g) : Queued (t.settle i .undone) clock (Function.update g i { g i with
    rows := (g i).rows.settle .undone }) := by
  refine inv.frame le_rfl (fun j k a ne held => ?_) (fun row member => absurd member List.not_mem_nil)
    (fun row member => absurd member List.not_mem_nil) (inv.read i)
  have other : (t.slot k).holder ≠ some i := by
    rw [Slot.holder_of_pending held]
    simpa using ne
  rw [Table.slot_settle_other _ other]
  exact held

end Queued

/-! ### One event -/

/-- The row as the last statement on it has left it; a deletion counts once it is committed. -/
def latest (s : Slot OutboxEvent) : Option OutboxEvent :=
  match s.pending with
  | some (_, some a) => some a
  | _ => s.committed

theorem latest_of_pending {s : Slot OutboxEvent} {i : Nat} {a : OutboxEvent} (pending : s.pending = some (i, some a)) :
    latest s = some a := by
  unfold latest
  rw [pending]

theorem latest_of_deletion {s : Slot OutboxEvent} {i : Nat} (pending : s.pending = some (i, none)) :
    latest s = s.committed := by
  unfold latest
  rw [pending]

theorem latest_of_free {s : Slot OutboxEvent} (free : s.holder = none) : latest s = s.committed := by
  have none : s.pending = none := Option.map_eq_none_iff.mp free
  unfold latest
  rw [none]

/-- What a transaction sees of a row that it may write, unless it has deleted it, is the latest version. -/
theorem latest_of_view {s : Slot OutboxEvent} {i : Nat} {a : OutboxEvent} (seen : s.view i = some a) (free : s.Free i) :
    latest s = some a := by
  rcases free with none | held
  · rw [latest_of_free none, ← seen, Slot.view_of_not_holder (by simp [none])]
  · exact latest_of_pending (seen ▸ Slot.pending_of_holder held)

/-- The end of a transaction; if it is rolled back, it has only inserted and deleted. -/
theorem latest_settle {t : Table Id OutboxEvent} {i : Nat} {fate : Fate} {k : Id} {a : OutboxEvent}
    (undone : fate = .undone → ∀ b, (t.slot k).pending = some (i, some b) → (t.slot k).committed = none)
    (after : latest ((t.settle i fate).slot k) = some a) : latest (t.slot k) = some a := by
  by_cases held : (t.slot k).holder = some i
  · have pending := Slot.pending_of_holder held
    cases fate with
    | isOpen => exact after
    | applied =>
      have slot : (t.settle i .applied).slot k = { committed := (t.slot k).view i } := Slot.commit_of_holder held
      rw [slot] at after
      have seen : (t.slot k).view i = some a := after
      exact latest_of_pending (seen ▸ pending)
    | undone =>
      have slot : (t.settle i .undone).slot k = { committed := (t.slot k).committed } := Slot.rollback_of_holder held
      rw [slot] at after
      have committed : (t.slot k).committed = some a := after
      cases seen : (t.slot k).view i with
      | none => rw [latest_of_deletion (seen ▸ pending), committed]
      | some b => cases (undone rfl b (seen ▸ pending)).symm.trans committed
  · rwa [Table.slot_settle_other fate held] at after

/-- What an answered command at `time` means for event `k`. -/
def Retrying.entries (g : Retrying) (k : Id) (time : Time) : (c : Cmd) → Except Error c.Ret → List Retry.Entry
  | .send _, r =>
    match g.rows.todo with
    | row :: _ => if row.id = k then [.tried time r.toBool] else []
    | [] => []
  | .sql .outbox (.markFailed id attempts _ next), .ok _ =>
    if id = k then g.reading.toList.map fun now => .failed ⟨attempts, now, next⟩ else []
  | .sql .outbox (.markPublished id _), .ok _ => if id = k then [.finished] else []
  | _, _ => []

/-- The delay that `mark_failed` sets with the `n`-th failure. -/
def relayBackoff (n : Nat) : Int := seconds (OutboxRepository.backoffSeconds n)

/-- The row agrees with the course of attempts so far. -/
def Agrees (p : Retry.Progress) (a : OutboxEvent) : Prop :=
  a.attempts = p.attempts ∧ a.nextAttemptAt = p.next ∧ (a.publishedAt ≠ none ↔ p.phase = .finished)

structure Tracked (t : Table Id OutboxEvent) (clock : Time) (g : Nat → Retrying) (k : Id)
    (p : Retry.Progress) : Prop where
  fresh : k ∉ t.keys → p = Retry.start
  row : ∀ a, latest (t.slot k) = some a → Agrees p a
  trying : ∀ i row sent, (g i).rows.current = some (row, sent) → row.id = k →
    ∃ since, p.phase = .trying since sent ∧ since ≤ clock ∧ ∀ time ∈ (g i).reading, since ≤ time
  sender : ∀ since sent, p.phase = .trying since sent → ∃ i row, (g i).rows.current = some (row, sent) ∧ row.id = k

namespace Tracked
variable {t t' : Table Id OutboxEvent} {clock clock' : Time} {g : Nat → Retrying} {i : Nat} {d : Retrying} {k : Id}
  {p p' : Retry.Progress}

/-- A step of process `i` that is neither an attempt at event `k` nor the record of one. -/
theorem frame (inv : Tracked t clock g k p) (later : clock ≤ clock') (keys : k ∉ t'.keys → k ∉ t.keys)
    (row : ∀ a, latest (t'.slot k) = some a → Agrees p a)
    (current : ∀ row sent, row.id = k → (d.rows.current = some (row, sent) ↔ (g i).rows.current = some (row, sent)))
    (reading : ∀ time ∈ d.reading, time ∈ (g i).reading ∨ clock ≤ time) :
    Tracked t' clock' (Function.update g i d) k p := by
  refine ⟨fun absent => inv.fresh (keys absent), row, fun j row sent now own => ?_, fun since sent trying => ?_⟩
  · by_cases mine : j = i
    · subst mine
      rw [Function.update_self] at now ⊢
      obtain ⟨since, phase, begun, read⟩ := inv.trying j row sent ((current row sent own).mp now) own
      refine ⟨since, phase, begun.trans later, fun time member => ?_⟩
      exact (reading time member).elim (read time) begun.trans
    · rw [Function.update_of_ne mine] at now ⊢
      obtain ⟨since, phase, begun, read⟩ := inv.trying j row sent now own
      exact ⟨since, phase, begun.trans later, read⟩
  · obtain ⟨j, row, now, own⟩ := inv.sender since sent trying
    refine ⟨j, row, ?_, own⟩
    by_cases mine : j = i
    · subst mine
      rw [Function.update_self]
      exact (current row sent own).mpr now
    · rwa [Function.update_of_ne mine]

/-- A step of process `i` that is an attempt at its event or the record of one. -/
theorem own (handling : Handling t fun i => (g i).rows) {row : OutboxEvent} (batch : row ∈ (g i).rows.batch)
    (known : row.id ∈ t'.keys) (agrees : ∀ a, latest (t'.slot row.id) = some a → Agrees p' a)
    (trying : ∀ row' sent, d.rows.current = some (row', sent) →
      ∃ since, p'.phase = .trying since sent ∧ since ≤ clock' ∧ ∀ time ∈ d.reading, since ≤ time)
    (sender : ∀ since sent, p'.phase = .trying since sent → d.rows.current = some (row, sent)) :
    Tracked t' clock' (Function.update g i d) row.id p' := by
  refine ⟨fun absent => (absent known).elim, agrees, fun j row' sent now same => ?_, fun since sent phase => ?_⟩
  · by_cases mine : j = i
    · subst mine
      rw [Function.update_self] at now ⊢
      exact trying row' sent now
    · rw [Function.update_of_ne mine] at now
      have member : row' ∈ (g j).rows.batch := by simp [Dispatch.batch, now]
      exact (mine (handling.batches_apart member batch same)).elim
  · exact ⟨i, row, by rw [Function.update_self]; exact sender since sent phase, rfl⟩

/-- The row a relay sends next is not being tried by any relay and has not been published. -/
theorem waiting (inv : Tracked t clock g k p) (queued : Queued t clock g) (handling : Handling t fun i => (g i).rows)
    {row : OutboxEvent} {rest : List OutboxEvent} (current : (g i).rows.current = none)
    (todo : (g i).rows.todo = row :: rest)
    (own : row.id = k) : p.phase = .waiting ∧ Agrees p row := by
  subst own
  have unmarked : row ∈ (g i).rows.unmarked := by simp [Dispatch.unmarked, todo]
  have agrees := inv.row row (latest_of_pending (queued.held i row unmarked))
  refine ⟨?_, agrees⟩
  cases phase : p.phase with
  | waiting => rfl
  | trying since sent =>
    obtain ⟨j, row', now, same⟩ := inv.sender since sent phase
    have member : row' ∈ (g j).rows.batch := by simp [Dispatch.batch, now]
    obtain rfl := handling.batches_apart member (Dispatch.unmarked_batch unmarked) same
    cases current.symm.trans now
  | finished => exact (agrees.2.2.mpr phase (queued.due i row unmarked).1).elim

/-- The sample a mark is about: the row that process `i` has sent last. -/
theorem marking (inv : Tracked t clock g k p) (queued : Queued t clock g) {row : OutboxEvent} {sent : Bool}
    (current : (g i).rows.current = some (row, sent)) (own : row.id = k) :
    Agrees p row ∧ ∃ since, p.phase = .trying since sent ∧ ∀ time ∈ (g i).reading, since ≤ time := by
  subst own
  have unmarked : row ∈ (g i).rows.unmarked := by simp [Dispatch.unmarked, current]
  obtain ⟨since, phase, -, read⟩ := inv.trying i row sent current rfl
  exact ⟨inv.row row (latest_of_pending (queued.held i row unmarked)), since, phase, read⟩

theorem send (inv : Tracked t clock g k p) (queued : Queued t clock g) (handling : Handling t fun i => (g i).rows)
    {log : List Retry.Entry} (course : Retry.Course relayBackoff log p) {time : Time}
    (later : clock ≤ time) {m : Message}
    {r : Except Error Unit} (dispatch : (dispatchProtocol platform).allowed (g i).rows (.send m)) :
    ∃ p', Retry.Course relayBackoff (log ++ (g i).entries k time (.send m) r) p' ∧
      Tracked t time (Function.update g i ((g i).next (.send m) r)) k p' := by
  obtain ⟨current, row, rest, todo, -⟩ := dispatch
  have next : (g i).next (.send m) r = {
      rows := { (g i).rows with
        current := some (row, r.toBool)
        todo := rest
        appended := if r.toBool then (g i).rows.appended ++ [row] else (g i).rows.appended }
      reading := none } := by
    simp only [Retrying.next, Retrying.readingAfter, Dispatch.next_send todo]
  rw [next]
  simp only [Retrying.entries, todo]
  by_cases own : row.id = k
  · rw [if_pos own]
    obtain ⟨waiting, agrees⟩ := inv.waiting queued handling current todo own
    have unmarked : row ∈ (g i).rows.unmarked := by simp [Dispatch.unmarked, todo]
    have held := queued.held i row unmarked
    obtain ⟨unpublished, due⟩ := queued.due i row unmarked
    refine ⟨_, course.tried waiting (agrees.2.1 ▸ fun next set => (due next set).trans later), ?_⟩
    subst own
    refine Tracked.own handling (Dispatch.unmarked_batch unmarked)
      (Table.mem_keys_of_version (Or.inr ⟨_, held⟩)) (fun a now => ?_) (fun row' sent now => ?_)
        (fun since sent phase => ?_)
    · obtain rfl := Option.some.inj ((latest_of_pending held).symm.trans now)
      exact ⟨agrees.1, agrees.2.1, by simp [unpublished]⟩
    · cases now
      exact ⟨time, rfl, le_rfl, fun _ none => by cases none⟩
    · cases phase
      rfl
  · rw [if_neg own, List.append_nil]
    refine ⟨p, course, inv.frame later id inv.row (fun row' sent same => ?_) fun _ none => by cases none⟩
    simp only [current, Option.some.injEq, Prod.mk.injEq, reduceCtorEq, iff_false]
    rintro ⟨rfl, -⟩
    exact own same

/-- The statement of a mark, about event `k` or another one. -/
theorem mark (inv : Tracked t clock g k p) (queued : Queued t clock g) (handling : Handling t fun i => (g i).rows)
    (later : clock ≤ clock') {row b : OutboxEvent} {sent : Bool} (current : (g i).rows.current = some (row, sent))
    (wrote : t' = t.write i row.id (some b)) (agrees : row.id = k → Agrees p' b) (still : row.id ≠ k → p' = p)
    (ends : row.id = k → ∀ since sent, p'.phase ≠ .trying since sent) :
    Tracked t' clock' (Function.update g i { g i with
      rows := { (g i).rows with
        done := (g i).rows.done ++ (g i).rows.current.toList
        current := none } }) k p' := by
  have unmarked : row ∈ (g i).rows.unmarked := by simp [Dispatch.unmarked, current]
  have known := Table.mem_keys_of_version (Or.inr ⟨_, queued.held i row unmarked⟩)
  subst wrote
  by_cases own : row.id = k
  · subst own
    refine Tracked.own handling (Dispatch.unmarked_batch unmarked) known (fun a now => ?_)
      (fun _ _ none => by cases none)
      (fun since sent phase => (ends rfl since sent phase).elim)
    rw [Table.slot_write_self known] at now
    obtain rfl := Option.some.inj now
    exact agrees rfl
  · rw [still own]
    refine inv.frame later id (fun a now => ?_) (fun row' sent' same => ?_) fun _ read => Or.inl read
    · rw [Table.slot_write_other (Ne.symm own)] at now
      exact inv.row a now
    · simp only [current, Option.some.injEq, Prod.mk.injEq, reduceCtorEq, false_iff]
      rintro ⟨rfl, -⟩
      exact own same

theorem query (inv : Tracked t clock g k p) (queued : Queued t clock g) (handling : Handling t fun i => (g i).rows)
    {log : List Retry.Entry} (course : Retry.Course relayBackoff log p) {ctx : Context} {q : OutboxQuery} {a : q.Ret}
    (later : clock ≤ clock') (dispatch : (dispatchProtocol platform).allowed (g i).rows (.sql .outbox q))
    (retry : (retryProtocol platform).allowed (g i) (.sql .outbox q)) (done : OutboxQuery.exec ctx i t q = .ok a t') :
    ∃ p', Retry.Course relayBackoff (log ++ (g i).entries k clock' (.sql .outbox q) (.ok a)) p' ∧
      Tracked t' clock' (Function.update g i ((g i).next (.sql .outbox q) (.ok a))) k p' := by
  -- a statement that leaves the latest version of every row alone
  have quiet : ∀ {d : Retrying}, d.reading = (g i).reading → d.rows.current = (g i).rows.current →
      (k ∉ t'.keys → k ∉ t.keys) → (∀ a, latest (t'.slot k) = some a → Agrees p a) →
      ∃ p', Retry.Course relayBackoff (log ++ []) p' ∧ Tracked t' clock' (Function.update g i d) k p' := by
    intro d reading current keys row
    rw [List.append_nil]
    refine ⟨p, course, inv.frame later keys row (fun _ _ _ => by rw [current]) fun time read => Or.inl ?_⟩
    rwa [reading] at read
  have seen : ∀ {row : OutboxEvent} {sent : Bool} {b}, (g i).rows.current = some (row, sent) →
      (t.slot row.id).view i = some b → b = row := by
    intro row sent b current seen
    have held := queued.held i row (by simp [Dispatch.unmarked, current])
    rw [Slot.view_of_pending held] at seen
    exact (Option.some.inj seen).symm
  cases q with
  | insert topic key payload =>
    obtain ⟨rfl, fresh, rfl, -⟩ := insertRow_ok done
    refine quiet rfl rfl (fun absent present => absent (List.mem_append_left _ present)) fun a now => ?_
    by_cases here : k = ctx.id
    · subst here
      rw [Table.slot_insert_self] at now
      obtain rfl := Option.some.inj now
      rw [inv.fresh fresh]
      exact ⟨rfl, rfl, by simp [Retry.start]⟩
    · rw [Table.slot_insert_other here] at now
      exact inv.row a now
  | readyIds now =>
    simp only [OutboxQuery.exec] at done
    split at done
    · cases done
      exact quiet rfl rfl id inv.row
    · cases done
  | lockReady id now =>
    simp only [OutboxQuery.exec] at done
    split at done
    · cases done
      exact quiet rfl rfl (fun absent => absent) inv.row
    · cases done
      exact quiet rfl rfl (fun absent => absent) inv.row
    · rename_i row t'' wrote
      cases done
      obtain ⟨seen, -, free, rfl⟩ := Table.updateRow_wrote wrote
      refine quiet rfl rfl (fun absent => absent) fun a now => ?_
      by_cases here : k = id
      · subst here
        rw [Table.slot_write_self (Table.mem_keys_of_view seen)] at now
        obtain rfl := Option.some.inj now
        exact inv.row _ (latest_of_view seen free)
      · rw [Table.slot_write_other here] at now
        exact inv.row a now
  | markPublished id publishedAt =>
    obtain ⟨row, current, rfl⟩ := dispatch
    rcases changeRow_ok done with ⟨-, missed⟩ | ⟨b, sees, -, -, wrote⟩
    · have held := queued.held i row (by simp [Dispatch.unmarked, current])
      cases missed row (Slot.view_of_pending held)
    obtain rfl := seen current sees
    simp only [Retrying.entries]
    by_cases own : b.id = k
    · rw [if_pos own]
      obtain ⟨⟨attempts, next, -⟩, since, phase, -⟩ := inv.marking queued current own
      exact ⟨_, course.finished phase, inv.mark queued handling later current wrote
        (fun _ => ⟨attempts, next, by simp⟩) (fun other => (other own).elim) (fun _ _ _ => by simp)⟩
    · rw [if_neg own, List.append_nil]
      exact ⟨p, course, inv.mark queued handling later current wrote (fun same => (own same).elim) (fun _ => rfl)
        (fun same => (own same).elim)⟩
  | markFailed id attempts lastError nextAttemptAt =>
    obtain ⟨row, current, rfl⟩ := dispatch
    obtain ⟨row', now, current', reading, rfl, rfl⟩ := retry
    obtain rfl : row = row' := by
      cases current.symm.trans current'
      rfl
    simp only [OutboxQuery.exec] at done
    split at done
    · cases done
    rcases changeRow_ok done with ⟨-, missed⟩ | ⟨b, sees, -, -, wrote⟩
    · have held := queued.held i row (by simp [Dispatch.unmarked, current])
      cases missed row (Slot.view_of_pending held)
    obtain rfl := seen current sees
    have unpublished := (queued.due i b (by simp [Dispatch.unmarked, current])).1
    simp only [Retrying.entries, reading]
    by_cases own : b.id = k
    · rw [if_pos own]
      obtain ⟨⟨counted, -, -⟩, since, phase, before⟩ := inv.marking queued current own
      rw [counted] at wrote ⊢
      exact ⟨_, course.failed phase (before now reading), inv.mark queued handling later current wrote
        (fun _ => ⟨rfl, rfl, by simp [unpublished]⟩) (fun other => (other own).elim) (fun _ _ _ => by simp)⟩
    · rw [if_neg own, List.append_nil]
      exact ⟨p, course, inv.mark queued handling later current wrote (fun same => (own same).elim) (fun _ => rfl)
        (fun same => (own same).elim)⟩
  | purgeableIds olderThan =>
    cases done
    exact quiet rfl rfl id inv.row
  | purgeRow id olderThan =>
    simp only [OutboxQuery.exec] at done
    split at done
    · cases done
      exact quiet rfl rfl (fun absent => absent) inv.row
    · cases done
    · rename_i row t'' wrote
      cases done
      obtain ⟨seen, purgeable, free, rfl⟩ := Table.updateRow_wrote wrote
      obtain ⟨time, published, -⟩ := (Option.any_eq_true ..).mp purgeable
      obtain ⟨committed, -⟩ := (handling.handles i).purge dispatch seen (by simp [published])
      refine quiet rfl rfl (fun absent => absent) fun a now => ?_
      by_cases here : k = id
      · subst here
        rw [Table.slot_write_self (Table.mem_keys_of_view seen)] at now
        have same : latest ((t.slot k).write i none) = (t.slot k).committed := rfl
        rw [same, committed] at now
        obtain rfl := Option.some.inj now
        exact inv.row _ (latest_of_view seen free)
      · rw [Table.slot_write_other here] at now
        exact inv.row a now

/-- The end of a transaction; if it is rolled back, it has sent nothing. -/
theorem settle (inv : Tracked t clock g k p) (handling : Handling t fun i => (g i).rows) (later : clock ≤ clock')
    {fate : Fate} (ends : fate ≠ .isOpen) (current : (g i).rows.current = none)
    (undone : fate = .undone → (g i).rows.batch = []) (rows : d.rows = (g i).rows.settle fate)
    (reading : ∀ time ∈ d.reading, time ∈ (g i).reading ∨ clock ≤ time) :
    Tracked (t.settle i fate) clock' (Function.update g i d) k p := by
  refine inv.frame later (by simp) (fun a now => ?_) (fun row sent _ => ?_) reading
  · refine inv.row a (latest_settle (fun rolls b pending => ?_) now)
    have h := handling.handles i
    rcases h.holds k _ pending with held | ⟨e, member, rfl, -⟩ | ⟨gone, -⟩
    · rw [h.locked, undone rolls] at held
      cases held
    · exact (h.writes e member).2.1
    · cases gone
  · have none : d.rows.current = none := by
      rw [rows]
      cases fate with
      | isOpen => exact (ends rfl).elim
      | _ => rfl
    rw [none, current]

theorem step {s s' : Database} {env : Env} {c : Cmd} {r : Except Error c.Ret}
    (inv : Tracked (s.tables .outbox) s.clock g k p) (queued : Queued (s.tables .outbox) s.clock g)
    (handling : Handling (s.tables .outbox) fun i => (g i).rows) {log : List Retry.Entry}
    (course : Retry.Course relayBackoff log p) (dispatch : (dispatchProtocol platform).allowed (g i).rows c)
    (retry : (retryProtocol platform).allowed (g i) c) (kept : fate c r = .undone → (g i).rows.batch = [])
    (ran : exec platform env i c s = some (r, s')) :
    ∃ p', Retry.Course relayBackoff (log ++ (g i).entries k env.now c r) p' ∧
      Tracked (s'.tables .outbox) s'.clock (Function.update g i ((g i).next c r)) k p' := by
  obtain ⟨later, clock⟩ := exec_clock ran
  have reading : ∀ time ∈ ((g i).next c r).reading, time ∈ (g i).reading ∨ s.clock ≤ time :=
    fun time read => ((g i).reading_exec ran time read).imp_right fun same => later.trans same.ge
  rw [clock]
  rcases Dispatch.step_cases ran (g i).rows with ⟨m, rfl⟩ | ⟨q, a, same, done⟩ | ⟨quiet, next, table⟩ |
    ⟨quiet, ends, next, table⟩
  · rw [(exec_send ran).1]
    exact inv.send queued handling course later dispatch
  · cases same
    exact inv.query queued handling course later dispatch retry done
  · have silent : (g i).entries k env.now c r = [] := by
      unfold Retrying.entries
      split
      · exact (quiet _ rfl).elim
      · obtain ⟨row, current, -⟩ := dispatch
        cases current.symm.trans (congrArg Dispatch.current next).symm
      · obtain ⟨row, current, -⟩ := dispatch
        cases current.symm.trans (congrArg Dispatch.current next).symm
      · rfl
    rw [silent, List.append_nil, table]
    refine ⟨p, course, inv.frame later id inv.row (fun row sent _ => ?_) reading⟩
    change ((g i).rows.next c r).current = _ ↔ _
    rw [next]
  · have silent : (g i).entries k env.now c r = [] := by
      unfold Retrying.entries
      split
      · exact (quiet _ rfl).elim
      · exact (ends rfl).elim
      · exact (ends rfl).elim
      · rfl
    rw [silent, List.append_nil, table]
    refine ⟨p, course, inv.settle handling later ends ?_ kept next reading⟩
    cases h : fate c r with
    | isOpen => exact (ends h).elim
    | applied =>
      obtain ⟨tx, rfl⟩ := fate_applied h
      exact dispatch
    | undone =>
      exact Dispatch.current_nil (kept h)

end Tracked

/-! ### Runs without a relay rollback -/

/-- No relay transaction is rolled back. A send may raise, whether or not it has appended. -/
def Unbroken (w : World (applicationFrom platform settings s)) :
    Label (applicationFrom platform settings s) → Prop
  | .start _ q => Request.Enqueueing q
  | .run i env => isRelay w i → ∀ c r s', w.AboutTo i c → exec platform env i c w.state = some (r, s') →
    fate c r ≠ .undone
  | .kill i => ¬isRelay w i

/-- No relay has worked on the outbox yet. -/
def Unattempted (t : Table Id OutboxEvent) : Prop :=
  Unsent t ∧ ∀ k a, (t.slot k).committed = some a → a.attempts = 0 ∧ a.nextAttemptAt = none

theorem unbroken_deliveries {w : World (applicationFrom platform settings s)}
    {l : Label (applicationFrom platform settings s)} (h : Unbroken w l) : Deliveries w l := by
  cases l with
  | start i q => exact h
  | _ => trivial

/-- What a step means for event `k`. -/
def attempted (k : Id) (w : World (applicationFrom platform settings s)) :
    Label (applicationFrom platform settings s) → List Retry.Entry
  | .run i env => match w.proc i with
    | some (.call c _) => match exec platform env i c w.state with
      | some (r, _) => Retrying.entries (w.ghost (retryProtocol platform) i) k (env : Env).now c r
      | none => []
    | _ => []
  | .start _ _ => []
  | .kill _ => []

theorem reachable_queued (start : Handling (s.tables .outbox) fun _ => {})
    {w : World (applicationFrom platform settings s)} (reached : Reachable Unbroken w) :
    Queued (w.state.tables .outbox) w.state.clock (w.ghost (retryProtocol platform)) := by
  have deliveries : ∀ (w : World (applicationFrom platform settings s)) l, Unbroken w l → Deliveries w l :=
    fun _ _ => unbroken_deliveries
  refine (deliveries_retries deliveries).invariant (fun s g => Queued (s.tables .outbox) s.clock g) ?_ ?_ ?_ reached
  · exact ⟨fun i row member => absurd member List.not_mem_nil, fun i row member => absurd member List.not_mem_nil,
      fun i time none => by cases none⟩
  · intro w i env c r s' reached inv _ about allowed _ ran
    have handling := reachable_handling deliveries start reached
    rw [← rows_ghost w] at handling
    have dispatch := (deliveries_dispatch deliveries).allowed reached about
    rw [← rows_ghost w] at dispatch
    exact inv.step handling dispatch allowed ran
  · intro w i c _ inv _ _
    have table := Database.tables_settle i .undone w.state .outbox
    change Queued ((w.state.settle i .undone).tables .outbox) _ _
    rw [table]
    have clock : (w.state.settle i .undone).clock = w.state.clock := Database.clock_settle i .undone w.state
    exact clock.symm ▸ inv.died

theorem Unattempted.tracked {t : Table Id OutboxEvent} (unattempted : Unattempted t) (clock : Time) (k : Id) :
    Tracked t clock (fun _ => {}) k Retry.start where
  fresh _ := rfl
  row a now := by
    obtain ⟨unsent, zero⟩ := unattempted
    have committed : (t.slot k).committed = some a := by
      rwa [latest_of_free (Option.map_eq_none_iff.mpr (unsent k).1)] at now
    obtain ⟨attempts, next⟩ := zero k a committed
    exact ⟨attempts, next, by simp [((unsent k).2 a committed).2, Retry.start]⟩
  trying i row sent now := by cases now
  sender since sent trying := by cases trying

/-- Whatever has been noted about an event is a course of attempts, and its row agrees with it. -/
theorem observed_tracked (unattempted : Unattempted (s.tables .outbox)) {k : Id}
    {w : World (applicationFrom platform settings s)} {log : List Retry.Entry}
    (observed : Observed Unbroken (attempted k) w log) : ∃ p, Retry.Course relayBackoff log p ∧
      Tracked (w.state.tables .outbox) w.state.clock (w.ghost (retryProtocol platform)) k p := by
  have deliveries : ∀ (w : World (applicationFrom platform settings s)) l, Unbroken w l → Deliveries w l :=
    fun _ _ => unbroken_deliveries
  induction observed with
  | start => exact ⟨_, .start, unattempted.tracked s.clock k⟩
  | @step w w' l log earlier allowed moved ih =>
    obtain ⟨p, course, inv⟩ := ih
    have reached := earlier.reachable
    have handling := reachable_handling deliveries unattempted.1.handling reached
    have queued := reachable_queued unattempted.1.handling reached
    rcases World.step_cases moved with ⟨i, q, rfl, -, rfl⟩ | ⟨i, env, c, next, r, s', rfl, called, ran, rfl⟩ |
      ⟨i, c, rfl, about, rfl⟩
    · rw [attempted, List.append_nil]
      exact ⟨p, course, inv⟩
    · have about : w.AboutTo i c := ⟨next, called⟩
      have noted : attempted k w (.run i env) = Retrying.entries
          (w.ghost (retryProtocol platform) i) k env.now c r := by
        have ran : exec platform env i c w.state = some (r, s') := ran
        simp only [attempted, called, ran]
      rw [World.ghost_update, noted]
      have kept : fate c r = .undone → (w.ghost (dispatchProtocol platform) i : Dispatch).batch = [] := fun undone =>
        batch_of_quiet deliveries reached handling fun relay => allowed relay c r s' about ran undone
      have dispatch := (deliveries_dispatch deliveries).allowed reached about
      rw [← rows_ghost w] at handling dispatch kept
      exact inv.step queued handling course dispatch ((deliveries_retries deliveries).allowed reached about) kept ran
    · have batch := batch_of_quiet deliveries reached handling allowed
      rw [← rows_ghost w] at handling batch
      rw [World.ghost_update, attempted, List.append_nil]
      have table := Database.tables_settle i .undone w.state .outbox
      have clock : (w.state.settle i .undone).clock = w.state.clock := Database.clock_settle i .undone w.state
      refine ⟨p, course, ?_⟩
      change Tracked ((w.state.settle i .undone).tables .outbox) (w.state.settle i .undone).clock _ k p
      rw [table, clock]
      exact inv.settle handling le_rfl (by simp) (Dispatch.current_nil batch)
        (fun _ => batch) rfl fun _ read => Or.inl read

theorem relayBackoff_nonneg (n : Nat) : 0 ≤ relayBackoff n := by
  have power : (0 : Int) ≤ 2 ^ n := by positivity
  simp only [relayBackoff, seconds, OutboxRepository.backoffSeconds, OutboxRepository.BASE_BACKOFF_SECONDS,
    OutboxRepository.MAX_BACKOFF_SECONDS]
  omega

theorem relayBackoff_mono : Monotone relayBackoff := by
  intro n m le
  have power : (2 : Int) ^ n ≤ 2 ^ m := pow_le_pow_right₀ (by decide) le
  simp only [relayBackoff, seconds, OutboxRepository.backoffSeconds, OutboxRepository.BASE_BACKOFF_SECONDS,
    OutboxRepository.MAX_BACKOFF_SECONDS]
  omega

/-- The comment's 2, 4, 8, ... up to 60 seconds. -/
def documentedBackoff (n : Nat) : Int := seconds (min (2 ^ n) OutboxRepository.MAX_BACKOFF_SECONDS)

/-- The code is one doubling ahead until both are at the cap. -/
theorem relayBackoff_documented (n : Nat) : relayBackoff n = documentedBackoff n ↔ 6 ≤ n := by
  simp only [relayBackoff, documentedBackoff, seconds, OutboxRepository.backoffSeconds,
    OutboxRepository.BASE_BACKOFF_SECONDS, OutboxRepository.MAX_BACKOFF_SECONDS]
  constructor
  · intro same
    by_contra few
    have small : n < 6 := Nat.lt_of_not_le few
    interval_cases n <;> simp at same
  · intro many
    have power : (2 : Int) ^ 6 ≤ 2 ^ n := pow_le_pow_right₀ (by decide) many
    omega

/-- What relays do with event `k`: `log` lists its sends and the marks they left. -/
structure RetrySchedule (k : Id) (w : World (applicationFrom platform settings s)) (log : List Retry.Entry) : Prop where
  /-- A failed send is recorded before anything else happens to the event. -/
  records : log.IsChain fun e e' => (∃ time, e = .tried time false) ↔ ∃ f, e' = .failed f
  numbered : ∀ (n : Nat) f, (Retry.failures log)[n]? = some f → f.attempts = n + 1
  delay : ∀ f ∈ Retry.failures log, f.next = f.recorded + relayBackoff f.attempts
  documented : ∀ f ∈ Retry.failures log, f.next = f.recorded + documentedBackoff f.attempts ↔ 6 ≤ f.attempts
  /-- The row carries the last failure, and is ready exactly from the time it has set. -/
  row : ∀ a, latest ((w.state.tables .outbox).slot k) = some a → ∀ f, (Retry.failures log).getLast? = some f →
    a.attempts = f.attempts ∧ ∀ now, OutboxQuery.ready now a = true ↔ .finished ∉ log ∧ f.next ≤ now
  due : log.Pairwise fun e e' => ∀ f time succeeded, e = .failed f → e' = .tried time succeeded → f.next ≤ time
  grows : (Retry.failures log).Pairwise fun f f' => f.next - f.recorded ≤ f'.next - f'.recorded
  final : log.Pairwise fun e _ => e ≠ .finished

theorem relay_retries (unattempted : Unattempted (s.tables .outbox)) (k : Id)
    (w : World (applicationFrom platform settings s)) (log : List Retry.Entry)
    (observed : Observed Unbroken (attempted k) w log) : RetrySchedule k w log := by
  obtain ⟨p, course, inv⟩ := observed_tracked unattempted observed
  have delay : ∀ f ∈ Retry.failures log, f.next = f.recorded + relayBackoff f.attempts :=
    fun f member => (course.numbered_of_mem member).2
  refine ⟨course.records, fun n f nth => (course.numbered nth).1, delay, fun f member => ?_, fun a now f last => ?_,
    course.due relayBackoff_nonneg, course.delays relayBackoff_mono, course.finished_last⟩
  · rw [delay f member, add_right_inj]
    exact relayBackoff_documented f.attempts
  · obtain ⟨attempts, next, published⟩ := inv.row a now
    have number : f.attempts = p.attempts := by
      rw [List.getLast?_eq_getElem?] at last
      obtain ⟨number, -⟩ := course.numbered last
      have some : 0 < (Retry.failures log).length := by
        have inside := (List.getElem?_eq_some_iff.mp last).1
        omega
      rw [course.attempts]
      omega
    have set : a.nextAttemptAt = some f.next := by rw [next, course.next, last, Option.map_some]
    refine ⟨attempts.trans number.symm, fun time => ?_⟩
    rw [← course.finished_iff, ← published, not_not]
    simp [OutboxQuery.ready, set]

/-- No command that ends a transaction without applying it. -/
def isUnbroken (w : SampleRelays) : Label (applicationFrom samplePlatform sampleSettings sampleBacklog) → Bool
  | .start _ q => Request.isUseCase q
  | .run i env => match w.proc i with
    | some (.call c _) => match exec samplePlatform env i c w.state with
      | some (r, _) => fate c r ≠ .undone
      | none => true
    | _ => true
  | .kill _ => false

theorem isUnbroken_sound (w : SampleRelays) (l : Label (applicationFrom samplePlatform sampleSettings sampleBacklog))
    (h : isUnbroken w l = true) : Unbroken w l := by
  cases l with
  | start i q => cases q <;> trivial
  | run i env =>
    rintro - c r s' ⟨next, running⟩ ran
    simp only [isUnbroken, running, ran] at h
    exact of_decide_eq_true h
  | kill i => cases h

/-- A relay finds the broker down at time 1, another one is too early at time 4, and a third one succeeds at time 5. -/
def sampleOutage : List (Label (applicationFrom samplePlatform sampleSettings sampleBacklog)) :=
  [.start 1 (.relayOnce 10), .start 2 (.relayOnce 10), .start 3 (.relayOnce 10)] ++
  [(1, 1, [5]), (1, 1, [5]), (1, 1, [])].map (fun turn => .run turn.1 { now := seconds turn.2.1, order := turn.2.2 }) ++
  [.run 1 { now := seconds 1, fault := some .before }] ++
  [(1, 1, []), (1, 1, []), (1, 1, []), (2, 4, []), (2, 4, []), (2, 4, []), (3, 5, []), (3, 5, [5]),
    (3, 5, []), (3, 5, []),
    (3, 5, []), (3, 5, []), (3, 5, [])].map fun turn => .run turn.1 { now := seconds turn.2.1, order := turn.2.2 }

def sampleRetried : SampleRelays := World.initial.replay isUnbroken sampleOutage

def sampleAttempts : List Retry.Entry := [.tried (seconds 1) false, .failed ⟨1, seconds 1, seconds 5⟩,
  .tried (seconds 5) true, .finished]

theorem sampleRetried_observed : Observed Unbroken (attempted 5) sampleRetried sampleAttempts := by
  have noted : World.replayNoting isUnbroken (attempted 5) (World.initial : SampleRelays) sampleOutage =
      sampleAttempts := by
    decide +kernel
  rw [← noted]
  exact observed_replay isUnbroken_sound .start sampleOutage

theorem sampleBacklog_unattempted : Unattempted (sampleBacklog.tables .outbox) := by
  refine ⟨sampleBacklog_unsent, fun k a committed => ?_⟩
  change (sampleOutbox.slot k).committed = some a at committed
  by_cases here : k = 5
  · subst here
    cases committed
    exact ⟨rfl, rfl⟩
  · have free : sampleOutbox.slot k = {} := if_neg here
    rw [free] at committed
    cases committed

theorem relay_retries_sampleOutage : ∃ log, Observed Unbroken (attempted 5) sampleRetried log ∧
    log = sampleAttempts ∧ RetrySchedule 5 sampleRetried log :=
  ⟨_, sampleRetried_observed, rfl, relay_retries sampleBacklog_unattempted 5 _ _ sampleRetried_observed⟩

/-- The first failure is followed by four seconds, not by the two of the comment. -/
theorem relay_retries_fourSeconds : Unattempted (sampleBacklog.tables .outbox) ∧
    ∃ log, Observed Unbroken (attempted 5) sampleRetried log ∧ ∃ f ∈ Retry.failures log, f.attempts = 1 ∧
      f.next = f.recorded + seconds 4 ∧ f.next ≠ f.recorded + documentedBackoff f.attempts :=
  ⟨sampleBacklog_unattempted, _, sampleRetried_observed,
    ⟨1, seconds 1, seconds 5⟩, by decide, rfl, by decide, by decide⟩

end TheClub
