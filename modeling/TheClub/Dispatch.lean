import TheClub.Footprints

/-!
What one process does to the outbox and the Kafka log. Business transactions only insert events.
A relay locks each row of its batch once, sends the rows in the order in which it locked them,
and marks every row right after its send, as published exactly if the send returned normally.
-/

namespace TheClub
open ReadCommitted Program

/-- The outbox rows of a process. All but `enqueued` and `appended` are about its open transaction. -/
structure Dispatch where
  written : List OutboxEvent := []
  /-- The events of its committed transactions. -/
  enqueued : List OutboxEvent := []
  locked : List Id := []
  /-- The rows already marked, and whether their send returned normally. -/
  done : List (OutboxEvent × Bool) := []
  /-- The row that has been sent last and is not marked yet. -/
  current : Option (OutboxEvent × Bool) := none
  todo : List OutboxEvent := []
  /-- The rows whose send has returned normally, in all its transactions. -/
  appended : List OutboxEvent := []

namespace Dispatch

/-- The rows that the open transaction has locked, in order. -/
def batch (g : Dispatch) : List OutboxEvent := g.done.map Prod.fst ++ g.current.toList.map Prod.fst ++ g.todo

/-- The end of a transaction, if `fate` is one. -/
def settle (g : Dispatch) : Fate → Dispatch
  | .isOpen => g
  | .undone => { g with written := [], locked := [], done := [], current := none, todo := [] }
  | .applied => { g with
      written := []
      enqueued := g.enqueued ++ g.written
      locked := []
      done := []
      current := none
      todo := [] }

/-- After an answered command that leaves the transaction open. -/
def after (g : Dispatch) : (c : Cmd) → Except Error c.Ret → Dispatch
  | .sql .outbox (.insert _ _ _), .ok row => { g with written := g.written ++ [row] }
  | .sql .outbox (.lockReady id _), .ok (some row) => { g with locked := g.locked ++ [id], todo := g.todo ++ [row] }
  | .send _, .ok _ =>
    match g.todo with
    | row :: rest => { g with current := some (row, true), todo := rest, appended := g.appended ++ [row] }
    | [] => g
  | .send _, .error _ =>
    match g.todo with
    | row :: rest => { g with current := some (row, false), todo := rest }
    | [] => g
  | .sql .outbox (.markPublished _ _), .ok _ => { g with done := g.done ++ g.current.toList, current := none }
  | .sql .outbox (.markFailed _ _ _ _), .ok _ => { g with done := g.done ++ g.current.toList, current := none }
  | _, _ => g

def next (g : Dispatch) (c : Cmd) (r : Except Error c.Ret) : Dispatch :=
  match fate c r with
  | .isOpen => g.after c r
  | ends => g.settle ends

end Dispatch

/-- A lookup returns no row twice. -/
def FoundOnce : (c : Cmd) → Except Error c.Ret → Prop
  | .sql .outbox (.readyIds _), .ok ids => ids.Nodup
  | _, _ => True

def dispatchProtocol (platform : Platform) : Protocol signature where
  Ghost := Dispatch
  start := {}
  allowed := fun g c => match c with
    | .sql .outbox (.insert _ _ _) => g.locked = []
    | .sql .outbox (.lockReady id _) => g.written = [] ∧ g.current = none ∧ g.done = [] ∧ id ∉ g.locked
    | .sql .outbox (.markPublished id _) => ∃ row, g.current = some (row, true) ∧ row.id = id
    | .sql .outbox (.markFailed id _ _ _) => ∃ row, g.current = some (row, false) ∧ row.id = id
    | .sql .outbox (.purgeRow _ _) => g.locked = []
    | .send message => g.current = none ∧ ∃ row rest, g.todo = row :: rest ∧ message = row.message platform
    | .commit _ => g.current = none
    | _ => True
  possible := fun c r => Answer platform c r ∧ FoundOnce c r
  next := Dispatch.next
  died := fun g => g.settle .undone

variable {platform : Platform} {settings : Settings}

theorem exec_foundOnce {env : Env} {i : Nat} {c : Cmd} {s s' : Database} {r : Except Error c.Ret}
    (ran : exec platform env i c s = some (r, s')) : FoundOnce c r := by
  unfold FoundOnce
  split
  · rename_i now ids
    rcases exec_sql ran with ⟨e, same, -⟩ | ⟨found, same, done⟩
    · cases same
    · cases same
      simp only [Query.exec, OutboxQuery.exec] at done
      split at done
      · rename_i sorted
        injection done with same table
        rw [← same]
        exact sorted.1.nodup_iff.mpr ((s.tables .outbox).keys_nodup.filter _)
      · cases done
  · trivial

/-! ### Business transactions -/

/-- The commands of a process that uses the outbox through `enqueue_event` only. -/
def Enqueues : Cmd → Prop
  | .sql .outbox (.insert _ _ _) => True
  | .sql .outbox _ => False
  | .send _ => False
  | _ => True

/-- A process that has locked no row and has sent nothing. -/
def Dispatch.Idle (g : Dispatch) : Prop := g.locked = [] ∧ g.done = [] ∧ g.current = none ∧ g.todo = []

theorem Uses.enqueues {L : List TableName} {c : Cmd} (h : Uses L c) : Enqueues c := by
  cases c with
  | sql f q =>
    cases f with
    | outbox => cases q <;> trivial
    | _ => trivial
  | send message => exact h.elim
  | _ => trivial

theorem idle_settle {g : Dispatch} {fate : Fate} (ends : fate ≠ .isOpen) : (g.settle fate).Idle := by
  cases fate with
  | isOpen => exact (ends rfl).elim
  | _ => exact ⟨rfl, rfl, rfl, rfl⟩

theorem idle_enqueues {g : Dispatch} {c : Cmd} (idle : g.Idle) (enqueues : Enqueues c) :
    (dispatchProtocol platform).allowed g c ∧
      ∀ r, (dispatchProtocol platform).possible c r → ((dispatchProtocol platform).next g c r : Dispatch).Idle := by
  constructor
  · cases c with
    | sql f q =>
      cases f with
      | outbox => cases q <;> first | exact idle.1 | exact enqueues.elim
      | _ => trivial
    | commit tx => exact idle.2.2.1
    | send message => exact enqueues.elim
    | _ => trivial
  · intro r _
    change (g.next c r).Idle
    unfold Dispatch.next
    split
    · unfold Dispatch.after
      split <;> first | exact idle | exact enqueues.elim
    · exact idle_settle ‹_›

theorem follows_enqueues {α : Type} {p : Prog α} {g : Dispatch} (h : p.Only Enqueues) (idle : g.Idle) :
    p.Follows (dispatchProtocol platform) (fun g _ => g.Idle) g :=
  h.follows idle fun _ _ idle enqueues => idle_enqueues idle enqueues

theorem reserves_enqueues {userId : Id} {key requestHash : String} : Reserves Enqueues userId key requestHash :=
  .of_statement (fun _ => trivial) trivial trivial fun _ => trivial

/-- The work that a request brings along uses the outbox through `enqueue_event` only. -/
def Request.Enqueueing : Request → Prop
  | .runIdempotent _ _ _ _ work => work.Only Enqueues
  | .transaction work => work.Only Enqueues
  | _ => True

theorem code_enqueues {q : Request} (enqueueing : q.Enqueueing) (notRelay : ∀ n, q ≠ .relayOnce n)
    (notPurge : ∀ h, q ≠ .purgeOnce h) : (q.code platform settings).Only Enqueues := by
  refine code_only (fun _ used _ => used.enqueues) trivial trivial (fun outbox => ?_)
    (fun _ _ _ _ => reserves_enqueues) ?_ ?_
  · cases q with
    | relayOnce n => exact (notRelay n rfl).elim
    | purgeOnce h => exact (notPurge h rfl).elim
    | _ => cases outbox
  · rintro userId key requestHash ttlHours work rfl
    exact enqueueing
  · rintro work rfl
    exact enqueueing

/-! ### The relay and the purge -/

theorem purgeEach_follows {olderThan : Time} {ids : List Id} {g : Dispatch} (idle : g.Idle) :
    (OutboxRepository.purgeEach olderThan ids).Follows (dispatchProtocol platform) (Then fun g _ => g.Idle) g := by
  induction ids generalizing g with
  | nil => exact idle
  | cons id ids ih =>
    refine ⟨idle.1, fun r _ => ?_⟩
    rcases r with e | deleted
    · trivial
    · exact follows_then_bind (p := OutboxRepository.purgeEach olderThan ids) |>.mpr (ih idle)

/-- A unit of work after which nothing is locked, whatever becomes of its commit. -/
theorem unitOfWork_dispatch {α : Type} {tx : Tx} {p : Prog α} {g : Dispatch}
    (body : p.Follows (dispatchProtocol platform) (Then fun g _ => g.current = none) g) :
    (unitOfWork tx p).Follows (dispatchProtocol platform) (fun g _ => g.Idle) g := by
  have ended : ∀ (g : Dispatch) c (r : Except Error c.Ret), fate c r ≠ .isOpen → (g.next c r).Idle := by
    intro g c r ends
    unfold Dispatch.next
    split
    · exact (ends ‹_›).elim
    · exact idle_settle ‹_›
  refine follows_bind.mpr (follows_attempt.mpr (body.mono fun g r done => ?_))
  cases r with
  | ok a =>
    refine ⟨done, fun r _ => ?_⟩
    have idle : (g.next (.commit tx) r).Idle := ended g (.commit tx) r (fate_commit_ends tx r)
    cases r <;> exact idle
  | error e =>
    refine ⟨trivial, fun r _ => ?_⟩
    have idle : (g.next .rollback r).Idle := ended g .rollback r (by simp [fate])
    cases r <;> exact idle

theorem purgeOnce_follows {retentionHours : Int} {g : Dispatch} (idle : g.Idle) :
    (purgeOnce retentionHours).Follows (dispatchProtocol platform) (fun g _ => g.Idle) g := by
  refine ⟨trivial, fun r answer => ?_⟩
  rcases r with e | now
  · exact answer.1.elim
  refine unitOfWork_dispatch ⟨trivial, fun r _ => ?_⟩
  rcases r with e | ids
  · trivial
  · exact (purgeEach_follows idle).then_mono fun g _ idle => idle.2.2.1

theorem lockEach_follows {now : Time} {limit : Nat} {ids : List Id} {g : Dispatch} (written : g.written = [])
    (done : g.done = []) (current : g.current = none) (distinct : ids.Nodup) (others : ∀ id ∈ ids, id ∉ g.locked) :
    (OutboxRepository.lockEach now limit ids).Follows (dispatchProtocol platform) (Then fun g' rows =>
      g'.current = none ∧ g'.todo = g.todo ++ rows) g := by
  induction ids generalizing limit g with
  | nil => cases limit <;> exact ⟨current, (List.append_nil _).symm⟩
  | cons id ids ih =>
    cases limit with
    | zero => exact ⟨current, (List.append_nil _).symm⟩
    | succ limit =>
      obtain ⟨fresh, distinct⟩ := List.nodup_cons.mp distinct
      refine ⟨⟨written, current, done, others id List.mem_cons_self⟩, fun r _ => ?_⟩
      rcases r with e | (_ | row)
      · trivial
      · exact ih written done current distinct fun id' member => others id' (List.mem_cons_of_mem _ member)
      · refine follows_then_bind (p := OutboxRepository.lockEach now limit ids) |>.mpr ((ih (g := { g with
          locked := g.locked ++ [id]
          todo := g.todo ++ [row] }) written done current distinct ?_).then_mono ?_)
        · intro id' member both
          rcases List.mem_append.mp both with old | same
          · exact others id' (List.mem_cons_of_mem _ member) old
          · exact fresh (List.mem_singleton.mp same ▸ member)
        · rintro g' rows ⟨current, todo⟩
          exact ⟨current, by rw [todo, List.append_assoc]; rfl⟩

theorem relayRow_follows {row : OutboxEvent} {rest : List OutboxEvent} {g : Dispatch} (todo : g.todo = row :: rest)
    (current : g.current = none) : (relayRow platform row).Follows (dispatchProtocol platform)
      (Then fun g' _ => g'.current = none ∧ g'.todo = rest) g := by
  refine ⟨⟨current, row, rest, todo, rfl⟩, fun r answer => ?_⟩
  rcases r with e | u
  · obtain ⟨message, rfl⟩ := answer.1
    have next : g.next (.send (row.message platform)) (.error (.kafkaError message)) =
        { g with current := some (row, false), todo := rest } := by
      simp only [Dispatch.next, fate, Dispatch.after, todo]
    change Follows (dispatchProtocol platform) _ (OutboxRepository.markFailed row.id (row.attempts + 1) _)
      (g.next (.send (row.message platform)) (.error (.kafkaError message)))
    rw [next]
    refine ⟨trivial, fun r _ => ?_⟩
    rcases r with e | now
    · trivial
    refine ⟨⟨row, rfl, rfl⟩, fun r _ => ?_⟩
    rcases r with e | u
    · trivial
    · exact ⟨rfl, rfl⟩
  · have next : g.next (.send (row.message platform)) (.ok u) =
        { g with current := some (row, true), todo := rest, appended := g.appended ++ [row] } := by
      simp only [Dispatch.next, fate, Dispatch.after, todo]
    change Follows (dispatchProtocol platform) _ (OutboxRepository.markPublished row.id)
      (g.next (.send (row.message platform)) (.ok u))
    rw [next]
    refine ⟨trivial, fun r _ => ?_⟩
    rcases r with e | now
    · trivial
    refine ⟨⟨row, rfl, rfl⟩, fun r _ => ?_⟩
    rcases r with e | u
    · trivial
    · exact ⟨rfl, rfl⟩

theorem relayRows_follows {rows : List OutboxEvent} {g : Dispatch} (todo : g.todo = rows) (current : g.current = none) :
    (rows.forM (relayRow platform)).Follows (dispatchProtocol platform) (Then fun g' _ => g'.current = none) g := by
  induction rows generalizing g with
  | nil => exact current
  | cons row rows ih =>
    change ((relayRow platform row).bind fun _ => rows.forM (relayRow platform)).Follows _ _ _
    refine follows_then_bind.mpr ((relayRow_follows todo current).then_mono ?_)
    rintro g' _ ⟨current, todo⟩
    exact ih todo current

theorem relayOnce_follows {batchSize : Nat} {g : Dispatch} (idle : g.Idle) (written : g.written = []) :
    (relayOnce platform batchSize).Follows (dispatchProtocol platform) (fun g _ => g.Idle) g := by
  obtain ⟨locked, done, current, todo⟩ := idle
  refine unitOfWork_dispatch ⟨trivial, fun r _ => ?_⟩
  rcases r with e | now
  · trivial
  refine ⟨trivial, fun r answer => ?_⟩
  rcases r with e | ids
  · trivial
  have locks : (OutboxRepository.lockEach now batchSize ids).Follows (dispatchProtocol platform) _ g :=
    lockEach_follows written done current answer.2 fun id _ => by rw [locked]; exact List.not_mem_nil
  refine follows_then_bind (p := OutboxRepository.lockEach now batchSize ids) |>.mpr (locks.then_mono ?_)
  rintro g' rows ⟨current, queue⟩
  rw [todo, List.nil_append] at queue
  split
  · exact current
  · exact follows_then_bind.mpr ((relayRows_follows queue current).then_mono fun g _ current => current)

end TheClub
