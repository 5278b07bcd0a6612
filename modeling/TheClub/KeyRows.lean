import TheClub.Locks
import TheClub.ReadCommitted.Possible
import TheClub.Reservations

/-!
The rows of the idempotency keys in every run. There is at most one row for a key, a call has
locked its own row or one it reclaims, and both belong to the key it was made with.
-/

namespace TheClub
open ReadCommitted Program

variable {platform : Platform} {settings : Settings}
  {ok : World (application platform settings) → Label (application platform settings) → Prop}
  {w w' : World (application platform settings)}

/-- The key a row belongs to. -/
def IdempotencyKey.owner (row : IdempotencyKey) : Id × String := (row.userId, row.key)

/-- Process `i` is a call with this key and this request hash. -/
def Calls (w : World (application platform settings)) (i : Nat) (userId : Id) (key requestHash : String) : Prop :=
  ∃ q, w.request i = some q ∧ q.call platform = some (userId, key, requestHash)

/-! ### One row for a key -/

theorem ofKey_iff {userId : Id} {key : String} {row : IdempotencyKey} :
    IdempotencyQuery.ofKey userId key row = true ↔ row.owner = (userId, key) := by
  simp [IdempotencyQuery.ofKey, IdempotencyKey.owner]

theorem exec_keys {env : Env} {i : Nat} {s s' : Database} {q : IdempotencyQuery} {a : q.Ret}
    (ran : exec platform env i (.sql .idempotencyKeys q) s = some (.ok a, s')) :
    IdempotencyQuery.exec (env.context i s) i (s.tables .idempotencyKeys) q = .ok a (s'.tables .idempotencyKeys) := by
  rcases exec_sql ran with ⟨e, failed, -⟩ | ⟨b, same, done⟩
  · cases failed
  · cases same
    exact done

/-- The rows of the table have different keys, whichever of the open transactions commit. -/
abbrev OneRow (t : Table Id IdempotencyKey) : Prop := t.Unique fun row => some row.owner

theorem exec_oneRow {env : Env} {i : Nat} {s s' : Database} {c : Cmd} {r : Except Error c.Ret}
    (ran : exec platform env i c s = some (r, s')) (one : OneRow (s.tables .idempotencyKeys)) :
    OneRow (s'.tables .idempotencyKeys) := by
  rcases exec_table ran .idempotencyKeys with ⟨-, table⟩ | ⟨q, a, same, -⟩
  · rw [table]
    exact one.settle _
  · cases same
    have done := exec_keys ran
    have writes : ∀ {k : Id} {f : IdempotencyKey → Option IdempotencyKey} {u : Unit},
        changeRow i (s.tables .idempotencyKeys) k (fun _ => true) f = .ok u (s'.tables .idempotencyKeys) →
        (∀ a b, f a = some b → b.owner = a.owner) → OneRow (s'.tables .idempotencyKeys) := by
      intro k f u wrote keeps
      rcases changeRow_ok wrote with ⟨same, -⟩ | ⟨a, seen, -, free, same⟩
      · rwa [same]
      · rw [same]
        refine one.write seen free fun b owner written owned => ?_
        rw [← owned, keeps a b written]
    cases q with
    | get userId key =>
      obtain ⟨-, same⟩ := Outcome.ok.inj done
      rwa [← same]
    | createPending userId key requestHash expiresAt =>
      obtain ⟨rfl, fresh, same, alone⟩ := insertRow_ok done
      rw [same]
      refine one.insert fun k b version seen owner own owned => ?_
      have apart := alone k b version seen
      rw [Bool.eq_false_iff, ne_eq, ofKey_iff] at apart
      exact apart ((Option.some.inj owned).trans (Option.some.inj own).symm)
    | markCompleted rowId responseBody => exact writes done (by rintro a b ⟨⟩; rfl)
    | delete rowId => exact writes done (by rintro a b ⟨⟩)

theorem reachable_oneRow (reached : Reachable ok w) : OneRow (w.state.tables .idempotencyKeys) := by
  induction reached with
  | refl => exact .empty
  | step _ _ moved ih =>
    rcases World.step_cases moved with ⟨i, q, -, -, rfl⟩ | ⟨i, env, c, next, r, s, -, -, ran, rfl⟩ | ⟨i, c, -, -, rfl⟩
    · exact ih
    · exact exec_oneRow ran ih
    · exact ih.rollback

/-! ### What the ghost state of a call says about its history -/

namespace Call

theorem next_open {g : Call} {c : Cmd} {r : Except Error c.Ret} (h : fate c r = .isOpen) :
    g.next c r = g.after c r := by
  unfold next
  rw [h]

theorem next_ends {g : Call} {c : Cmd} {r : Except Error c.Ret} (ends : fate c r ≠ .isOpen) :
    ∃ broken, g.next c r = { g.settle (fate c r) with broken } := by
  unfold next
  split
  · exact (ends ‹_›).elim
  · split
    · exact ⟨true, rfl⟩
    · exact ⟨_, rfl⟩

/-- Everything an answered command that leaves the transaction open can do to a call. -/
theorem after_cases {g : Call} {c : Cmd} {r : Except Error c.Ret} : g.after c r = g ∨
    (∃ userId key requestHash expiresAt row, (.ran c r : Event signature) =
      .ran (.sql .idempotencyKeys (.createPending userId key requestHash expiresAt)) (.ok row) ∧
      g.after c r = { g with stage := .inserted, held := some row }) ∨
    (∃ userId key row, (.ran c r : Event signature) = .ran (.sql .idempotencyKeys (.get userId key)) (.ok [row]) ∧
      g.after c r = { g with stage := .looked row }) ∨
    (∃ row now, (.ran c r : Event signature) = .ran .datetimeNow (.ok now) ∧ g.stage = .looked row ∧ row.Stuck now ∧
      g.after c r = { g with stage := .stale row }) ∨
    (∃ rowId responseBody, (.ran c r : Event signature) =
      .ran (.sql .idempotencyKeys (.markCompleted rowId responseBody)) (.ok ()) ∧ g.stage = .working ∧
      g.after c r = { g with stage := .marked responseBody }) ∨
    (∃ rowId row, (.ran c r : Event signature) = .ran (.sql .idempotencyKeys (.delete rowId)) (.ok ()) ∧
      g.stage = .stale row ∧ g.after c r = { g with stage := .reclaimed row }) ∨
    ∃ rowId, (.ran c r : Event signature) = .ran (.sql .idempotencyKeys (.delete rowId)) (.ok ()) ∧
      g.stage = .working ∧ g.after c r = { g with stage := .deleted } := by
  unfold after
  split
  · exact Or.inr (Or.inl ⟨_, _, _, _, _, rfl, rfl⟩)
  · exact Or.inr (Or.inr (Or.inl ⟨_, _, _, rfl, rfl⟩))
  · split
    · rename_i row looked
      split
      · exact Or.inr (Or.inr (Or.inr (Or.inl ⟨_, _, rfl, looked, by assumption, rfl⟩)))
      · exact Or.inl rfl
    · exact Or.inl rfl
  · split
    · exact Or.inr (Or.inr (Or.inr (Or.inr (Or.inl ⟨_, _, rfl, by assumption, rfl⟩))))
    · exact Or.inl rfl
  · split
    · exact Or.inr (Or.inr (Or.inr (Or.inr (Or.inr (Or.inl ⟨_, _, rfl, by assumption, rfl⟩)))))
    · exact Or.inr (Or.inr (Or.inr (Or.inr (Or.inr (Or.inr ⟨_, rfl, by assumption, rfl⟩)))))
    · exact Or.inl rfl
  · exact Or.inl rfl

theorem after_get (g : Call) (userId : Id) (key : String) (rows : List IdempotencyKey) :
    g.after (.sql .idempotencyKeys (.get userId key)) (.ok rows) = g ∨
      ∃ row, g.after (.sql .idempotencyKeys (.get userId key)) (.ok rows) = { g with stage := .looked row } := by
  rcases rows with _ | ⟨row, _ | ⟨_, _⟩⟩
  · exact Or.inl rfl
  · exact Or.inr ⟨row, rfl⟩
  · exact Or.inl rfl

/-- Away from the keys a call only learns that the row it has looked up is abandoned. -/
theorem after_other {g : Call} {c : Cmd} {r : Except Error c.Ret} (other : ∀ q, c ≠ .sql .idempotencyKeys q) :
    g.after c r = g ∨ ∃ row now, (.ran c r : Event signature) = .ran .datetimeNow (.ok now) ∧
      g.stage = .looked row ∧ row.Stuck now ∧ g.after c r = { g with stage := .stale row } := by
  have away : ∀ q r', (.ran c r : Event signature) ≠ .ran (.sql .idempotencyKeys q) r' := by
    rintro q r' ⟨⟩
    exact other q rfl
  rcases g.after_cases (c := c) (r := r) with same | ⟨_, _, _, _, _, event, -⟩ | ⟨_, _, _, event, -⟩ | stale |
    ⟨_, _, event, -⟩ | ⟨_, _, event, -⟩ | ⟨_, event, -⟩
  · exact Or.inl same
  · exact (away _ _ event).elim
  · exact (away _ _ event).elim
  · exact Or.inr stale
  · exact (away _ _ event).elim
  · exact (away _ _ event).elim
  · exact (away _ _ event).elim

end Call

/-- The row a call is looking at. -/
def CallStage.seen : CallStage → Option IdempotencyKey
  | looked row => some row
  | stale row => some row
  | reclaimed row => some row
  | _ => none

/-- The response of a call's work in its open transaction. -/
def CallStage.body : CallStage → Option Dict
  | marked responseBody => some responseBody
  | _ => none

/-- How the ghost state of a call follows from its history. -/
structure Recorded (g : Call) (h : List (Event signature)) : Prop where
  held : ∀ row, g.held = some row ↔ ∃ userId key requestHash expiresAt,
    .ran (.sql .idempotencyKeys (.createPending userId key requestHash expiresAt)) (.ok row) ∈ h
  seen : ∀ row, g.stage.seen = some row → ∃ userId key, .ran (.sql .idempotencyKeys (.get userId key)) (.ok [row]) ∈ h
  body : ∀ responseBody, g.stage.body = some responseBody →
    g.won = none ∧ g.held ≠ none ∧
      ∃ rowId, .ran (.sql .idempotencyKeys (.markCompleted rowId responseBody)) (.ok ()) ∈ h
  won : ∀ responseBody, g.won = some responseBody →
    g.held ≠ none ∧ ∃ rowId, .ran (.sql .idempotencyKeys (.markCompleted rowId responseBody)) (.ok ()) ∈ h
  committed : g.won ≠ none ↔ ∃ r, .ran (.commit .work) r ∈ h ∧ fate (.commit .work) r = .applied

theorem Recorded.start : Recorded {} [] := by
  refine ⟨?_, ?_, ?_, ?_, ?_⟩ <;> simp [CallStage.seen, CallStage.body]

/-- A step that inserts no row and commits no work. -/
theorem Recorded.moves {g g' : Call} {h : List (Event signature)} {e : Event signature} (recorded : Recorded g h)
    (held : g'.held = g.held) (won : g'.won = g.won)
    (inserts : ∀ userId key requestHash expiresAt row,
      e ≠ .ran (.sql .idempotencyKeys (.createPending userId key requestHash expiresAt)) (.ok row))
    (commits : ∀ r, e = .ran (.commit .work) r → fate (.commit .work) r ≠ .applied)
    (seen : ∀ row, g'.stage.seen = some row → g.stage.seen = some row ∨
      ∃ userId key, e = .ran (.sql .idempotencyKeys (.get userId key)) (.ok [row]))
    (body : ∀ responseBody, g'.stage.body = some responseBody → g.stage.body = some responseBody ∨
      g.won = none ∧ g.held ≠ none ∧
        ∃ rowId, e = .ran (.sql .idempotencyKeys (.markCompleted rowId responseBody)) (.ok ())) :
    Recorded g' (h ++ [e]) where
  held row := by
    rw [held, recorded.held]
    constructor
    · rintro ⟨userId, key, requestHash, expiresAt, ran⟩
      exact ⟨userId, key, requestHash, expiresAt, List.mem_append_left _ ran⟩
    · rintro ⟨userId, key, requestHash, expiresAt, ran⟩
      rcases List.mem_append.mp ran with old | new
      · exact ⟨userId, key, requestHash, expiresAt, old⟩
      · exact (inserts _ _ _ _ _ (List.mem_singleton.mp new).symm).elim
  seen row looks := by
    rcases seen row looks with old | ⟨userId, key, rfl⟩
    · obtain ⟨userId, key, ran⟩ := recorded.seen row old
      exact ⟨userId, key, List.mem_append_left _ ran⟩
    · exact ⟨userId, key, List.mem_append_right _ (List.mem_singleton.mpr rfl)⟩
  body responseBody marked := by
    rw [won, held]
    rcases body responseBody marked with old | ⟨none, own, rowId, rfl⟩
    · obtain ⟨none, own, rowId, ran⟩ := recorded.body responseBody old
      exact ⟨none, own, rowId, List.mem_append_left _ ran⟩
    · exact ⟨none, own, rowId, List.mem_append_right _ (List.mem_singleton.mpr rfl)⟩
  won responseBody done := by
    obtain ⟨own, rowId, ran⟩ := recorded.won responseBody (won ▸ done)
    exact ⟨held ▸ own, rowId, List.mem_append_left _ ran⟩
  committed := by
    rw [won, recorded.committed]
    constructor
    · rintro ⟨r, ran, applied⟩
      exact ⟨r, List.mem_append_left _ ran, applied⟩
    · rintro ⟨r, ran, applied⟩
      rcases List.mem_append.mp ran with old | new
      · exact ⟨r, old, applied⟩
      · exact (commits r (List.mem_singleton.mp new).symm applied).elim

theorem CallStage.undone_seen (stage : CallStage) : stage.undone.seen = none := by cases stage <;> rfl
theorem CallStage.undone_body (stage : CallStage) : stage.undone.body = none := by cases stage <;> rfl
theorem CallStage.applied_seen (stage : CallStage) : stage.applied.seen = none := by cases stage <;> rfl
theorem CallStage.applied_body (stage : CallStage) : stage.applied.body = none := by cases stage <;> rfl

/-- The transaction whose COMMIT makes the work of a call permanent is the one that has marked its row. -/
theorem commits_work {g : Call} {tx : Tx} (allowed : (callProtocol platform).allowed g (.commit tx)) :
    tx = .work ↔ ∃ responseBody, g.stage = .marked responseBody := by
  cases tx with
  | work => exact iff_of_true rfl allowed
  | reserve =>
    obtain ⟨row, rfl⟩ := allowed
    simp
  | reclaim =>
    obtain ⟨row, rfl⟩ := allowed
    simp
  | cleanup => simp [show g.stage = .deleted from allowed]
  | request => simp [show g.stage = .idle from allowed]
  | relay => simp [show g.stage = .idle from allowed]
  | purge => simp [show g.stage = .idle from allowed]

theorem Recorded.died {g : Call} {h : List (Event signature)} (recorded : Recorded g h) :
    Recorded (g.settle .undone) (h ++ [.died]) := by
  refine recorded.moves rfl rfl (by simp) (by simp) (fun row looks => ?_) fun responseBody marked => ?_
  · cases (CallStage.undone_seen g.stage).symm.trans looks
  · cases (CallStage.undone_body g.stage).symm.trans marked

theorem Recorded.settle {g : Call} {h : List (Event signature)} {c : Cmd} {r : Except Error c.Ret}
    (recorded : Recorded g h)
    (allowed : (callProtocol platform).allowed g c) (ends : fate c r ≠ .isOpen) (broken : Bool) :
    Recorded { g.settle (fate c r) with broken } (h ++ [.ran c r]) := by
  cases outcome : fate c r with
  | isOpen => exact (ends outcome).elim
  | undone =>
    refine recorded.moves rfl rfl ?_ ?_ (fun row looks => ?_) fun responseBody marked => ?_
    · rintro userId key requestHash expiresAt row ⟨⟩
      cases outcome
    · rintro r ⟨⟩ applied
      cases outcome.symm.trans applied
    · cases (CallStage.undone_seen g.stage).symm.trans looks
    · cases (CallStage.undone_body g.stage).symm.trans marked
  | applied =>
    obtain ⟨tx, rfl⟩ := fate_applied outcome
    have work := commits_work allowed
    by_cases marked : ∃ responseBody, g.stage = .marked responseBody
    · obtain ⟨responseBody, stage⟩ := marked
      obtain rfl := work.mpr ⟨responseBody, stage⟩
      obtain ⟨-, own, rowId, ran⟩ := recorded.body responseBody (by rw [stage]; rfl)
      have won : (g.settle .applied).won = some responseBody := by simp [Call.settle, stage]
      refine ⟨fun row => ?_, fun row looks => ?_, fun body marked => ?_, fun body done => ?_, ?_⟩
      · simpa [Call.settle] using recorded.held row
      · cases (CallStage.applied_seen g.stage).symm.trans looks
      · cases (CallStage.applied_body g.stage).symm.trans marked
      · cases won.symm.trans done
        exact ⟨own, rowId, List.mem_append_left _ ran⟩
      · exact iff_of_true (by simp [won]) ⟨r, List.mem_append_right _ (List.mem_singleton.mpr rfl), outcome⟩
    · have won : (g.settle .applied).won = g.won := by
        unfold Call.settle
        dsimp only
        split
        · exact (marked ⟨_, ‹_›⟩).elim
        · rfl
      refine recorded.moves rfl won ?_ ?_ (fun row looks => ?_) fun responseBody marked => ?_
      · rintro userId key requestHash expiresAt row ⟨⟩
      · rintro r ⟨⟩
        exact (marked (work.mp rfl)).elim
      · cases (CallStage.applied_seen g.stage).symm.trans looks
      · cases (CallStage.applied_body g.stage).symm.trans marked

theorem Recorded.after {g : Call} {h : List (Event signature)} {c : Cmd} {r : Except Error c.Ret}
    (recorded : Recorded g h) (allowed : (callProtocol platform).allowed g c) (isOpen : fate c r = .isOpen) :
    Recorded (g.after c r) (h ++ [.ran c r]) := by
  have commits : ∀ r', (.ran c r : Event signature) = .ran (.commit .work) r' → fate (.commit .work) r' ≠ .applied := by
    rintro r' ⟨⟩ applied
    cases isOpen.symm.trans applied
  rcases Call.after_cases (g := g) (c := c) (r := r) with same |
    ⟨userId, key, requestHash, expiresAt, row, event, new⟩ | ⟨userId, key, row, event, new⟩ | ⟨row, now, event, stage, -, new⟩ | ⟨rowId, responseBody, event, stage, new⟩ |
    ⟨rowId, row, event, stage, new⟩ | ⟨rowId, event, stage, new⟩
  · rw [same]
    refine recorded.moves rfl rfl ?_ commits (fun row => Or.inl) fun responseBody => Or.inl
    rintro userId key requestHash expiresAt row ⟨⟩
    obtain rfl : g = {} := allowed
    cases same
  · cases event
    obtain rfl : g = {} := allowed
    rw [new]
    refine ⟨fun row' => ?_, fun row' looks => (by cases looks), fun body marked => (by cases marked),
      fun body won => (by cases won), ?_⟩
    · constructor
      · rintro ⟨⟩
        exact ⟨userId, key, requestHash, expiresAt, List.mem_append_right _ (List.mem_singleton.mpr rfl)⟩
      · rintro ⟨userId', key', requestHash', expiresAt', ran⟩
        rcases List.mem_append.mp ran with old | same
        · cases (recorded.held row').mpr ⟨userId', key', requestHash', expiresAt', old⟩
        · cases List.mem_singleton.mp same
          rfl
    · refine iff_of_false (by simp) ?_
      rintro ⟨r, ran, applied⟩
      rcases List.mem_append.mp ran with old | same
      · exact recorded.committed.mpr ⟨r, old, applied⟩ rfl
      · cases List.mem_singleton.mp same
  · rw [new]
    refine recorded.moves rfl rfl (by simp [event]) commits (fun row' looks => Or.inr ⟨userId, key, ?_⟩)
      fun body marked => (by cases marked)
    cases looks
    exact event
  · rw [new]
    refine recorded.moves rfl rfl (by simp [event]) commits (fun row' looks => Or.inl ?_) fun body marked =>
      (by cases marked)
    rw [stage]
    exact looks
  · rw [new]
    cases event
    obtain ⟨-, none, own, held, -⟩ := allowed
    refine recorded.moves rfl rfl (by simp) commits (fun row' looks => (by cases looks)) fun body marked =>
      Or.inr ⟨none, by simp [held], rowId, ?_⟩
    cases marked
    rfl
  · rw [new]
    refine recorded.moves rfl rfl (by simp [event]) commits (fun row' looks => Or.inl ?_) fun body marked =>
      (by cases marked)
    rw [stage]
    exact looks
  · rw [new]
    exact recorded.moves rfl rfl (by simp [event]) commits (fun row' looks => (by cases looks)) fun body marked =>
      (by cases marked)

theorem reachable_recorded (keeping : ∀ w l, ok w l → Keeping w l) (reached : Reachable ok w) :
    ∀ i, Recorded (w.ghost (callProtocol platform) i) (w.history i) := by
  refine (disciplined_calls keeping).recorded Recorded.start (fun g h c r recorded allowed _ => ?_)
    (fun g h => Recorded.died) reached
  by_cases isOpen : fate c r = .isOpen
  · have next := Call.next_open (g := g) isOpen
    change Recorded (g.next c r) _
    rw [next]
    exact recorded.after allowed isOpen
  · obtain ⟨broken, next⟩ := Call.next_ends (g := g) isOpen
    change Recorded (g.next c r) _
    rw [next]
    exact recorded.settle allowed isOpen broken

/-! ### Locks and completed rows -/

/-- What a call may have written to row `k` in its open transaction. -/
def Call.Wrote (g : Call) (k : Id) (v : Option IdempotencyKey) : Prop :=
  match g.stage with
  | .inserted => ∃ row, g.held = some row ∧ row.id = k ∧ v = some row
  | .marked responseBody => ∃ row a, g.held = some row ∧ row.id = k ∧ v = some a ∧ a.status = .completed ∧
      a.responseBody = some responseBody
  | .deleted => ∃ row, g.held = some row ∧ row.id = k ∧ v = none
  | .reclaimed row => row.id = k ∧ v = none
  | _ => False

/-- The rows of the table and the calls that have written them. -/
structure KeyRows (t : Table Id IdempotencyKey) (g : Nat → Call) : Prop where
  listed : ∀ i row, (g i).held = some row → row.id ∈ t.keys
  pending : ∀ i row, (g i).held = some row → row.status = .pending
  apart : ∀ i j row row', (g i).held = some row → (g j).held = some row' → row.id = row'.id → i = j
  wrote : ∀ k i v, (t.slot k).pending = some (i, v) → (g i).Wrote k v
  completed : ∀ k a, (t.slot k).committed = some a → a.status = .completed →
    ∃ i row, (g i).held = some row ∧ row.id = k ∧ (g i).won = a.responseBody ∧ (g i).won ≠ none

namespace KeyRows
variable {t t' : Table Id IdempotencyKey} {g : Nat → Call} {i : Nat} {g' : Call}

theorem empty : KeyRows Table.empty fun _ => {} where
  listed _ _ held := by cases held
  pending _ _ held := by cases held
  apart _ _ _ _ held := by cases held
  wrote _ _ _ held := by cases held
  completed _ _ row := by cases row

/-- A call moves on and neither gains nor loses its row. -/
theorem moves (inv : KeyRows t g) (held : g'.held = (g i).held) (won : (g i).won ≠ none → g'.won = (g i).won)
    (keys : ∀ k ∈ t.keys, k ∈ t'.keys)
    (wrote : ∀ k v, (t'.slot k).pending = some (i, v) → g'.Wrote k v)
    (others : ∀ k j v, j ≠ i → (t'.slot k).pending = some (j, v) → (t.slot k).pending = some (j, v))
    (completed : ∀ k a, (t'.slot k).committed = some a → a.status = .completed → (t.slot k).committed = some a ∨
      ∃ row, g'.held = some row ∧ row.id = k ∧ g'.won = a.responseBody ∧ g'.won ≠ none) :
    KeyRows t' (Function.update g i g') := by
  have same : ∀ j, (Function.update g i g' j).held = (g j).held := by
    intro j
    by_cases mine : j = i
    · rw [mine, Function.update_self, held]
    · rw [Function.update_of_ne mine]
  refine ⟨fun j row own => keys _ (inv.listed j row (same j ▸ own)), fun j row own => inv.pending j row (same j ▸ own),
    fun j j' row row' own own' => inv.apart j j' row row' (same j ▸ own) (same j' ▸ own'), fun k j v locked => ?_,
    fun k a row done => ?_⟩
  · by_cases mine : j = i
    · subst mine
      rw [Function.update_self]
      exact wrote k v locked
    · rw [Function.update_of_ne mine]
      exact inv.wrote k j v (others k j v mine locked)
  · rcases completed k a row done with old | ⟨row', own, id, body, some⟩
    · obtain ⟨j, row', own, id, body, some⟩ := inv.completed k a old done
      refine ⟨j, row', (same j).trans own, id, ?_⟩
      by_cases mine : j = i
      · subst mine
        rw [Function.update_self, won some]
        exact ⟨body, some⟩
      · rw [Function.update_of_ne mine]
        exact ⟨body, some⟩
    · exact ⟨i, row', by rw [same, ← held, own], id, by rw [Function.update_self]; exact body,
        by rw [Function.update_self]; exact some⟩

/-- A call that has written nothing moves on without writing. -/
theorem idle (inv : KeyRows t g) (held : g'.held = (g i).held) (won : g'.won = (g i).won)
    (clean : ∀ k v, (g i).Wrote k v → g'.Wrote k v) : KeyRows t (Function.update g i g') :=
  inv.moves held (fun _ => won) (fun _ => id) (fun k v locked => clean k v (inv.wrote k i v locked)) (fun _ _ _ _ => id)
    fun _ _ row _ => Or.inl row

theorem write (inv : KeyRows t g) {k : Id} {v : Option IdempotencyKey} (member : k ∈ t.keys)
    (held : g'.held = (g i).held)
    (won : g'.won = (g i).won) (clean : ∀ k v, ¬(g i).Wrote k v) (wrote : g'.Wrote k v) :
    KeyRows (t.write i k v) (Function.update g i g') := by
  refine inv.moves held (fun _ => won) (fun _ => id) (fun k' v' locked => ?_)
      (fun k' j v' ne locked => ?_) fun k' a row _ =>
    Or.inl (by rwa [Table.committed_write] at row)
  · by_cases here : k' = k
    · subst here
      rw [Table.slot_write_self member, Slot.pending_write] at locked
      obtain ⟨-, rfl⟩ := Prod.mk.inj (Option.some.inj locked)
      exact wrote
    · rw [Table.slot_write_other here] at locked
      exact (clean _ _ (inv.wrote k' i v' locked)).elim
  · by_cases here : k' = k
    · subst here
      rw [Table.slot_write_self member, Slot.pending_write] at locked
      exact (ne (Prod.mk.inj (Option.some.inj locked)).1.symm).elim
    · rwa [Table.slot_write_other here] at locked

theorem insert (inv : KeyRows t g) {row : IdempotencyKey} (fresh : row.id ∉ t.keys) (start : g i = {})
    (pending : row.status = .pending) : KeyRows (t.insert i row.id row fresh)
      (Function.update g i { stage := .inserted, held := some row }) := by
  have none : (g i).held = none := by rw [start]
  have other : ∀ j row', (g j).held = some row' → j ≠ i := by
    rintro j row' own rfl
    cases none.symm.trans own
  have split : ∀ j row', (Function.update g i { stage := .inserted, held := some row } j).held = some row' →
      (j = i ∧ row' = row) ∨ (g j).held = some row' := by
    intro j row' own
    by_cases mine : j = i
    · subst mine
      rw [Function.update_self] at own
      cases own
      exact Or.inl ⟨rfl, rfl⟩
    · rw [Function.update_of_ne mine] at own
      exact Or.inr own
  refine ⟨fun j row' own => ?_, fun j row' own => ?_, fun j j' r r' own own' same => ?_, fun k j v locked =>
    ?_, fun k a committed done => ?_⟩
  · rcases split j row' own with ⟨rfl, rfl⟩ | old
    · exact List.mem_append_right _ (List.mem_singleton.mpr rfl)
    · exact List.mem_append_left _ (inv.listed j row' old)
  · rcases split j row' own with ⟨rfl, rfl⟩ | old
    · exact pending
    · exact inv.pending j row' old
  · rcases split j r own with ⟨rfl, rfl⟩ | old <;> rcases split j' r' own' with ⟨rfl, rfl⟩ | old'
    · rfl
    · exact (fresh (same ▸ inv.listed j' r' old')).elim
    · exact (fresh (same ▸ inv.listed j r old)).elim
    · exact inv.apart j j' r r' old old' same
  · by_cases here : k = row.id
    · subst here
      rw [Table.slot_insert_self] at locked
      obtain ⟨rfl, rfl⟩ := Prod.mk.inj (Option.some.inj locked)
      rw [Function.update_self]
      exact ⟨row, rfl, rfl, rfl⟩
    · rw [Table.slot_insert_other here] at locked
      have wrote := inv.wrote k j v locked
      have mine : j ≠ i := by
        rintro rfl
        rw [start] at wrote
        exact wrote
      rwa [Function.update_of_ne mine]
  · rw [Table.committed_insert] at committed
    obtain ⟨j, row', own, id, body, some⟩ := inv.completed k a committed done
    exact ⟨j, row', by rw [Function.update_of_ne (other j row' own)]; exact own, id,
      by rw [Function.update_of_ne (other j row' own)]; exact ⟨body, some⟩⟩

theorem settle (inv : KeyRows t g) {fate : Fate} (ends : fate ≠ .isOpen) (broken : Bool)
    (once : ∀ responseBody, (g i).stage = .marked responseBody → (g i).won = none) :
    KeyRows (t.settle i fate) (Function.update g i { (g i).settle fate with broken }) := by
  have pendings : ∀ k j v, ((t.settle i fate).slot k).pending = some (j, v) → j ≠ i ∧
      (t.slot k).pending = some (j, v) := by
    intro k j v locked
    have same := Table.slot_settle_held locked
    refine ⟨(Table.holder_settle ends (Slot.holder_of_pending locked)).1, ?_⟩
    rwa [same] at locked
  have won : (g i).won ≠ none → ((g i).settle fate).won = (g i).won := by
    intro some
    cases fate with
    | isOpen => rfl
    | undone => rfl
    | applied =>
      unfold Call.settle
      dsimp only
      split
      · exact (some (once _ ‹_›)).elim
      · rfl
  have held : ({ (g i).settle fate with broken } : Call).held = (g i).held := by cases fate <;> rfl
  refine inv.moves held won (fun k member => by rwa [Table.keys_settle])
    (fun k v locked => ((pendings k i v locked).1 rfl).elim) (fun k j v ne locked => (pendings k j v locked).2) ?_
  intro k a row done
  rcases Table.committed_settle i fate k t with same | ⟨rfl, locked⟩
  · exact Or.inl (same ▸ row)
  · refine Or.inr ?_
    rw [row] at locked
    have wrote := inv.wrote k i _ locked
    unfold Call.Wrote at wrote
    split at wrote
    · obtain ⟨own, held, -, same⟩ := wrote
      cases same
      cases (inv.pending i _ held).symm.trans done
    · rename_i responseBody stage
      obtain ⟨own, b, held, id, same, -, body⟩ := wrote
      cases same
      refine ⟨own, held, id, ?_⟩
      simp [Call.settle, stage, body]
    · obtain ⟨own, held, id, same⟩ := wrote
      cases same
    · obtain ⟨id, same⟩ := wrote
      cases same
    · exact wrote.elim

end KeyRows

/-- A call that changes a row of the table, or finds it gone. -/
theorem KeyRows.change {t t' : Table Id IdempotencyKey} {g : Nat → Call} {i : Nat} {g' : Call}
    (inv : KeyRows t g) {k : Id}
    {f : IdempotencyKey → Option IdempotencyKey} {u : Unit} (ran : changeRow i t k (fun _ => true) f = .ok u t')
    (held : g'.held = (g i).held) (won : g'.won = (g i).won) (clean : ∀ k v, ¬(g i).Wrote k v)
    (wrote : ∀ a, g'.Wrote k (f a)) : KeyRows t' (Function.update g i g') := by
  rcases changeRow_ok ran with ⟨rfl, -⟩ | ⟨a, seen, -, -, rfl⟩
  · exact inv.idle held won fun k v written => (clean k v written).elim
  · exact inv.write (Table.mem_keys_of_view seen) held won clean (wrote a)

/-- A statement on the table. -/
theorem KeyRows.statement {env : Env} {i : Nat} {s s' : Database} {q : IdempotencyQuery} {a : q.Ret} {g : Nat → Call}
    (ran : exec platform env i (.sql .idempotencyKeys q) s = some (.ok a, s'))
    (inv : KeyRows (s.tables .idempotencyKeys) g)
    (allowed : (callProtocol platform).allowed (g i) (.sql .idempotencyKeys q)) :
    KeyRows (s'.tables .idempotencyKeys) (Function.update g i ((g i).after (.sql .idempotencyKeys q) (.ok a))) := by
  have done := exec_keys ran
  cases q with
  | get userId key =>
    have start : g i = {} := allowed
    obtain ⟨-, same⟩ := Outcome.ok.inj done
    rw [← same]
    have clean : ∀ k v, ¬(g i).Wrote k v := by
      rw [start]
      exact fun _ _ => id
    rcases (g i).after_get userId key a with same | ⟨row, new⟩
    · rw [same]
      exact inv.idle rfl rfl fun _ _ => id
    · rw [new]
      exact inv.idle rfl rfl fun k v written => (clean k v written).elim
  | createPending userId key requestHash expiresAt =>
    have start : g i = {} := allowed
    obtain ⟨new, fresh, table, -⟩ := insertRow_ok done
    have after : (g i).after (.sql .idempotencyKeys (.createPending userId key requestHash expiresAt)) (.ok a) =
        { stage := .inserted, held := some a } := by
      rw [start]
      rfl
    have inserted : ∀ k (fresh : k ∉ (s.tables .idempotencyKeys).keys), k = a.id → KeyRows
        ((s.tables .idempotencyKeys).insert i k a fresh)
            (Function.update g i { stage := .inserted, held := some a }) := by
      rintro k fresh rfl
      exact inv.insert fresh start (by rw [new])
    rw [after, table, ← new]
    exact inserted _ fresh (by rw [new])
  | markCompleted rowId responseBody =>
    obtain ⟨working, -, row, held, own⟩ := allowed
    have after : (g i).after (.sql .idempotencyKeys (.markCompleted rowId responseBody)) (.ok a) =
        { g i with stage := .marked responseBody } := by simp [Call.after, working]
    rw [after]
    refine inv.change done rfl rfl (fun k v written => ?_) fun b => ⟨row, _, held, own, rfl, rfl, rfl⟩
    simp [Call.Wrote, working] at written
  | delete rowId =>
    rcases allowed with ⟨row, stale, own, -⟩ | ⟨working, row, held, own⟩
    · have after : (g i).after (.sql .idempotencyKeys (.delete rowId)) (.ok a) =
        { g i with stage := .reclaimed row } := by
        simp [Call.after, stale]
      rw [after]
      refine inv.change done rfl rfl (fun k v written => ?_) fun b => ⟨own, rfl⟩
      simp [Call.Wrote, stale] at written
    · have after : (g i).after (.sql .idempotencyKeys (.delete rowId)) (.ok a) = { g i with stage := .deleted } := by
        simp [Call.after, working]
      rw [after]
      refine inv.change done rfl rfl (fun k v written => ?_) fun b => ⟨row, held, own, rfl⟩
      simp [Call.Wrote, working] at written

theorem KeyRows.run {env : Env} {i : Nat} {s s' : Database} {c : Cmd} {r : Except Error c.Ret} {g : Nat → Call}
    (ran : exec platform env i c s = some (r, s')) (inv : KeyRows (s.tables .idempotencyKeys) g)
    (allowed : (callProtocol platform).allowed (g i) c)
    (once : ∀ responseBody, (g i).stage = .marked responseBody → (g i).won = none) :
    KeyRows (s'.tables .idempotencyKeys) (Function.update g i ((g i).next c r)) := by
  by_cases isOpen : fate c r = .isOpen
  · rw [Call.next_open isOpen]
    by_cases statement : ∃ q, c = .sql .idempotencyKeys q
    · obtain ⟨q, rfl⟩ := statement
      cases r with
      | ok a => exact .statement ran inv allowed
      | error e => cases isOpen
    · rw [exec_frame ran .idempotencyKeys fun q same => statement ⟨q, same⟩, isOpen]
      rcases Call.after_other (r := r) fun q same => statement ⟨q, same⟩ with same | ⟨row, now, -, looked, -, new⟩
      · rw [same]
        exact inv.idle rfl rfl fun _ _ => id
      · rw [new]
        refine inv.idle rfl rfl fun k v written => ?_
        simp [Call.Wrote, looked] at written
  · obtain ⟨broken, next⟩ := Call.next_ends (g := g i) isOpen
    rw [next, exec_ends ran isOpen .idempotencyKeys]
    exact inv.settle isOpen broken once

theorem reachable_keyRows (keeping : ∀ w l, ok w l → Keeping w l) (reached : Reachable ok w) :
    KeyRows (w.state.tables .idempotencyKeys) (w.ghost (callProtocol platform)) := by
  refine (disciplined_calls keeping).invariant (fun s g => KeyRows (s.tables .idempotencyKeys) g) .empty ?_ ?_ reached
  · intro w i env c r s' reached inv _ _ allowed _ ran
    refine inv.run ran allowed fun responseBody marked => ?_
    exact ((reachable_recorded keeping reached i).body responseBody (by rw [marked]; rfl)).1
  · intro w i c reached inv _ _
    refine KeyRows.settle inv (show Fate.undone ≠ .isOpen by simp) false fun responseBody marked => ?_
    exact ((reachable_recorded keeping reached i).body responseBody (by rw [marked]; rfl)).1

/-! ### Rows and the calls they belong to -/

/-- The commands on keys that a request names. -/
def Request.Names (platform : Platform) (q : Request) : Cmd → Prop
  | .sql .idempotencyKeys (.createPending userId key requestHash _) => q.call platform = some (userId, key, requestHash)
  | .sql .idempotencyKeys (.get userId key) => ∃ requestHash, q.call platform = some (userId, key, requestHash)
  | _ => True

theorem names_of_away {q : Request} {c : Cmd} (away : ∀ q', c ≠ .sql .idempotencyKeys q') : q.Names platform c := by
  unfold Request.Names
  split
  · exact (away _ rfl).elim
  · exact (away _ rfl).elim
  · trivial

theorem code_names {q : Request} (keeping : q.Keeping) : (q.code platform settings).Only (q.Names platform) := by
  refine code_only ?_ trivial trivial (fun _ => ?_) ?_ ?_ ?_
  · exact fun c _ away => names_of_away away
  · exact ⟨trivial, trivial, trivial, trivial, fun q _ => trivial, fun message => trivial⟩
  · intro userId key requestHash call
    exact ⟨⟨fun tx => trivial, trivial, trivial, fun expiresAt => call, ⟨requestHash, call⟩, fun _ => trivial⟩,
      fun _ _ => trivial⟩
  · rintro userId key requestHash ttlHours work rfl
    exact Only.mono keeping fun c works => names_of_away works.1
  · rintro work rfl
    exact Only.mono keeping fun c works => names_of_away works.1

theorem ran_names (keeping : ∀ w l, ok w l → Keeping w l) (reached : Reachable ok w) {i : Nat} {c : Cmd}
    {r : Except Error c.Ret} (ran : w.Ran i c r) : ∃ q, w.request i = some q ∧ q.Names platform c :=
  (only_of_request (A := fun q => Request.Names platform q)
    (fun w _ _ allowed => code_names (keeping w _ allowed)) reached).2 i c r ran

/-- The row is a version of one that was inserted. -/
def Known (w : World (application platform settings)) (row : IdempotencyKey) : Prop :=
  ∃ row', Inserted .idempotencyKeys w row' ∧ row'.id = row.id ∧ IdempotencyQuery.fixed row = IdempotencyQuery.fixed row'

theorem known_of_version (reached : Reachable ok w) {k : Id} {a : IdempotencyKey}
    (version : ((w.state.tables .idempotencyKeys).slot k).Version a) : a.id = k ∧ Known w a := by
  obtain ⟨row, new, id, fixed⟩ := (reachable_origins reached .idempotencyKeys).origin k a version
  have key := reachable_keyed reached .idempotencyKeys k a version
  exact ⟨key, row, new, id.trans key.symm, fixed⟩

theorem Known.mono {a : IdempotencyKey} (run : Run ok w w') (known : Known w a) : Known w' a := by
  obtain ⟨row, new, id, fixed⟩ := known
  exact ⟨row, new.mono run, id, fixed⟩

/-- Rows with one id agree in what no statement changes. -/
theorem Known.agree (reached : Reachable ok w) {a b : IdempotencyKey} (left : Known w a) (right : Known w b)
    (same : a.id = b.id) :
    a.owner = b.owner ∧ a.requestHash = b.requestHash ∧ a.createdAt = b.createdAt := by
  obtain ⟨row, new, id, fixed⟩ := left
  obtain ⟨row', new', id', fixed'⟩ := right
  obtain rfl := (reachable_origins reached .idempotencyKeys).unique row row' new new' (id.trans (same.trans id'.symm))
  have agree := fixed.trans fixed'.symm
  simp only [IdempotencyQuery.fixed, IdempotencyKey.mk.injEq] at agree
  refine ⟨?_, agree.2.2.2.1, agree.2.2.2.2.2.2.2⟩
  unfold IdempotencyKey.owner
  rw [agree.2.1, agree.2.2.1]

/-- The row a call has inserted. -/
theorem created_row (keeping : ∀ w l, ok w l → Keeping w l) (reached : Reachable ok w) {i : Nat} {userId : Id}
    {key requestHash : String} {expiresAt : Time} {row : IdempotencyKey}
    (ran : w.Ran i (.sql .idempotencyKeys (.createPending userId key requestHash expiresAt)) (.ok row)) :
    Known w row ∧ row.owner = (userId, key) ∧ row.requestHash = requestHash ∧ Calls w i userId key requestHash := by
  obtain ⟨before, after, env, start, about, allowed, moved, done, rest⟩ := Run.moment reached ran
  obtain ⟨same, -⟩ := insertRow_ok (exec_keys done)
  obtain ⟨q, asked, call⟩ := ran_names keeping reached ran
  refine ⟨⟨row, ⟨i, _, _, ran, rfl⟩, rfl, rfl⟩, ?_, ?_, q, asked, call⟩
  · rw [same]
    rfl
  · rw [same]

/-- A row that a call has found. -/
theorem found_row (keeping : ∀ w l, ok w l → Keeping w l) (reached : Reachable ok w) {i : Nat} {userId : Id}
    {key : String}
    {row : IdempotencyKey} (ran : w.Ran i (.sql .idempotencyKeys (.get userId key)) (.ok [row])) :
    Known w row ∧ row.owner = (userId, key) ∧ ∃ requestHash, Calls w i userId key requestHash := by
  obtain ⟨before, after, env, start, about, allowed, moved, done, rest⟩ := Run.moment reached ran
  obtain ⟨found, -⟩ := Outcome.ok.inj (exec_keys done)
  have member : row ∈ ((before.state.tables .idempotencyKeys).rows i).filter (IdempotencyQuery.ofKey userId key) := by
    rw [found]
    exact List.mem_singleton.mpr rfl
  obtain ⟨seen, owner⟩ := List.mem_filter.mp member
  obtain ⟨k, seen⟩ := Table.mem_rows.mp seen
  obtain ⟨-, known⟩ := known_of_version start (Slot.version_view seen)
  obtain ⟨q, asked, requestHash, call⟩ := ran_names keeping reached ran
  exact ⟨known.mono (.trans (.step (.refl _) allowed moved) rest), ofKey_iff.mp owner, requestHash, q, asked, call⟩

/-- A row of the table is locked only by calls with its key. -/
theorem locked_calls (keeping : ∀ w l, ok w l → Keeping w l) (reached : Reachable ok w) {k : Id} {i : Nat}
    {v : Option IdempotencyKey} {a : IdempotencyKey}
    (locked : ((w.state.tables .idempotencyKeys).slot k).pending = some (i, v))
    (version : ((w.state.tables .idempotencyKeys).slot k).Version a) :
    ∃ requestHash, Calls w i a.userId a.key requestHash := by
  obtain ⟨id, known⟩ := known_of_version reached version
  have recorded := reachable_recorded keeping reached i
  have owned : ∀ row, ((w.ghost (callProtocol platform) i : Call)).held = some row → row.id = k →
      ∃ requestHash, Calls w i a.userId a.key requestHash := by
    intro row held own
    obtain ⟨userId, key, requestHash, expiresAt, ran⟩ := (recorded.held row).mp held
    obtain ⟨known', owner, -, calls⟩ := created_row keeping reached ran
    have same := (known.agree reached known' (id.trans own.symm)).1.trans owner
    obtain ⟨rfl, rfl⟩ := Prod.mk.inj same
    exact ⟨requestHash, calls⟩
  have wrote := (reachable_keyRows keeping reached).wrote k i v locked
  unfold Call.Wrote at wrote
  split at wrote
  · obtain ⟨row, held, own, -⟩ := wrote
    exact owned row held own
  · obtain ⟨row, -, held, own, -⟩ := wrote
    exact owned row held own
  · obtain ⟨row, held, own, -⟩ := wrote
    exact owned row held own
  · rename_i row stage
    obtain ⟨userId, key, ran⟩ := recorded.seen row (by rw [stage]; rfl)
    obtain ⟨known', owner, requestHash, calls⟩ := found_row keeping reached ran
    have same := (known.agree reached known' (id.trans wrote.1.symm)).1.trans owner
    obtain ⟨rfl, rfl⟩ := Prod.mk.inj same
    exact ⟨requestHash, calls⟩
  · exact wrote.elim

end TheClub
