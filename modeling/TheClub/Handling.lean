import TheClub.Dispatch
import TheClub.Infra.Rows

/-!
The outbox between the statements. A row that a relay has locked stays locked until its transaction
ends, its committed version is unpublished, and its new version is published exactly if the relay
has marked it so. Whatever else a transaction has pending is an event it has inserted or a
published row it has deleted.
-/

namespace TheClub
open ReadCommitted

variable {platform : Platform} {settings : Settings}

/-- What the open transaction `d` of process `i` has pending in the outbox. -/
structure Handles (t : Table Id OutboxEvent) (i : Nat) (d : Dispatch) : Prop where
  locked : d.locked = d.batch.map OutboxEvent.id
  distinct : d.locked.Nodup
  rows : ∀ row ∈ d.batch, ∃ a old, (t.slot row.id).pending = some (i, some a) ∧ (t.slot row.id).committed = some old ∧
    OutboxQuery.fixed a = OutboxQuery.fixed row ∧ old.publishedAt = none ∧ (a.publishedAt ≠ none ↔ (row, true) ∈ d.done)
  writes : ∀ e ∈ d.written, (t.slot e.id).pending = some (i, some e) ∧
    (t.slot e.id).committed = none ∧ e.publishedAt = none
  holds : ∀ k v, (t.slot k).pending = some (i, v) → k ∈ d.locked ∨ (∃ e ∈ d.written, e.id = k ∧ v = some e) ∨
    v = none ∧ ∃ old, (t.slot k).committed = some old ∧ old.publishedAt ≠ none

structure Handling (t : Table Id OutboxEvent) (g : Nat → Dispatch) : Prop where
  keyed : t.Keyed OutboxEvent.id
  kept : t.Kept OutboxQuery.fixed
  handles : ∀ i, Handles t i (g i)

namespace Handles
variable {t t' : Table Id OutboxEvent} {i j : Nat} {d : Dispatch} {new : Option OutboxEvent}

theorem eq_of_id (h : Handles t i d) {row row' : OutboxEvent} (member : row ∈ d.batch) (member' : row' ∈ d.batch)
    (same : row.id = row'.id) : row = row' := by
  have distinct := h.distinct
  rw [h.locked] at distinct
  exact List.inj_on_of_nodup_map distinct member member' same

theorem batch_nil (h : Handles t i d) (locked : d.locked = []) : d.batch = [] := by
  have same := h.locked
  rw [locked] at same
  exact List.map_eq_nil_iff.mp same.symm

theorem other (h : Handles t j d) (ne : j ≠ i) (moved : t.Moved OutboxEvent.id OutboxQuery.fixed i new t') :
    Handles t' j d where
  locked := h.locked
  distinct := h.distinct
  rows row member := by
    obtain ⟨a, old, pending, committed, rest⟩ := h.rows row member
    exact ⟨a, old, (moved.pending ne).mpr pending, by rw [moved.committed, committed], rest⟩
  writes e member := by
    obtain ⟨pending, committed, unpublished⟩ := h.writes e member
    exact ⟨(moved.pending ne).mpr pending, by rw [moved.committed, committed], unpublished⟩
  holds k v pending := by
    rw [moved.committed]
    exact h.holds k v ((moved.pending ne).mp pending)

theorem settle_other (h : Handles t j d) (ne : j ≠ i) (fate : Fate) : Handles (t.settle i fate) j d := by
  have slot : ∀ {k v}, (t.slot k).pending = some (j, v) → (t.settle i fate).slot k = t.slot k := by
    intro k v pending
    refine Table.slot_settle_other fate ?_
    rw [Slot.holder_of_pending pending]
    simpa using ne
  refine ⟨h.locked, h.distinct, fun row member => ?_, fun e member => ?_, fun k v pending => ?_⟩
  · obtain ⟨a, old, pending, rest⟩ := h.rows row member
    rw [slot pending]
    exact ⟨a, old, pending, rest⟩
  · obtain ⟨pending, rest⟩ := h.writes e member
    rw [slot pending]
    exact ⟨pending, rest⟩
  · have same := Table.slot_settle_held pending
    rw [same] at pending ⊢
    exact h.holds k v pending

theorem ended {fate : Fate} (ends : fate ≠ .isOpen) : Handles (t.settle i fate) i (d.settle fate) := by
  have cleared : (d.settle fate).locked = [] ∧ (d.settle fate).batch = [] ∧ (d.settle fate).written = [] := by
    cases fate with
    | isOpen => exact (ends rfl).elim
    | _ => exact ⟨rfl, rfl, rfl⟩
  obtain ⟨locked, batch, written⟩ := cleared
  refine ⟨?_, ?_, ?_, ?_, fun k v pending => ?_⟩
  · rw [locked, batch]
    rfl
  · rw [locked]
    exact List.nodup_nil
  · rw [batch]
    exact fun _ member => absurd member List.not_mem_nil
  · rw [written]
    exact fun _ member => absurd member List.not_mem_nil
  · exact ((Table.holder_settle ends (Slot.holder_of_pending pending)).1 rfl).elim

theorem insert (h : Handles t i d) {row : OutboxEvent} {fresh : row.id ∉ t.keys} (locked : d.locked = [])
    (unpublished : row.publishedAt = none) :
    Handles (t.insert i row.id row fresh) i { d with written := d.written ++ [row] } := by
  have batch := h.batch_nil locked
  have apart : ∀ {k v}, (t.slot k).pending = some (i, v) → k ≠ row.id := by
    rintro k v pending rfl
    rw [t.slot_outside _ fresh] at pending
    cases pending
  refine ⟨h.locked, h.distinct, ?_, fun e member => ?_, fun k v pending => ?_⟩
  · change ∀ row ∈ d.batch, _
    rw [batch]
    exact fun _ member => absurd member List.not_mem_nil
  · rcases List.mem_append.mp member with old | same
    · obtain ⟨pending, rest⟩ := h.writes e old
      rw [Table.slot_insert_other (apart pending)]
      exact ⟨pending, rest⟩
    · obtain rfl := List.mem_singleton.mp same
      rw [Table.slot_insert_self]
      exact ⟨rfl, rfl, unpublished⟩
  · by_cases here : k = row.id
    · subst here
      rw [Table.slot_insert_self] at pending
      cases pending
      exact Or.inr (Or.inl ⟨row, List.mem_append_right _ (List.mem_singleton.mpr rfl), rfl, rfl⟩)
    · rw [Table.slot_insert_other here] at pending ⊢
      rcases h.holds k v pending with held | ⟨e, member, own⟩ | gone
      · exact Or.inl held
      · exact Or.inr (Or.inl ⟨e, List.mem_append_left _ member, own⟩)
      · exact Or.inr (Or.inr gone)

theorem lock (h : Handles t i d) {row : OutboxEvent} (seen : (t.slot row.id).view i = some row)
    (unpublished : row.publishedAt = none) (written : d.written = []) (current : d.current = none) (done : d.done = [])
    (fresh : row.id ∉ d.locked) : (t.slot row.id).committed = some row ∧ (t.slot row.id).holder ≠ some i ∧
    Handles (t.write i row.id (some row)) i { d with locked := d.locked ++ [row.id], todo := d.todo ++ [row] } := by
  have away : (t.slot row.id).holder ≠ some i := by
    intro held
    have pending := Slot.pending_of_holder held
    rw [seen] at pending
    rcases h.holds row.id _ pending with locked | ⟨e, member, -⟩ | ⟨gone, -⟩
    · exact fresh locked
    · rw [written] at member
      cases member
    · cases gone
  have committed : (t.slot row.id).committed = some row := by rwa [Slot.view_of_not_holder away] at seen
  have keys := Table.mem_keys_of_view seen
  have batch : ∀ todo : List OutboxEvent, ({ d with todo := todo } : Dispatch).batch = todo := by
    intro todo
    simp [Dispatch.batch, done, current]
  have old : d.batch = d.todo := batch d.todo
  have queue : ({ d with locked := d.locked ++ [row.id], todo := d.todo ++ [row] } : Dispatch).batch =
      d.batch ++ [row] := by
    rw [old]
    exact batch _
  refine ⟨committed, away, ?_, ?_, fun row' member => ?_, ?_, fun k v pending => ?_⟩
  · rw [queue, List.map_append, ← h.locked]
    rfl
  · exact h.distinct.append (List.nodup_singleton _) (List.disjoint_singleton.mpr fresh)
  · rw [queue] at member
    rcases List.mem_append.mp member with earlier | same
    · obtain ⟨a, old, pending, committed, rest⟩ := h.rows row' earlier
      have apart : row'.id ≠ row.id := by
        intro same
        rw [same] at pending
        exact away (Slot.holder_of_pending pending)
      rw [Table.slot_write_other apart]
      exact ⟨a, old, pending, committed, rest⟩
    · obtain rfl := List.mem_singleton.mp same
      rw [Table.slot_write_self keys]
      refine ⟨row', row', rfl, committed, rfl, unpublished, ?_⟩
      simp [unpublished, done]
  · change ∀ e ∈ d.written, _
    rw [written]
    exact fun _ member => absurd member List.not_mem_nil
  · by_cases here : k = row.id
    · exact Or.inl (List.mem_append_right _ (List.mem_singleton.mpr here))
    · rw [Table.slot_write_other here] at pending ⊢
      exact (h.holds k v pending).imp_left fun held => List.mem_append_left _ held

theorem unmarked (h : Handles t i d) {row : OutboxEvent} {sent : Bool} (current : d.current = some (row, sent)) :
    (row, true) ∉ d.done := by
  intro marked
  have distinct := h.distinct
  rw [h.locked, Dispatch.batch, current, List.append_assoc, List.map_append] at distinct
  refine (List.disjoint_of_nodup_append distinct) (a := row.id) ?_ ?_
  · exact List.mem_map_of_mem (List.mem_map_of_mem (f := Prod.fst) marked)
  · simp

theorem mark (h : Handles t i d) {row a b : OutboxEvent} {sent : Bool} (current : d.current = some (row, sent))
    (seen : (t.slot row.id).view i = some a) (fixed : OutboxQuery.fixed b = OutboxQuery.fixed a)
    (published : b.publishedAt ≠ none ↔ sent = true) :
    Handles (t.write i row.id (some b)) i { d with done := d.done ++ d.current.toList, current := none } := by
  have member : row ∈ d.batch := by simp [Dispatch.batch, current]
  have keys := Table.mem_keys_of_view seen
  have queue : ({ d with done := d.done ++ d.current.toList, current := none } : Dispatch).batch = d.batch := by
    simp [Dispatch.batch, current]
  have marks : ∀ row' : OutboxEvent, (row', true) ∈ d.done ++ d.current.toList ↔
      (row', true) ∈ d.done ∨ row' = row ∧ sent = true := by
    intro row'
    simp [current, eq_comm]
  refine ⟨?_, h.distinct, fun row' member' => ?_, fun e member' => ?_, fun k v pending => ?_⟩
  · rw [queue]
    exact h.locked
  · rw [queue] at member'
    obtain ⟨c, old, pending, committed, same, unpublished, iff⟩ := h.rows row' member'
    by_cases here : row' = row
    · subst here
      rw [Table.slot_write_self keys]
      refine ⟨b, old, rfl, committed, ?_, unpublished, ?_⟩
      · rw [Slot.view_of_pending pending] at seen
        obtain rfl := Option.some.inj seen
        exact fixed.trans same
      · rw [published]
        refine ⟨fun yes => (marks row').mpr (Or.inr ⟨rfl, yes⟩), fun marked => ?_⟩
        exact (((marks row').mp marked).resolve_left (h.unmarked current)).2
    · have apart : row'.id ≠ row.id := fun same => here (h.eq_of_id member' member same)
      rw [Table.slot_write_other apart]
      refine ⟨c, old, pending, committed, same, unpublished, iff.trans ?_⟩
      exact ⟨fun marked => (marks row').mpr (Or.inl marked), fun marked =>
        ((marks row').mp marked).resolve_right fun ⟨same, _⟩ => here same⟩
  · obtain ⟨pending, absent, rest⟩ := h.writes e member'
    have apart : e.id ≠ row.id := by
      intro same
      obtain ⟨-, old, -, committed, -⟩ := h.rows row member
      rw [same, committed] at absent
      cases absent
    rw [Table.slot_write_other apart]
    exact ⟨pending, absent, rest⟩
  · by_cases here : k = row.id
    · refine Or.inl ?_
      change k ∈ d.locked
      rw [here, h.locked]
      exact List.mem_map_of_mem member
    · rw [Table.slot_write_other here] at pending ⊢
      exact h.holds k v pending

theorem seen_of_current (h : Handles t i d) {row : OutboxEvent} {sent : Bool} (current : d.current = some (row, sent)) :
    ∃ a, (t.slot row.id).view i = some a ∧ a.publishedAt = none ∧ OutboxQuery.fixed a = OutboxQuery.fixed row := by
  obtain ⟨a, old, pending, -, fixed, -, iff⟩ := h.rows row (by simp [Dispatch.batch, current])
  refine ⟨a, Slot.view_of_pending pending, ?_, fixed⟩
  by_contra published
  exact h.unmarked current (iff.mp published)

theorem deletes (h : Handles t i d) {k : Id} (pending : (t.slot k).pending = some (i, none)) :
    ∃ old, (t.slot k).committed = some old ∧ old.publishedAt ≠ none := by
  rcases h.holds k none pending with held | ⟨e, -, -, same⟩ | ⟨-, gone⟩
  · rw [h.locked] at held
    obtain ⟨row, member, rfl⟩ := List.mem_map.mp held
    obtain ⟨a, -, locked, -⟩ := h.rows row member
    cases pending.symm.trans locked
  · cases same
  · exact gone

theorem send (h : Handles t i d) {row : OutboxEvent} {rest appended : List OutboxEvent} {sent : Bool}
    (current : d.current = none) (todo : d.todo = row :: rest) :
    Handles t i { d with current := some (row, sent), todo := rest, appended := appended } := by
  have queue : ({ d with current := some (row, sent), todo := rest, appended := appended } : Dispatch).batch =
      d.batch := by
    simp [Dispatch.batch, current, todo]
  refine ⟨?_, h.distinct, ?_, h.writes, h.holds⟩
  · rw [queue]
    exact h.locked
  · rw [queue]
    exact h.rows

theorem purge (h : Handles t i d) {k : Id} {a : OutboxEvent} (locked : d.locked = [])
    (seen : (t.slot k).view i = some a)
    (published : a.publishedAt ≠ none) : (t.slot k).committed = some a ∧ Handles (t.write i k none) i d := by
  have batch := h.batch_nil locked
  have away : ∀ v, (t.slot k).pending = some (i, v) → v = none := by
    intro v pending
    rw [Slot.view_of_pending pending] at seen
    rcases h.holds k v pending with held | ⟨e, member, -, same⟩ | ⟨gone, -⟩
    · rw [locked] at held
      cases held
    · obtain rfl := Option.some.inj (seen.symm.trans same)
      exact (published (h.writes _ member).2.2).elim
    · exact gone
  have free : (t.slot k).holder ≠ some i := by
    intro held
    have gone := away _ (Slot.pending_of_holder held)
    cases seen.symm.trans gone
  have committed : (t.slot k).committed = some a := by rwa [Slot.view_of_not_holder free] at seen
  refine ⟨committed, h.locked, h.distinct, ?_, fun e member => ?_, fun k' v pending => ?_⟩
  · rw [batch]
    exact fun _ member => absurd member List.not_mem_nil
  · obtain ⟨pending, rest⟩ := h.writes e member
    have apart : e.id ≠ k := by
      rintro rfl
      cases away _ pending
    rw [Table.slot_write_other apart]
    exact ⟨pending, rest⟩
  · by_cases here : k' = k
    · subst here
      rw [Table.slot_write_self (Table.mem_keys_of_view seen)] at pending ⊢
      cases pending
      exact Or.inr (Or.inr ⟨rfl, a, committed, published⟩)
    · rw [Table.slot_write_other here] at pending ⊢
      exact h.holds k' v pending

end Handles

/-- A command is a send, a successful statement on the outbox, a command that does not concern the
outbox, or the end of the transaction. -/
theorem Dispatch.step_cases {s s' : Database} {env : Env} {i : Nat} {c : Cmd} {r : Except Error c.Ret}
    (ran : exec platform env i c s = some (r, s')) (d : Dispatch) :
    (∃ m, c = .send m) ∨
    (∃ q a, (.ran c r : Event signature) = .ran (.sql .outbox q) (.ok a) ∧
      OutboxQuery.exec (env.context i s) i (s.tables .outbox) q = .ok a (s'.tables .outbox)) ∨
    ((∀ m, c ≠ .send m) ∧ d.next c r = d ∧ s'.tables .outbox = s.tables .outbox) ∨
    ((∀ m, c ≠ .send m) ∧ fate c r ≠ .isOpen ∧ d.next c r = d.settle (fate c r) ∧
      s'.tables .outbox = (s.tables .outbox).settle i (fate c r)) := by
  by_cases sends : ∃ m, c = .send m
  · exact Or.inl sends
  have quiet : ∀ m, c ≠ .send m := fun m same => sends ⟨m, same⟩
  by_cases ends : fate c r = .isOpen
  · by_cases isOutbox : ∃ q, c = .sql .outbox q
    · obtain ⟨q, rfl⟩ := isOutbox
      rcases exec_sql ran with ⟨e, rfl, -⟩ | ⟨a, rfl, done⟩
      · cases ends
      · exact Or.inr (Or.inl ⟨q, a, rfl, done⟩)
    · have away : ∀ q, c ≠ .sql .outbox q := fun q same => isOutbox ⟨q, same⟩
      refine Or.inr (Or.inr (Or.inl ⟨quiet, ?_, ?_⟩))
      · simp only [Dispatch.next, ends]
        unfold Dispatch.after
        split <;> first | rfl | exact (quiet _ rfl).elim | exact (away _ rfl).elim
      · rw [exec_frame ran .outbox away, ends]
        rfl
  · refine Or.inr (Or.inr (Or.inr ⟨quiet, ends, ?_, exec_ends ran ends .outbox⟩))
    cases h : fate c r with
    | isOpen => exact (ends h).elim
    | _ => simp only [Dispatch.next, h]

theorem Dispatch.next_send {d : Dispatch} {row : OutboxEvent} {rest : List OutboxEvent} (todo : d.todo = row :: rest)
    (m : Message) (r : Except Error Unit) : d.next (.send m) r = { d with
      current := some (row, r.toBool)
      todo := rest
      appended := if r.toBool then d.appended ++ [row] else d.appended } := by
  cases r <;> simp [Dispatch.next, fate, Dispatch.after, todo, Except.toBool]

namespace Handling
variable {t t' : Table Id OutboxEvent} {g : Nat → Dispatch} {i : Nat} {d : Dispatch}

theorem empty : Handling Table.empty fun _ => {} where
  keyed := .empty
  kept := .empty
  handles i := ⟨rfl, List.nodup_nil, fun _ member => absurd member List.not_mem_nil,
    fun _ member => absurd member List.not_mem_nil, fun _ _ pending => by cases pending⟩

theorem statement (inv : Handling t g) {new : Option OutboxEvent}
    (moved : t.Moved OutboxEvent.id OutboxQuery.fixed i new t') (own : Handles t' i d) :
    Handling t' (Function.update g i d) where
  keyed := inv.keyed.moved moved
  kept := inv.kept.moved moved
  handles j := by
    by_cases mine : j = i
    · subst mine
      rwa [Function.update_self]
    · rw [Function.update_of_ne mine]
      exact (inv.handles j).other mine moved

theorem query (inv : Handling t g) {ctx : Context} {q : OutboxQuery} {a : q.Ret}
    (allowed : (dispatchProtocol platform).allowed (g i) (.sql .outbox q))
    (done : OutboxQuery.exec ctx i t q = .ok a t') :
    Handling t' (Function.update g i ((g i).after (.sql .outbox q) (.ok a))) := by
  have moved : t.Moved OutboxEvent.id OutboxQuery.fixed i (OutboxQuery.inserted q a) t' := OutboxQuery.exec_moved done
  refine inv.statement moved ?_
  have h := inv.handles i
  cases q with
  | insert topic key payload =>
    obtain ⟨built, fresh, table, -⟩ := insertRow_ok done
    have id : a.id = ctx.id := by rw [built]
    rw [← built] at table
    subst table
    have unpublished : a.publishedAt = none := by rw [built]
    have own : a.id ∉ t.keys := by rwa [id]
    have inserted : Handles (t.insert i a.id a own) i { g i with written := (g i).written ++ [a] } :=
      h.insert allowed unpublished
    simp only [id] at inserted
    exact inserted
  | readyIds now =>
    simp only [OutboxQuery.exec] at done
    split at done
    · cases done
      exact h
    · cases done
  | lockReady id now =>
    simp only [OutboxQuery.exec] at done
    split at done
    · cases done
      exact h
    · cases done
      exact h
    · rename_i row t'' wrote
      cases done
      obtain ⟨seen, ready, -, rfl⟩ := Table.updateRow_wrote wrote
      obtain rfl : row.id = id := inv.keyed id row (Slot.version_view seen)
      simp only [OutboxQuery.ready, decide_eq_true_eq] at ready
      obtain ⟨written, current, marks, fresh⟩ := allowed
      exact (h.lock seen ready.1 written current marks fresh).2.2
  | markPublished id publishedAt =>
    obtain ⟨row, current, rfl⟩ := allowed
    obtain ⟨b, seen, -⟩ := h.seen_of_current current
    rcases changeRow_ok done with ⟨-, missed⟩ | ⟨b', seen', -, -, rfl⟩
    · cases missed b seen
    · exact h.mark current seen' rfl (by simp)
  | markFailed id attempts lastError nextAttemptAt =>
    obtain ⟨row, current, rfl⟩ := allowed
    obtain ⟨b, seen, unpublished, -⟩ := h.seen_of_current current
    simp only [OutboxQuery.exec] at done
    split at done
    · cases done
    · rcases changeRow_ok done with ⟨-, missed⟩ | ⟨b', seen', -, -, rfl⟩
      · cases missed b seen
      · obtain rfl := Option.some.inj (seen.symm.trans seen')
        exact h.mark current seen' rfl (by simp [unpublished])
  | purgeableIds olderThan =>
    cases done
    exact h
  | purgeRow id olderThan =>
    simp only [OutboxQuery.exec] at done
    split at done
    · cases done
      exact h
    · cases done
    · rename_i row t'' wrote
      cases done
      obtain ⟨seen, purgeable, -, rfl⟩ := Table.updateRow_wrote wrote
      obtain ⟨time, published, -⟩ := (Option.any_eq_true ..).mp purgeable
      exact (h.purge allowed seen (by simp [published])).2

theorem settle (inv : Handling t g) {fate : Fate} (ends : fate ≠ .isOpen) :
    Handling (t.settle i fate) (Function.update g i ((g i).settle fate)) where
  keyed := inv.keyed.settle fate
  kept := inv.kept.settle fate
  handles j := by
    by_cases mine : j = i
    · subst mine
      rw [Function.update_self]
      exact Handles.ended ends
    · rw [Function.update_of_ne mine]
      exact (inv.handles j).settle_other mine fate

theorem step {s s' : Database} {env : Env} {c : Cmd} {r : Except Error c.Ret} (inv : Handling (s.tables .outbox) g)
    (allowed : (dispatchProtocol platform).allowed (g i) c) (ran : exec platform env i c s = some (r, s')) :
    Handling (s'.tables .outbox) (Function.update g i ((g i).next c r)) := by
  rcases Dispatch.step_cases ran (g i) with ⟨m, rfl⟩ | ⟨q, a, same, done⟩ | ⟨-, next, table⟩ | ⟨-, ends, next, table⟩
  · obtain ⟨current, row, rest, todo, -⟩ := allowed
    rw [(exec_send ran).1, Dispatch.next_send todo]
    exact inv.statement (show (s.tables .outbox).Moved OutboxEvent.id OutboxQuery.fixed i none _ from .still rfl)
      ((inv.handles i).send current todo)
  · cases same
    exact inv.query allowed done
  · rw [next, table]
    exact inv.statement (show (s.tables .outbox).Moved OutboxEvent.id OutboxQuery.fixed i none _ from .still rfl)
      (inv.handles i)
  · rw [next, table]
    exact inv.settle ends

end Handling

/-! ### The application on any database -/

/-- The application on the database `s`. -/
abbrev applicationFrom (platform : Platform) (settings : Settings) (s : Database) : System signature :=
  { application platform settings with init := s }

/-- The work that requests bring along uses the outbox through `enqueue_event` only. -/
def Deliveries {s : Database} (_ : World (applicationFrom platform settings s)) :
    Label (applicationFrom platform settings s) → Prop
  | .start _ q => Request.Enqueueing q
  | _ => True

theorem deliveries_dispatch {s : Database} {ok : World (applicationFrom platform settings s) →
    Label (applicationFrom platform settings s) → Prop} (deliveries : ∀ w l, ok w l → Deliveries w l) :
    Disciplined (Y := applicationFrom platform settings s) ok (dispatchProtocol platform)
      fun _ (g : Dispatch) _ => g.Idle where
  answers _ _ _ _ _ _ ran := ⟨exec_answer ran, exec_foundOnce ran⟩
  code w i q start := by
    have enqueueing : q.Enqueueing := deliveries w _ start
    have reply : ∀ {α : Type} {p : Prog α} {f : α → Reply},
        p.Follows (dispatchProtocol platform) (fun (g : Dispatch) _ => g.Idle) {} →
        (f <$> p).Follows (dispatchProtocol platform) (fun (g : Dispatch) _ => g.Idle) {} := by
      intro α p f h
      refine Program.follows_bind.mpr (h.mono fun g r idle => ?_)
      cases r <;> exact idle
    have clear : ({} : Dispatch).Idle := ⟨rfl, rfl, rfl, rfl⟩
    cases q with
    | relayOnce n => exact reply (relayOnce_follows clear rfl)
    | purgeOnce h => exact reply (purgeOnce_follows clear)
    | _ => exact follows_enqueues (@code_enqueues platform settings _ enqueueing (by simp) (by simp)) clear

theorem reachable_handling {s : Database} {ok : World (applicationFrom platform settings s) →
    Label (applicationFrom platform settings s) → Prop} (deliveries : ∀ w l, ok w l → Deliveries w l)
    (start : Handling (s.tables .outbox) fun _ => {}) {w : World (applicationFrom platform settings s)}
    (reached : Reachable ok w) : Handling (w.state.tables .outbox) (w.ghost (dispatchProtocol platform)) := by
  refine (deliveries_dispatch deliveries).invariant (fun s g => Handling (s.tables .outbox) g) start ?_ ?_ reached
  · intro w i env c r s' _ inv _ _ allowed _ ran
    exact inv.step allowed ran
  · intro w i c _ inv _ _
    rw [Database.tables_settle]
    exact inv.settle (by simp)

end TheClub
