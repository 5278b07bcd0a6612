import TheClub.Handling

/-!
Outbox delivery. Only events of committed transactions reach Kafka, and none is lost: an event that
is committed is in the outbox, unpublished, or in the Kafka log, whatever relays, purges and
business transactions do and wherever they die.
-/

namespace TheClub
open ReadCommitted

variable {platform : Platform} {settings : Settings}

theorem message_of_fixed {a b : OutboxEvent} (same : OutboxQuery.fixed a = OutboxQuery.fixed b) :
    a.message platform = b.message platform := by
  have message := congrArg (OutboxEvent.message platform) same
  exact message

/-- What the outbox, the log and the committed events say about each other between the statements. -/
structure Delivered (platform : Platform) (t : Table Id OutboxEvent) (kafka : List Message) (g : Nat → Dispatch) :
    Prop where
  logged : ∀ m ∈ kafka, ∃ i, ∃ e ∈ (g i).enqueued, m = e.message platform
  rows : ∀ k a, (t.slot k).committed = some a →
    ∃ i, ∃ e ∈ (g i).enqueued, e.id = k ∧ OutboxQuery.fixed e = OutboxQuery.fixed a
  listed : ∀ i, ∀ e ∈ (g i).enqueued, e.id ∈ t.keys
  stored : ∀ i, ∀ e ∈ (g i).enqueued, ∀ a, (t.slot e.id).committed = some a → OutboxQuery.fixed a = OutboxQuery.fixed e
  gone : ∀ i, ∀ e ∈ (g i).enqueued, (t.slot e.id).committed = none → e.message platform ∈ kafka
  published : ∀ k a, (t.slot k).Version a → a.publishedAt ≠ none → a.message platform ∈ kafka
  sent : ∀ i row, (g i).current = some (row, true) → row.message platform ∈ kafka
  fresh : ∀ i, ∀ e ∈ (g i).written, ∀ j, ∀ e' ∈ (g j).enqueued, e'.id ≠ e.id

namespace Delivered
variable {t t' : Table Id OutboxEvent} {kafka : List Message} {g : Nat → Dispatch} {i : Nat} {d : Dispatch}

theorem empty : Delivered platform Table.empty [] fun _ => {} where
  logged _ member := absurd member List.not_mem_nil
  rows _ _ committed := by cases committed
  listed _ _ member := absurd member List.not_mem_nil
  stored _ _ member := absurd member List.not_mem_nil
  gone _ _ member := absurd member List.not_mem_nil
  published _ _ version := (Table.not_version_empty version).elim
  sent _ _ current := by cases current
  fresh _ _ member := absurd member List.not_mem_nil

/-- A step of process `i` that commits nothing. -/
theorem still (inv : Delivered platform t kafka g) (committed : ∀ k, (t'.slot k).committed = (t.slot k).committed)
    (keys : ∀ k ∈ t.keys, k ∈ t'.keys) (enqueued : d.enqueued = (g i).enqueued)
    (published : ∀ k a, (t'.slot k).Version a → a.publishedAt ≠ none → a.message platform ∈ kafka)
    (sent : ∀ row, d.current = some (row, true) → row.message platform ∈ kafka)
    (fresh : ∀ e ∈ d.written, ∀ j, ∀ e' ∈ (g j).enqueued, e'.id ≠ e.id) :
    Delivered platform t' kafka (Function.update g i d) := by
  have same : ∀ j, (Function.update g i d j).enqueued = (g j).enqueued := by
    intro j
    by_cases mine : j = i
    · subst mine
      rw [Function.update_self, enqueued]
    · rw [Function.update_of_ne mine]
  refine ⟨?_, ?_, ?_, ?_, ?_, published, fun j row current => ?_, fun j e member j' e' => ?_⟩
  · simp only [same]
    exact inv.logged
  · intro k a stored
    simp only [same]
    rw [committed] at stored
    exact inv.rows k a stored
  · intro j e member
    rw [same] at member
    exact keys _ (inv.listed j e member)
  · intro j e member
    rw [same] at member
    rw [committed]
    exact inv.stored j e member
  · intro j e member
    rw [same] at member
    rw [committed]
    exact inv.gone j e member
  · by_cases mine : j = i
    · subst mine
      rw [Function.update_self] at current
      exact sent row current
    · rw [Function.update_of_ne mine] at current
      exact inv.sent j row current
  · rw [same]
    by_cases mine : j = i
    · subst mine
      rw [Function.update_self] at member
      exact fresh e member j' e'
    · rw [Function.update_of_ne mine] at member
      exact inv.fresh j e member j' e'

theorem statement (inv : Delivered platform t kafka g) {new : Option OutboxEvent}
    (moved : t.Moved OutboxEvent.id OutboxQuery.fixed i new t') (enqueued : d.enqueued = (g i).enqueued)
    (published : ∀ k a, (t'.slot k).Version a → a.publishedAt ≠ none → a.message platform ∈ kafka)
    (sent : ∀ row, d.current = some (row, true) → row.message platform ∈ kafka)
    (fresh : ∀ e ∈ d.written, ∀ j, ∀ e' ∈ (g j).enqueued, e'.id ≠ e.id) :
    Delivered platform t' kafka (Function.update g i d) :=
  inv.still moved.committed (fun _ => moved.keys) enqueued published sent fresh

theorem query (inv : Delivered platform t kafka g) (handling : Handling t g) {ctx : Context}
    {q : OutboxQuery} {a : q.Ret}
    (allowed : (dispatchProtocol platform).allowed (g i) (.sql .outbox q))
    (done : OutboxQuery.exec ctx i t q = .ok a t') :
    Delivered platform t' kafka (Function.update g i ((g i).after (.sql .outbox q) (.ok a))) := by
  have moved : t.Moved OutboxEvent.id OutboxQuery.fixed i (OutboxQuery.inserted q a) t' := OutboxQuery.exec_moved done
  -- a new version has been published before, or is the row that was sent last
  have written : ∀ {k v}, (v : Option OutboxEvent).all
    (fun b => b.publishedAt = none ∨ b.message platform ∈ kafka) = true →
      t' = t.write i k v → ∀ k a, (t'.slot k).Version a → a.publishedAt ≠ none → a.message platform ∈ kafka := by
    rintro k v fine rfl k' b version published
    rcases Table.version_write version with old | ⟨-, rfl⟩
    · exact inv.published k' b old published
    · simpa [published] using fine
  have h := handling.handles i
  cases q with
  | insert topic key payload =>
    obtain ⟨built, fresh, table, -⟩ := insertRow_ok done
    refine inv.statement moved rfl ?_ (inv.sent i) ?_
    · intro k b version published
      rw [table] at version
      rcases Table.version_insert version with old | ⟨-, new⟩
      · exact inv.published k b old published
      · rw [new] at published
        exact (published rfl).elim
    · intro e member j e' enqueued same
      rcases List.mem_append.mp member with old | new
      · exact inv.fresh i e old j e' enqueued same
      · have own : e.id = ctx.id := by rw [List.mem_singleton.mp new, built]
        have listed := inv.listed j e' enqueued
        rw [same, own] at listed
        exact fresh listed
  | readyIds now =>
    simp only [OutboxQuery.exec] at done
    split at done
    · cases done
      exact inv.statement moved rfl inv.published (inv.sent i) (inv.fresh i)
    · cases done
  | lockReady id now =>
    simp only [OutboxQuery.exec] at done
    split at done
    · cases done
      exact inv.statement moved rfl inv.published (inv.sent i) (inv.fresh i)
    · cases done
      exact inv.statement moved rfl inv.published (inv.sent i) (inv.fresh i)
    · rename_i row t'' wrote
      cases done
      obtain ⟨-, ready, -, table⟩ := Table.updateRow_wrote wrote
      simp only [OutboxQuery.ready, decide_eq_true_eq] at ready
      refine inv.statement moved rfl (written ?_ table) (inv.sent i) (inv.fresh i)
      simp [ready.1]
  | markPublished id publishedAt =>
    obtain ⟨row, current, rfl⟩ := allowed
    obtain ⟨b, seen, -, fixed⟩ := h.seen_of_current current
    rcases changeRow_ok done with ⟨-, missed⟩ | ⟨b', seen', -, -, table⟩
    · cases missed b seen
    · obtain rfl := Option.some.inj (seen.symm.trans seen')
      refine inv.statement moved rfl (written ?_ table) (fun _ none => by cases none) (inv.fresh i)
      have sent : b.message platform ∈ kafka := message_of_fixed fixed ▸ inv.sent i row current
      have same : ({ b with publishedAt := some publishedAt } : OutboxEvent).message platform = b.message platform :=
        message_of_fixed rfl
      simp [same, sent]
  | markFailed id attempts lastError nextAttemptAt =>
    obtain ⟨row, current, rfl⟩ := allowed
    obtain ⟨b, seen, unpublished, -⟩ := h.seen_of_current current
    simp only [OutboxQuery.exec] at done
    split at done
    · cases done
    · rcases changeRow_ok done with ⟨-, missed⟩ | ⟨b', seen', -, -, table⟩
      · cases missed b seen
      · obtain rfl := Option.some.inj (seen.symm.trans seen')
        refine inv.statement moved rfl (written ?_ table) (fun _ none => by cases none) (inv.fresh i)
        simp [unpublished]
  | purgeableIds olderThan =>
    cases done
    exact inv.statement moved rfl inv.published (inv.sent i) (inv.fresh i)
  | purgeRow id olderThan =>
    simp only [OutboxQuery.exec] at done
    split at done
    · cases done
      exact inv.statement moved rfl inv.published (inv.sent i) (inv.fresh i)
    · cases done
    · rename_i row t'' wrote
      cases done
      obtain ⟨-, -, -, table⟩ := Table.updateRow_wrote wrote
      exact inv.statement moved rfl (written (by simp) table) (inv.sent i) (inv.fresh i)

/-- The log grows by the message of a committed event. -/
theorem append (inv : Delivered platform t kafka g) {m : Message}
    (known : ∃ j, ∃ e ∈ (g j).enqueued, m = e.message platform) :
    Delivered platform t (kafka ++ [m]) g where
  logged m' member := by
    rcases List.mem_append.mp member with old | new
    · exact inv.logged m' old
    · rw [List.mem_singleton.mp new]
      exact known
  rows := inv.rows
  listed := inv.listed
  stored := inv.stored
  gone j e member absent := List.mem_append_left _ (inv.gone j e member absent)
  published k a version marked := List.mem_append_left _ (inv.published k a version marked)
  sent j row current := List.mem_append_left _ (inv.sent j row current)
  fresh := inv.fresh

/-- A row that a relay is about to send is a committed event. -/
theorem known (inv : Delivered platform t kafka g) (handling : Handling t g) {row : OutboxEvent}
    (member : row ∈ (g i).batch) : ∃ j, ∃ e ∈ (g j).enqueued, row.message platform = e.message platform := by
  obtain ⟨a, old, pending, committed, fixed, -⟩ := (handling.handles i).rows row member
  obtain ⟨j, e, enqueued, -, same⟩ := inv.rows _ _ committed
  have kept := handling.kept _ _ _ _ pending committed
  exact ⟨j, e, enqueued, message_of_fixed (fixed.symm.trans (kept.trans same.symm))⟩

theorem send (inv : Delivered platform t kafka g) (handling : Handling t g) {row : OutboxEvent}
    {rest : List OutboxEvent}
    {kafka' : List Message} {sent : Bool} {appended : List OutboxEvent} (todo : (g i).todo = row :: rest)
    (log : kafka' = kafka ++ [row.message platform] ∨ sent = false ∧ kafka' = kafka) :
    Delivered platform t kafka' (Function.update g i { g i with
      current := some (row, sent)
      todo := rest
      appended := appended }) := by
  have member : row ∈ (g i).batch := by simp [Dispatch.batch, todo]
  rcases log with rfl | ⟨rfl, rfl⟩
  · have grown := inv.append (inv.known handling member)
    refine grown.still (fun _ => rfl) (fun _ => id) rfl grown.published (fun row' current => ?_) (grown.fresh i)
    obtain ⟨rfl, -⟩ := Prod.mk.inj (Option.some.inj current)
    simp
  · exact inv.still (fun _ => rfl) (fun _ => id) rfl inv.published (fun _ failed => by cases failed) (inv.fresh i)

theorem undone (inv : Delivered platform t kafka g) :
    Delivered platform (t.settle i .undone) kafka (Function.update g i ((g i).settle .undone)) := by
  refine inv.still (fun k => by simp [Table.settle]) (fun _ => id) rfl ?_ (fun _ none => by cases none)
    fun _ none => absurd none List.not_mem_nil
  intro k a version
  exact inv.published k a (Table.version_settle version)

/-- A commit: what the transaction has written is now committed. -/
theorem applied (inv : Delivered platform t kafka g) (handling : Handling t g) :
    Delivered platform (t.settle i .applied) kafka (Function.update g i ((g i).settle .applied)) := by
  have h := handling.handles i
  have events : ∀ j e, e ∈ (Function.update g i ((g i).settle .applied) j).enqueued ↔
      e ∈ (g j).enqueued ∨ j = i ∧ e ∈ (g i).written := by
    intro j e
    by_cases mine : j = i
    · subst mine
      simp [Dispatch.settle]
    · simp [mine]
  have old : ∀ {j e}, e ∈ (g j).enqueued → ∀ v, (t.slot e.id).pending = some (i, v) →
      ∃ before, (t.slot e.id).committed = some before := by
    intro j e enqueued v pending
    rcases h.holds _ v pending with held | ⟨e', member, same, -⟩ | ⟨-, before, committed, -⟩
    · rw [h.locked] at held
      obtain ⟨row, member, same⟩ := List.mem_map.mp held
      obtain ⟨-, before, -, committed, -⟩ := h.rows row member
      exact ⟨before, same ▸ committed⟩
    · exact (inv.fresh i e' member j e enqueued same.symm).elim
    · exact ⟨before, committed⟩
  refine ⟨fun m logged => ?_, fun k a committed => ?_, fun j e member => ?_, fun j e member a committed => ?_,
    fun j e member absent => ?_, fun k a version => ?_, fun j row current => ?_, fun j e member j' e' member' => ?_⟩
  · obtain ⟨j, e, member, same⟩ := inv.logged m logged
    exact ⟨j, e, (events j e).mpr (Or.inl member), same⟩
  · rcases Table.committed_settle i .applied k t with same | ⟨-, pending⟩
    · obtain ⟨j, e, member, own⟩ := inv.rows k a (same ▸ committed)
      exact ⟨j, e, (events j e).mpr (Or.inl member), own⟩
    · rw [committed] at pending
      rcases h.holds k _ pending with held | ⟨e, member, own, same⟩ | ⟨gone, -⟩
      · rw [h.locked] at held
        obtain ⟨row, member, rfl⟩ := List.mem_map.mp held
        obtain ⟨a', before, pending', known, -⟩ := h.rows row member
        obtain ⟨j, e, member, own, same⟩ := inv.rows _ before known
        exact ⟨j, e, (events j e).mpr (Or.inl member), own, same.trans (handling.kept _ _ _ _ pending known).symm⟩
      · obtain rfl := Option.some.inj same
        exact ⟨i, a, (events i a).mpr (Or.inr ⟨rfl, member⟩), own, rfl⟩
      · cases gone
  · rw [Table.keys_settle]
    rcases (events j e).mp member with earlier | ⟨-, new⟩
    · exact inv.listed j e earlier
    · exact Table.mem_keys_of_version (Or.inr ⟨i, (h.writes e new).1⟩)
  · rcases (events j e).mp member with earlier | ⟨-, new⟩
    · rcases Table.committed_settle i .applied e.id t with same | ⟨-, pending⟩
      · exact inv.stored j e earlier a (same ▸ committed)
      · obtain ⟨before, known⟩ := old earlier _ pending
        rw [committed] at pending
        exact (handling.kept _ _ _ _ pending known).trans (inv.stored j e earlier before known)
    · obtain ⟨pending, -⟩ := h.writes e new
      have stored : ((t.settle i .applied).slot e.id).committed = some e := by
        simp [Table.settle, Slot.view_of_pending pending]
      rw [stored] at committed
      obtain rfl := Option.some.inj committed
      rfl
  · rcases (events j e).mp member with earlier | ⟨-, new⟩
    · rcases Table.committed_settle i .applied e.id t with same | ⟨-, pending⟩
      · exact inv.gone j e earlier (same ▸ absent)
      · rw [absent] at pending
        obtain ⟨before, known, published⟩ := h.deletes pending
        rw [← message_of_fixed (inv.stored j e earlier before known)]
        exact inv.published _ before (Or.inl known) published
    · obtain ⟨pending, -⟩ := h.writes e new
      simp [Table.settle, Slot.view_of_pending pending] at absent
  · exact inv.published k a (Table.version_settle version)
  · by_cases mine : j = i
    · subst mine
      rw [Function.update_self] at current
      cases current
    · rw [Function.update_of_ne mine] at current
      exact inv.sent j row current
  · by_cases mine : j = i
    · subst mine
      rw [Function.update_self] at member
      cases member
    · rw [Function.update_of_ne mine] at member
      rcases (events j' e').mp member' with earlier | ⟨-, new⟩
      · exact inv.fresh j e member j' e' earlier
      · intro same
        obtain ⟨pending, -⟩ := (handling.handles j).writes e member
        obtain ⟨pending', -⟩ := h.writes e' new
        rw [same, pending] at pending'
        exact mine (congrArg Prod.fst (Option.some.inj pending'))

theorem step {s s' : Database} {env : Env} {c : Cmd} {r : Except Error c.Ret}
    (inv : Delivered platform (s.tables .outbox) s.kafka g) (handling : Handling (s.tables .outbox) g)
    (allowed : (dispatchProtocol platform).allowed (g i) c) (ran : exec platform env i c s = some (r, s')) :
    Delivered platform (s'.tables .outbox) s'.kafka (Function.update g i ((g i).next c r)) := by
  rcases Dispatch.step_cases ran (g i) with ⟨m, rfl⟩ | ⟨q, a, same, done⟩ | ⟨quiet, next, table⟩ |
    ⟨quiet, ends, next, table⟩
  · obtain ⟨-, row, rest, todo, rfl⟩ := allowed
    obtain ⟨tables, log⟩ := exec_send ran
    rw [tables, Dispatch.next_send todo]
    refine inv.send handling todo (log.imp_right ?_)
    rintro ⟨⟨e, rfl⟩, same⟩
    exact ⟨rfl, same⟩
  · cases same
    rw [exec_kafka ran (by simp)]
    exact inv.query handling allowed done
  · rw [exec_kafka ran quiet, next, table]
    exact inv.still (fun _ => rfl) (fun _ => id) rfl inv.published (inv.sent i) (inv.fresh i)
  · rw [exec_kafka ran quiet, next, table]
    cases h : fate c r with
    | isOpen => exact (ends h).elim
    | applied => exact inv.applied handling
    | undone => exact inv.undone

end Delivered

variable {w : World (application platform settings)}

theorem reachable_delivered (reached : Reachable (Deliveries (s := Database.empty)) w) :
    Delivered platform (w.state.tables .outbox) w.state.kafka (w.ghost (dispatchProtocol platform)) := by
  have dispatch : Disciplined (Y := applicationFrom platform settings Database.empty) Deliveries
      (dispatchProtocol platform) fun _ (g : Dispatch) _ => g.Idle := deliveries_dispatch fun _ _ => id
  refine dispatch.invariant (fun s g => Delivered platform (s.tables .outbox) s.kafka g) .empty ?_ ?_ reached
  · intro w i env c r s' before inv _ _ allowed _ ran
    exact inv.step (reachable_handling (fun _ _ => id) .empty before) allowed ran
  · intro w i c _ inv _ _
    have tables := Database.tables_settle i .undone w.state .outbox
    have log := Database.kafka_settle i .undone w.state
    change Delivered platform ((w.state.settle i .undone).tables .outbox) (w.state.settle i .undone).kafka _
    rw [tables, log]
    exact inv.undone

/-- `e` is an event that a committed transaction has inserted. -/
def Enqueued (w : World (application platform settings)) (e : OutboxEvent) : Prop :=
  ∃ i, e ∈ (w.ghost (dispatchProtocol platform) i).enqueued

structure OutboxDelivery (w : World (application platform settings)) : Prop where
  /-- Every message is that of a committed event. -/
  onlyCommitted : ∀ m ∈ w.state.kafka, ∃ e, Enqueued w e ∧ m = e.message platform
  /-- Every committed event is in the outbox, unpublished, or in Kafka. -/
  noneLost : ∀ e, Enqueued w e →
    (∃ row, ((w.state.tables .outbox).slot e.id).committed = some row ∧ row.publishedAt = none ∧
      OutboxQuery.fixed row = OutboxQuery.fixed e) ∨ e.message platform ∈ w.state.kafka
  /-- A purge removes only events that are in Kafka. -/
  purged : ∀ i id olderThan env s', w.AboutTo i (.sql .outbox (.purgeRow id olderThan)) →
    exec platform env i (.sql .outbox (.purgeRow id olderThan)) w.state = some (.ok true, s') →
    ∃ e, Enqueued w e ∧ e.id = id ∧ e.message platform ∈ w.state.kafka

theorem outbox_delivery (reached : Reachable (Deliveries (s := Database.empty)) w) : OutboxDelivery w := by
  have inv := reachable_delivered reached
  have handling := reachable_handling (fun _ _ => id) .empty reached
  refine ⟨fun m logged => ?_, ?_, fun i id olderThan env s' about ran => ?_⟩
  · obtain ⟨i, e, member, same⟩ := inv.logged m logged
    exact ⟨e, ⟨i, member⟩, same⟩
  · rintro e ⟨i, member⟩
    cases known : ((w.state.tables .outbox).slot e.id).committed with
    | none => exact Or.inr (inv.gone i e member known)
    | some row =>
      have same := inv.stored i e member row known
      by_cases unpublished : row.publishedAt = none
      · exact Or.inl ⟨row, rfl, unpublished, same⟩
      · rw [← message_of_fixed same]
        exact Or.inr (inv.published _ row (Or.inl known) unpublished)
  · have idle : (w.ghost (dispatchProtocol platform) i : Dispatch).locked = [] :=
      (deliveries_dispatch (s := Database.empty) fun _ _ meets => meets).allowed reached about
    rcases exec_sql ran with ⟨e, same, -⟩ | ⟨deleted, same, done⟩
    · cases same
    · cases same
      simp only [Query.exec, OutboxQuery.exec] at done
      split at done
      · cases done
      · cases done
      · rename_i row t wrote
        obtain ⟨seen, purgeable, -⟩ := Table.updateRow_wrote wrote
        obtain ⟨time, published, -⟩ := (Option.any_eq_true ..).mp purgeable
        have marked : row.publishedAt ≠ none := by simp [published]
        obtain ⟨committed, -⟩ := (handling.handles i).purge idle seen marked
        obtain ⟨j, e, member, own, same⟩ := inv.rows id row committed
        refine ⟨e, ⟨j, member⟩, own, ?_⟩
        rw [message_of_fixed same]
        exact inv.published id row (Or.inl committed) marked

theorem useCases_deliveries {w : World (application platform settings)} {l : Label (application platform settings)}
    (useCase : UseCases w l) : Deliveries (s := Database.empty) w l := by
  cases l with
  | start i q => cases q <;> trivial
  | _ => trivial

/-- User 12 deposits 1000, and a relay sends the event of it. -/
def sampleDelivery : SampleWorld :=
  sampleRun (sampleRegistration ++ .start 1 (.deposit 12 "deposit-1" 1000) :: turns 1 2 30 7 ++
  .start 2 (.relayOnce 10) :: .run 2 { now := 3 } :: .run 2 { now := 3, order := [35] } :: turns 2 3 50 5)

theorem outbox_delivery_sampleDelivery : sampleDelivery.state.kafka.length = 1 ∧ OutboxDelivery sampleDelivery :=
  ⟨by decide +kernel, outbox_delivery ((sampleRun_reachable _).mono fun _ _ => useCases_deliveries)⟩

end TheClub
