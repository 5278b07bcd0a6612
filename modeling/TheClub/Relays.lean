import TheClub.Handling

/-!
Several relays on one outbox. As long as no relay's transaction is rolled back and a send appends
exactly if it returns normally, the relays lock disjoint batches, every event is appended at most
once, and between relay runs the rows marked as published are those that were appended.
-/

namespace TheClub
open ReadCommitted Program

variable {platform : Platform} {settings : Settings}

/-- The sends of the open transaction, and whether they returned normally. -/
def Dispatch.sends (g : Dispatch) : List (OutboxEvent × Bool) := g.done ++ g.current.toList

/-- The appended events `log` and the outbox between the statements. -/
structure Once (t : Table Id OutboxEvent) (log : List OutboxEvent) (g : Nat → Dispatch) : Prop where
  once : (log.map OutboxEvent.id).Nodup
  listed : ∀ e ∈ log, e.id ∈ t.keys
  sent : ∀ i row, (row, true) ∈ (g i).sends → row ∈ log
  marked : ∀ e ∈ log, (∃ i, (e, true) ∈ (g i).sends) ∨ ∀ a, (t.slot e.id).Version a → a.publishedAt ≠ none
  published : ∀ k a, (t.slot k).committed = some a → a.publishedAt ≠ none → ∃ e ∈ log, e.id = k

theorem Dispatch.sends_batch {g : Dispatch} {row : OutboxEvent} {sent : Bool} (member : (row, sent) ∈ g.sends) :
    row ∈ g.batch := by
  have first : row ∈ g.sends.map Prod.fst := List.mem_map_of_mem (f := Prod.fst) member
  rw [Dispatch.sends, List.map_append] at first
  exact List.mem_append_left _ first

theorem Dispatch.sends_nil {g : Dispatch} (batch : g.batch = []) : g.sends = [] := by
  rw [Dispatch.batch, ← List.map_append, ← Dispatch.sends] at batch
  exact List.map_eq_nil_iff.mp (List.append_eq_nil_iff.mp batch).1

/-- Two relays never have the same row locked. -/
theorem Handling.batches_apart {t : Table Id OutboxEvent} {g : Nat → Dispatch} (handling : Handling t g) {i j : Nat}
    {row row' : OutboxEvent} (member : row ∈ (g i).batch) (member' : row' ∈ (g j).batch) (same : row.id = row'.id) :
    i = j := by
  obtain ⟨a, -, pending, -⟩ := (handling.handles i).rows row member
  obtain ⟨a', -, pending', -⟩ := (handling.handles j).rows row' member'
  rw [same, pending'] at pending
  exact (congrArg Prod.fst (Option.some.inj pending)).symm

namespace Once
variable {t t' : Table Id OutboxEvent} {log : List OutboxEvent} {g : Nat → Dispatch} {i : Nat} {d : Dispatch}

/-- A statement of process `i` that sends nothing. -/
theorem statement (inv : Once t log g) {new : Option OutboxEvent}
    (moved : t.Moved OutboxEvent.id OutboxQuery.fixed i new t') (sends : d.sends = (g i).sends)
    (versions : ∀ e ∈ log, ∀ a, (t'.slot e.id).Version a → a.publishedAt = none →
      ∃ b, (t.slot e.id).Version b ∧ b.publishedAt = none) : Once t' log (Function.update g i d) := by
  have same : ∀ j, (Function.update g i d j).sends = (g j).sends := by
    intro j
    by_cases mine : j = i
    · subst mine
      rw [Function.update_self, sends]
    · rw [Function.update_of_ne mine]
  refine ⟨inv.once, fun e member => moved.keys (inv.listed e member), ?_, fun e member => ?_, fun k a committed => ?_⟩
  · simp only [same]
    exact inv.sent
  · simp only [same]
    refine (inv.marked e member).imp_right fun published a version unpublished => ?_
    obtain ⟨b, old, none⟩ := versions e member a version unpublished
    exact published b old none
  · rw [moved.committed] at committed
    exact inv.published k a committed

theorem query (inv : Once t log g) (handling : Handling t g) {ctx : Context} {q : OutboxQuery} {a : q.Ret}
    (allowed : (dispatchProtocol platform).allowed (g i) (.sql .outbox q))
    (done : OutboxQuery.exec ctx i t q = .ok a t') :
    Once t' log (Function.update g i ((g i).after (.sql .outbox q) (.ok a))) := by
  have moved : t.Moved OutboxEvent.id OutboxQuery.fixed i (OutboxQuery.inserted q a) t' := OutboxQuery.exec_moved done
  have unchanged : t' = t → ∀ e ∈ log, ∀ b, (t'.slot e.id).Version b → b.publishedAt = none →
      ∃ b, (t.slot e.id).Version b ∧ b.publishedAt = none := by
    rintro rfl e - b version unpublished
    exact ⟨b, version, unpublished⟩
  -- a new unpublished version comes from an unpublished one
  have written : ∀ {k v b}, (t.slot k).view i = some b → (∀ c ∈ v, c.publishedAt = none → b.publishedAt = none) →
      t' = t.write i k v → ∀ e ∈ log, ∀ c, (t'.slot e.id).Version c → c.publishedAt = none →
        ∃ b, (t.slot e.id).Version b ∧ b.publishedAt = none := by
    rintro k v b seen keeps rfl e - c version unpublished
    rcases Table.version_write version with old | ⟨here, rfl⟩
    · exact ⟨c, old, unpublished⟩
    · exact ⟨b, here ▸ Slot.version_view seen, keeps c rfl unpublished⟩
  have h := handling.handles i
  cases q with
  | insert topic key payload =>
    obtain ⟨built, fresh, table, -⟩ := insertRow_ok done
    refine inv.statement moved rfl fun e member b version unpublished => ?_
    rw [table] at version
    rcases Table.version_insert version with old | ⟨here, -⟩
    · exact ⟨b, old, unpublished⟩
    · exact (fresh (here ▸ inv.listed e member)).elim
  | readyIds now =>
    simp only [OutboxQuery.exec] at done
    split at done
    · cases done
      exact inv.statement moved rfl (unchanged rfl)
    · cases done
  | lockReady id now =>
    simp only [OutboxQuery.exec] at done
    split at done
    · cases done
      exact inv.statement moved rfl (unchanged rfl)
    · cases done
      exact inv.statement moved rfl (unchanged rfl)
    · rename_i row t'' wrote
      cases done
      obtain ⟨seen, -, -, table⟩ := Table.updateRow_wrote wrote
      exact inv.statement moved rfl (written seen (by simp) table)
  | markPublished id publishedAt =>
    have sends : ((g i).after (.sql .outbox (.markPublished id publishedAt)) (.ok a)).sends = (g i).sends := by
      simp [Dispatch.sends, Dispatch.after]
    rcases changeRow_ok done with ⟨table, -⟩ | ⟨b, seen, -, -, table⟩
    · exact inv.statement moved sends (unchanged table)
    · exact inv.statement moved sends (written seen (by simp) table)
  | markFailed id attempts lastError nextAttemptAt =>
    have sends : ((g i).after (.sql .outbox (.markFailed id attempts lastError nextAttemptAt)) (.ok a)).sends =
        (g i).sends := by
      simp [Dispatch.sends, Dispatch.after]
    simp only [OutboxQuery.exec] at done
    split at done
    · cases done
    · rcases changeRow_ok done with ⟨table, -⟩ | ⟨b, seen, -, -, table⟩
      · exact inv.statement moved sends (unchanged table)
      · exact inv.statement moved sends (written seen (by simp) table)
  | purgeableIds olderThan =>
    cases done
    exact inv.statement moved rfl (unchanged rfl)
  | purgeRow id olderThan =>
    simp only [OutboxQuery.exec] at done
    split at done
    · cases done
      exact inv.statement moved rfl (unchanged rfl)
    · cases done
    · rename_i row t'' wrote
      cases done
      obtain ⟨seen, -, -, table⟩ := Table.updateRow_wrote wrote
      exact inv.statement moved rfl (written seen (by simp) table)

/-- The row a relay sends next has not been appended before. -/
theorem unsent (inv : Once t log g) (handling : Handling t g) {row : OutboxEvent} {rest : List OutboxEvent}
    (todo : (g i).todo = row :: rest) : row.id ∉ log.map OutboxEvent.id := by
  intro appended
  obtain ⟨e, member, same⟩ := List.mem_map.mp appended
  have queued : row ∈ (g i).batch := by simp [Dispatch.batch, todo]
  rcases inv.marked e member with ⟨j, sent⟩ | published
  · have batch := Dispatch.sends_batch sent
    obtain rfl := handling.batches_apart batch queued same
    have distinct := (handling.handles j).distinct
    rw [(handling.handles j).locked, Dispatch.batch, ← List.map_append, ← Dispatch.sends, todo,
      List.map_append] at distinct
    refine (List.disjoint_of_nodup_append distinct) (a := row.id) ?_ (by simp)
    rw [← same]
    exact List.mem_map_of_mem (List.mem_map_of_mem (f := Prod.fst) sent)
  · obtain ⟨a, old, -, committed, -, unpublished, -⟩ := (handling.handles i).rows row queued
    exact published old (Or.inl (same ▸ committed)) unpublished

theorem send (inv : Once t log g) (handling : Handling t g) {row : OutboxEvent} {rest appended : List OutboxEvent}
    (sent : Bool) (current : (g i).current = none) (todo : (g i).todo = row :: rest) :
    Once t (if sent then log ++ [row] else log) (Function.update g i { g i with
      current := some (row, sent)
      todo := rest
      appended := appended }) := by
  have sends : ∀ j p, p ∈ (Function.update g i { g i with
      current := some (row, sent)
      todo := rest
      appended := appended } j).sends ↔ p ∈ (g j).sends ∨ j = i ∧ p = (row, sent) := by
    intro j p
    by_cases mine : j = i
    · subst mine
      simp [Dispatch.sends, current]
    · simp [mine]
  have fresh := inv.unsent handling todo
  have queued : row ∈ (g i).batch := by simp [Dispatch.batch, todo]
  obtain ⟨a, old, pending, committed, -⟩ := (handling.handles i).rows row queued
  cases sent with
  | false =>
    refine ⟨inv.once, inv.listed, fun j row' member => ?_, fun e member => ?_, inv.published⟩
    · rcases (sends j _).mp member with earlier | ⟨-, same⟩
      · exact inv.sent j row' earlier
      · cases same
    · exact (inv.marked e member).imp_left fun earlier => earlier.imp fun j sent => (sends j _).mpr (Or.inl sent)
  | true =>
    refine ⟨?_, fun e member => ?_, fun j row' member => ?_, fun e member => ?_, fun k b known published => ?_⟩
    · rw [if_pos rfl, List.map_append]
      exact inv.once.append (List.nodup_singleton _) (List.disjoint_singleton.mpr fresh)
    · rcases List.mem_append.mp member with earlier | new
      · exact inv.listed e earlier
      · rw [List.mem_singleton.mp new]
        exact Table.mem_keys_of_version (Or.inl committed)
    · refine List.mem_append.mpr ?_
      rcases (sends j _).mp member with earlier | ⟨-, same⟩
      · exact Or.inl (inv.sent j row' earlier)
      · exact Or.inr (List.mem_singleton.mpr (congrArg Prod.fst same))
    · rcases List.mem_append.mp member with earlier | new
      · exact (inv.marked e earlier).imp_left fun before => before.imp fun j sent => (sends j _).mpr (Or.inl sent)
      · rw [List.mem_singleton.mp new]
        exact Or.inl ⟨i, (sends i _).mpr (Or.inr ⟨rfl, rfl⟩)⟩
    · obtain ⟨e, member, own⟩ := inv.published k b known published
      exact ⟨e, List.mem_append_left _ member, own⟩

/-- A commit publishes what the transaction has sent. -/
theorem applied (inv : Once t log g) (handling : Handling t g) (current : (g i).current = none) :
    Once (t.settle i .applied) log (Function.update g i ((g i).settle .applied)) := by
  have h := handling.handles i
  have sends : ∀ j p, p ∈ (Function.update g i ((g i).settle .applied) j).sends ↔ j ≠ i ∧ p ∈ (g j).sends := by
    intro j p
    by_cases mine : j = i
    · subst mine
      simp [Dispatch.sends, Dispatch.settle]
    · simp [mine]
  refine ⟨inv.once, fun e member => ?_, fun j row member => ?_, fun e member => ?_, fun k a committed published => ?_⟩
  · rw [Table.keys_settle]
    exact inv.listed e member
  · exact inv.sent j row ((sends j _).mp member).2
  · rcases inv.marked e member with ⟨j, sent⟩ | published
    · by_cases mine : j = i
      · subst mine
        refine Or.inr fun a version => ?_
        obtain ⟨b, old, pending, -, -, -, iff⟩ := h.rows e (Dispatch.sends_batch sent)
        have marked : (e, true) ∈ (g j).done := by simpa [Dispatch.sends, current] using sent
        have slot : (t.settle j .applied).slot e.id = { committed := some b } := by
          change (t.slot e.id).commit j = _
          rw [Slot.commit_of_holder (Slot.holder_of_pending pending), Slot.view_of_pending pending]
        rw [slot] at version
        rcases version with same | ⟨_, none⟩
        · cases same
          exact iff.mpr marked
        · cases none
      · exact Or.inl ⟨j, (sends j _).mpr ⟨mine, sent⟩⟩
    · exact Or.inr fun a version => published a (Table.version_settle version)
  · rcases Table.committed_settle i .applied k t with same | ⟨-, pending⟩
    · exact inv.published k a (same ▸ committed) published
    · rw [committed] at pending
      rcases h.holds k _ pending with held | ⟨e, member, -, same⟩ | ⟨gone, -⟩
      · rw [h.locked] at held
        obtain ⟨row, member, rfl⟩ := List.mem_map.mp held
        obtain ⟨b, old, pending', -, -, -, iff⟩ := h.rows row member
        obtain ⟨-, same⟩ := Prod.mk.inj (Option.some.inj (pending.symm.trans pending'))
        obtain rfl := Option.some.inj same
        exact ⟨row, inv.sent i row (List.mem_append_left _ (iff.mp published)), rfl⟩
      · obtain rfl := Option.some.inj same
        exact (published (h.writes _ member).2.2).elim
      · cases gone

/-- The rollback of a transaction that has sent nothing. -/
theorem undone (inv : Once t log g) (sends : (g i).sends = []) :
    Once (t.settle i .undone) log (Function.update g i ((g i).settle .undone)) := by
  have same : ∀ j, (Function.update g i ((g i).settle .undone) j).sends = (g j).sends := by
    intro j
    by_cases mine : j = i
    · subst mine
      rw [Function.update_self, sends]
      rfl
    · rw [Function.update_of_ne mine]
  refine ⟨inv.once, fun e member => ?_, ?_, fun e member => ?_, fun k a committed => ?_⟩
  · rw [Table.keys_settle]
    exact inv.listed e member
  · simp only [same]
    exact inv.sent
  · simp only [same]
    exact (inv.marked e member).imp_right fun published a version =>
      published a (Table.version_settle version)
  · exact inv.published k a (by simpa [Table.settle] using committed)

end Once

/-! ### Runs without a relay rollback -/

variable {s : Database}

def isRelay (w : World (applicationFrom platform settings s)) (i : Nat) : Prop := ∃ n, w.request i = some (.relayOnce n)

/-- No relay transaction is rolled back, and a send that raises has not appended. -/
def Steady (w : World (applicationFrom platform settings s)) :
    Label (applicationFrom platform settings s) → Prop
  | .start _ q => Request.Enqueueing q
  | .run i env =>
    (∀ m, w.AboutTo i (.send m) → env.fault ≠ some .after) ∧
    (isRelay w i → ∀ c r s', w.AboutTo i c → exec platform env i c w.state = some (r, s') → fate c r ≠ .undone)
  | .kill i => ¬isRelay w i

/-- Every row of the outbox is committed and unpublished. -/
def Unsent (t : Table Id OutboxEvent) : Prop :=
  ∀ k, (t.slot k).pending = none ∧ ∀ a, (t.slot k).committed = some a → a.id = k ∧ a.publishedAt = none

theorem steady_deliveries {w : World (applicationFrom platform settings s)}
    {l : Label (applicationFrom platform settings s)} (h : Steady w l) : Deliveries w l := by
  cases l with
  | start i q => exact h
  | _ => trivial

theorem Unsent.handling {t : Table Id OutboxEvent} (unsent : Unsent t) : Handling t fun _ => {} := by
  have free : ∀ {k i v}, (t.slot k).pending = some (i, v) → False := by
    intro k i v pending
    cases (unsent k).1.symm.trans pending
  refine ⟨fun k a version => ?_, fun k i a old pending => (free pending).elim, fun i => ?_⟩
  · rcases version with committed | ⟨i, pending⟩
    · exact ((unsent k).2 a committed).1
    · exact (free pending).elim
  · exact ⟨rfl, List.nodup_nil, fun _ member => absurd member List.not_mem_nil,
      fun _ member => absurd member List.not_mem_nil, fun _ _ pending => (free pending).elim⟩

theorem Unsent.once {t : Table Id OutboxEvent} (unsent : Unsent t) : Once t [] fun _ => {} where
  once := List.nodup_nil
  listed _ member := absurd member List.not_mem_nil
  sent _ _ member := absurd member List.not_mem_nil
  marked _ member := absurd member List.not_mem_nil
  published k a committed published := (published ((unsent k).2 a committed).2).elim

/-- The commands of everything but a relay. -/
def NoRelay (c : Cmd) : Prop := (∀ id now, c ≠ .sql .outbox (.lockReady id now)) ∧ ∀ m, c ≠ .send m

/-- The commands of a purge. -/
def Purges : Cmd → Prop
  | .sql .outbox (.purgeableIds _) => True
  | .sql .outbox (.purgeRow _ _) => True
  | .sql _ _ => False
  | .send _ => False
  | _ => True

theorem purgeOnce_purges {retentionHours : Int} : (purgeOnce retentionHours).Only Purges := by
  have deletes : ∀ olderThan ids, (OutboxRepository.purgeEach olderThan ids).Only Purges := by
    intro olderThan ids
    induction ids with
    | nil => trivial
    | cons id ids ih =>
      have statement : (sql .outbox (.purgeRow id olderThan)).Only Purges := only_perform (S := signature) trivial
      exact statement.bind fun deleted => ih.bind fun rest => trivial
  have finds : ∀ olderThan, (sql .outbox (.purgeableIds olderThan)).Only Purges :=
    fun olderThan => only_perform (S := signature) trivial
  have clock : datetimeNow.Only Purges := only_perform (S := signature) trivial
  exact clock.bind fun now => unitOfWork_only trivial trivial ((finds _).bind fun ids => deletes _ _)

theorem Purges.noRelay {c : Cmd} (h : Purges c) : NoRelay c := by
  constructor
  · rintro id now rfl
    exact h
  · rintro m rfl
    exact h

theorem Enqueues.noRelay {c : Cmd} (h : Enqueues c) : NoRelay c := by
  constructor
  · rintro id now rfl
    exact h
  · rintro m rfl
    exact h

theorem code_noRelay {q : Request} (enqueueing : q.Enqueueing) (notRelay : ∀ n, q ≠ .relayOnce n) :
    (q.code platform settings).Only NoRelay := by
  by_cases purges : ∃ h, q = .purgeOnce h
  · obtain ⟨h, rfl⟩ := purges
    exact Only.bind (purgeOnce_purges.mono fun _ => Purges.noRelay) fun _ => trivial
  · exact (code_enqueues enqueueing notRelay fun h same => purges ⟨h, same⟩).mono fun _ => Enqueues.noRelay

theorem Dispatch.locked_next {g : Dispatch} {c : Cmd} {r : Except Error c.Ret} (locked : (g.next c r).locked ≠ []) :
    g.locked ≠ [] ∨ ∃ id now row,
      (.ran c r : Event signature) = .ran (.sql .outbox (.lockReady id now)) (.ok (some row)) := by
  unfold Dispatch.next at locked
  split at locked
  · unfold Dispatch.after at locked
    split at locked
    case h_2 => exact Or.inr ⟨_, _, _, rfl⟩
    case h_3 | h_4 => split at locked <;> exact Or.inl locked
    all_goals exact Or.inl locked
  · exact (locked (idle_settle ‹_›).1).elim

/-- Only relays lock rows. -/
theorem isRelay_of_locked {ok : World (applicationFrom platform settings s) →
    Label (applicationFrom platform settings s) → Prop} (deliveries : ∀ w l, ok w l → Deliveries w l)
    {w : World (applicationFrom platform settings s)} (reached : Reachable ok w) {i : Nat}
    (locked : (w.ghost (dispatchProtocol platform) i : Dispatch).locked ≠ []) : isRelay w i := by
  have code : ∀ (w : World (applicationFrom platform settings s)) i q, ok w (.start i q) →
      (Request.code platform settings q).Only fun c => (∃ n, q = .relayOnce n) ∨ NoRelay c := by
    intro w i q start
    by_cases relay : ∃ n, q = .relayOnce n
    · have every : ∀ p : Prog Reply, p.Only fun c => (∃ n, q = .relayOnce n) ∨ NoRelay c := by
        intro p
        induction p with
        | done r => trivial
        | call c next ih => exact ⟨Or.inl relay, ih⟩
      exact every _
    · exact (code_noRelay (deliveries _ _ start) fun n same => relay ⟨n, same⟩).mono fun _ => Or.inr
  have history := w.ghost_history (dispatchProtocol platform) (i := i)
    (R := fun g h => (g : Dispatch).locked ≠ [] →
      ∃ id now row, (.ran (.sql .outbox (.lockReady id now)) (.ok (some row)) : Event signature) ∈ h)
    (fun none => (none rfl).elim) ?_
  · obtain ⟨id, now, row, ran⟩ := history locked
    obtain ⟨q, asked, ⟨n, rfl⟩ | ⟨quiet, -⟩⟩ := (only_of_request code reached).2 i _ _ ran
    · exact ⟨n, asked⟩
    · exact (quiet id now rfl).elim
  · intro g h e ih gained
    have old : (g : Dispatch).locked ≠ [] → _ := fun locked =>
      let ⟨id, now, row, member⟩ := ih locked
      (⟨id, now, row, List.mem_append_left _ member⟩ : ∃ id now row,
        (.ran (.sql .outbox (.lockReady id now)) (.ok (some row)) : Event signature) ∈ h ++ [e])
    cases e with
    | ran c r =>
      rcases Dispatch.locked_next gained with locked | ⟨id, now, row, same⟩
      · exact old locked
      · exact ⟨id, now, row, List.mem_append_right _ (List.mem_singleton.mpr same.symm)⟩
    | died => exact (gained rfl).elim

theorem batch_of_quiet {ok : World (applicationFrom platform settings s) →
    Label (applicationFrom platform settings s) → Prop} (deliveries : ∀ w l, ok w l → Deliveries w l)
    {w : World (applicationFrom platform settings s)} (reached : Reachable ok w)
    (handling : Handling (w.state.tables .outbox) (w.ghost (dispatchProtocol platform))) {i : Nat}
    (quiet : ¬isRelay w i) : (w.ghost (dispatchProtocol platform) i : Dispatch).batch = [] := by
  refine (handling.handles i).batch_nil ?_
  by_contra locked
  exact quiet (isRelay_of_locked deliveries reached locked)

theorem Dispatch.appended_settle {g : Dispatch} {fate : Fate} : (g.settle fate).appended = g.appended := by
  cases fate <;> rfl

theorem Dispatch.appended_next {g : Dispatch} {c : Cmd} {r : Except Error c.Ret} (quiet : ∀ m, c ≠ .send m) :
    (g.next c r).appended = g.appended := by
  unfold Dispatch.next
  split
  · unfold Dispatch.after
    split <;> first | rfl | exact (quiet _ rfl).elim
  · exact Dispatch.appended_settle

/-- `log` is what has been appended to Kafka, in order. -/
structure Appended (platform : Platform) (before : List Message) (s : Database) (g : Nat → Dispatch)
    (log : List OutboxEvent) : Prop where
  kafka : s.kafka = before ++ log.map (OutboxEvent.message platform)
  rows : ∀ e, e ∈ log ↔ ∃ i, e ∈ (g i).appended
  once : Once (s.tables .outbox) log g

theorem Appended.rows_still {g : Nat → Dispatch} {i : Nat} {d : Dispatch} {log : List OutboxEvent}
    (rows : ∀ e, e ∈ log ↔ ∃ i, e ∈ (g i).appended) (same : d.appended = (g i).appended) :
    ∀ e, e ∈ log ↔ ∃ j, e ∈ (Function.update g i d j).appended := by
  have all : ∀ j, (Function.update g i d j).appended = (g j).appended := by
    intro j
    by_cases mine : j = i
    · subst mine
      rw [Function.update_self, same]
    · rw [Function.update_of_ne mine]
  simp only [all]
  exact rows

theorem Appended.send {before : List Message} {s s' : Database} {g : Nat → Dispatch} {log : List OutboxEvent} {i : Nat}
    {env : Env} {m : Message} {r : Except Error Unit} (inv : Appended platform before s g log)
    (handling : Handling (s.tables .outbox) g) (allowed : (dispatchProtocol platform).allowed (g i) (.send m))
    (faithful : env.fault ≠ some .after) (ran : exec platform env i (.send m) s = some (r, s')) :
    ∃ log, Appended platform before s' (Function.update g i ((g i).next (.send m) r)) log := by
  obtain ⟨current, row, rest, todo, rfl⟩ := allowed
  obtain ⟨tables, grown⟩ := exec_send ran
  rw [Dispatch.next_send todo]
  cases r with
  | ok u =>
    have log' : s'.kafka = s.kafka ++ [row.message platform] :=
      grown.resolve_right fun ⟨⟨e, failed⟩, _⟩ => by cases failed
    refine ⟨log ++ [row], ?_, fun e => ?_, tables ▸ inv.once.send handling true current todo⟩
    · rw [log', inv.kafka, List.map_append, List.append_assoc]
      rfl
    · rw [List.mem_append, List.mem_singleton, inv.rows e]
      constructor
      · rintro (⟨j, member⟩ | rfl)
        · refine ⟨j, ?_⟩
          by_cases mine : j = i
          · subst mine
            rw [Function.update_self]
            exact List.mem_append_left _ member
          · rwa [Function.update_of_ne mine]
        · refine ⟨i, ?_⟩
          rw [Function.update_self]
          exact List.mem_append_right _ (List.mem_singleton.mpr rfl)
      · rintro ⟨j, member⟩
        by_cases mine : j = i
        · subst mine
          rw [Function.update_self] at member
          exact (List.mem_append.mp member).imp (fun old => ⟨j, old⟩) List.mem_singleton.mp
        · rw [Function.update_of_ne mine] at member
          exact Or.inl ⟨j, member⟩
  | error e =>
    have log' : s'.kafka = s.kafka := by
      obtain ⟨-, ran⟩ := exec_run ran
      simp only [Cmd.run] at ran
      split at ran <;> cases ran
      · rfl
      · exact (faithful ‹_›).elim
    refine ⟨log, ?_, Appended.rows_still inv.rows rfl, tables ▸ inv.once.send handling false current todo⟩
    rw [log', inv.kafka]

theorem Appended.step {before : List Message} {s s' : Database} {g : Nat → Dispatch} {log : List OutboxEvent} {i : Nat}
    {env : Env} {c : Cmd} {r : Except Error c.Ret} (inv : Appended platform before s g log)
    (handling : Handling (s.tables .outbox) g) (allowed : (dispatchProtocol platform).allowed (g i) c)
    (faithful : ∀ m, c = .send m → env.fault ≠ some .after) (kept : fate c r = .undone → (g i).sends = [])
    (ran : exec platform env i c s = some (r, s')) :
    ∃ log, Appended platform before s' (Function.update g i ((g i).next c r)) log := by
  rcases Dispatch.step_cases ran (g i) with ⟨m, rfl⟩ | ⟨q, a, same, done⟩ | ⟨quiet, next, table⟩ |
    ⟨quiet, ends, next, table⟩
  · exact inv.send handling allowed (faithful m rfl) ran
  · cases same
    have quiet : ∀ m, Cmd.sql .outbox q ≠ .send m := by simp
    refine ⟨log, ?_, Appended.rows_still inv.rows (Dispatch.appended_next quiet), inv.once.query handling allowed done⟩
    rw [exec_kafka ran quiet, inv.kafka]
  · refine ⟨log, ?_, Appended.rows_still inv.rows (Dispatch.appended_next quiet), ?_⟩
    · rw [exec_kafka ran quiet, inv.kafka]
    · rw [next, table, Function.update_eq_self]
      exact inv.once
  · refine ⟨log, ?_, Appended.rows_still inv.rows (Dispatch.appended_next quiet), ?_⟩
    · rw [exec_kafka ran quiet, inv.kafka]
    rw [next, table]
    cases h : fate c r with
    | isOpen => exact (ends h).elim
    | applied =>
      obtain ⟨tx, rfl⟩ := fate_applied h
      exact inv.once.applied handling allowed
    | undone => exact inv.once.undone (kept h)

theorem reachable_appended (unsent : Unsent (s.tables .outbox)) {w : World (applicationFrom platform settings s)}
    (reached : Reachable Steady w) :
    ∃ log, Appended platform s.kafka w.state (w.ghost (dispatchProtocol platform)) log := by
  have deliveries : ∀ (w : World (applicationFrom platform settings s)) l, Steady w l → Deliveries w l :=
    fun _ _ => steady_deliveries
  have start : Appended platform s.kafka s (fun _ => {}) [] := ⟨by simp, fun e => by simp, unsent.once⟩
  refine (deliveries_dispatch deliveries).invariant (fun s' g => ∃ log, Appended platform s.kafka s' g log)
    ⟨[], start⟩ ?_ ?_ reached
  · rintro w i env c r s' reached ⟨log, inv⟩ ⟨faithful, kept⟩ about allowed - ran
    have handling := reachable_handling deliveries unsent.handling reached
    refine inv.step handling allowed (fun m same => faithful m (same ▸ about)) (fun undone => ?_) ran
    exact Dispatch.sends_nil (batch_of_quiet deliveries reached handling fun relay =>
      kept relay c r s' about ran undone)
  · rintro w i c reached ⟨log, inv⟩ - notRelay
    have handling := reachable_handling deliveries unsent.handling reached
    refine ⟨log, ?_, Appended.rows_still inv.rows rfl, ?_⟩
    · exact (Database.kafka_settle i .undone w.state).trans inv.kafka
    · have table := Database.tables_settle i .undone w.state .outbox
      change Once ((w.state.settle i .undone).tables .outbox) _ _
      rw [table]
      exact inv.once.undone (Dispatch.sends_nil (batch_of_quiet deliveries reached handling notRelay))

/-- Every relay that has been started is finished. -/
def Quiescent (w : World (applicationFrom platform settings s)) : Prop :=
  ∀ i, isRelay w i → ∃ r, w.Finished i r

/-- What relays have done to a row never overlaps: `log` lists the rows appended, in order. -/
structure RelayedOnce (w : World (applicationFrom platform settings s)) (log : List OutboxEvent) : Prop where
  kafka : w.state.kafka = s.kafka ++ log.map (OutboxEvent.message platform)
  rows : ∀ e, e ∈ log ↔ ∃ i, e ∈ (w.ghost (dispatchProtocol platform) i : Dispatch).appended
  once : (log.map OutboxEvent.id).Nodup
  /-- No two relays hold the same row. -/
  apart : ∀ i j, ∀ row ∈ (w.ghost (dispatchProtocol platform) i : Dispatch).batch,
    ∀ row' ∈ (w.ghost (dispatchProtocol platform) j : Dispatch).batch, row.id = row'.id → i = j
  /-- Between relay runs, the rows marked as published are those that have been appended. -/
  marked : Quiescent w → ∀ k a, ((w.state.tables .outbox).slot k).committed = some a →
    (a.publishedAt ≠ none ↔ ∃ e ∈ log, e.id = k)

theorem relays_append_once (unsent : Unsent (s.tables .outbox)) {w : World (applicationFrom platform settings s)}
    (reached : Reachable Steady w) : ∃ log, RelayedOnce w log := by
  have deliveries : ∀ (w : World (applicationFrom platform settings s)) l, Steady w l → Deliveries w l :=
    fun _ _ => steady_deliveries
  have handling := reachable_handling deliveries unsent.handling reached
  obtain ⟨log, inv⟩ := reachable_appended unsent reached
  refine ⟨log, inv.kafka, inv.rows, inv.once.once, fun i j row member row' member' =>
    ?_, fun quiescent k a committed => ?_⟩
  · exact handling.batches_apart member member'
  refine ⟨inv.once.published k a committed, ?_⟩
  rintro ⟨e, member, rfl⟩
  rcases inv.once.marked e member with ⟨i, sent⟩ | published
  · -- a relay that has sent something in its open transaction is not finished
    have batch := Dispatch.sends_batch sent
    have locked : (w.ghost (dispatchProtocol platform) i : Dispatch).locked ≠ [] := by
      rw [(handling.handles i).locked]
      exact List.ne_nil_of_mem (List.mem_map_of_mem batch)
    obtain ⟨r, finished⟩ := quiescent i (isRelay_of_locked deliveries reached locked)
    obtain ⟨q, -, idle⟩ := (deliveries_dispatch deliveries).finished reached finished
    exact (locked idle.1).elim
  · exact published a (Or.inl committed)

/-- An event that was committed before the run. -/
def sampleEvent : OutboxEvent where
  id := 5
  topic := "theclub.wallet"
  key := "12"
  payload := []
  createdAt := 0
  publishedAt := none
  attempts := 0
  lastError := none
  nextAttemptAt := none

def sampleOutbox : Table Id OutboxEvent where
  keys := [5]
  slot := fun k => if k = 5 then { committed := some sampleEvent } else {}
  keys_nodup := List.nodup_singleton _
  slot_outside := fun _ outside => if_neg fun same => outside (List.mem_singleton.mpr same)

def sampleBacklog : Database :=
  { Database.empty with tables := Function.update Database.empty.tables .outbox sampleOutbox }

theorem sampleBacklog_unsent : Unsent (sampleBacklog.tables .outbox) := by
  intro k
  change (sampleOutbox.slot k).pending = none ∧ _
  by_cases here : k = 5
  · subst here
    exact ⟨rfl, fun a same => by cases same; exact ⟨rfl, rfl⟩⟩
  · have free : (sampleBacklog.tables .outbox).slot k = {} := if_neg here
    refine ⟨congrArg Slot.pending free, fun a same => ?_⟩
    rw [free] at same
    cases same

abbrev SampleRelays : Type := World (applicationFrom samplePlatform sampleSettings sampleBacklog)

/-- No fault, and no command that ends a transaction without applying it. -/
def isSteady (w : SampleRelays) : Label (applicationFrom samplePlatform sampleSettings sampleBacklog) → Bool
  | .start _ q => Request.isUseCase q
  | .run i env => (env : Env).fault = none && match w.proc i with
    | some (.call c _) => match exec samplePlatform env i c w.state with
      | some (r, _) => fate c r ≠ .undone
      | none => true
    | _ => true
  | .kill _ => false

theorem isSteady_sound (w : SampleRelays) (l : Label (applicationFrom samplePlatform sampleSettings sampleBacklog))
    (h : isSteady w l = true) : Steady w l := by
  cases l with
  | start i q => cases q <;> trivial
  | run i env =>
    obtain ⟨faultless, open'⟩ := Bool.and_eq_true_iff.mp h
    refine ⟨fun m _ => ?_, ?_⟩
    · rw [of_decide_eq_true faultless]
      simp
    · rintro - c r s' ⟨next, running⟩ ran
      rw [running] at open'
      simp only [ran] at open'
      exact of_decide_eq_true open'
  | kill i => cases h

/-- Two relays share the backlog: the second one finds the row locked. -/
def sampleRelays : SampleRelays := World.initial.replay isSteady
  ([.start 1 (.relayOnce 10), .start 2 (.relayOnce 10)] ++
  [(1, [5]), (2, [5]), (1, [5]), (2, [5]), (1, [5]), (2, [5]), (1, []), (2, []), (1, []), (1, []), (1, [])].map
    fun turn => .run turn.1 { now := 1, order := turn.2 })

theorem relays_append_once_sampleRelays : sampleRelays.state.kafka = [sampleEvent.message samplePlatform] ∧
    ∃ log, RelayedOnce sampleRelays log :=
  ⟨by decide +kernel, relays_append_once sampleBacklog_unsent (run_replay isSteady_sound _ _)⟩

end TheClub
