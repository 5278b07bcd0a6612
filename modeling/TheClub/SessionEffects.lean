import TheClub.Lone
import TheClub.ReadCommitted.Possible

/-!
What a refresh and a logout commit when they run by themselves. Every error of a refresh rolls its
transaction back except the one for a revoked token, which commits the revocation of the family
before it is raised.
-/

namespace TheClub
open ReadCommitted Program

variable {platform : Platform} {settings : Settings} {i : Nat} {s m : Database} {now time : Time} {text : String}

/-! ### Tokens at rest -/

abbrev tokensOf (s : Database) : Table Id RefreshToken := s.tables .refreshTokens

/-- Process `i` can begin a transaction, and nobody has locked a token. -/
structure AtRest (s : Database) (i : Nat) : Prop where
  usable : s.aborted i = false
  idle : s.Idle i
  free : ∀ k, ((tokensOf s).slot k).pending = none
  keyed : (tokensOf s).Keyed RefreshToken.id
  hashes : ∀ k k' a a', ((tokensOf s).slot k).committed = some a → ((tokensOf s).slot k').committed = some a' →
    a.tokenHash = a'.tokenHash → k = k'

/-- Only the clock has moved on. -/
def SameTables (s m : Database) : Prop := m.tables = s.tables ∧ s.clock ≤ m.clock

/-- Every row of every table is as it was. -/
def Unchanged (s m : Database) : Prop := ∀ f k, (m.tables f).slot k = (s.tables f).slot k

theorem Unchanged.of_same (same : m.tables = s.tables) : Unchanged s m := fun f k => by rw [same]

theorem AtRest.same (rest : AtRest s i) (usable : m.aborted i = false) (same : m.tables = s.tables) : AtRest m i := by
  refine ⟨usable, ?_, ?_, ?_, ?_⟩
  · rw [Database.Idle, same]
    exact rest.idle
  · rw [tokensOf, same]
    exact rest.free
  · rw [tokensOf, same]
    exact rest.keyed
  · rw [tokensOf, same]
    exact rest.hashes

theorem AtRest.committed (rest : AtRest s i) (k : Id) :
    (tokensOf s).slot k = { committed := ((tokensOf s).slot k).committed } := by
  have none := rest.free k
  cases slot : (tokensOf s).slot k with
  | mk committed pending =>
    rw [slot] at none
    cases none
    rfl

theorem AtRest.view (rest : AtRest s i) (k : Id) : ((tokensOf s).slot k).view i = ((tokensOf s).slot k).committed :=
  Slot.view_of_not_holder (rest.idle .refreshTokens k)

theorem AtRest.unlocked (rest : AtRest s i) (k : Id) : ((tokensOf s).slot k).Free i := by
  refine Or.inl ?_
  rw [Slot.holder, rest.free k]
  rfl

theorem AtRest.unknown (rest : AtRest s i) {hash : String}
    (unknown : ∀ k a, ((tokensOf s).slot k).committed = some a → a.tokenHash ≠ hash) :
    ((tokensOf s).rows i).filter (fun token => token.tokenHash = hash) = (none : Option RefreshToken).toList := by
  refine List.filter_eq_nil_iff.mpr fun a member => ?_
  obtain ⟨k, seen⟩ := Table.mem_rows.mp member
  rw [rest.view] at seen
  simpa using unknown k a seen

theorem AtRest.known (rest : AtRest s i) {hash : String} {k : Id} {a : RefreshToken}
    (stored : ((tokensOf s).slot k).committed = some a) (own : a.tokenHash = hash) :
    ((tokensOf s).rows i).filter (fun token => token.tokenHash = hash) = (some a).toList := by
  have seen : ((tokensOf s).slot k).view i = some a := by rw [rest.view, stored]
  refine Table.filter_rows seen (by simpa using own) fun k' b seen' own' => ?_
  rw [rest.view] at seen'
  exact rest.hashes k' k b a seen' stored ((of_decide_eq_true own').trans own.symm)

section
variable {ok : World (application platform settings) → Label (application platform settings) → Prop}
  {w : World (application platform settings)}

theorem exec_hashes {env : Env} {s s' : Database} {c : Cmd} {r : Except Error c.Ret}
    (ran : exec platform env i c s = some (r, s')) (hashes : (tokensOf s).Unique fun token => some token.tokenHash) :
    (tokensOf s').Unique fun token => some token.tokenHash := by
  rcases exec_table ran .refreshTokens with ⟨-, table⟩ | ⟨q, a, same, -⟩
  · rw [tokensOf, table]
    exact hashes.settle _
  cases same
  rcases exec_sql ran with ⟨e, failed, -⟩ | ⟨b, same, done⟩
  · cases failed
  cases same
  have writes : ∀ {k : Id} {p : RefreshToken → Bool} {f : RefreshToken → Option RefreshToken} {u : Unit},
      changeRow i (tokensOf s) k p f = .ok u (tokensOf s') → (∀ a b, f a = some b → b.tokenHash = a.tokenHash) →
      (tokensOf s').Unique fun token => some token.tokenHash := by
    intro k p f u wrote keeps
    rcases changeRow_ok wrote with ⟨same, -⟩ | ⟨a, seen, -, free, same⟩
    · rwa [same]
    · rw [same]
      refine hashes.write seen free fun b hash written own => ?_
      rw [← own, keeps a b written]
  cases q with
  | create userId familyId tokenHash expiresAt =>
    obtain ⟨rfl, fresh, same, alone⟩ := insertRow_ok done
    change (s'.tables .refreshTokens).Unique _
    rw [same]
    refine hashes.insert fun k b version seen hash own owned => ?_
    have apart : decide (b.tokenHash = tokenHash) = false := alone k b version seen
    exact of_decide_eq_false apart ((Option.some.inj owned).trans (Option.some.inj own).symm)
  | revoke tokenId revokedAt => exact writes done (by rintro a b ⟨⟩; rfl)
  | revokeMatched tokenId familyId revokedAt => exact writes done (by rintro a b ⟨⟩; rfl)
  | getByHash tokenHash =>
    obtain ⟨-, same⟩ := Outcome.ok.inj done
    rwa [tokensOf, ← same]
  | matchFamily familyId =>
    obtain ⟨-, same⟩ := Outcome.ok.inj done
    rwa [tokensOf, ← same]

theorem reachable_hashes (reached : Reachable ok w) : (tokensOf w.state).Unique fun token => some token.tokenHash := by
  induction reached with
  | refl => exact .empty
  | step _ _ moved ih =>
    rcases World.step_cases moved with ⟨i, q, -, -, rfl⟩ | ⟨i, env, c, next, r, s, -, -, ran, rfl⟩ | ⟨i, c, -, -, rfl⟩
    · exact ih
    · exact exec_hashes ran ih
    · exact ih.rollback

/-- Nobody is running. -/
def Still (w : World (application platform settings)) : Prop := ∀ j c, ¬w.AboutTo j c

theorem reachable_atRest (reached : Reachable ok w) (still : Still w) (fresh : w.request i = none) :
    AtRest w.state i where
  usable := Bool.eq_false_iff.mpr fun aborted => aborted_started reached i aborted fresh
  idle f k := unstarted_idle reached fresh f k
  free k := by
    cases locked : ((tokensOf w.state).slot k).pending with
    | none => rfl
    | some p =>
      obtain ⟨j, v⟩ := p
      obtain ⟨c, running⟩ := holder_running reached (Slot.holder_of_pending locked)
      exact (still j c running).elim
  keyed := reachable_keyed reached .refreshTokens
  hashes k k' a a' stored stored' same :=
    (reachable_hashes reached).committed stored stored' rfl (congrArg some same.symm)

end

/-! ### The statements of a lone request -/

/-- An environment at `now` or later that keeps its connections and draws `text`. -/
def Draws (text : String) (now : Time) (env : Env) : Prop := Later False now env ∧ env.text = text

theorem draws_can (time : Time) (id : Id) (le : now ≤ time) : Draws text now { now := time, id, text } :=
  ⟨⟨fun fails => (fails rfl).elim, le⟩, rfl⟩

variable (platform settings) in
/-- Run alone from `now` on with `text` drawn, process `i` finishes `p` as `R` says. -/
abbrev Concludes {α : Type} (i : Nat) (now : Time) (text : String) (R : Except Error α → Database → Prop) (p : Prog α)
    (s : Database) : Prop :=
  Leads (application platform settings) i (Draws text now) (Finishes R) p s

/-- A statement that succeeds or fails, but does not lose its connection. -/
theorem lone_sql {env : Env} {f : TableName} {q : Query f} {r : Except Error (Query.Ret f q)}
    (draws : Draws text now env)
    (usable : s.aborted i = false) (ran : exec platform env i (.sql f q) s = some (r, m)) :
    (∃ a, r = .ok a ∧ m.aborted i = false ∧ s.clock ≤ m.clock ∧
      Query.exec platform (env.context i s) i f q (s.tables f) = .ok a (m.tables f) ∧ ∀ f', f' ≠ f →
        m.tables f' = s.tables f') ∨
    ∃ e, Query.exec platform (env.context i s) i f q (s.tables f) = .fails e := by
  obtain ⟨forward, clock⟩ := exec_clock ran
  rcases alone_sql_cases draws.1 usable ran with ⟨a, rfl, usable, done⟩ | ⟨e, -, -, failed⟩ | ⟨never, -⟩
  · refine Or.inl ⟨a, rfl, usable, clock ▸ forward, done, fun f' ne => ?_⟩
    exact exec_frame ran f' fun q' same => by
      cases same
      exact ne rfl
  · exact Or.inr ⟨e, failed⟩
  · exact never.elim

/-- A statement that reads. -/
theorem lone_read {f : TableName} {q : Query f} {a : Query.Ret f q} (usable : s.aborted i = false)
    (reads : ∀ ctx, Query.exec platform ctx i f q (s.tables f) = .ok a (s.tables f)) :
    Concludes platform settings i now text (fun r m => r = .ok a ∧ m.aborted i = false ∧ SameTables s m)
      (sql f q) s := by
  refine .next (moves_sql draws_can usable ⟨0, fun ctx _ => by simp [reads]⟩) fun env r m draws ran => ?_
  rcases lone_sql draws usable ran with ⟨b, rfl, usable, later, done, frame⟩ | ⟨e, failed⟩
  · rw [reads] at done
    obtain ⟨rfl, same⟩ := Outcome.ok.inj done
    refine .here ⟨_, rfl, rfl, usable, funext fun f' => ?_, later⟩
    by_cases here : f' = f
    · subst here
      exact same.symm
    · exact frame f' here
  · cases (reads _).symm.trans failed

theorem lone_datetimeNow (usable : s.aborted i = false) :
    Concludes platform settings i now text (fun r m => ∃ time, r = .ok time ∧
    (now ≤ time ∧ s.clock ≤ time) ∧ time ≤ m.clock ∧ m.aborted i = false ∧ SameTables s m) datetimeNow s := by
  refine .next (moves_datetimeNow draws_can) fun env r m draws ran => ?_
  obtain ⟨forward, clock⟩ := exec_clock ran
  obtain ⟨-, ran⟩ := exec_run ran
  cases ran
  exact .here ⟨_, rfl, env.now, rfl, ⟨draws.1.2, forward⟩, le_rfl, usable, rfl, forward⟩

theorem lone_tokenUrlsafe {n : Nat} (usable : s.aborted i = false) :
    Concludes platform settings i now text (fun r m => r = .ok text ∧
    m.aborted i = false ∧ SameTables s m) (perform (.tokenUrlsafe n)) s := by
  refine .next (moves_tokenUrlsafe draws_can n) fun env r m draws ran => ?_
  obtain ⟨forward, clock⟩ := exec_clock ran
  obtain ⟨-, ran⟩ := exec_run ran
  cases ran
  exact .here ⟨_, rfl, congrArg Except.ok draws.2, usable, rfl, forward⟩

/-- The commit or the rollback of a unit of work. -/
theorem lone_unitOfWork {α : Type} {tx : Tx} {R : Except Error α → Database → Prop} {body : Prog α}
    (ran : Concludes platform settings i now text (fun r m => m.aborted i = false ∧ ∀ m', m'.aborted i = false →
      m.clock ≤ m'.clock → (match r with
        | .ok _ => ∀ f, m'.tables f = (m.tables f).commit i
        | .error _ => ∀ f, m'.tables f = (m.tables f).rollback i) → R r m') body s) :
    Concludes platform settings i now text R (unitOfWork tx body) s := by
  refine leads_bind (leads_attempt (ran.mono ?_))
  rintro _ m ⟨r, rfl, usable, ends⟩
  refine ⟨_, rfl, ?_⟩
  cases r with
  | ok a =>
    refine .next (moves_commit draws_can) fun env r m' draws ran => ?_
    obtain ⟨forward, clock⟩ := exec_clock ran
    rcases alone_commit_cases draws.1 usable ran with ⟨rfl, usable, tables⟩ | ⟨never, -⟩
    · exact .here ⟨_, rfl, ends m' usable (clock ▸ forward) tables⟩
    · exact never.elim
  | error e =>
    refine .next (moves_rollback draws_can) fun env r m' draws ran => ?_
    obtain ⟨forward, clock⟩ := exec_clock ran
    obtain ⟨rfl, usable, tables⟩ := alone_rollback ran
    exact .here ⟨_, rfl, ends m' usable (clock ▸ forward) tables⟩

/-- Ending a transaction that has written nothing. -/
theorem AtRest.settle (rest : AtRest s i) {m' : Database} (fate : Fate) (usable : m'.aborted i = false)
    (tables : ∀ f, m'.tables f = (s.tables f).settle i fate) : AtRest m' i ∧ m'.tables = s.tables := by
  have same : m'.tables = s.tables := by
    funext f
    rw [tables f]
    cases fate with
    | isOpen => rfl
    | applied => exact commit_of_idle (rest.idle f)
    | undone => exact rollback_of_idle (rest.idle f)
  exact ⟨rest.same usable same, same⟩

theorem getByHash_ends {hash : String} {found : Option RefreshToken} (usable : s.aborted i = false)
    (rows : ((tokensOf s).rows i).filter (fun token => token.tokenHash = hash) = found.toList) :
    Concludes platform settings i now text (fun r m => r = .ok found ∧ m.aborted i = false ∧ SameTables s m)
      (RefreshTokenRepository.getByHash hash) s := by
  have reads : ∀ ctx, Query.exec platform ctx i .refreshTokens (.getByHash hash) (tokensOf s) = .ok found.toList
      (tokensOf s) := by
    intro ctx
    rw [← rows]
    rfl
  refine leads_bind ((lone_read usable reads).mono ?_)
  rintro _ m ⟨_, rfl, rfl, usable, same⟩
  refine ⟨_, rfl, ?_⟩
  cases found with
  | none => exact .here ⟨_, rfl, rfl, usable, same⟩
  | some a => exact .here ⟨_, rfl, rfl, usable, same⟩

/-! ### Revoking a family -/

/-- The token after `revoke_family`: revoked at `time` if it was a live one of the family, else as it was. -/
def revokedAlive (familyId : Id) (time : Time) (token : RefreshToken) : RefreshToken :=
  if RefreshTokenQuery.live familyId token then { token with revokedAt := some time } else token

/-- The row once `revoke_family` has reached it. -/
def swept (i : Nat) (familyId : Id) (time : Time) (slot : Slot RefreshToken) : Slot RefreshToken :=
  match slot.view i with
  | some a => if RefreshTokenQuery.live familyId a then slot.write i (some { a with revokedAt := some time }) else slot
  | none => slot

variable {familyId : Id}

theorem swept_free {slot : Slot RefreshToken} (free : slot.Free i) : (swept i familyId time slot).Free i := by
  unfold swept
  split
  · split
    · exact Or.inr rfl
    · exact free
  · exact free

theorem swept_of_not_live {slot : Slot RefreshToken}
    (dead : (slot.view i).any (RefreshTokenQuery.live familyId) = false) :
    swept i familyId time slot = slot := by
  unfold swept
  split
  · rename_i seen
    rw [seen, Option.any_some] at dead
    rw [dead]
    simp
  · rfl

theorem swept_swept (slot : Slot RefreshToken) :
    swept i familyId time (swept i familyId time slot) = swept i familyId time slot := by
  refine swept_of_not_live ?_
  unfold swept
  split
  · rename_i a seen
    split
    · simp [RefreshTokenQuery.live]
    · rw [seen, Option.any_some]
      exact Bool.eq_false_iff.mpr ‹_›
  · rename_i seen
    simp [seen]

/-- A committed row once the sweep is committed. -/
theorem swept_commit {slot : Slot RefreshToken} {c : Option RefreshToken} (rest : slot = { committed := c }) :
    (swept i familyId time slot).commit i = { committed := c.map (revokedAlive familyId time) } := by
  subst rest
  have view : Slot.view i ({ committed := c } : Slot RefreshToken) = c := rfl
  cases c with
  | none => rfl
  | some a =>
    unfold swept
    rw [view]
    cases live : RefreshTokenQuery.live familyId a with
    | true =>
      simp only [if_true, Option.map_some, revokedAlive, live]
      rw [Slot.commit_of_holder (Slot.holder_write ..), Slot.view_write_self]
    | false =>
      simp only [Bool.false_eq_true, if_false, Option.map_some, revokedAlive, live]
      exact Slot.commit_of_other (by simp [Slot.holder])

theorem revokeMatched_exec {ctx : Context} {t t' : Table Id RefreshToken} {k : Id} {u : Unit}
    (done : RefreshTokenQuery.exec ctx i t (.revokeMatched k familyId time) = .ok u t') (k' : Id) :
    t'.slot k' = if k' = k then swept i familyId time (t.slot k') else t.slot k' := by
  rcases changeRow_ok done with ⟨rfl, missed⟩ | ⟨a, seen, live, -, rfl⟩
  · split
    · rename_i here
      subst here
      refine (swept_of_not_live ?_).symm
      cases seen : (t'.slot k').view i with
      | none => rfl
      | some a => rw [Option.any_some, missed a seen]
    · rfl
  · split
    · rename_i here
      subst here
      rw [Table.slot_write_self (Table.mem_keys_of_view seen)]
      unfold swept
      rw [seen]
      simp only [live, if_true]
    · exact Table.slot_write_other ‹_›

/-- The `UPDATE` reaching the rows it has found, one after the other. -/
theorem revokeEach_concludes {ids : List Id} (usable : s.aborted i = false) (free : ∀ k, ((tokensOf s).slot k).Free i) :
    Concludes platform settings i now text (fun r m => r = .ok ⟨⟩ ∧ m.aborted i = false ∧ s.clock ≤ m.clock ∧
      (∀ k, (tokensOf m).slot k = if k ∈ ids then swept i familyId time
        ((tokensOf s).slot k) else (tokensOf s).slot k) ∧
      ∀ f, f ≠ .refreshTokens → m.tables f = s.tables f)
    (ids.forM fun id => sql .refreshTokens (.revokeMatched id familyId time)) s := by
  induction ids generalizing s with
  | nil => exact .here ⟨_, rfl, rfl, usable, le_rfl, fun k => (if_neg List.not_mem_nil).symm, fun _ _ => rfl⟩
  | cons id ids ih =>
    have answers : ∀ ctx, Query.exec platform ctx i .refreshTokens (.revokeMatched id familyId time)
        (tokensOf s) ≠ .waits :=
      fun _ => changeRow_free (free id)
    refine .next (moves_sql draws_can usable ⟨0, fun ctx _ => answers ctx⟩) fun env r m draws ran => ?_
    rcases lone_sql draws usable ran with ⟨u, rfl, usable, later, done, frame⟩ | ⟨e, failed⟩
    rotate_left
    · exact (changeRow_not_fails failed).elim
    have done : RefreshTokenQuery.exec (env.context i s) i (tokensOf s) (.revokeMatched id familyId time) = .ok u
        (tokensOf m) :=
      done
    have slots := revokeMatched_exec done
    have freed : ∀ k, ((tokensOf m).slot k).Free i := by
      intro k
      rw [slots k]
      split
      · exact swept_free (free k)
      · exact free k
    refine (ih usable freed).mono ?_
    rintro _ m' ⟨_, rfl, rfl, usable, later', rest, others⟩
    refine ⟨_, rfl, rfl, usable, later.trans later', fun k => ?_, fun f ne => (others f ne).trans (frame f ne)⟩
    rw [rest k, slots k]
    by_cases here : k = id
    · subst here
      simp [swept_swept]
    · simp [here]

theorem revokeFamily_concludes (usable : s.aborted i = false) (free : ∀ k, ((tokensOf s).slot k).Free i) :
    Concludes platform settings i now text (fun r m => r = .ok () ∧ m.aborted i = false ∧ s.clock ≤ m.clock ∧
      (∀ k, (tokensOf m).slot k = swept i familyId time ((tokensOf s).slot k)) ∧
      ∀ f, f ≠ .refreshTokens → m.tables f = s.tables f)
    (RefreshTokenRepository.revokeFamily familyId time) s := by
  have reads : ∀ ctx, Query.exec platform ctx i .refreshTokens (.matchFamily familyId) (tokensOf s) =
      .ok ((tokensOf s).keys.filter fun k => (((tokensOf s).slot k).view i).any (RefreshTokenQuery.live familyId))
          (tokensOf s) :=
    fun _ => rfl
  refine leads_bind ((lone_read usable reads).mono ?_)
  rintro _ m ⟨_, rfl, rfl, usable, same, later⟩
  have freed : ∀ k, ((tokensOf m).slot k).Free i := by rwa [tokensOf, same]
  refine ⟨_, rfl, (revokeEach_concludes usable freed).mono ?_⟩
  rintro _ m' ⟨_, rfl, rfl, usable, later', slots, others⟩
  refine ⟨_, rfl, rfl, usable, later.trans later', fun k => ?_, fun f ne => (others f ne).trans (congrFun same f)⟩
  have table : tokensOf m = tokensOf s := congrFun same .refreshTokens
  rw [slots k, table]
  split
  · rfl
  · rename_i apart
    refine (swept_of_not_live ?_).symm
    rw [Bool.eq_false_iff]
    intro live
    refine apart (List.mem_filter.mpr ⟨?_, live⟩)
    obtain ⟨a, seen, -⟩ := (Option.any_eq_true ..).mp live
    exact Table.mem_keys_of_view seen

/-- Exactly the live tokens of the family are revoked, at `time`, and nothing else is different. -/
def FamilyRevoked (familyId : Id) (time : Time) (s m : Database) : Prop :=
  (∀ k, (tokensOf m).slot k = { committed := ((tokensOf s).slot k).committed.map (revokedAlive familyId time) }) ∧
    ∀ f, f ≠ .refreshTokens → m.tables f = s.tables f

/-- The commit of a sweep. -/
theorem AtRest.commit_swept (rest : AtRest s i) {m' : Database}
    (slots : ∀ k, (tokensOf m).slot k = swept i familyId time ((tokensOf s).slot k))
    (others : ∀ f, f ≠ .refreshTokens → m.tables f = s.tables f) (tables : ∀ f, m'.tables f = (m.tables f).commit i) :
    FamilyRevoked familyId time s m' := by
  refine ⟨fun k => ?_, fun f ne => ?_⟩
  · rw [tokensOf, tables, Table.slot_commit]
    have slot := slots k
    rw [tokensOf] at slot
    rw [slot]
    exact swept_commit (rest.committed k)
  · rw [tables f, others f ne]
    exact commit_of_idle (rest.idle f)

/-! ### Issuing a token -/

/-- The row of a token that has just been issued. -/
def liveToken (id userId familyId : Id) (tokenHash : String) (createdAt expiresAt : Time) : RefreshToken :=
  { id, userId, familyId, tokenHash, createdAt, expiresAt, revokedAt := none }

theorem not_inDoubt {t : Table Id RefreshToken} {p : RefreshToken → Bool} (free : ∀ k, (t.slot k).Free i) :
    t.inDoubt i p = false := by
  rw [Bool.eq_false_iff]
  intro doubt
  obtain ⟨k, -, other⟩ := List.any_eq_true.mp doubt
  split at other
  · rename_i j v pending
    obtain ⟨apart, -⟩ := (Bool.and_eq_true ..).mp other
    rcases free k with none | mine
    · cases none.symm.trans (Slot.holder_of_pending pending)
    · obtain rfl := Option.some.inj (mine.symm.trans (Slot.holder_of_pending pending))
      simp at apart
  · cases other

theorem create_concludes {userId : Id} {hash : String} {expiresAt : Time} (usable : s.aborted i = false)
    (free : ∀ k, ((tokensOf s).slot k).Free i)
    (new : ∀ k b, ((tokensOf s).slot k).view i = some b → b.tokenHash ≠ hash) :
    Concludes platform settings i now text (fun r m => ∃ createdAt id, id ∉ (tokensOf s).keys ∧ r.isOk ∧
      m.aborted i = false ∧ s.clock ≤ m.clock ∧
      (∀ k, (tokensOf m).slot k = if k = id then
        { pending := some (i, some (liveToken id userId familyId hash createdAt expiresAt)) }
        else (tokensOf s).slot k) ∧
      ∀ f, f ≠ .refreshTokens → m.tables f = s.tables f)
    (RefreshTokenRepository.create userId familyId hash expiresAt) s := by
  have none : ((tokensOf s).rows i).any (fun token => token.tokenHash = hash) = false := by
    refine List.any_eq_false.mpr fun b member => ?_
    obtain ⟨k, seen⟩ := Table.mem_rows.mp member
    simpa using new k b seen
  have runs : ∀ (ctx : Context) (fresh : ctx.id ∉ (tokensOf s).keys),
      Query.exec platform ctx i .refreshTokens (.create userId familyId hash expiresAt) (tokensOf s) =
        .ok (liveToken ctx.id userId familyId hash ctx.now expiresAt)
          ((tokensOf s).insert i ctx.id (liveToken ctx.id userId familyId hash ctx.now expiresAt) fresh) := by
    intro ctx fresh
    change insertRow ctx i (tokensOf s) _ _ _ = _
    unfold insertRow
    rw [dif_pos fresh]
    unfold Table.insertUnique
    rw [not_inDoubt free, none]
    rfl
  obtain ⟨id, unused⟩ := Infinite.exists_notMem_finset (tokensOf s).keys.toFinset
  rw [List.mem_toFinset] at unused
  have answers : ∀ ctx : Context, ctx.id = id →
      Query.exec platform ctx i .refreshTokens (.create userId familyId hash expiresAt) (tokensOf s) ≠ .waits := by
    rintro ctx rfl
    rw [runs ctx unused]
    simp
  refine .next (moves_sql draws_can usable ⟨id, answers⟩) fun env r m draws ran => ?_
  rcases lone_sql draws usable ran with ⟨token, rfl, usable, later, done, frame⟩ | ⟨e, failed⟩
  · obtain ⟨built, fresh, same, -⟩ := insertRow_ok done
    refine .here ⟨_, rfl, (env.context i s).now, (env.context i s).id, fresh, rfl, usable, later, fun k => ?_, frame⟩
    rw [tokensOf, same]
    split
    · rename_i here
      subst here
      exact Table.slot_insert_self ..
    · exact Table.slot_insert_other ‹_›
  · obtain ⟨-, duplicate⟩ := insertRow_fails failed
    cases none.symm.trans duplicate

theorem issueTokens_concludes {userId : Id} (usable : s.aborted i = false) (free : ∀ k, ((tokensOf s).slot k).Free i)
    (new : ∀ k b, ((tokensOf s).slot k).view i = some b → b.tokenHash ≠ hashRefreshToken platform text) :
    Concludes platform settings i now text (fun r m => ∃ accessToken issued createdAt id, r = .ok ⟨accessToken, text⟩ ∧
      s.clock ≤ issued ∧ issued ≤ m.clock ∧ id ∉ (tokensOf s).keys ∧ m.aborted i = false ∧ s.clock ≤ m.clock ∧
      (∀ k, (tokensOf m).slot k = if k = id then
        { pending := some (i, some (liveToken id userId familyId (hashRefreshToken platform text) createdAt
            (issued + seconds settings.refreshTokenTtlSeconds))) }
        else (tokensOf s).slot k) ∧
      ∀ f, f ≠ .refreshTokens → m.tables f = s.tables f)
    (issueTokens platform settings userId familyId) s := by
  refine leads_bind (leads_bind ((lone_datetimeNow usable).mono ?_))
  rintro _ m ⟨_, rfl, signed, rfl, -, -, usable, same, later⟩
  refine ⟨_, rfl, .here ⟨_, rfl, leads_bind ((lone_tokenUrlsafe usable).mono ?_)⟩⟩
  rintro _ m₁ ⟨_, rfl, rfl, usable, same₁, later₁⟩
  refine ⟨_, rfl, leads_bind ((lone_datetimeNow usable).mono ?_)⟩
  rintro _ m₂ ⟨_, rfl, issued, rfl, ⟨-, after⟩, before, usable, same₂, later₂⟩
  have same : m₂.tables = s.tables := same₂.trans (same₁.trans same)
  have table : tokensOf m₂ = tokensOf s := congrFun same .refreshTokens
  refine ⟨_, rfl, leads_bind ((create_concludes (s := m₂) usable (table.symm ▸ free) (table.symm ▸ new)).mono ?_)⟩
  rintro _ m₃ ⟨r, rfl, createdAt, id, fresh, done, usable, later₃, slots, frame⟩
  cases r with
  | error e => cases done
  | ok token =>
    rw [table] at fresh slots
    have past := later.trans later₁
    exact ⟨_, rfl, .here ⟨_, rfl, _, issued, createdAt, id, rfl, past.trans after, before.trans later₃, fresh, usable,
      (past.trans later₂).trans later₃, slots, fun f ne => (frame f ne).trans (congrFun same f)⟩⟩

/-! ### A refresh -/

/-- Token `a` is revoked at `time` and one live token of the same user and family, whose hash is
that of `text`, is added; nothing else is different. -/
def Rotated (platform : Platform) (settings : Settings) (a : RefreshToken) (text : String) (time : Time)
    (s m : Database) : Prop :=
  ∃ id createdAt issued, id ∉ (tokensOf s).keys ∧ time ≤ issued ∧
    (∀ k, (tokensOf m).slot k = if k = id then
      { committed := some (liveToken id a.userId a.familyId (hashRefreshToken platform text) createdAt
          (issued + seconds settings.refreshTokenTtlSeconds)) }
      else if k = a.id then { committed := some { a with revokedAt := some time } } else (tokensOf s).slot k) ∧
    ∀ f, f ≠ .refreshTokens → m.tables f = s.tables f

/-- What a refresh with the string `raw` does, alone, to a database with no token locked. -/
structure RefreshEffects (platform : Platform) (settings : Settings) (s : Database) (i : Nat) (now : Time)
    (text raw : String) : Prop where
  unknown : (∀ k a, ((tokensOf s).slot k).committed = some a → a.tokenHash ≠ hashRefreshToken platform raw) →
    Concludes platform settings i now text (fun r m => r = .error .invalidTokenError ∧ Unchanged s m)
      (unitOfWork .request (refreshAccessToken platform settings raw)) s
  reused : ∀ k a, ((tokensOf s).slot k).committed = some a → a.tokenHash = hashRefreshToken platform raw →
    a.revokedAt ≠ none → Concludes platform settings i now text (fun r m => r = .error .refreshTokenReusedError ∧
      ∃ time, now ≤ time ∧ time ≤ m.clock ∧ FamilyRevoked a.familyId time s m)
      (unitOfWork .request (refreshAccessToken platform settings raw)) s
  expired : ∀ k a, ((tokensOf s).slot k).committed = some a → a.tokenHash = hashRefreshToken platform raw →
    a.revokedAt = none → a.expiresAt < now → Concludes platform settings i now text
      (fun r m => r = .error .tokenExpiredError ∧ Unchanged s m)
      (unitOfWork .request (refreshAccessToken platform settings raw)) s
  /-- `time` is when the request compares; a token that expires before that has expired. -/
  live : ∀ k a, ((tokensOf s).slot k).committed = some a → a.tokenHash = hashRefreshToken platform raw →
    a.revokedAt = none → (∀ k b, ((tokensOf s).slot k).committed = some b →
      b.tokenHash ≠ hashRefreshToken platform text) →
    Concludes platform settings i now text (fun r m => ∃ time, now ≤ time ∧ time ≤ m.clock ∧
      (a.expiresAt < time ∧ r = .error .tokenExpiredError ∧ Unchanged s m ∨
       time ≤ a.expiresAt ∧ (∃ accessToken, r = .ok ⟨accessToken, text⟩) ∧ Rotated platform settings a text time s m))
      (unitOfWork .request (refreshAccessToken platform settings raw)) s

/-- The lookup of the presented token and the clock reading after it. -/
theorem refreshAccessToken_begins {R : Except Error TokenPair → Database → Prop} {raw : String} {k : Id}
    {a : RefreshToken}
    (rest : AtRest s i) (stored : ((tokensOf s).slot k).committed = some a)
    (own : a.tokenHash = hashRefreshToken platform raw)
    (goes : ∀ time m, now ≤ time → time ≤ m.clock → AtRest m i → m.tables = s.tables →
      Concludes platform settings i now text R (if a.revokedAt ≠ none then do
          RefreshTokenRepository.revokeFamily a.familyId time
          perform (.commit .request)
          raise .refreshTokenReusedError
        else if a.expiresAt < time then raise .tokenExpiredError
        else do
          RefreshTokenRepository.revoke a.id time
          issueTokens platform settings a.userId a.familyId) m) :
    Concludes platform settings i now text R (refreshAccessToken platform settings raw) s := by
  refine leads_bind ((getByHash_ends rest.usable (rest.known stored own)).mono ?_)
  rintro _ m ⟨_, rfl, rfl, usable, same, -⟩
  refine ⟨_, rfl, leads_bind ((lone_datetimeNow usable).mono ?_)⟩
  rintro _ m₁ ⟨_, rfl, time, rfl, ⟨after, -⟩, before, usable, same₁, -⟩
  have same := same₁.trans same
  exact ⟨_, rfl, goes time m₁ after before (rest.same usable same) same⟩

/-- The end of a transaction that has written nothing. -/
theorem AtRest.unchanged (rest : AtRest m i) (same : m.tables = s.tables) {m' : Database}
    (tables : ∀ f, m'.tables f = (m.tables f).rollback i) : Unchanged s m' := by
  refine .of_same (Eq.trans ?_ same)
  funext f
  rw [tables f]
  exact rollback_of_idle (rest.idle f)

theorem FamilyRevoked.of_same {familyId : Id} {m' : Database} (revoked : FamilyRevoked familyId time m m')
    (same : m.tables = s.tables) : FamilyRevoked familyId time s m' := by
  unfold FamilyRevoked tokensOf at *
  rwa [same] at revoked

/-- A rollback after the commit of a sweep. -/
theorem FamilyRevoked.rollback {familyId : Id} {m' : Database} (revoked : FamilyRevoked familyId time s m)
    (idle : s.Idle i)
    (tables : ∀ f, m'.tables f = (m.tables f).rollback i) : FamilyRevoked familyId time s m' := by
  refine ⟨fun k => ?_, fun f ne => ?_⟩
  · rw [tokensOf, tables, Table.slot_rollback]
    have slot := revoked.1 k
    rw [tokensOf] at slot
    rw [slot]
    exact Slot.rollback_of_other (by simp [Slot.holder])
  · rw [tables f, revoked.2 f ne]
    exact rollback_of_idle (idle f)

theorem refresh_reused {raw : String} {k : Id} {a : RefreshToken} (rest : AtRest s i)
    (stored : ((tokensOf s).slot k).committed = some a) (own : a.tokenHash = hashRefreshToken platform raw)
    (revoked : a.revokedAt ≠ none) :
    Concludes platform settings i now text (fun r m => r = .error .refreshTokenReusedError ∧
      ∃ time, now ≤ time ∧ time ≤ m.clock ∧ FamilyRevoked a.familyId time s m)
      (unitOfWork .request (refreshAccessToken platform settings raw)) s := by
  refine lone_unitOfWork (refreshAccessToken_begins rest stored own fun time m after before rest' same => ?_)
  rw [if_pos revoked]
  refine leads_bind ((revokeFamily_concludes rest'.usable rest'.unlocked).mono ?_)
  rintro _ m₁ ⟨_, rfl, rfl, usable, later, slots, others⟩
  refine ⟨_, rfl, .next (moves_commit draws_can) fun env r m₂ draws ran => ?_⟩
  obtain ⟨forward, clock⟩ := exec_clock ran
  rcases alone_commit_cases draws.1 usable ran with ⟨rfl, usable, tables⟩ | ⟨never, -⟩
  rotate_left
  · exact never.elim
  have swept := (rest'.commit_swept slots others tables).of_same same
  refine .here ⟨_, rfl, usable, fun m₃ _ later₃ tables => ⟨rfl, time, after, ?_, swept.rollback rest.idle tables⟩⟩
  exact before.trans (later.trans ((clock ▸ forward).trans later₃))

theorem revoke_concludes {a : RefreshToken} (rest : AtRest s i) (stored : ((tokensOf s).slot a.id).committed = some a) :
    Concludes platform settings i now text (fun r m => r = .ok () ∧ m.aborted i = false ∧ s.clock ≤ m.clock ∧
      (tokensOf m).keys = (tokensOf s).keys ∧
      (∀ k, (tokensOf m).slot k = if k = a.id then
        { committed := some a, pending := some (i, some { a with revokedAt := some time }) } else (tokensOf s).slot k) ∧
      ∀ f, f ≠ .refreshTokens → m.tables f = s.tables f)
    (RefreshTokenRepository.revoke a.id time) s := by
  have answers : ∀ ctx, Query.exec platform ctx i .refreshTokens (.revoke a.id time) (tokensOf s) ≠ .waits :=
    fun _ => changeRow_free (rest.unlocked a.id)
  refine .next (moves_sql draws_can rest.usable ⟨0, fun ctx _ => answers ctx⟩) fun env r m draws ran => ?_
  rcases lone_sql draws rest.usable ran with ⟨u, rfl, usable, later, done, frame⟩ | ⟨e, failed⟩
  rotate_left
  · exact (changeRow_not_fails failed).elim
  have seen : ((tokensOf s).slot a.id).view i = some a := by rw [rest.view, stored]
  rcases changeRow_ok done with ⟨-, missed⟩ | ⟨b, sees, -, -, same⟩
  · cases missed a seen
  obtain rfl := Option.some.inj (seen.symm.trans sees)
  refine .here ⟨_, rfl, rfl, usable, later, ?_, fun k => ?_, frame⟩
  · rw [tokensOf, same]
    rfl
  · rw [tokensOf, same]
    split
    · rename_i here
      subst here
      rw [Table.slot_write_self (Table.mem_keys_of_view seen)]
      have slot := rest.committed a.id
      rw [stored] at slot
      rw [tokensOf] at slot
      rw [slot]
      rfl
    · exact Table.slot_write_other ‹_›

theorem refresh_live {raw : String} {k : Id} {a : RefreshToken} (rest : AtRest s i)
    (stored : ((tokensOf s).slot k).committed = some a) (own : a.tokenHash = hashRefreshToken platform raw)
    (unrevoked : a.revokedAt = none)
    (new : ∀ k b, ((tokensOf s).slot k).committed = some b → b.tokenHash ≠ hashRefreshToken platform text) :
    Concludes platform settings i now text (fun r m => ∃ time, now ≤ time ∧ time ≤ m.clock ∧
      (a.expiresAt < time ∧ r = .error .tokenExpiredError ∧ Unchanged s m ∨
       time ≤ a.expiresAt ∧ (∃ accessToken, r = .ok ⟨accessToken, text⟩) ∧ Rotated platform settings a text time s m))
      (unitOfWork .request (refreshAccessToken platform settings raw)) s := by
  refine lone_unitOfWork (refreshAccessToken_begins rest stored own fun time m after before rest' same => ?_)
  rw [if_neg (not_not.mpr unrevoked)]
  by_cases late : a.expiresAt < time
  · rw [if_pos late]
    exact .here ⟨_, rfl, rest'.usable, fun m' _ later tables =>
      ⟨time, after, before.trans later, Or.inl ⟨late, rfl, rest'.unchanged same tables⟩⟩⟩
  rw [if_neg late]
  obtain rfl : a.id = k := rest.keyed k a (Or.inl stored)
  have table : tokensOf m = tokensOf s := congrFun same .refreshTokens
  refine leads_bind ((revoke_concludes rest' (table.symm ▸ stored)).mono ?_)
  rintro _ m₁ ⟨_, rfl, rfl, usable, later, keys, slots, others⟩
  have free : ∀ k, ((tokensOf m₁).slot k).Free i := by
    intro k
    rw [slots k]
    split
    · exact Or.inr rfl
    · exact rest'.unlocked k
  have unused : ∀ k b, ((tokensOf m₁).slot k).view i = some b → b.tokenHash ≠ hashRefreshToken platform text := by
    intro k b seen
    rw [slots k] at seen
    split at seen
    · obtain rfl : { a with revokedAt := some time } = b := by simpa [Slot.view] using seen
      exact new a.id a stored
    · rw [rest'.view, table] at seen
      exact new k b seen
  refine ⟨_, rfl, (issueTokens_concludes usable free unused).mono ?_⟩
  rintro _ m₂ ⟨_, rfl, accessToken, issued, createdAt, id, rfl, after', before', fresh, usable, later', slots', others'⟩
  refine ⟨_, rfl, usable, fun m₃ _ later₃ tables => ⟨time, after, ?_, Or.inr ⟨Int.not_lt.mp late, ⟨_, rfl⟩, ?_⟩⟩⟩
  · exact before.trans (later.trans (later'.trans later₃))
  rw [keys, table] at fresh
  refine ⟨id, createdAt, issued, fresh, before.trans (later.trans after'), fun k => ?_, fun f ne => ?_⟩
  · have slot := slots' k
    rw [slots k, table] at slot
    rw [tokensOf] at slot ⊢
    rw [tables, Table.slot_commit, slot]
    split
    · simp [Slot.commit, Slot.holder, Slot.view]
    · split
      · simp [Slot.commit, Slot.holder, Slot.view]
      · exact Slot.commit_of_other (rest.idle .refreshTokens k)
  · rw [tables f, others' f ne, others f ne, same]
    exact commit_of_idle (rest.idle f)

theorem refresh_effects_atRest (rest : AtRest s i) (raw : String) :
    RefreshEffects platform settings s i now text raw where
  unknown none := by
    refine lone_unitOfWork (leads_bind ((getByHash_ends rest.usable (rest.unknown none)).mono ?_))
    rintro _ m ⟨_, rfl, rfl, usable, same, -⟩
    exact ⟨_, rfl, .here ⟨_, rfl, usable, fun m' _ _ tables => ⟨rfl, (rest.same usable same).unchanged same tables⟩⟩⟩
  reused k a stored own revoked := refresh_reused rest stored own revoked
  expired k a stored own unrevoked late := by
    refine lone_unitOfWork (refreshAccessToken_begins rest stored own fun time m after before rest' same => ?_)
    rw [if_neg (not_not.mpr unrevoked), if_pos (late.trans_le after)]
    exact .here ⟨_, rfl, rest'.usable, fun m' _ _ tables => ⟨rfl, rest'.unchanged same tables⟩⟩
  live k a stored own unrevoked new := refresh_live rest stored own unrevoked new

/-! ### A logout -/

/-- What a logout of `userId` with the string `raw` does, alone, to a database with no token locked. -/
structure LogoutEffects (platform : Platform) (settings : Settings) (s : Database) (i : Nat) (userId : Id) (now : Time)
    (text raw : String) : Prop where
  foreign : (∀ k a, ((tokensOf s).slot k).committed = some a → a.tokenHash = hashRefreshToken platform raw →
      a.userId ≠ userId) →
    Concludes platform settings i now text (fun r m => r = .ok () ∧ Unchanged s m)
      (unitOfWork .request (logout platform userId raw)) s
  own : ∀ k a, ((tokensOf s).slot k).committed = some a → a.tokenHash = hashRefreshToken platform raw →
    a.userId = userId →
    Concludes platform settings i now text (fun r m => r = .ok () ∧
      ∃ time, now ≤ time ∧ time ≤ m.clock ∧ FamilyRevoked a.familyId time s m)
      (unitOfWork .request (logout platform userId raw)) s
  /-- Another logout with the same string, by any process, whenever it comes. -/
  again : Concludes platform settings i now text (fun r m => r = .ok () ∧ ∀ j now text, m.aborted j = false → m.Idle j →
      Concludes platform settings j now text (fun r m' => r = .ok () ∧ Unchanged m m')
        (unitOfWork .request (logout platform userId raw)) m)
    (unitOfWork .request (logout platform userId raw)) s

theorem logout_foreign {userId : Id} {raw : String} (rest : AtRest s i)
    (foreign : ∀ k a, ((tokensOf s).slot k).committed = some a → a.tokenHash = hashRefreshToken platform raw →
      a.userId ≠ userId) :
    Concludes platform settings i now text (fun r m => r = .ok () ∧ m.aborted i = false ∧ m.tables = s.tables)
      (unitOfWork .request (logout platform userId raw)) s := by
  have found : ∃ found : Option RefreshToken, ((tokensOf s).rows i).filter
      (fun token => token.tokenHash = hashRefreshToken platform raw) = found.toList ∧
          ∀ a ∈ found, a.userId ≠ userId := by
    by_cases known : ∃ k a, ((tokensOf s).slot k).committed = some a ∧ a.tokenHash = hashRefreshToken platform raw
    · obtain ⟨k, a, stored, own⟩ := known
      refine ⟨some a, rest.known stored own, ?_⟩
      rintro b ⟨⟩
      exact foreign k a stored own
    · exact ⟨none, rest.unknown fun k a stored own => known ⟨k, a, stored, own⟩, by simp⟩
  obtain ⟨found, rows, others⟩ := found
  refine lone_unitOfWork (leads_bind ((getByHash_ends rest.usable rows).mono ?_))
  rintro _ m ⟨_, rfl, rfl, usable, same, -⟩
  have ends : ∀ m' : Database, m'.aborted i = false → m.clock ≤ m'.clock → (∀ f, m'.tables f = (m.tables f).commit i) →
      (.ok () : Except Error Unit) = .ok () ∧ m'.aborted i = false ∧ m'.tables = s.tables := by
    intro m' usable' _ tables
    obtain ⟨-, same'⟩ := (rest.same usable same).settle .applied usable' tables
    exact ⟨rfl, usable', same'.trans same⟩
  refine ⟨_, rfl, ?_⟩
  cases found with
  | none => exact .here ⟨_, rfl, usable, ends⟩
  | some a =>
    change Leads _ _ _ _ (if a.userId ≠ userId then _ else _) m
    rw [if_pos (others a rfl)]
    exact .here ⟨_, rfl, usable, ends⟩

theorem logout_own {userId : Id} {raw : String} {k : Id} {a : RefreshToken} (rest : AtRest s i)
    (stored : ((tokensOf s).slot k).committed = some a) (own : a.tokenHash = hashRefreshToken platform raw)
    (user : a.userId = userId) :
    Concludes platform settings i now text (fun r m => r = .ok () ∧ m.aborted i = false ∧
      ∃ time, now ≤ time ∧ time ≤ m.clock ∧ FamilyRevoked a.familyId time s m)
      (unitOfWork .request (logout platform userId raw)) s := by
  refine lone_unitOfWork (leads_bind ((getByHash_ends rest.usable (rest.known stored own)).mono ?_))
  rintro _ m ⟨_, rfl, rfl, usable, same, -⟩
  refine ⟨_, rfl, ?_⟩
  change Leads _ _ _ _ (if a.userId ≠ userId then _ else _) m
  rw [if_neg (not_not.mpr user)]
  refine leads_bind ((lone_datetimeNow usable).mono ?_)
  rintro _ m₁ ⟨_, rfl, time, rfl, ⟨after, -⟩, before, usable, same₁, -⟩
  have same := same₁.trans same
  have rest' := rest.same usable same
  refine ⟨_, rfl, (revokeFamily_concludes usable rest'.unlocked).mono ?_⟩
  rintro _ m₂ ⟨_, rfl, rfl, usable, later, slots, others⟩
  refine ⟨_, rfl, usable, fun m₃ usable later₃ tables => ⟨rfl, usable, time, after, ?_, ?_⟩⟩
  · exact before.trans (later.trans later₃)
  · exact (rest'.commit_swept slots others tables).of_same same

/-- A family that has been revoked has no live token left. -/
theorem revokedAlive_twice {familyId : Id} {time' : Time} (a : RefreshToken) :
    revokedAlive familyId time' (revokedAlive familyId time a) = revokedAlive familyId time a := by
  unfold revokedAlive
  by_cases live : RefreshTokenQuery.live familyId a = true
  · have dead : ¬RefreshTokenQuery.live familyId { a with revokedAt := some time } =
      true := by simp [RefreshTokenQuery.live]
    rw [if_pos live, if_neg dead]
  · rw [if_neg live, if_neg live]

theorem FamilyRevoked.atRest {familyId : Id} (revoked : FamilyRevoked familyId time s m) (rest : AtRest s i) {j : Nat}
    (usable : m.aborted j = false) (idle : m.Idle j) : AtRest m j := by
  have rows : ∀ {k b}, ((tokensOf m).slot k).committed = some b →
      ∃ a, ((tokensOf s).slot k).committed = some a ∧ b = revokedAlive familyId time a := by
    intro k b stored
    rw [revoked.1 k] at stored
    obtain ⟨a, old, same⟩ := Option.map_eq_some_iff.mp stored
    exact ⟨a, old, same.symm⟩
  have kept : ∀ a : RefreshToken, (revokedAlive familyId time a).id = a.id ∧
      (revokedAlive familyId time a).tokenHash = a.tokenHash := by
    intro a
    unfold revokedAlive
    split <;> exact ⟨rfl, rfl⟩
  refine ⟨usable, idle, fun k => by rw [revoked.1 k], fun k b version => ?_, fun k k' b b' stored stored' same => ?_⟩
  · rcases version with stored | ⟨l, pending⟩
    · obtain ⟨a, old, rfl⟩ := rows stored
      exact (kept a).1.trans (rest.keyed k a (Or.inl old))
    · rw [revoked.1 k] at pending
      cases pending
  · obtain ⟨a, old, rfl⟩ := rows stored
    obtain ⟨a', old', rfl⟩ := rows stored'
    rw [(kept a).2, (kept a').2] at same
    exact rest.hashes k k' a a' old old' same

theorem logout_again {userId : Id} {raw : String} {k : Id} {a : RefreshToken} (rest : AtRest s i)
    (stored : ((tokensOf s).slot k).committed = some a) (own : a.tokenHash = hashRefreshToken platform raw)
    (user : a.userId = userId) (revoked : FamilyRevoked a.familyId time s m) {j : Nat} (usable : m.aborted j = false)
    (idle : m.Idle j) : Concludes platform settings j now text (fun r m' => r = .ok () ∧ Unchanged m m')
      (unitOfWork .request (logout platform userId raw)) m := by
  have kept : (revokedAlive a.familyId time a).tokenHash = a.tokenHash ∧
    (revokedAlive a.familyId time a).userId = a.userId ∧
      (revokedAlive a.familyId time a).familyId = a.familyId := by
    unfold revokedAlive
    split <;> exact ⟨rfl, rfl, rfl⟩
  have stored' : ((tokensOf m).slot k).committed = some (revokedAlive a.familyId time a) := by
    rw [revoked.1 k, stored]
    rfl
  refine (logout_own (revoked.atRest rest usable idle) stored' (kept.1.trans own) (kept.2.1.trans user)).mono ?_
  rintro _ m' ⟨r, rfl, done, -, time', -, -, again⟩
  rw [kept.2.2] at again
  refine ⟨_, rfl, done, fun f k => ?_⟩
  by_cases tokens : f = .refreshTokens
  · subst tokens
    have slot := again.1 k
    have before := revoked.1 k
    rw [before] at slot
    have same : (((tokensOf s).slot k).committed.map (revokedAlive a.familyId time)).map
      (revokedAlive a.familyId time') =
        ((tokensOf s).slot k).committed.map (revokedAlive a.familyId time) := by
      cases ((tokensOf s).slot k).committed with
      | none => rfl
      | some b => exact congrArg some (revokedAlive_twice b)
    exact (slot.trans (congrArg (fun c => ({ committed := c } : Slot RefreshToken)) same)).trans before.symm
  · rw [again.2 f tokens]

theorem logout_effects_atRest (rest : AtRest s i) (userId : Id) (raw : String) :
    LogoutEffects platform settings s i userId now text raw := by
  refine ⟨fun foreign => ?_, fun k a stored own user => ?_, ?_⟩
  · refine (logout_foreign rest foreign).mono ?_
    rintro _ m ⟨r, rfl, done, -, same⟩
    exact ⟨_, rfl, done, .of_same same⟩
  · refine (logout_own rest stored own user).mono ?_
    rintro _ m ⟨r, rfl, done, -, effect⟩
    exact ⟨_, rfl, done, effect⟩
  by_cases mine : ∃ k a, ((tokensOf s).slot k).committed = some a ∧ a.tokenHash = hashRefreshToken platform raw ∧
    a.userId = userId
  · obtain ⟨k, a, stored, own, user⟩ := mine
    refine (logout_own rest stored own user).mono ?_
    rintro _ m ⟨r, rfl, done, -, time, -, -, revoked⟩
    exact ⟨_, rfl, done, fun j now text usable idle => logout_again rest stored own user revoked usable idle⟩
  · have foreign : ∀ k a, ((tokensOf s).slot k).committed = some a → a.tokenHash = hashRefreshToken platform raw →
        a.userId ≠ userId := fun k a stored own user => mine ⟨k, a, stored, own, user⟩
    refine (logout_foreign rest foreign).mono ?_
    rintro _ m ⟨r, rfl, done, -, same⟩
    refine ⟨_, rfl, done, fun j now text usable idle => ?_⟩
    have rest' : AtRest m j := by
      refine ⟨usable, idle, ?_, ?_, ?_⟩
      · rw [tokensOf, same]
        exact rest.free
      · rw [tokensOf, same]
        exact rest.keyed
      · rw [tokensOf, same]
        exact rest.hashes
    refine (logout_foreign rest' (by rwa [tokensOf, same])).mono ?_
    rintro _ m' ⟨r, rfl, done, -, same'⟩
    exact ⟨_, rfl, done, .of_same same'⟩

/-- In every reachable state in which nobody is running, whatever the time, the string that is
presented and the process that runs the request. -/
theorem sessions_exact {ok : World (application platform settings) → Label (application platform settings) → Prop}
    {w : World (application platform settings)} (reached : Reachable ok w) (still : Still w)
    (fresh : w.request i = none)
    (now : Time) (text raw : String) (userId : Id) : RefreshEffects platform settings w.state i now text raw ∧
      LogoutEffects platform settings w.state i userId now text raw :=
  have rest := reachable_atRest reached still fresh
  ⟨refresh_effects_atRest rest raw, logout_effects_atRest rest userId raw⟩

/-- User 12 has registered and holds the refresh token drawn then, the empty string. -/
def sampleSession : SampleWorld := sampleRun sampleRegistration

theorem sessions_exact_sampleSession :
    (∃ a ∈ (tokensOf sampleSession.state).committedRows, a.tokenHash = hashRefreshToken samplePlatform "" ∧
      a.userId = 12 ∧
      a.revokedAt = none) ∧
    RefreshEffects samplePlatform sampleSettings sampleSession.state 7 (seconds 5) "second" "" ∧
    LogoutEffects samplePlatform sampleSettings sampleSession.state 7 12 (seconds 5) "second" "" := by
  have stopped : ∀ j ∈ sampleSession.started, (match sampleSession.proc j with
      | some (.call _ _) => false
      | some (.done _) | none => true) = true := by decide +kernel
  refine ⟨by decide +kernel, sessions_exact (w := sampleSession) (sampleRun_reachable _) ?_
    (Option.isNone_iff_eq_none.mp (by decide +kernel)) _ _ _ _⟩
  rintro j c ⟨next, running⟩
  have quiet := stopped j (started_of_proc (sampleRun_reachable _) j _ running)
  rw [running] at quiet
  cases quiet

end TheClub
