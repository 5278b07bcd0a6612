import TheClub.Rotations

/-!
The revocation of a token family is final in the runs in which a refresh revokes unrevoked tokens
only and a family has not grown between the lookup of `revoke_family` and its commit: the UPDATE
never sees a token that a concurrent refresh commits in between.
-/

namespace TheClub
open ReadCommitted Program

variable {platform : Platform} {settings : Settings}

/-- Every committed unrevoked token of the family that process `i` is revoking was found by its lookup. -/
def sweptWhole (w : World (application platform settings)) (i : Nat) : Bool :=
  match (w.ghost (tokenProtocol platform) i).phase with
  | .sweeping familyId looked _ => (w.state.tables .refreshTokens).keys.all fun k =>
      !(((w.state.tables .refreshTokens).slot k).committed.any (RefreshTokenQuery.live familyId)) || looked.contains k
  | _ => true

def isWhole (w : World (application platform settings)) : Label (application platform settings) → Bool
  | .run i env => isUncontested w (.run i env) &&
      (!(committing w i && env.fault != some .before) || sweptWhole w i)
  | l => isUseCase w l

/-- The runs of the use cases in which every refresh revokes a token that is still unrevoked and
every transaction that revokes a family has found all unrevoked tokens of it that are committed
when it commits. -/
abbrev WholeSweeps (w : World (application platform settings)) (l : Label (application platform settings)) : Prop :=
  isWhole w l = true

theorem whole_uncontested (w : World (application platform settings)) (l : Label (application platform settings))
    (h : WholeSweeps w l) : Uncontested w l := by
  cases l with
  | run i env => exact (Bool.and_eq_true_iff.mp h).1
  | _ => exact h

theorem WholeSweeps.looked {w : World (application platform settings)} {i : Nat} {env : Env} {tx : Tx} {familyId k : Id}
    {looked rest : List Id} {token : RefreshToken} (h : WholeSweeps w (.run i env)) (about : w.AboutTo i (.commit tx))
    (delivered : env.fault ≠ some .before)
    (sweeping : (w.ghost (tokenProtocol platform) i).phase = .sweeping familyId looked rest)
    (committed : ((w.state.tables .refreshTokens).slot k).committed = some token)
    (live : RefreshTokenQuery.live familyId token = true) : k ∈ looked := by
  have whole := (Bool.and_eq_true_iff.mp h).2
  rw [committing_of_aboutTo about, Bool.true_and, Bool.or_eq_true, Bool.not_eq_true', bne_eq_false_iff_eq] at whole
  have found := whole.resolve_left delivered
  simp only [sweptWhole, sweeping, List.all_eq_true, Bool.or_eq_true, Bool.not_eq_true', List.contains_eq_mem,
    decide_eq_true_eq] at found
  have member := Table.mem_keys_of_version (Or.inl committed)
  refine (found k member).resolve_left ?_
  rw [committed]
  simp [live]

/-! ### Families between the statements -/

/-- No version of a token of the family is unrevoked, and there is a committed one. -/
def Dead (t : Table Id RefreshToken) (familyId : Id) : Prop :=
  (∃ k a, (t.slot k).committed = some a ∧ a.familyId = familyId) ∧
  ∀ k a, (t.slot k).Version a → RefreshTokenQuery.live familyId a = false

/-- Process `i` has looked up some committed tokens of the family and revoked those not in `rest`. -/
structure Sweeping (t : Table Id RefreshToken) (i : Nat) (familyId : Id) (looked rest : List Id) : Prop where
  exists_token : ∃ k a, (t.slot k).committed = some a ∧ a.familyId = familyId
  committed : ∀ k ∈ looked, ∃ a, (t.slot k).committed = some a
  swept : ∀ k ∈ looked, k ∈ rest ∨ ∀ a, (t.slot k).view i = some a → RefreshTokenQuery.live familyId a = false
  held : ∀ k, (t.slot k).holder = some i → k ∈ looked
  among : ∀ k ∈ rest, k ∈ looked

/-- A transaction that has inserted a token of the family. -/
def TokenPhase.Bears (familyId : Id) : TokenPhase → Prop
  | founded own => own = familyId
  | rotated token => token.familyId = familyId
  | _ => False

structure Sweeps (t : Table Id RefreshToken) (g : Nat → TokenPlay) : Prop where
  sweeping : ∀ i familyId looked rest, (g i).phase = .sweeping familyId looked rest → Sweeping t i familyId looked rest
  born : ∀ k i a, (t.slot k).pending = some (i, some a) → (t.slot k).committed = none → (g i).phase.Bears a.familyId
  ended : ∀ i familyId, familyId ∈ (g i).ended → Dead t familyId

section
variable {t t' : Table Id RefreshToken} {i j : Nat} {new : Option RefreshToken} {familyId : Id} {looked rest : List Id}

theorem live_iff {a : RefreshToken} :
    RefreshTokenQuery.live familyId a = true ↔ a.familyId = familyId ∧ a.revokedAt = none := by
  simp [RefreshTokenQuery.live]

theorem not_live_of_revoked {a : RefreshToken} (revoked : a.revokedAt ≠ none) :
    RefreshTokenQuery.live familyId a = false := by
  simp [RefreshTokenQuery.live, revoked]

theorem Sweeping.other (sweep : Sweeping t j familyId looked rest) (ne : j ≠ i)
    (moved : t.Moved RefreshToken.id RefreshTokenQuery.fixed i new t') : Sweeping t' j familyId looked rest where
  exists_token := by
    obtain ⟨k, a, committed, family⟩ := sweep.exists_token
    exact ⟨k, a, by rw [moved.committed, committed], family⟩
  committed k member := by
    rw [moved.committed]
    exact sweep.committed k member
  swept k member := by
    rw [moved.view ne]
    exact sweep.swept k member
  held k held := sweep.held k (moved.holder ne held)
  among := sweep.among

/-- The committed tokens keep their families. -/
theorem committed_family_settle (revokes : RevokesOnly t) (fate : Fate)
    (found : ∃ k a, (t.slot k).committed = some a ∧ a.familyId = familyId) :
    ∃ k a, ((t.settle i fate).slot k).committed = some a ∧ a.familyId = familyId := by
  obtain ⟨k, a, committed, family⟩ := found
  rcases Table.committed_settle i fate k t with same | ⟨-, pending⟩
  · exact ⟨k, a, by rw [same, committed], family⟩
  · obtain ⟨b, written, kept⟩ := revokes k i _ pending
    exact ⟨k, b, written, (familyId_of_fixed (kept a committed).2).trans family⟩

theorem Sweeping.settle_other (sweep : Sweeping t j familyId looked rest) (ne : j ≠ i) (revokes : RevokesOnly t)
    (fate : Fate) : Sweeping (t.settle i fate) j familyId looked rest where
  exists_token := committed_family_settle revokes fate sweep.exists_token
  committed k member := by
    obtain ⟨a, committed⟩ := sweep.committed k member
    rcases Table.committed_settle i fate k t with same | ⟨-, pending⟩
    · exact ⟨a, by rw [same, committed]⟩
    · obtain ⟨b, written, -⟩ := revokes k i _ pending
      exact ⟨b, written⟩
  swept k member := by
    refine (sweep.swept k member).imp_right fun swept a seen => ?_
    by_cases held : (t.slot k).holder = some i
    · -- what `i` leaves behind is committed as it was, or revoked
      have away : ((t.settle i fate).slot k).holder ≠ some j := by
        intro other
        have same := Table.slot_settle_held (Slot.pending_of_holder other)
        rw [same, held] at other
        exact ne (Option.some.inj other).symm
      rw [Slot.view_of_not_holder away] at seen
      obtain ⟨old, committed⟩ := sweep.committed k member
      rcases Table.committed_settle i fate k t with same | ⟨-, pending⟩
      · refine swept a ?_
        rw [Slot.view_of_not_holder (by rw [held]; simpa using Ne.symm ne), ← same, seen]
      · obtain ⟨b, written, kept⟩ := revokes k i _ pending
        cases seen.symm.trans written
        exact not_live_of_revoked (kept old committed).1
    · rw [Table.slot_settle_other fate held] at seen
      exact swept a seen
  held k held := by
    have same := Table.slot_settle_held (Slot.pending_of_holder held)
    rw [same] at held
    exact sweep.held k held
  among := sweep.among

theorem Dead.settle (dead : Dead t familyId) (revokes : RevokesOnly t) (fate : Fate) :
    Dead (t.settle i fate) familyId :=
  ⟨committed_family_settle revokes fate dead.1, fun k a version => dead.2 k a (Table.version_settle version)⟩

theorem Dead.revoke (dead : Dead t familyId) {k : Id} {a : RefreshToken} (revoked : a.revokedAt ≠ none) :
    Dead (t.write i k (some a)) familyId := by
  obtain ⟨⟨k', b, committed, family⟩, versions⟩ := dead
  refine ⟨⟨k', b, by rw [Table.committed_write, committed], family⟩, fun k' c version => ?_⟩
  rcases Table.version_write version with old | ⟨-, same⟩
  · exact versions k' c old
  · cases same
    exact not_live_of_revoked revoked

theorem Dead.insert (dead : Dead t familyId) {k : Id} {a : RefreshToken} {fresh : k ∉ t.keys}
    (other : a.familyId ≠ familyId) : Dead (t.insert i k a fresh) familyId := by
  obtain ⟨⟨k', b, committed, family⟩, versions⟩ := dead
  refine ⟨⟨k', b, by rw [Table.committed_insert, committed], family⟩, fun k' c version => ?_⟩
  rcases Table.version_insert version with old | ⟨-, rfl⟩
  · exact versions k' c old
  · simp [RefreshTokenQuery.live, other]

/-- The UPDATE has reached the next row of the lookup, and the row is not live any more. -/
theorem Sweeping.next {k : Id} (sweep : Sweeping t i familyId looked (k :: rest))
    (moved : t.Moved RefreshToken.id RefreshTokenQuery.fixed i none t') (others : ∀ k', k' ≠ k → t'.slot k' = t.slot k')
    (gone : ∀ a, (t'.slot k).view i = some a → RefreshTokenQuery.live familyId a = false) :
    Sweeping t' i familyId looked rest where
  exists_token := by
    obtain ⟨k, a, committed, family⟩ := sweep.exists_token
    exact ⟨k, a, by rw [moved.committed, committed], family⟩
  committed k member := by
    rw [moved.committed]
    exact sweep.committed k member
  swept k' member := by
    by_cases here : k' = k
    · subst here
      exact Or.inr gone
    · rw [others k' here]
      exact (sweep.swept k' member).imp_left fun later => (List.mem_cons.mp later).resolve_left here
  held k' held := by
    by_cases here : k' = k
    · subst here
      exact sweep.among k' List.mem_cons_self
    · rw [others k' here] at held
      exact sweep.held k' held
  among k' member := sweep.among k' (List.mem_cons_of_mem _ member)

end

namespace Sweeps
variable {t t' : Table Id RefreshToken} {issued : List Id} {g : Nat → TokenPlay} {i : Nat} {p : TokenPhase}
  {new : Option RefreshToken}

theorem empty : Sweeps Table.empty fun _ => {} where
  sweeping _ _ _ _ phase := by cases phase
  born _ _ _ pending := by cases pending
  ended _ _ ended := by cases ended

/-- A statement that takes process `i` to phase `p`. -/
theorem statement (sweeps : Sweeps t g) (moved : t.Moved RefreshToken.id RefreshTokenQuery.fixed i new t')
    (sweeping : ∀ familyId looked rest, p = .sweeping familyId looked rest → Sweeping t' i familyId looked rest)
    (born : ∀ k a, (t'.slot k).pending = some (i, some a) → (t'.slot k).committed = none → p.Bears a.familyId)
    (dead : ∀ familyId, Dead t familyId → Dead t' familyId) :
    Sweeps t' (Function.update g i { g i with phase := p }) where
  sweeping j familyId looked rest phase := by
    by_cases mine : j = i
    · subst mine
      rw [Function.update_self] at phase
      exact sweeping familyId looked rest phase
    · rw [Function.update_of_ne mine] at phase
      exact (sweeps.sweeping j familyId looked rest phase).other mine moved
  born k j a pending absent := by
    by_cases mine : j = i
    · subst mine
      rw [Function.update_self]
      exact born k a pending absent
    · rw [Function.update_of_ne mine]
      rw [moved.committed] at absent
      exact sweeps.born k j a ((moved.pending mine).mp pending) absent
  ended j familyId ended := by
    refine dead familyId (sweeps.ended j familyId ?_)
    by_cases mine : j = i
    · subst mine
      rwa [Function.update_self] at ended
    · rwa [Function.update_of_ne mine] at ended

/-- A statement that changes no row, of a transaction that has locked none. -/
theorem look (sweeps : Sweeps t g) (none : ∀ k, (t.slot k).holder ≠ some i)
    (sweeping : ∀ familyId looked rest, p = .sweeping familyId looked rest → Sweeping t i familyId looked rest) :
    Sweeps t (Function.update g i { g i with phase := p }) :=
  sweeps.statement (show t.Moved RefreshToken.id RefreshTokenQuery.fixed i Option.none t from .still rfl) sweeping
    (fun k _ pending => (none k (Slot.holder_of_pending pending)).elim) fun _ => id

theorem create (sweeps : Sweeps t g) (inv : Rotations t issued g) {ctx : Context} {userId familyId : Id}
    {tokenHash : String} {expiresAt : Time} {row : RefreshToken} (opens : (g i).phase.Opens familyId)
    (done : RefreshTokenQuery.exec ctx i t (.create userId familyId tokenHash expiresAt) = .ok row t') :
    Sweeps t' (Function.update g i { g i with phase := (g i).phase.issued }) := by
  have moved : t.Moved RefreshToken.id RefreshTokenQuery.fixed i (some row) t' := insertRow_moved rfl done
  obtain ⟨built, fresh, table, -⟩ := insertRow_ok done
  rw [← built] at table
  subst table
  have family : row.familyId = familyId := by rw [built]
  have fits := inv.fits i
  -- a row that is pending and not committed is the new one, if there was none before
  have born : ∀ p : TokenPhase, p.Bears familyId → (∀ k, (t.slot k).holder = some i → (t.slot k).committed ≠ none) →
      ∀ k a, ((t.insert i ctx.id row fresh).slot k).pending = some (i, some a) →
        ((t.insert i ctx.id row fresh).slot k).committed = none → p.Bears a.familyId := by
    intro p bears others k a pending absent
    by_cases here : k = ctx.id
    · subst here
      rw [Table.slot_insert_self] at pending
      cases pending
      rwa [family]
    · rw [Table.slot_insert_other here] at pending absent
      exact (others k (Slot.holder_of_pending pending) absent).elim
  rcases opens with drawn | ⟨token, revoked, rfl⟩
  · rw [drawn] at fits ⊢
    obtain ⟨-, unused, none⟩ := fits
    refine sweeps.statement moved (fun _ _ _ same => by cases same) ?_ fun F dead => ?_
    · exact born (.founded familyId) rfl fun k held => (none k held).elim
    · obtain ⟨k, a, committed, same⟩ := dead.1
      refine dead.insert ?_
      rw [family]
      rintro rfl
      exact unused k a (Or.inl committed) same
  · rw [revoked] at fits ⊢
    obtain ⟨⟨old, row', committed, pending, fixed, unrevoked⟩, only⟩ := fits
    refine sweeps.statement moved (fun _ _ _ same => by cases same) ?_ fun F dead => ?_
    · refine born (.rotated token) rfl fun k held absent => ?_
      rw [only k held, committed] at absent
      cases absent
    · refine dead.insert ?_
      rw [family]
      rintro rfl
      have dead := dead.2 token.id old (Or.inl committed)
      rw [live_iff.mpr ⟨familyId_of_fixed fixed, unrevoked⟩] at dead
      cases dead

/-- An UPDATE that revokes a row which is committed. -/
theorem revoke (sweeps : Sweeps t g) {k : Id} {a old : RefreshToken} {now : Time}
    (seen : (t.slot k).view i = some a) (free : (t.slot k).Free i) (committed : (t.slot k).committed = some old)
    (others : ∀ k, (t.slot k).holder = some i → (t.slot k).committed ≠ none)
    (sweeping : ∀ familyId looked rest, p = .sweeping familyId looked rest →
      Sweeping (t.write i k (some { a with revokedAt := some now })) i familyId looked rest) :
    Sweeps (t.write i k (some { a with revokedAt := some now })) (Function.update g i { g i with phase := p }) := by
  refine sweeps.statement (show t.Moved RefreshToken.id RefreshTokenQuery.fixed i none _ from .wrote rfl seen free ?_)
    sweeping ?_ fun F dead => dead.revoke (by simp)
  · rintro b ⟨⟩
    exact ⟨rfl, rfl⟩
  · intro k' b pending absent
    rw [Table.committed_write] at absent
    by_cases here : k' = k
    · subst here
      cases committed.symm.trans absent
    · rw [Table.slot_write_other here] at pending
      exact (others k' (Slot.holder_of_pending pending) absent).elim

theorem query (sweeps : Sweeps t g) (inv : Rotations t issued g) {ctx : Context} {q : RefreshTokenQuery} {a : q.Ret}
    (allowed : (tokenProtocol platform).allowed (g i) (.sql .refreshTokens q))
    (done : RefreshTokenQuery.exec ctx i t q = .ok a t') :
    Sweeps t' (Function.update g i { g i with phase := (g i).phase.after (.sql .refreshTokens q) (.ok a) }) := by
  have fits := inv.fits i
  cases q with
  | getByHash tokenHash =>
    injection done with _ table
    subst table
    have quiet : (g i).phase = .quiet := allowed
    rw [quiet] at fits ⊢
    refine sweeps.look fits fun F looked rest same => ?_
    rcases a with _ | ⟨token, _ | ⟨_, _⟩⟩ <;> cases same
  | create userId familyId tokenHash expiresAt =>
    rw [TokenPhase.after_create]
    exact sweeps.create inv allowed done
  | revoke tokenId now =>
    obtain ⟨token, found, rfl, -⟩ := allowed
    rw [found] at fits ⊢
    obtain ⟨⟨old, committed, -⟩, none⟩ := fits
    have seen : (t.slot token.id).view i = some old := by rw [Slot.view_of_not_holder (none _), committed]
    rcases changeRow_ok done with ⟨-, missed⟩ | ⟨b, seen', -, free, rfl⟩
    · cases missed old seen
    · exact sweeps.revoke (p := .revoked token) seen' free committed (fun k held => (none k held).elim)
        fun _ _ _ same => by cases same
  | matchFamily familyId =>
    injection done with looked table
    subst table
    obtain ⟨token, found, rfl⟩ := allowed
    rw [found] at fits ⊢
    obtain ⟨⟨old, committed, fixed⟩, none⟩ := fits
    refine sweeps.look none fun F ids rest same => ?_
    cases same
    refine ⟨⟨token.id, old, committed, familyId_of_fixed fixed⟩, fun k member => ?_, fun k member => Or.inl member,
      fun k held => (none k held).elim, fun k => id⟩
    rw [← looked] at member
    obtain ⟨-, matching⟩ := List.mem_filter.mp member
    rw [Slot.view_of_not_holder (none k)] at matching
    obtain ⟨b, row, -⟩ := (Option.any_eq_true ..).mp matching
    exact ⟨b, row⟩
  | revokeMatched tokenId familyId now =>
    obtain ⟨looked, rest, phase⟩ := allowed
    have sweep := sweeps.sweeping i familyId looked (tokenId :: rest) phase
    rw [phase]
    have others : ∀ k, (t.slot k).holder = some i → (t.slot k).committed ≠ none := by
      intro k held absent
      obtain ⟨old, committed⟩ := sweep.committed k (sweep.held k held)
      cases absent.symm.trans committed
    rcases changeRow_ok done with ⟨rfl, missed⟩ | ⟨b, seen, -, free, rfl⟩
    · refine sweeps.statement (p := .sweeping familyId looked rest)
        (show Table.Moved RefreshToken.id RefreshTokenQuery.fixed i none _ _ from .still rfl) ?_ ?_ fun _ => id
      · rintro F ids ids' ⟨⟩
        exact sweep.next (.still rfl) (fun _ _ => rfl) missed
      · exact fun k b pending absent => (others k (Slot.holder_of_pending pending) absent).elim
    · obtain ⟨old, committed⟩ := sweep.committed tokenId (sweep.among tokenId List.mem_cons_self)
      refine sweeps.revoke (p := .sweeping familyId looked rest) seen free committed others ?_
      rintro F ids ids' ⟨⟩
      refine sweep.next (.wrote rfl seen free ?_) (fun k other => Table.slot_write_other other) fun c view => ?_
      · rintro c ⟨⟩
        exact ⟨rfl, rfl⟩
      · rw [Table.slot_write_self (Table.mem_keys_of_view seen), Slot.view_write_self] at view
        cases view
        exact not_live_of_revoked (by simp)

/-! ### The end of a transaction -/

/-- A commit ends the family that the transaction has revoked. -/
theorem ended_settle {play : TokenPlay} {fate : Fate} {familyId : Id} (h : familyId ∈ (play.settle fate).ended) :
    familyId ∈ play.ended ∨ fate = .applied ∧ ∃ looked rest, play.phase = .sweeping familyId looked rest := by
  cases fate with
  | isOpen => exact Or.inl h
  | undone => exact Or.inl h
  | applied =>
    simp only [TokenPlay.settle] at h
    split at h
    · exact Or.inl h
    · rename_i F looked rest sweeping
      rcases List.mem_cons.mp h with rfl | old
      · exact Or.inr ⟨rfl, looked, rest, sweeping⟩
      · exact Or.inl old
    · exact Or.inl h

/-- Once all rows of the lookup are revoked and nothing else of the family is live, a commit leaves
no unrevoked version behind. -/
theorem dead_of_sweeping (sweeps : Sweeps t g) (inv : Rotations t issued g) {familyId : Id} {looked : List Id}
    (sweep : Sweeping t i familyId looked [])
    (whole : ∀ k a, (t.slot k).committed = some a → RefreshTokenQuery.live familyId a = true → k ∈ looked) :
    Dead (t.settle i .applied) familyId := by
  have swept : ∀ k ∈ looked, ∀ a, (t.slot k).view i = some a → RefreshTokenQuery.live familyId a = false :=
    fun k member => (sweep.swept k member).resolve_left (by simp)
  refine ⟨committed_family_settle inv.revokes .applied sweep.exists_token, fun k a version => ?_⟩
  by_contra live
  have live : RefreshTokenQuery.live familyId a = true := by simpa using live
  rcases version with committed | ⟨j, pending⟩
  · change ((t.slot k).commit i).committed = some a at committed
    rw [Slot.committed_commit] at committed
    have member : k ∈ looked := by
      by_cases held : (t.slot k).holder = some i
      · exact sweep.held k held
      · rw [Slot.view_of_not_holder held] at committed
        exact whole k a committed live
    have dead := swept k member a committed
    rw [live] at dead
    cases dead
  · have same := Table.slot_settle_held pending
    have ne : j ≠ i := (Table.holder_settle (show Fate.applied ≠ .isOpen by simp) (Slot.holder_of_pending pending)).1
    rw [same] at pending
    obtain ⟨family, unrevoked⟩ := live_iff.mp live
    cases committed : (t.slot k).committed with
    | some old =>
      obtain ⟨b, written, kept⟩ := inv.revokes k j _ pending
      cases written
      exact (kept old committed).1 unrevoked
    | none =>
      have bears := sweeps.born k j a pending committed
      have fits := inv.fits j
      cases phase : (g j).phase with
      | founded F =>
        rw [phase] at bears fits
        obtain ⟨k', b, row, member⟩ := sweep.exists_token
        have own : F = familyId := Eq.trans bears family
        have absent := (fits.2 k' b (Or.inl row) (member.trans own.symm)).1
        rw [row] at absent
        cases absent
      | rotated token =>
        rw [phase] at bears fits
        obtain ⟨old, new, row, held, fixed, live'⟩ := fits
        have mine : RefreshTokenQuery.live familyId old = true :=
          live_iff.mpr ⟨(familyId_of_fixed fixed).trans (Eq.trans bears family), live'⟩
        have away : (t.slot token.id).holder ≠ some i := by
          rw [Slot.holder_of_pending held]
          simpa using ne
        have dead := swept token.id (whole token.id old row mine) old (by rw [Slot.view_of_not_holder away, row])
        rw [mine] at dead
        cases dead
      | _ =>
        rw [phase] at bears
        exact bears.elim

theorem settle (sweeps : Sweeps t g) (inv : Rotations t issued g) {fate : Fate} (ends : fate ≠ .isOpen)
    (whole : ∀ familyId looked rest, fate = .applied → (g i).phase = .sweeping familyId looked rest → rest = [] ∧
      ∀ k a, (t.slot k).committed = some a → RefreshTokenQuery.live familyId a = true → k ∈ looked) :
    Sweeps (t.settle i fate) (Function.update g i ((g i).settle fate)) where
  sweeping j familyId looked rest phase := by
    by_cases mine : j = i
    · subst mine
      rw [Function.update_self, Rotations.phase_settle ends] at phase
      cases phase
    · rw [Function.update_of_ne mine] at phase
      exact (sweeps.sweeping j familyId looked rest phase).settle_other mine inv.revokes fate
  born k j a pending absent := by
    have same := Table.slot_settle_held pending
    have ne := (Table.holder_settle ends (Slot.holder_of_pending pending)).1
    rw [same] at pending absent
    rw [Function.update_of_ne ne]
    exact sweeps.born k j a pending absent
  ended j familyId ended := by
    have split : familyId ∈ (g j).ended ∨ fate = .applied ∧
        ∃ looked rest, (g i).phase = .sweeping familyId looked rest := by
      by_cases mine : j = i
      · subst mine
        rw [Function.update_self] at ended
        exact ended_settle ended
      · rw [Function.update_of_ne mine] at ended
        exact Or.inl ended
    rcases split with old | ⟨rfl, looked, rest, sweeping⟩
    · exact (sweeps.ended j familyId old).settle inv.revokes fate
    · obtain ⟨rfl, whole⟩ := whole familyId looked rest rfl sweeping
      exact sweeps.dead_of_sweeping inv (sweeps.sweeping i familyId looked [] sweeping) whole

/-- Drawing a family changes no row and ends nothing. -/
theorem draw (sweeps : Sweeps t g) (inv : Rotations t issued g) {familyId : Id} :
    Sweeps t (Function.update g i { g i with phase := (g i).phase.after .uuid4 (.ok familyId) }) := by
  have fits := inv.fits i
  have kept : ∀ p, (g i).phase = p → Sweeps t (Function.update g i { g i with phase := p }) := by
    rintro p rfl
    rwa [show ({ g i with phase := (g i).phase } : TokenPlay) = g i from rfl, Function.update_eq_self]
  cases phase : (g i).phase with
  | quiet =>
    rw [phase] at fits
    exact sweeps.look fits fun _ _ _ same => by cases same
  | drawn F =>
    rw [phase] at fits
    exact sweeps.look fits.2.2 fun _ _ _ same => by cases same
  | _ => exact kept _ phase

end Sweeps

/-! ### Along a run -/

theorem whole_sessions : Disciplined (Y := application platform settings) WholeSweeps (tokenProtocol platform)
    (Exchanged platform) where
  code w i q start := uncontested_sessions.code w i q (whole_uncontested w _ start)
  answers := uncontested_sessions.answers

theorem Sweeps.step {s s' : Database} {g : Nat → TokenPlay} {env : Env} {i : Nat} {c : Cmd} {r : Except Error c.Ret}
    (sweeps : Sweeps (s.tables .refreshTokens) g) (inv : Rotations (s.tables .refreshTokens) s.issued g)
    (allowed : (tokenProtocol platform).allowed (g i) c)
    (whole : ∀ familyId looked rest, fate c r = .applied → (g i).phase = .sweeping familyId looked rest → rest = [] ∧
      ∀ k a, ((s.tables .refreshTokens).slot k).committed = some a →
        RefreshTokenQuery.live familyId a = true → k ∈ looked)
    (ran : exec platform env i c s = some (r, s')) :
    Sweeps (s'.tables .refreshTokens) (Function.update g i ((g i).next c r)) := by
  by_cases ends : fate c r = .isOpen
  · have next : (g i).next c r = { g i with phase := (g i).phase.after c r } := by simp only [TokenPlay.next, ends]
    rw [next]
    by_cases isTokens : ∃ q, c = .sql .refreshTokens q
    · obtain ⟨q, rfl⟩ := isTokens
      rcases exec_sql ran with ⟨e, rfl, -⟩ | ⟨a, rfl, done⟩
      · cases ends
      · exact sweeps.query inv allowed done
    · have away : ∀ q, c ≠ .sql .refreshTokens q := fun q same => isTokens ⟨q, same⟩
      rw [exec_frame ran .refreshTokens away, ends]
      rcases exec_issued ran with ⟨familyId, same, -⟩ | ⟨notUuid, -⟩
      · cases same
        exact sweeps.draw inv
      · rw [TokenPhase.after_other notUuid away, Function.update_eq_self]
        exact sweeps
  · have next : (g i).next c r = (g i).settle (fate c r) := by
      cases h : fate c r with
      | isOpen => exact (ends h).elim
      | _ => simp only [TokenPlay.next, h]
    rw [next, exec_ends ran ends]
    exact sweeps.settle inv ends whole

theorem reachable_sweeps {w : World (application platform settings)} (reached : Reachable WholeSweeps w) :
    Sweeps (w.state.tables .refreshTokens) (w.ghost (tokenProtocol platform)) := by
  refine whole_sessions.invariant (fun s g => Sweeps (s.tables .refreshTokens) g) .empty ?_ ?_ reached
  · intro w i env c r s' reached sweeps fine about allowed _ ran
    refine sweeps.step (reachable_rotations (reached.mono whole_uncontested)) allowed ?_ ran
    intro familyId looked rest applied sweeping
    obtain ⟨tx, rfl⟩ := fate_applied applied
    exact ⟨allowed familyId looked rest sweeping, fun k a committed live =>
      fine.looked about (commit_delivered ran applied) sweeping committed live⟩
  · intro w i c reached sweeps _ _
    have inv := reachable_rotations (reached.mono whole_uncontested)
    rw [Database.tables_settle]
    exact sweeps.settle inv (by simp) fun _ _ _ applied => by cases applied

/-- Process `j` has revoked the family in a transaction that has committed. -/
def RevokedFamily (w : World (application platform settings)) (j : Nat) (familyId : Id) : Prop :=
  familyId ∈ (w.ghost (tokenProtocol platform) j).ended

theorem ended_next {play : TokenPlay} {c : Cmd} {r : Except Error c.Ret} {familyId : Id} (h : familyId ∈ play.ended) :
    familyId ∈ (play.next c r).ended := by
  unfold TokenPlay.next
  split
  · exact h
  · unfold TokenPlay.settle
    split <;> first | exact h | skip
    split <;> first | exact h | exact List.mem_cons_of_mem _ h

/-- A revoked family stays revoked. -/
theorem RevokedFamily.stays {ok : World (application platform settings) → Label (application platform settings) → Prop}
    {w w' : World (application platform settings)} {j : Nat} {familyId : Id} (revoked : RevokedFamily w j familyId)
    (run : Run ok w w') : RevokedFamily w' j familyId := by
  induction run with
  | refl => exact revoked
  | step _ _ moved ih =>
    have other : ∀ {w : World (application platform settings)} {i : Nat} {e : Event signature} {state proc},
        RevokedFamily w j familyId → RevokedFamily ({ w with
          state := state
          proc := proc
          history := Function.update w.history i (w.history i ++ [e]) } :
            World (application platform settings)) j familyId := by
      intro w i e state proc before
      unfold RevokedFamily at before ⊢
      rw [World.ghost_update]
      by_cases mine : j = i
      · subst mine
        rw [Function.update_self]
        cases e with
        | ran c r => exact ended_next before
        | died => exact before
      · rwa [Function.update_of_ne mine]
    rcases World.step_cases moved with ⟨i, q, -, -, rfl⟩ | ⟨i, env, c, next, r, s, -, -, -, rfl⟩ | ⟨i, c, -, -, rfl⟩
    · exact ih
    · exact other ih
    · exact other ih

/-- Once a revocation of the family has committed, no unrevoked token of it is committed any more,
and no refresh that starts later with one of its tokens returns tokens. -/
def FinalRevocation (ok : World (application platform settings) → Label (application platform settings) → Prop)
    (w : World (application platform settings)) : Prop :=
  ∀ j familyId, RevokedFamily w j familyId → ∀ w', Run ok w w' →
    (∀ k a, ((w'.state.tables .refreshTokens).slot k).committed = some a → a.familyId = familyId → a.revokedAt ≠ none) ∧
    ∀ i raw pair, w.request i = none → w'.request i = some (.refresh raw) → w'.Finished i (.ok (.tokens pair)) →
      ∀ k a, ((w'.state.tables .refreshTokens).slot k).committed = some a →
        a.tokenHash = hashRefreshToken platform raw →
        a.familyId ≠ familyId

/-- A process that starts after the revocation exchanges no token of the family. -/
theorem spent_elsewhere {w w' : World (application platform settings)} (reached : Reachable WholeSweeps w)
    (run : Run WholeSweeps w w') {j i : Nat} {familyId : Id} (revoked : RevokedFamily w j familyId)
    (unstarted : w.request i = none) {token : RefreshToken}
    (spent : (w'.ghost (tokenProtocol platform) i).spent = some token) : token.familyId ≠ familyId := by
  refine run.keeps (J := fun w' => RevokedFamily w' j familyId ∧ ∀ token,
    (w'.ghost (tokenProtocol platform) i).spent = some token → token.familyId ≠ familyId) reached ⟨revoked, ?_⟩ ?_
    |>.2 token spent
  · intro token spent
    have idle := (history_of_unstarted reached i unstarted).1
    simp only [World.ghost, idle, List.foldl_nil] at spent
    cases spent
  · rintro w l w' reached ⟨revoked, elsewhere⟩ fine moved
    refine ⟨revoked.stays (.step (.refl w) fine moved), fun token spent => ?_⟩
    -- the token of a refresh that commits is live until then, so its family is not dead
    have rotated : (w.ghost (tokenProtocol platform) i).phase = .rotated token → token.familyId ≠ familyId := by
      rintro phase rfl
      have fits := (reachable_rotations (reached.mono whole_uncontested)).fits i
      rw [phase] at fits
      obtain ⟨old, new, committed, -, fixed, unrevoked⟩ := fits
      have dead := ((reachable_sweeps reached).ended j _ revoked).2 token.id old (Or.inl committed)
      rw [live_iff.mpr ⟨familyId_of_fixed fixed, unrevoked⟩] at dead
      cases dead
    have settled : ∀ fate, ((w.ghost (tokenProtocol platform) i : TokenPlay).settle fate).spent = some token →
        token.familyId ≠ familyId := by
      intro fate spent
      rcases Rotations.spent_settle spent with old | ⟨-, phase⟩
      · exact elsewhere token old
      · exact rotated phase
    rcases World.step_cases moved with ⟨i', q, -, -, rfl⟩ | ⟨i', env, c, next, r, s, -, -, -, rfl⟩ | ⟨i', c, -, -, rfl⟩
    · exact elsewhere token spent
    · rw [World.ghost_update] at spent
      by_cases mine : i = i'
      · subst mine
        rw [Function.update_self] at spent
        change ((w.ghost (tokenProtocol platform) i : TokenPlay).next c r).spent = some token at spent
        unfold TokenPlay.next at spent
        split at spent
        · exact elsewhere token spent
        · exact settled _ spent
      · rw [Function.update_of_ne mine] at spent
        exact elsewhere token spent
    · rw [World.ghost_update] at spent
      by_cases mine : i = i'
      · subst mine
        rw [Function.update_self] at spent
        exact settled .undone spent
      · rw [Function.update_of_ne mine] at spent
        exact elsewhere token spent

theorem family_revocation_final {w : World (application platform settings)} (reached : Reachable WholeSweeps w) :
    FinalRevocation WholeSweeps w := by
  intro j familyId revoked w' run
  have reached' := reached.trans run
  have dead := (reachable_sweeps reached').ended j familyId (revoked.stays run)
  constructor
  · intro k a committed family unrevoked
    have gone := dead.2 k a (Or.inl committed)
    rw [live_iff.mpr ⟨family, unrevoked⟩] at gone
    cases gone
  · intro i raw pair unstarted asked finished k a committed hash
    obtain ⟨q, same, exchanged⟩ := whole_sessions.finished reached' finished
    cases asked.symm.trans same
    obtain ⟨token, spent, hash'⟩ := exchanged
    have inv := reachable_rotations (reached'.mono whole_uncontested)
    obtain ⟨b, row, fixed, -⟩ := inv.spent i token spent
    have key : k = token.id := by
      refine inv.hashes.committed committed row (u := a.tokenHash) rfl ?_
      rw [tokenHash_of_fixed fixed, hash, hash']
    subst key
    obtain rfl := Option.some.inj (committed.symm.trans row)
    rw [familyId_of_fixed fixed]
    exact spent_elsewhere reached run revoked unstarted spent

/-- User 12 logs out. -/
def sampleLogout : SampleWorld := World.initial.replay isWhole (sampleRegistration ++
  .start 1 (.logout 12 "") :: turns 1 2 30 8)

theorem family_revocation_final_sampleLogout :
    RevokedFamily sampleLogout 1 17 ∧ FinalRevocation WholeSweeps sampleLogout :=
  ⟨by unfold RevokedFamily; decide +kernel, family_revocation_final (run_replay (fun _ _ => id) _ _)⟩

/-- A refresh of user 12 has read its token when the user logs out. -/
def sampleEviction : SampleWorld := sampleRun (sampleRegistration ++
  .start 1 (.refresh "") :: turns 1 2 30 2 ++ .start 2 (.logout 12 "") :: turns 2 2 40 8)

theorem evicted_refresh_succeeds : ¬∀ w : SampleWorld, Reachable UseCases w → FinalRevocation UseCases w := by
  intro claim
  have revoked : RevokedFamily sampleEviction 2 17 := by
    unfold RevokedFamily
    decide +kernel
  have later : Run UseCases sampleEviction (sampleEviction.replay isUseCase (turns 1 3 50 8 "a")) :=
    run_replay (fun _ _ => id) _ _
  have one : ((((sampleEviction.replay isUseCase (turns 1 3 50 8 "a")).state.tables .refreshTokens).slot
      54).committed.map fun token => (token.familyId, token.revokedAt)) = some (17, none) := by decide +kernel
  obtain ⟨a, committed, same⟩ := Option.map_eq_some_iff.mp one
  obtain ⟨family, live⟩ := Prod.mk.inj same
  exact (claim sampleEviction (sampleRun_reachable _) 2 17 revoked _ later).1 54 a committed family live

end TheClub
