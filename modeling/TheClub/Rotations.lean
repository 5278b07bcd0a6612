import TheClub.Sessions
import TheClub.Infra.Rows
import TheClub.ReadCommitted.Possible

/-!
Refresh tokens are single use, as long as no refresh runs its UPDATE on a token that has been
revoked since it was read: the UPDATE looks for the id only. Then a token that has been exchanged
was unrevoked right before, so it cannot be exchanged again, and its successor is the only
unrevoked token of the family.
-/

namespace TheClub
open ReadCommitted Program

variable {platform : Platform} {settings : Settings}

/-- The newest version of the token, as the UPDATE of process `i` finds it, is unrevoked. -/
def unrevoked (s : Database) (i : Nat) (tokenId : Id) : Bool :=
  (((s.tables .refreshTokens).slot tokenId).view i).all fun token => token.revokedAt = none

def isUncontested (w : World (application platform settings)) : Label (application platform settings) → Bool
  | .run i env =>
    match w.proc i with
    | some (.call (.sql .refreshTokens (.revoke tokenId _)) _) => env.fault.isSome || unrevoked w.state i tokenId
    | _ => true
  | l => isUseCase w l

/-- The runs of the use cases in which every refresh revokes a token that is still unrevoked. -/
abbrev Uncontested (w : World (application platform settings)) (l : Label (application platform settings)) : Prop :=
  isUncontested w l = true

theorem uncontested_useCases (w : World (application platform settings)) (l : Label (application platform settings))
    (h : Uncontested w l) : UseCases w l := by
  cases l with
  | start i q => exact h
  | run i env => rfl
  | kill i => rfl

/-! ### The tokens between the statements -/

def liveFamily (token : RefreshToken) : Option Id := if token.revokedAt = none then some token.familyId else none

def TokenPhase.own : TokenPhase → Option Id
  | drawn familyId => some familyId
  | founded familyId => some familyId
  | _ => none

/-- Process `i` has a new version of the unrevoked `token` pending. -/
def Replacing (t : Table Id RefreshToken) (i : Nat) (token : RefreshToken) : Prop :=
  ∃ old new, (t.slot token.id).committed = some old ∧ (t.slot token.id).pending = some (i, some new) ∧
    RefreshTokenQuery.fixed old = RefreshTokenQuery.fixed token ∧ old.revokedAt = none

/-- What the phase of process `i` says about the table. -/
def TokenPhase.Fits (t : Table Id RefreshToken) (issued : List Id) (i : Nat) : TokenPhase → Prop
  | quiet => ∀ k, (t.slot k).holder ≠ some i
  | drawn familyId => familyId ∈ issued ∧ (∀ k a, (t.slot k).Version a → a.familyId ≠ familyId) ∧
      ∀ k, (t.slot k).holder ≠ some i
  | founded familyId => familyId ∈ issued ∧
      ∀ k a, (t.slot k).Version a → a.familyId = familyId → (t.slot k).committed = none ∧ (t.slot k).holder = some i
  | found token => (∃ old, (t.slot token.id).committed = some old ∧
      RefreshTokenQuery.fixed old = RefreshTokenQuery.fixed token) ∧ ∀ k, (t.slot k).holder ≠ some i
  | revoked token => Replacing t i token ∧ ∀ k, (t.slot k).holder = some i → k = token.id
  | rotated token => Replacing t i token
  | sweeping _ _ _ => True

/-- A new version of a committed token is revoked and keeps the rest of the row. -/
def RevokesOnly (t : Table Id RefreshToken) : Prop :=
  ∀ k i v, (t.slot k).pending = some (i, v) → ∃ a, v = some a ∧
    ∀ old, (t.slot k).committed = some old → a.revokedAt ≠ none ∧
      RefreshTokenQuery.fixed a = RefreshTokenQuery.fixed old

structure Rotations (t : Table Id RefreshToken) (issued : List Id) (g : Nat → TokenPlay) : Prop where
  keyed : t.Keyed RefreshToken.id
  revokes : RevokesOnly t
  hashes : t.Unique fun token => some token.tokenHash
  lives : t.Unique liveFamily
  known : ∀ k a, (t.slot k).Version a → a.familyId ∈ issued
  fits : ∀ i, (g i).phase.Fits t issued i
  apart : ∀ i j familyId, i ≠ j → (g i).phase.own = some familyId → (g j).phase.own ≠ some familyId
  spent : ∀ i token, (g i).spent = some token → ∃ a, (t.slot token.id).committed = some a ∧
    RefreshTokenQuery.fixed a = RefreshTokenQuery.fixed token ∧ a.revokedAt ≠ none
  single : ∀ i j token token', (g i).spent = some token → (g j).spent = some token' → token.id = token'.id → i = j

theorem familyId_of_fixed {a b : RefreshToken} (same : RefreshTokenQuery.fixed a = RefreshTokenQuery.fixed b) :
    a.familyId = b.familyId := by
  have family := congrArg RefreshToken.familyId same
  exact family

theorem tokenHash_of_fixed {a b : RefreshToken} (same : RefreshTokenQuery.fixed a = RefreshTokenQuery.fixed b) :
    a.tokenHash = b.tokenHash := by
  have hash := congrArg RefreshToken.tokenHash same
  exact hash

section
variable {t t' : Table Id RefreshToken} {issued issued' : List Id} {i j : Nat} {p : TokenPhase}
    {new : Option RefreshToken}

theorem TokenPhase.Fits.own_issued (fits : p.Fits t issued i) {familyId : Id} (own : p.own = some familyId) :
    familyId ∈ issued := by
  cases p with
  | drawn F =>
    cases own
    exact fits.1
  | founded F =>
    cases own
    exact fits.1
  | _ => cases own

theorem TokenPhase.Fits.mono (fits : p.Fits t issued i) (grown : ∀ k ∈ issued, k ∈ issued') : p.Fits t issued' i := by
  cases p with
  | drawn F => exact ⟨grown F fits.1, fits.2⟩
  | founded F => exact ⟨grown F fits.1, fits.2⟩
  | _ => exact fits

theorem TokenPhase.Fits.other (fits : p.Fits t issued j) (ne : j ≠ i)
    (moved : t.Moved RefreshToken.id RefreshTokenQuery.fixed i new t')
    (foreign : ∀ a, new = some a → p.own ≠ some a.familyId) : p.Fits t' issued j := by
  have holder : ∀ {k}, (t'.slot k).holder = some j → (t.slot k).holder = some j := fun held => moved.holder ne held
  have replacing : ∀ token, Replacing t j token → Replacing t' j token := by
    rintro token ⟨old, row, committed, pending, fixed, live⟩
    exact ⟨old, row, by rw [moved.committed, committed], (moved.pending ne).mpr pending, fixed, live⟩
  cases p with
  | quiet => exact fun k held => fits k (holder held)
  | drawn F =>
    obtain ⟨member, fresh, none⟩ := fits
    refine ⟨member, fun k b version => ?_, fun k held => none k (holder held)⟩
    rcases moved.version version with ⟨a, old, -, fixed⟩ | ⟨reports, -⟩
    · rw [familyId_of_fixed fixed]
      exact fresh k a old
    · exact fun same => foreign b reports (by rw [same]; rfl)
  | founded F =>
    obtain ⟨member, mine⟩ := fits
    refine ⟨member, fun k b version family => ?_⟩
    rcases moved.version version with ⟨a, old, -, fixed⟩ | ⟨reports, -⟩
    · have own := mine k a old ((familyId_of_fixed fixed).symm.trans family)
      rw [moved.slot_of_held ne own.2]
      exact own
    · exact (foreign b reports (by rw [family]; rfl)).elim
  | found token =>
    obtain ⟨⟨old, committed, fixed⟩, none⟩ := fits
    exact ⟨⟨old, by rw [moved.committed, committed], fixed⟩, fun k held => none k (holder held)⟩
  | revoked token => exact ⟨replacing token fits.1, fun k held => fits.2 k (holder held)⟩
  | rotated token => exact replacing token fits
  | sweeping F looked rest => trivial

theorem TokenPhase.Fits.settle_other (fits : p.Fits t issued j) (ne : j ≠ i) (revokes : RevokesOnly t) (fate : Fate) :
    p.Fits (t.settle i fate) issued j := by
  have holder : ∀ {k}, ((t.settle i fate).slot k).holder = some j → (t.slot k).holder = some j := by
    intro k held
    have same := Table.slot_settle_held (Slot.pending_of_holder held)
    rwa [same] at held
  have slot : ∀ {k}, (t.slot k).holder = some j → (t.settle i fate).slot k = t.slot k := by
    intro k held
    refine Table.slot_settle_other fate ?_
    rw [held]
    simpa using ne
  have replacing : ∀ token, Replacing t j token → Replacing (t.settle i fate) j token := by
    rintro token ⟨old, row, committed, pending, rest⟩
    have same := slot (Slot.holder_of_pending pending)
    exact ⟨old, row, by rw [same, committed], by rw [same, pending], rest⟩
  cases p with
  | quiet => exact fun k held => fits k (holder held)
  | drawn F =>
    obtain ⟨member, fresh, none⟩ := fits
    exact ⟨member, fun k a version => fresh k a (Table.version_settle version), fun k held => none k (holder held)⟩
  | founded F =>
    obtain ⟨member, mine⟩ := fits
    refine ⟨member, fun k a version family => ?_⟩
    have own := mine k a (Table.version_settle version) family
    rw [slot own.2]
    exact own
  | found token =>
    obtain ⟨⟨old, committed, fixed⟩, none⟩ := fits
    refine ⟨?_, fun k held => none k (holder held)⟩
    rcases Table.committed_settle i fate token.id t with same | ⟨-, pending⟩
    · exact ⟨old, by rw [same, committed], fixed⟩
    · obtain ⟨a, written, kept⟩ := revokes token.id i _ pending
      exact ⟨a, written, (kept old committed).2.trans fixed⟩
  | revoked token => exact ⟨replacing token fits.1, fun k held => fits.2 k (holder held)⟩
  | rotated token => exact replacing token fits
  | sweeping F looked rest => trivial

namespace RevokesOnly

theorem settle (revokes : RevokesOnly t) (fate : Fate) : RevokesOnly (t.settle i fate) := by
  intro k j v pending
  have same := Table.slot_settle_held pending
  rw [same] at pending ⊢
  exact revokes k j v pending

/-- What a transaction sees of a committed token is that token, perhaps revoked. -/
theorem view_fixed (revokes : RevokesOnly t) {k : Id} {a old : RefreshToken} (seen : (t.slot k).view i = some a)
    (committed : (t.slot k).committed = some old) : RefreshTokenQuery.fixed a = RefreshTokenQuery.fixed old := by
  by_cases held : (t.slot k).holder = some i
  · obtain ⟨b, written, kept⟩ := revokes k i _ (Slot.pending_of_holder held)
    cases seen.symm.trans written
    exact (kept old committed).2
  · rw [Slot.view_of_not_holder held, committed] at seen
    cases seen
    rfl

theorem write (revokes : RevokesOnly t) {k : Id} {a b : RefreshToken} (seen : (t.slot k).view i = some a)
    (revoked : b.revokedAt ≠ none) (fixed : RefreshTokenQuery.fixed b = RefreshTokenQuery.fixed a) :
    RevokesOnly (t.write i k (some b)) := by
  intro k' j v pending
  by_cases here : k' = k
  · subst here
    rw [Table.slot_write_self (Table.mem_keys_of_view seen)] at pending ⊢
    obtain ⟨rfl, rfl⟩ := Prod.mk.inj (Option.some.inj pending)
    exact ⟨b, rfl, fun old committed => ⟨revoked, fixed.trans (revokes.view_fixed seen committed)⟩⟩
  · rw [Table.slot_write_other here] at pending ⊢
    exact revokes k' j v pending

theorem insert (revokes : RevokesOnly t) {k : Id} {a : RefreshToken} {fresh : k ∉ t.keys} :
    RevokesOnly (t.insert i k a fresh) := by
  intro k' j v pending
  by_cases here : k' = k
  · subst here
    rw [Table.slot_insert_self] at pending ⊢
    obtain ⟨rfl, rfl⟩ := Prod.mk.inj (Option.some.inj pending)
    exact ⟨a, rfl, fun old committed => by cases committed⟩
  · rw [Table.slot_insert_other here] at pending ⊢
    exact revokes k' j v pending

end RevokesOnly

/-- Of a family in which a transaction replaces a token, no other token is unrevoked anywhere. -/
theorem Replacing.alone {token b : RefreshToken} {k : Id} (replacing : Replacing t i token) (revokes : RevokesOnly t)
    (lives : t.Unique liveFamily) (only : ∀ k, (t.slot k).holder = some i → k = token.id)
    (version : (t.slot k).Version b) (meets : (t.slot k).view i = some b ∨ (t.slot k).holder ≠ some i) :
    liveFamily b ≠ some token.familyId := by
  intro live
  obtain ⟨old, row, committed, pending, fixed, unrevoked⟩ := replacing
  have oldLive : liveFamily old = some token.familyId := by
    rw [liveFamily, if_pos unrevoked, familyId_of_fixed fixed]
  by_cases here : k = token.id
  · subst here
    have held := Slot.holder_of_pending pending
    have seen := meets.resolve_right fun other => other held
    obtain ⟨a, written, kept⟩ := revokes _ i _ pending
    cases written
    rw [Slot.view_of_pending pending] at seen
    cases seen
    exact (kept old committed).1 (by
      unfold liveFamily at live
      split at live
      · assumption
      · cases live)
  · rcases version with row' | ⟨j, pending'⟩
    · exact here (lives.committed row' committed live oldLive)
    · have ne : j ≠ i := by
        rintro rfl
        exact here (only k (Slot.holder_of_pending pending'))
      have away : (t.slot token.id).holder ≠ some j := by
        rw [Slot.holder_of_pending pending]
        simpa using Ne.symm ne
      refine here (lives {j} k token.id b old _ ?_ ?_ live oldLive)
      · rw [Table.under, Slot.under_singleton, Slot.view_of_pending pending']
      · rw [Table.under, Slot.under_singleton, Slot.view_of_not_holder away, committed]

end

namespace Rotations
variable {t t' : Table Id RefreshToken} {issued issued' : List Id} {g : Nat → TokenPlay} {i : Nat} {p : TokenPhase}
  {new : Option RefreshToken}

theorem empty : Rotations Table.empty [] fun _ => {} where
  keyed := .empty
  revokes _ _ _ pending := by cases pending
  hashes := .empty
  lives := .empty
  known _ _ version := (Table.not_version_empty version).elim
  fits _ _ held := by cases held
  apart _ _ _ _ own := by cases own
  spent _ _ spent := by cases spent
  single _ _ _ _ spent := by cases spent

theorem update_spent {j : Nat} : (Function.update g i { g i with phase := p } j).spent = (g j).spent := by
  by_cases mine : j = i
  · subst mine
    rw [Function.update_self]
  · rw [Function.update_of_ne mine]

theorem statement (inv : Rotations t issued g) (moved : t.Moved RefreshToken.id RefreshTokenQuery.fixed i new t')
    (revokes : RevokesOnly t') (hashes : t'.Unique fun token => some token.tokenHash) (lives : t'.Unique liveFamily)
    (known : ∀ a, new = some a → a.familyId ∈ issued)
    (foreign : ∀ a, new = some a → ∀ j, j ≠ i → (g j).phase.own ≠ some a.familyId)
    (fits : p.Fits t' issued i) (own : ∀ familyId, p.own = some familyId → ∀ j, j ≠ i →
      (g j).phase.own ≠ some familyId) :
    Rotations t' issued (Function.update g i { g i with phase := p }) where
  keyed := inv.keyed.moved moved
  revokes := revokes
  hashes := hashes
  lives := lives
  known k a version := by
    rcases moved.version version with ⟨b, old, -, fixed⟩ | ⟨reports, -⟩
    · rw [familyId_of_fixed fixed]
      exact inv.known k b old
    · exact known a reports
  fits j := by
    by_cases mine : j = i
    · subst mine
      rwa [Function.update_self]
    · rw [Function.update_of_ne mine]
      exact (inv.fits j).other mine moved fun a reports => foreign a reports j mine
  apart j j' familyId ne left right := by
    by_cases mine : j = i
    · subst mine
      rw [Function.update_self] at left
      rw [Function.update_of_ne (Ne.symm ne)] at right
      exact own familyId left j' (Ne.symm ne) right
    · rw [Function.update_of_ne mine] at left
      by_cases mine' : j' = i
      · subst mine'
        rw [Function.update_self] at right
        exact own familyId right j ne left
      · rw [Function.update_of_ne mine'] at right
        exact inv.apart j j' familyId ne left right
  spent j token h := by
    rw [update_spent] at h
    obtain ⟨a, committed, fixed, revoked⟩ := inv.spent j token h
    exact ⟨a, by rw [moved.committed, committed], fixed, revoked⟩
  single j j' token token' h h' := by
    rw [update_spent] at h h'
    exact inv.single j j' token token' h h'

theorem look (inv : Rotations t issued g) (fits : p.Fits t issued i)
    (own : ∀ familyId, p.own = some familyId → ∀ j, j ≠ i → (g j).phase.own ≠ some familyId) :
    Rotations t issued (Function.update g i { g i with phase := p }) :=
  inv.statement (show t.Moved RefreshToken.id RefreshTokenQuery.fixed i none t from .still rfl) inv.revokes
    inv.hashes inv.lives
    (fun _ h => by cases h)
    (fun _ h => by cases h) fits own

theorem revoke (inv : Rotations t issued g) {k : Id} {a : RefreshToken} {now : Time}
    (seen : (t.slot k).view i = some a) (free : (t.slot k).Free i)
    (fits : p.Fits (t.write i k (some { a with revokedAt := some now })) issued i) (own : p.own = none) :
    Rotations (t.write i k (some { a with revokedAt := some now })) issued
      (Function.update g i { g i with phase := p }) := by
  refine inv.statement (show t.Moved RefreshToken.id RefreshTokenQuery.fixed i none _ from .wrote rfl seen
    free ?_) ?_ ?_ ?_
    (fun _ h => by cases h) (fun _ h => by cases h) fits ?_
  · rintro b ⟨⟩
    exact ⟨rfl, rfl⟩
  · exact inv.revokes.write seen (by simp) rfl
  · exact inv.hashes.write seen free (by rintro b u ⟨⟩ hash; exact hash)
  · exact inv.lives.write seen free (by rintro b u ⟨⟩ live; simp [liveFamily] at live)
  · intro familyId same
    cases own.symm.trans same

theorem lookUp (inv : Rotations t issued g) {ctx : Context} {tokenHash : String} {rows : List RefreshToken}
    (done : RefreshTokenQuery.exec ctx i t (.getByHash tokenHash) = .ok rows t') (quiet : (g i).phase = .quiet) :
    Rotations t' issued (Function.update g i
      { g i with phase := (g i).phase.after (.sql .refreshTokens (.getByHash tokenHash)) (.ok rows) }) := by
  injection done with found table
  subst table
  have none : ∀ k, (t.slot k).holder ≠ some i := by
    have fits := inv.fits i
    rwa [quiet] at fits
  rcases rows with _ | ⟨token, _ | ⟨_, _⟩⟩
  · exact inv.look (inv.fits i) fun F own j ne => inv.apart i j F (Ne.symm ne) own
  · have member : token ∈ (t.rows i).filter fun row => row.tokenHash = tokenHash := by
      rw [found]
      exact List.mem_singleton.mpr rfl
    obtain ⟨k, seen⟩ := Table.mem_rows.mp (List.mem_filter.mp member).1
    obtain rfl : token.id = k := inv.keyed k token (Slot.version_view seen)
    rw [Slot.view_of_not_holder (none token.id)] at seen
    exact inv.look (p := .found token) ⟨⟨token, seen, rfl⟩, none⟩ fun _ own => by cases own
  · exact inv.look (inv.fits i) fun F own j ne => inv.apart i j F (Ne.symm ne) own

theorem create (inv : Rotations t issued g) {ctx : Context} {userId familyId : Id} {tokenHash : String}
    {expiresAt : Time}
    {row : RefreshToken} (opens : (g i).phase.Opens familyId)
    (done : RefreshTokenQuery.exec ctx i t (.create userId familyId tokenHash expiresAt) = .ok row t') :
    Rotations t' issued (Function.update g i { g i with phase := (g i).phase.issued }) := by
  have moved : t.Moved RefreshToken.id RefreshTokenQuery.fixed i (some row) t' := insertRow_moved rfl done
  obtain ⟨built, fresh, table, alone⟩ := insertRow_ok done
  rw [← built] at table
  subst table
  have hash : row.tokenHash = tokenHash := by rw [built]
  have family : row.familyId = familyId := by rw [built]
  have live : liveFamily row = some familyId := by simp [liveFamily, built]
  have hashes : (t.insert i ctx.id row fresh).Unique fun token => some token.tokenHash :=
    inv.hashes.insert fun k b version meets u same other => by
      have differs := alone k b version meets
      simp only [decide_eq_false_iff_not] at differs
      exact differs ((Option.some.inj (other.trans same.symm)).trans hash)
  have lives : (∀ k b, (t.slot k).Version b → (t.slot k).view i = some b ∨ (t.slot k).holder ≠ some i →
      liveFamily b ≠ some familyId) → (t.insert i ctx.id row fresh).Unique liveFamily := by
    intro others
    refine inv.lives.insert fun k b version meets u same => ?_
    rw [← same, live]
    exact others k b version meets
  rcases opens with drawn | ⟨token, revoked, rfl⟩
  · rw [drawn]
    have fits := inv.fits i
    rw [drawn] at fits
    obtain ⟨member, unused, none⟩ := fits
    refine inv.statement moved inv.revokes.insert hashes (lives fun k b version _ live => ?_) ?_ ?_ ?_ ?_
    · unfold liveFamily at live
      split at live
      · exact unused k b version (Option.some.inj live)
      · cases live
    · rintro a ⟨⟩
      rwa [family]
    · rintro a ⟨⟩ j ne own
      exact inv.apart j i row.familyId ne own (by rw [drawn, family]; rfl)
    · refine ⟨member, fun k a version same => ?_⟩
      rcases Table.version_insert version with old | ⟨rfl, rfl⟩
      · exact (unused k a old same).elim
      · rw [Table.slot_insert_self]
        exact ⟨rfl, rfl⟩
    · intro F own j ne
      exact inv.apart i j F (Ne.symm ne) (by rw [drawn]; exact own)
  · rw [revoked]
    have fits := inv.fits i
    rw [revoked] at fits
    obtain ⟨replacing, only⟩ := fits
    obtain ⟨old, new, committed, pending, same, unrevoked⟩ := id replacing
    have known := inv.known _ _ (Or.inl committed)
    rw [familyId_of_fixed same] at known
    refine inv.statement moved inv.revokes.insert hashes
      (lives fun k b version meets => replacing.alone inv.revokes inv.lives only version meets) ?_ ?_ ?_ ?_
    · rintro a ⟨⟩
      rwa [family]
    · rintro a ⟨⟩ j ne own
      rw [family] at own
      -- another transaction that has drawn this family would have to hold the committed token
      have foreign := inv.fits j
      cases phase : (g j).phase with
      | drawn F =>
        rw [phase] at own foreign
        cases own
        exact foreign.2.1 _ _ (Or.inl committed) (familyId_of_fixed same)
      | founded F =>
        rw [phase] at own foreign
        cases own
        have absent := (foreign.2 _ _ (Or.inl committed) (familyId_of_fixed same)).1
        rw [committed] at absent
        cases absent
      | _ =>
        rw [phase] at own
        cases own
    · have apart : token.id ≠ ctx.id := fun eq => fresh (eq ▸ Table.mem_keys_of_version (Or.inl committed))
      refine ⟨old, new, ?_, ?_, same, unrevoked⟩
      · rw [Table.slot_insert_other apart, committed]
      · rw [Table.slot_insert_other apart, pending]
    · intro F own
      cases own

theorem query (inv : Rotations t issued g) {ctx : Context} {q : RefreshTokenQuery} {a : q.Ret}
    (allowed : (tokenProtocol platform).allowed (g i) (.sql .refreshTokens q))
    (uncontested : ∀ k now, q = .revoke k now → ∀ token, (t.slot k).view i = some token → token.revokedAt = none)
    (done : RefreshTokenQuery.exec ctx i t q = .ok a t') :
    Rotations t' issued (Function.update g i
      { g i with phase := (g i).phase.after (.sql .refreshTokens q) (.ok a) }) := by
  cases q with
  | getByHash tokenHash => exact inv.lookUp done allowed
  | create userId familyId tokenHash expiresAt =>
    rw [TokenPhase.after_create]
    exact inv.create allowed done
  | revoke tokenId now =>
    obtain ⟨token, found, rfl, -⟩ := allowed
    have fits := inv.fits i
    rw [found] at fits
    obtain ⟨⟨old, committed, fixed⟩, none⟩ := fits
    have seen : (t.slot token.id).view i = some old := by rw [Slot.view_of_not_holder (none _), committed]
    rw [found]
    rcases changeRow_ok done with ⟨-, missed⟩ | ⟨b, seen', -, free, rfl⟩
    · cases missed old seen
    · obtain rfl := Option.some.inj (seen.symm.trans seen')
      have member := Table.mem_keys_of_view seen
      refine inv.revoke (p := .revoked token) seen free
        ⟨⟨old, { old with revokedAt := some now }, ?_, ?_, fixed, uncontested _ _ rfl old seen⟩, fun k held => ?_⟩ rfl
      · rw [Table.committed_write, committed]
      · rw [Table.slot_write_self member]
        rfl
      · by_contra other
        rw [Table.slot_write_other other] at held
        exact none k held
  | matchFamily familyId =>
    cases done
    exact inv.look trivial fun _ own => by cases own
  | revokeMatched tokenId familyId now =>
    obtain ⟨looked, rest, sweeping⟩ := allowed
    rw [sweeping]
    rcases changeRow_ok done with ⟨rfl, -⟩ | ⟨b, seen, -, free, rfl⟩
    · exact inv.look (p := .sweeping familyId looked rest) trivial fun _ own => by cases own
    · exact inv.revoke (p := .sweeping familyId looked rest) seen free trivial rfl

theorem issue (inv : Rotations t issued g) (grown : ∀ k ∈ issued, k ∈ issued') : Rotations t issued' g :=
  { inv with
    known := fun k a version => grown _ (inv.known k a version)
    fits := fun i => (inv.fits i).mono grown }

theorem draw (inv : Rotations t issued g) {familyId : Id} (fresh : familyId ∉ issued) :
    Rotations t (familyId :: issued) (Function.update g i
      { g i with phase := (g i).phase.after .uuid4 (.ok familyId) }) := by
  have grown : Rotations t (familyId :: issued) g := inv.issue fun k member => List.mem_cons_of_mem _ member
  have drawn : (∀ k, (t.slot k).holder ≠ some i) → Rotations t (familyId :: issued)
      (Function.update g i { g i with phase := .drawn familyId }) := by
    intro none
    refine grown.look ⟨List.mem_cons_self, fun k a version same => ?_, none⟩ ?_
    · exact fresh (same ▸ inv.known k a version)
    · intro F own j ne other
      cases own
      exact fresh ((inv.fits j).own_issued other)
  have kept : ∀ p, (g i).phase = p →
      Rotations t (familyId :: issued) (Function.update g i { g i with phase := p }) := by
    rintro p rfl
    exact grown.look (grown.fits i) fun F own j ne => inv.apart i j F (Ne.symm ne) own
  have fits := inv.fits i
  cases phase : (g i).phase with
  | quiet =>
    rw [phase] at fits
    exact drawn fits
  | drawn F =>
    rw [phase] at fits
    exact drawn fits.2.2
  | _ => exact kept _ phase

/-! ### The end of a transaction -/

theorem phase_settle {play : TokenPlay} {fate : Fate} (ends : fate ≠ .isOpen) : (play.settle fate).phase = .quiet := by
  cases fate with
  | isOpen => exact (ends rfl).elim
  | undone => rfl
  | applied =>
    simp only [TokenPlay.settle]
    split <;> rfl

/-- A commit exchanges the token whose successor the transaction has created. -/
theorem spent_settle {play : TokenPlay} {fate : Fate} {token : RefreshToken}
    (h : (play.settle fate).spent = some token) :
    play.spent = some token ∨ fate = .applied ∧ play.phase = .rotated token := by
  cases fate with
  | isOpen => exact Or.inl h
  | undone => exact Or.inl h
  | applied =>
    simp only [TokenPlay.settle] at h
    split at h
    · rename_i rotated
      cases h
      exact Or.inr ⟨rfl, rotated⟩
    · exact Or.inl h
    · exact Or.inl h

theorem settle (inv : Rotations t issued g) {fate : Fate} (ends : fate ≠ .isOpen) :
    Rotations (t.settle i fate) issued (Function.update g i ((g i).settle fate)) := by
  have quiet : (((g i).settle fate).phase) = .quiet := phase_settle ends
  -- whoever has exchanged a token after the end had done so before, or is the transaction that ends
  have split : ∀ j token, (Function.update g i ((g i).settle fate) j).spent = some token →
      (g j).spent = some token ∨ j = i ∧ fate = .applied ∧ (g i).phase = .rotated token := by
    intro j token h
    by_cases mine : j = i
    · subst mine
      rw [Function.update_self] at h
      exact (spent_settle h).imp_right fun ended => ⟨rfl, ended⟩
    · rw [Function.update_of_ne mine] at h
      exact Or.inl h
  have replacing : ∀ token, (g i).phase = .rotated token → Replacing t i token := by
    intro token rotated
    have fits := inv.fits i
    rwa [rotated] at fits
  have apart : ∀ j token token', (g j).spent = some token → (g i).phase = .rotated token' → token.id ≠ token'.id := by
    intro j token token' spent rotated same
    obtain ⟨a, committed, -, revoked⟩ := inv.spent j token spent
    obtain ⟨old, new, committed', -, -, unrevoked⟩ := replacing token' rotated
    rw [same, committed'] at committed
    cases committed
    exact revoked unrevoked
  refine ⟨inv.keyed.settle fate, inv.revokes.settle fate, inv.hashes.settle fate, inv.lives.settle fate, ?_,
    ?_, ?_, ?_, ?_⟩
  · exact fun k a version => inv.known k a (Table.version_settle version)
  · intro j
    by_cases mine : j = i
    · subst mine
      rw [Function.update_self, quiet]
      exact fun k held => (Table.holder_settle ends held).1 rfl
    · rw [Function.update_of_ne mine]
      exact (inv.fits j).settle_other mine inv.revokes fate
  · intro j j' familyId ne left right
    have other : ∀ j, (Function.update g i ((g i).settle fate) j).phase.own = some familyId →
        (g j).phase.own = some familyId := by
      intro j h
      by_cases mine : j = i
      · subst mine
        rw [Function.update_self, quiet] at h
        cases h
      · rwa [Function.update_of_ne mine] at h
    exact inv.apart j j' familyId ne (other j left) (other j' right)
  · intro j token h
    rcases split j token h with spent | ⟨rfl, rfl, rotated⟩
    · obtain ⟨a, committed, fixed, revoked⟩ := inv.spent j token spent
      rcases Table.committed_settle i fate token.id t with same | ⟨-, pending⟩
      · exact ⟨a, by rw [same, committed], fixed, revoked⟩
      · obtain ⟨b, written, kept⟩ := inv.revokes token.id i _ pending
        exact ⟨b, written, (kept a committed).2.trans fixed, (kept a committed).1⟩
    · obtain ⟨old, new, committed, pending, fixed, -⟩ := replacing token rotated
      obtain ⟨b, written, kept⟩ := inv.revokes token.id j _ pending
      cases written
      refine ⟨new, ?_, (kept old committed).2.trans fixed, (kept old committed).1⟩
      change ((t.slot token.id).commit j).committed = some new
      rw [Slot.committed_commit, Slot.view_of_pending pending]
  · intro j j' token token' h h' same
    rcases split j token h with spent | ⟨rfl, -, rotated⟩ <;> rcases split j' token' h' with spent' | ⟨rfl, -, rotated'⟩
    · exact inv.single j j' token token' spent spent' same
    · exact (apart j token token' spent rotated' same).elim
    · exact (apart j' token' token spent' rotated same.symm).elim
    · rfl

end Rotations

/-! ### Along a run -/

theorem Uncontested.unrevoked {w : World (application platform settings)} {i : Nat} {env : Env} {k : Id} {now : Time}
    (h : Uncontested w (.run i env)) (about : w.AboutTo i (.sql .refreshTokens (.revoke k now)))
    (delivered : env.fault = none) {token : RefreshToken}
    (seen : ((w.state.tables .refreshTokens).slot k).view i = some token) : token.revokedAt = none := by
  obtain ⟨next, running⟩ := about
  simpa [Uncontested, isUncontested, running, delivered, TheClub.unrevoked, seen] using h

theorem uncontested_sessions : Disciplined (Y := application platform settings) Uncontested (tokenProtocol platform)
    (Exchanged platform) where
  code w i q start := useCases_sessions.code w i q (uncontested_useCases w _ start)
  answers := useCases_sessions.answers

theorem TokenPhase.after_other {g : TokenPhase} {c : Cmd} {r : Except Error c.Ret} (notUuid : c ≠ .uuid4)
    (away : ∀ q, c ≠ .sql .refreshTokens q) : g.after c r = g := by
  unfold TokenPhase.after
  split <;> first | rfl | exact (notUuid rfl).elim | exact (away _ rfl).elim

namespace Rotations
variable {s s' : Database} {g : Nat → TokenPlay} {env : Env} {i : Nat}

theorem step (inv : Rotations (s.tables .refreshTokens) s.issued g) {c : Cmd} {r : Except Error c.Ret}
    (allowed : (tokenProtocol platform).allowed (g i) c)
    (uncontested : ∀ k now, c = .sql .refreshTokens (.revoke k now) → env.fault = none →
      ∀ token, ((s.tables .refreshTokens).slot k).view i = some token → token.revokedAt = none)
    (ran : exec platform env i c s = some (r, s')) :
    Rotations (s'.tables .refreshTokens) s'.issued (Function.update g i ((tokenProtocol platform).next (g i) c r)) := by
  change Rotations _ _ (Function.update g i ((g i).next c r))
  by_cases ends : fate c r = .isOpen
  · have next : (g i).next c r = { g i with phase := (g i).phase.after c r } := by simp only [TokenPlay.next, ends]
    rw [next]
    rcases exec_issued ran with ⟨familyId, same, fresh, issued⟩ | ⟨notUuid, issued⟩
    · cases same
      rw [exec_frame ran .refreshTokens (by simp), ends, issued]
      exact inv.draw fresh
    · rw [issued]
      by_cases isTokens : ∃ q, c = .sql .refreshTokens q
      · obtain ⟨q, rfl⟩ := isTokens
        rcases exec_sql ran with ⟨e, rfl, -⟩ | ⟨a, rfl, done⟩
        · cases ends
        · refine inv.query allowed (fun k now same token seen => ?_) done
          subst same
          exact uncontested k now rfl (sql_delivered ran) token seen
      · have away : ∀ q, c ≠ .sql .refreshTokens q := fun q same => isTokens ⟨q, same⟩
        rw [exec_frame ran .refreshTokens away, ends, TokenPhase.after_other notUuid away, Function.update_eq_self]
        exact inv
  · have next : (g i).next c r = (g i).settle (fate c r) := by
      cases h : fate c r with
      | isOpen => exact (ends h).elim
      | _ => simp only [TokenPlay.next, h]
    have issued : s'.issued = s.issued := by
      rcases exec_issued ran with ⟨id, same, -⟩ | ⟨-, issued⟩
      · cases same
        exact (ends rfl).elim
      · exact issued
    rw [next, exec_ends ran ends, issued]
    exact inv.settle ends

end Rotations

theorem reachable_rotations {w : World (application platform settings)} (reached : Reachable Uncontested w) :
    Rotations (w.state.tables .refreshTokens) w.state.issued (w.ghost (tokenProtocol platform)) := by
  refine uncontested_sessions.invariant (fun s g => Rotations (s.tables .refreshTokens) s.issued g) .empty ?_ ?_ reached
  · intro w i env c r s' _ inv fine about allowed _ ran
    refine inv.step allowed (fun k now same delivered token seen => ?_) ran
    subst same
    exact fine.unrevoked about delivered seen
  · intro w i c _ inv _ _
    rw [Database.tables_settle, Database.issued_settle]
    exact inv.settle (by simp)

/-- No two refreshes with one token return tokens, and a family has at most one unrevoked token. -/
def SingleUse (w : World (application platform settings)) : Prop :=
  (∀ i j raw pair pair', w.request i = some (.refresh raw) → w.request j = some (.refresh raw) →
    w.Finished i (.ok (.tokens pair)) → w.Finished j (.ok (.tokens pair')) → i = j) ∧
  ∀ k k' a a', ((w.state.tables .refreshTokens).slot k).committed = some a →
    ((w.state.tables .refreshTokens).slot k').committed = some a' → a.familyId = a'.familyId →
    a.revokedAt = none → a'.revokedAt = none → k = k'

theorem refresh_single_use {w : World (application platform settings)} (reached : Reachable Uncontested w) :
    SingleUse w := by
  have inv := reachable_rotations reached
  constructor
  · intro i j raw pair pair' asked asked' finished finished'
    obtain ⟨q, same, token, spent, hash⟩ : ∃ q, w.request i = some q ∧ ∃ token,
        (w.ghost (tokenProtocol platform) i).spent = some token ∧ token.tokenHash = hashRefreshToken platform raw := by
      obtain ⟨q, same, exchanged⟩ := uncontested_sessions.finished reached finished
      cases asked.symm.trans same
      exact ⟨_, asked, exchanged⟩
    obtain ⟨q', same', token', spent', hash'⟩ : ∃ q, w.request j = some q ∧ ∃ token,
        (w.ghost (tokenProtocol platform) j).spent = some token ∧ token.tokenHash = hashRefreshToken platform raw := by
      obtain ⟨q, same, exchanged⟩ := uncontested_sessions.finished reached finished'
      cases asked'.symm.trans same
      exact ⟨_, asked', exchanged⟩
    obtain ⟨a, committed, fixed, -⟩ := inv.spent i token spent
    obtain ⟨a', committed', fixed', -⟩ := inv.spent j token' spent'
    refine inv.single i j token token' spent spent' (inv.hashes.committed committed committed' rfl ?_)
    rw [tokenHash_of_fixed fixed, tokenHash_of_fixed fixed', hash, hash']
  · intro k k' a a' committed committed' family live live'
    refine inv.lives.committed committed committed' (u := a.familyId) ?_ ?_
    · simp [liveFamily, live]
    · simp [liveFamily, live', family]

/-- User 12 exchanges the token of the registration, and somebody presents it once more. -/
def sampleReuse : SampleWorld := World.initial.replay isUncontested (sampleRegistration ++
  .start 1 (.refresh "") :: turns 1 2 30 10 "a" ++ .start 2 (.refresh "") :: turns 2 3 50 12)

theorem refresh_single_use_sampleReuse : SingleUse sampleReuse :=
  refresh_single_use (run_replay (fun _ _ => id) _ _)

/-- Two refreshes with the token of the registration read it before either revokes it. -/
def sampleRace : SampleWorld := sampleRun (sampleRegistration ++
  [.start 1 (.refresh ""), .start 2 (.refresh "")] ++ turns 1 2 30 2 ++ turns 2 2 40 2 ++
  turns 1 3 50 8 "a" ++ turns 2 3 60 8 "b")

theorem racing_refreshes_both_succeed : ¬∀ w : SampleWorld, Reachable UseCases w → SingleUse w := by
  intro claim
  have one : (((sampleRace.state.tables .refreshTokens).slot 54).committed.map fun token =>
      (token.familyId, token.revokedAt)) = some (17, none) := by decide +kernel
  have two : (((sampleRace.state.tables .refreshTokens).slot 64).committed.map fun token =>
      (token.familyId, token.revokedAt)) = some (17, none) := by decide +kernel
  obtain ⟨a, committed, first⟩ := Option.map_eq_some_iff.mp one
  obtain ⟨b, committed', second⟩ := Option.map_eq_some_iff.mp two
  obtain ⟨family, live⟩ := Prod.mk.inj first
  obtain ⟨family', live'⟩ := Prod.mk.inj second
  have same := (claim sampleRace (sampleRun_reachable _)).2 54 64 a b committed committed'
    (by rw [family, family']) live live'
  exact absurd same (by decide)

end TheClub
