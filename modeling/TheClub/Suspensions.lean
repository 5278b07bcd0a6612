import TheClub.Footprints
import TheClub.Locks

/-!
Suspended accounts. A login looks at the status of the account it has found and a registration
creates a new one, but a refresh token is exchanged without a look at the account it belongs to.
-/

namespace TheClub
open ReadCommitted Program

variable {platform : Platform} {settings : Settings}

/-- An operator switches the status of an account. -/
def switchStatus (userId : Id) (status : UserStatus) : Prog Unit := sql .users (.setStatus userId status)

/-- The use cases, with accounts being suspended and reactivated at any time. -/
def Switching (_ : World (application platform settings)) : Label (application platform settings) → Prop
  | .start _ q => q.isUseCase = true ∨ ∃ userId status, q = .transaction (switchStatus userId status)
  | _ => True

def Suspended (s : Database) (userId : Id) : Prop :=
  ∃ user, ((s.tables .users).slot userId).committed = some user ∧ user.status = .suspended

/-- A refresh looks up a live token of a suspended account. -/
def RefreshesSuspended (w : World (application platform settings)) : Label (application platform settings) → Prop
  | .run i env => ∃ tokenHash token, w.AboutTo i (.sql .refreshTokens (.getByHash tokenHash)) ∧
      (∃ rawRefreshToken, w.request i = some (.refresh rawRefreshToken)) ∧
      token ∈ (w.state.tables .refreshTokens).rows i ∧ token.tokenHash = tokenHash ∧ token.revokedAt = none ∧
      ¬token.expiresAt < env.now ∧ Suspended w.state token.userId
  | _ => False

/-- Process `i` has created no refresh token for the user, and the tokens it returns were issued for another. -/
structure NoCredentials (w : World (application platform settings)) (i : Nat) (userId : Id) : Prop where
  rows : ∀ familyId tokenHash expiresAt row,
    ¬w.Ran i (.sql .refreshTokens (.create userId familyId tokenHash expiresAt)) (.ok row)
  replies : ∀ pair, w.Finished i (.ok (.tokens pair)) → ∃ other familyId, other ≠ userId ∧
    (issueTokens platform settings other familyId).Within (w.history i) pair

/-! ### Whose tokens a request issues -/

def IssuesFor (userId : Id) (c : Cmd) : Prop :=
  ∀ other familyId tokenHash expiresAt, c = .sql .refreshTokens (.create other familyId tokenHash expiresAt) →
    other = userId

def Unissuing (c : Cmd) : Prop :=
  ∀ userId familyId tokenHash expiresAt, c ≠ .sql .refreshTokens (.create userId familyId tokenHash expiresAt)

section
variable {h : List (Event signature)} {userId familyId : Id} {tokenHash : String} {expiresAt : Time}
  {r : Except Error RefreshToken}

theorem issueTokens_for : (issueTokens platform settings userId familyId).Only (IssuesFor userId) := by
  unfold issueTokens createAccessToken
  refine Only.bind (Only.bind (only_perform (S := signature) ?_) fun _ => trivial) fun _ =>
    Only.bind (only_perform (S := signature) ?_) fun _ => Only.bind (only_perform (S := signature) ?_) fun _ =>
    Only.bind (only_perform (S := signature) ?_) fun _ => trivial
  · simp [IssuesFor]
  · simp [IssuesFor]
  · simp [IssuesFor]
  · rintro other familyId tokenHash expiresAt ⟨⟩
    rfl

theorem issueTokens_created {pair : TokenPair}
    (within : (issueTokens platform settings userId familyId).Within h pair) :
    ∃ tokenHash expiresAt row, .ran (.sql .refreshTokens (.create userId familyId tokenHash expiresAt))
      (.ok row) ∈ h := by
  obtain ⟨accessToken, -, within⟩ := within_bind within
  obtain ⟨raw, -, within⟩ := within_bind within
  obtain ⟨now, -, within⟩ := within_bind within
  obtain ⟨row, created, -⟩ := within_bind within
  exact ⟨_, _, row, within_perform created⟩

theorem getByEmail_unissuing {email : String} : (UserRepository.getByEmail email).Only Unissuing :=
  Only.bind (only_perform (S := signature) (by simp [Unissuing])) fun rows => by
    unfold scalarOneOrNone
    split <;> trivial

theorem getByHash_unissuing {tokenHash : String} : (RefreshTokenRepository.getByHash tokenHash).Only Unissuing :=
  Only.bind (only_perform (S := signature) (by simp [Unissuing])) fun rows => by
    unfold scalarOneOrNone
    split <;> trivial

theorem revokeFamily_unissuing {familyId : Id} {revokedAt : Time} :
    (RefreshTokenRepository.revokeFamily familyId revokedAt).Only Unissuing :=
  Only.bind (only_perform (S := signature) (by simp [Unissuing])) fun _ =>
    only_forM fun _ => only_perform (S := signature) (by simp [Unissuing])

theorem logout_unissuing {userId : Id} {raw : String} : (logout platform userId raw).Only Unissuing := by
  refine Only.bind getByHash_unissuing fun stored => ?_
  cases stored with
  | none => trivial
  | some stored =>
    dsimp only
    split
    · trivial
    · exact Only.bind (only_perform (S := signature) (by simp [Unissuing])) fun _ => revokeFamily_unissuing

variable {p : Prog (User × TokenPair)}

theorem scalar_found {α : Type} {f : TableName} {q : Query f} {rows : Query.Ret f q → List α} {found : Option α}
    (resumed : (sql f q >>= fun a => scalarOneOrNone (rows a)).Resumed h (.done (.ok found))) :
    ∃ a, h = [.ran (.sql f q) (.ok a)] ∧ rows a = found.toList := by
  obtain ⟨_, _, a, rfl, ran, scalar⟩ := resumed_bind_ok resumed
  obtain rfl := resumed_perform_ok ran
  refine ⟨a, ?_⟩
  unfold scalarOneOrNone at scalar
  split at scalar
  · rename_i none
    obtain ⟨rfl, same⟩ := resumed_done scalar
    cases same
    exact ⟨rfl, none⟩
  · rename_i one
    obtain ⟨rfl, same⟩ := resumed_done scalar
    cases same
    exact ⟨rfl, one⟩
  · cases (resumed_done scalar).2

theorem login_issues {email password : String} (resumed : (login platform settings email password).Resumed h p)
    (issued : .ran (.sql .refreshTokens (.create userId familyId tokenHash expiresAt)) r ∈ h) : ∃ user rest,
    h = .ran (.sql .users (.getByEmail email)) (.ok [user]) :: rest ∧ user.status ≠ .suspended ∧ user.id = userId := by
  have issuing : ¬Unissuing (.sql .refreshTokens (.create userId familyId tokenHash expiresAt)) :=
    fun away => away _ _ _ _ rfl
  obtain ⟨first, rest, found, rfl, looked, later, ran⟩ := resumed.later getByEmail_unissuing issued issuing
  obtain ⟨rows, rfl, found'⟩ := scalar_found looked
  cases found with
  | none =>
    exact (not_ran_done later ran).elim
  | some user =>
    obtain rfl : rows = [user] := found'
    dsimp only at later
    split at later
    · exact (not_ran_done later ran).elim
    split at later
    · exact (not_ran_done later ran).elim
    have only : (do
        let familyId ← perform .uuid4
        let tokens ← issueTokens platform settings user.id familyId
        return (user, tokens) : Prog (User × TokenPair)).Only (IssuesFor user.id) :=
      Only.bind (only_perform (S := signature) (by simp [IssuesFor])) fun _ =>
        Only.bind issueTokens_for fun _ => trivial
    exact ⟨user, rest, rfl, by assumption, ((later.only only).2 _ _ ran _ _ _ _ rfl).symm⟩

theorem refreshAccessToken_issues {raw : String} {p : Prog TokenPair}
    (resumed : (refreshAccessToken platform settings raw).Resumed h p)
    (issued : .ran (.sql .refreshTokens (.create userId familyId tokenHash expiresAt)) r ∈ h) : ∃ token now rest,
    h = .ran (.sql .refreshTokens (.getByHash (hashRefreshToken platform raw))) (.ok [token]) ::
      .ran .datetimeNow (.ok now) :: rest ∧ token.revokedAt = none ∧ ¬token.expiresAt < now ∧
        token.userId = userId := by
  have issuing : ¬Unissuing (.sql .refreshTokens (.create userId familyId tokenHash expiresAt)) :=
    fun away => away _ _ _ _ rfl
  obtain ⟨first, rest, found, rfl, looked, later, ran⟩ := resumed.later getByHash_unissuing issued issuing
  obtain ⟨rows, rfl, found'⟩ := scalar_found looked
  cases found with
  | none =>
    exact (not_ran_done later ran).elim
  | some token =>
    obtain rfl : rows = [token] := found'
    obtain ⟨read, rest, now, rfl, clock, further, ran'⟩ :=
      later.later (only_perform (S := signature) (show Unissuing .datetimeNow by simp [Unissuing])) ran issuing
    obtain rfl := resumed_perform_ok clock
    split at further
    · have only : (do
          RefreshTokenRepository.revokeFamily token.familyId now
          perform (.commit .request)
          raise .refreshTokenReusedError : Prog TokenPair).Only Unissuing := by
        refine Only.bind revokeFamily_unissuing fun _ => ?_
        exact Only.bind (only_perform (S := signature) (by simp [Unissuing])) fun _ => trivial
      exact (issuing ((further.only only).2 _ _ ran')).elim
    rename_i live
    split at further
    · exact (not_ran_done further ran').elim
    have only : (do
        RefreshTokenRepository.revoke token.id now
        issueTokens platform settings token.userId token.familyId : Prog TokenPair).Only (IssuesFor token.userId) :=
      Only.bind (only_perform (S := signature) (by simp [IssuesFor])) fun _ => issueTokens_for
    exact ⟨token, now, rest, rfl, not_not.mp live, by assumption, ((further.only only).2 _ _ ran' _ _ _ _ rfl).symm⟩

theorem registerUser_issues {email password : String}
    (resumed : (registerUser platform settings email password).Resumed h p)
    (issued : .ran (.sql .refreshTokens (.create userId familyId tokenHash expiresAt)) r ∈ h) : ∃ passwordHash user,
    .ran (.sql .users (.create email passwordHash)) (.ok user) ∈ h ∧ user.id = userId := by
  have issuing : ¬Unissuing (.sql .refreshTokens (.create userId familyId tokenHash expiresAt)) :=
    fun away => away _ _ _ _ rfl
  obtain ⟨first, rest, found, rfl, -, later, ran⟩ := resumed.later getByEmail_unissuing issued issuing
  cases found with
  | some user =>
    exact (not_ran_done later ran).elim
  | none =>
    obtain ⟨_, rest, passwordHash, rfl, -, further, ran'⟩ :=
      later.later (only_perform (S := signature)
        (show Unissuing (.hashPassword password) by simp [Unissuing])) ran issuing
    obtain ⟨_, rest, user, rfl, created, last, ran₂⟩ :=
      further.later (only_perform (S := signature) (show Unissuing (.sql .users (.create email passwordHash)) by
        simp [Unissuing])) ran' issuing
    obtain rfl := resumed_perform_ok created
    refine ⟨passwordHash, user, by simp, ?_⟩
    have away : ∀ {α : Type} {L : List TableName} {p : Prog α}, p.Plain (Uses L) → .refreshTokens ∉ L →
        p.Only (IssuesFor user.id) := by
      rintro α L p uses absent
      refine uses.only.mono ?_
      rintro c used _ _ _ _ rfl
      exact (absent used).elim
    have only : (do
        let serverSeed ← newServerSeed
        let clientSeed ← generateClientSeed
        let _ ← sql .wallets (.add user.id 0)
        let _ ← SeedPairRepository.createActive user.id serverSeed (hashSeed platform serverSeed) clientSeed
        let familyId ← perform .uuid4
        let tokens ← issueTokens platform settings user.id familyId
        return (user, tokens) : Prog (User × TokenPair)).Only (IssuesFor user.id) := by
      refine Only.bind (only_perform (S := signature) (by simp [IssuesFor])) fun serverSeed => ?_
      refine Only.bind (only_perform (S := signature) (by simp [IssuesFor])) fun clientSeed => ?_
      refine Only.bind (only_perform (S := signature) (by simp [IssuesFor])) fun _ => ?_
      refine Only.bind (away (createActive_uses (L := [.seedPairs]) (by decide)) (by decide)) fun _ => ?_
      exact Only.bind (only_perform (S := signature) (by simp [IssuesFor])) fun _ =>
        Only.bind issueTokens_for fun _ => trivial
    exact ((last.only only).2 _ _ ran₂ _ _ _ _ rfl).symm

end

/-- The request, and what it has been through, show whose tokens it issues. -/
inductive IssuesTo (platform : Platform) (userId : Id) : Request → List (Event signature) → Prop where
  | login {email password : String} {user : User} {rest : List (Event signature)} (active : user.status ≠ .suspended)
      (own : user.id = userId) :
      IssuesTo platform userId (.login email password) (.ran (.sql .users (.getByEmail email)) (.ok [user]) :: rest)
  | registerUser {email password passwordHash : String} {user : User} {h : List (Event signature)}
      (created : .ran (.sql .users (.create email passwordHash)) (.ok user) ∈ h) (own : user.id = userId) :
      IssuesTo platform userId (.registerUser email password) h
  | refresh {raw : String} {token : RefreshToken} {now : Time} {rest : List (Event signature)}
      (live : token.revokedAt = none)
      (unexpired : ¬token.expiresAt < now) (own : token.userId = userId) :
      IssuesTo platform userId (.refresh raw)
        (.ran (.sql .refreshTokens (.getByHash (hashRefreshToken platform raw))) (.ok [token]) ::
          .ran .datetimeNow (.ok now) :: rest)

theorem IssuesTo.extend {userId : Id} {q : Request} {h : List (Event signature)} (issues : IssuesTo platform userId q h)
    (more : List (Event signature)) : IssuesTo platform userId q (h ++ more) := by
  cases issues with
  | login active own => exact .login active own
  | registerUser created own => exact .registerUser (List.mem_append_left _ created) own
  | refresh live unexpired own => exact .refresh live unexpired own

section
variable {q : Request} {h : List (Event signature)} {userId familyId : Id} {tokenHash : String} {expiresAt : Time}
  {r : Except Error RefreshToken}

theorem code_issues {p : Prog Reply}
    (switching : q.isUseCase = true ∨ ∃ userId status, q = .transaction (switchStatus userId status))
    (resumed : (q.code platform settings).Resumed h p)
    (issued : .ran (.sql .refreshTokens (.create userId familyId tokenHash expiresAt)) r ∈ h) :
    IssuesTo platform userId q h := by
  have inside : ∀ {α : Type} {body : Prog α} {f : α → Reply} {p : Prog Reply} {h : List (Event signature)},
      (f <$> unitOfWork .request body).Resumed h p →
      .ran (.sql .refreshTokens (.create userId familyId tokenHash expiresAt)) r ∈ h →
      ∃ first rest p, h = first ++ rest ∧ body.Resumed first p ∧
        .ran (.sql .refreshTokens (.create userId familyId tokenHash expiresAt)) r ∈ first := by
    intro α body f p h resumed issued
    obtain ⟨first, rest, _, rfl, went, mine⟩ := resumed.earlier (A := fun _ => False) (fun _ => trivial) issued id
    obtain ⟨first, rest', _, rfl, went, mine⟩ := unitOfWork_ran went mine (by simp)
    exact ⟨first, rest' ++ rest, _, List.append_assoc .., went, mine⟩
  have elsewhere : q.isUseCase = true → .refreshTokens ∉ q.tables → IssuesTo platform userId q h :=
    fun useCase absent => (absent ((resumed.only (code_touches useCase)).2 _ _ issued)).elim
  cases q with
  | registerUser email password =>
    obtain ⟨first, rest, _, rfl, went, mine⟩ := inside resumed issued
    obtain ⟨passwordHash, user, created, own⟩ := registerUser_issues went mine
    exact .registerUser (List.mem_append_left _ created) own
  | login email password =>
    obtain ⟨first, rest, _, rfl, went, mine⟩ := inside resumed issued
    obtain ⟨user, later, rfl, active, own⟩ := login_issues went mine
    exact .login active own
  | refresh raw =>
    obtain ⟨first, rest, _, rfl, went, mine⟩ := inside resumed issued
    obtain ⟨token, now, later, rfl, live, unexpired, own⟩ := refreshAccessToken_issues went mine
    exact .refresh live unexpired own
  | logout userId raw =>
    obtain ⟨first, rest, _, rfl, went, mine⟩ := inside resumed issued
    exact ((went.only logout_unissuing).2 _ _ mine _ _ _ _ rfl).elim
  | transaction work =>
    rcases switching with useCase | ⟨userId', status, same⟩
    · cases useCase
    · cases same
      obtain ⟨first, rest, _, rfl, went, mine⟩ := inside resumed issued
      have only : (switchStatus userId' status).Only Unissuing := only_perform (S := signature) (by simp [Unissuing])
      exact ((went.only only).2 _ _ mine _ _ _ _ rfl).elim
  | runIdempotent =>
    rcases switching with useCase | ⟨_, _, same⟩
    · cases useCase
    · cases same
  | _ => exact elsewhere rfl (by simp [Request.tables])

theorem code_replies {pair : TokenPair}
    (switching : q.isUseCase = true ∨ ∃ userId status, q = .transaction (switchStatus userId status))
    (resumed : (q.code platform settings).Resumed h (.done (.ok (.tokens pair)))) :
    ∃ userId familyId, (issueTokens platform settings userId familyId).Within h pair := by
  cases q with
  | registerUser email password =>
    obtain ⟨reply, within, ended⟩ := within_bind resumed.within
    cases within_done ended
    obtain ⟨found, -, within⟩ := within_bind (unitOfWork_within within)
    cases found with
    | some user => cases within_done within
    | none =>
      obtain ⟨passwordHash, -, within⟩ := within_bind within
      obtain ⟨user, -, within⟩ := within_bind within
      obtain ⟨serverSeed, -, within⟩ := within_bind within
      obtain ⟨clientSeed, -, within⟩ := within_bind within
      obtain ⟨_, -, within⟩ := within_bind within
      obtain ⟨_, -, within⟩ := within_bind within
      obtain ⟨familyId, -, within⟩ := within_bind within
      obtain ⟨tokens, issued, ended⟩ := within_bind within
      cases within_done ended
      exact ⟨user.id, familyId, issued⟩
  | login email password =>
    obtain ⟨reply, within, ended⟩ := within_bind resumed.within
    cases within_done ended
    obtain ⟨found, -, within⟩ := within_bind (unitOfWork_within within)
    cases found with
    | none => cases within_done within
    | some user =>
      dsimp only at within
      split at within
      · cases within_done within
      split at within
      · cases within_done within
      obtain ⟨familyId, -, within⟩ := within_bind within
      obtain ⟨tokens, issued, ended⟩ := within_bind within
      cases within_done ended
      exact ⟨user.id, familyId, issued⟩
  | refresh raw =>
    obtain ⟨reply, within, ended⟩ := within_bind resumed.within
    cases within_done ended
    obtain ⟨found, -, within⟩ := within_bind (unitOfWork_within within)
    cases found with
    | none => cases within_done within
    | some token =>
      obtain ⟨now, -, within⟩ := within_bind within
      split at within
      · obtain ⟨_, -, within⟩ := within_bind within
        obtain ⟨_, -, within⟩ := within_bind within
        cases within_done within
      split at within
      · cases within_done within
      obtain ⟨_, -, issued⟩ := within_bind within
      exact ⟨token.userId, token.familyId, issued⟩
  | _ =>
    obtain ⟨_, -, ended⟩ := within_bind resumed.within
    cases within_done ended

end

/-! ### Runs -/

/-- The use cases with accounts being switched, except that no refresh looks up a live token of a suspended account. -/
def Checked (w : World (application platform settings)) (l : Label (application platform settings)) : Prop :=
  Switching w l ∧ ¬RefreshesSuspended w l

variable {ok : World (application platform settings) → Label (application platform settings) → Prop}
  {w₀ w₁ w w' : World (application platform settings)}

theorem listed_of_run (run : Run ok w w') {f : TableName} {k : Id} (listed : k ∈ (w.state.tables f).keys) :
    k ∈ (w'.state.tables f).keys := by
  induction run with
  | refl => exact listed
  | step _ _ moved ih =>
    rcases World.step_cases moved with ⟨i, q, -, -, rfl⟩ | ⟨i, env, c, next, r, s, -, -, ran, rfl⟩ | ⟨i, c, -, -, rfl⟩
    · exact ih
    · rcases exec_table ran f with ⟨-, table⟩ | ⟨q, a, -, moved⟩
      · rw [table, Table.keys_settle]
        exact ih
      · exact moved.keys ih
    · exact ih

theorem first_view (reached : Reachable ok w) {i : Nat} (fresh : w.history i = []) (f : TableName) (k : Id) :
    ((w.state.tables f).slot k).view i = ((w.state.tables f).slot k).committed := by
  refine Slot.view_of_not_holder fun held => ?_
  have isOpen := holder_open reached f k i held
  simp only [World.ghost, fresh, List.foldl_nil] at isOpen
  cases isOpen

theorem created_apart (run : Run ok w₀ w) {i : Nat} (fresh : w₀.history i = []) {userId : Id}
    (listed : userId ∈ (w₀.state.tables .users).keys) {email passwordHash : String} {user : User}
    (created : w.Ran i (.sql .users (.create email passwordHash)) (.ok user)) : user.id ≠ userId := by
  induction run with
  | refl =>
    rw [World.Ran, fresh] at created
    cases created
  | @step w w' l earlier allowed moved ih =>
    have still : userId ∈ (w.state.tables .users).keys := listed_of_run earlier listed
    rcases World.step_cases moved with
      ⟨j, q, rfl, -, rfl⟩ | ⟨j, env, c, next, r, s, rfl, -, ran, rfl⟩ | ⟨j, c, rfl, -, rfl⟩
    · exact ih created
    · rcases (World.ran_update ..).mp created with old | ⟨rfl, same⟩
      · exact ih old
      · cases same
        rcases exec_sql ran with ⟨e, failed, -⟩ | ⟨a, same, done⟩
        · cases failed
        · cases same
          obtain ⟨rfl, unused, -⟩ := insertRow_ok done
          rintro rfl
          exact unused still
    · rcases (World.ran_update ..).mp created with old | ⟨-, same⟩
      · exact ih old
      · cases same

theorem read_later (run : Run ok w w') (i : Nat) : w.state.clock ≤ w'.state.clock ∧
    ∃ more, w'.history i = w.history i ++ more ∧ ∀ now, .ran .datetimeNow (.ok now) ∈ more → w.state.clock ≤ now := by
  induction run with
  | refl => exact ⟨le_rfl, [], (List.append_nil _).symm, by simp⟩
  | step _ _ moved ih =>
    obtain ⟨later, more, past, reads⟩ := ih
    rcases World.step_cases moved with ⟨j, q, -, -, rfl⟩ | ⟨j, env, c, next, r, s, -, -, ran, rfl⟩ | ⟨j, c, -, -, rfl⟩
    · exact ⟨later, more, past, reads⟩
    · obtain ⟨forward, clock⟩ := exec_clock ran
      have passed := later.trans forward
      refine ⟨passed.trans_eq clock.symm, ?_⟩
      by_cases same : i = j
      · subst same
        refine ⟨more ++ [.ran c r], by simp [past], fun now read => ?_⟩
        rcases List.mem_append.mp read with old | new
        · exact reads now old
        · cases List.mem_singleton.mp new
          obtain ⟨-, ran⟩ := exec_run ran
          cases ran
          exact passed
      · exact ⟨more, by simp [past, same], reads⟩
    · refine ⟨later.trans_eq (Database.clock_settle j .undone _).symm, ?_⟩
      by_cases same : i = j
      · subst same
        refine ⟨more ++ [.died], by simp [past], fun now read => ?_⟩
        rcases List.mem_append.mp read with old | new
        · exact reads now old
        · cases List.mem_singleton.mp new
      · exact ⟨more, by simp [past, same], reads⟩

/-- A request that starts while an account is suspended neither returns nor stores credentials for it, as long as
no refresh looks up a live token of a suspended account. -/
theorem suspended_gets_no_credentials (reached : Reachable Checked w₀) {i : Nat} {env : Env} (fresh : w₀.history i = [])
    (checked : Checked w₀ (.run i env)) (begins : w₀.step (.run i env) = some w₁) (run : Run Checked w₁ w) {userId : Id}
    (suspended : Suspended w₀.state userId) : NoCredentials w i userId := by
  have whole : Reachable Checked w := .trans (.step reached checked begins) run
  have later : Run Checked w₀ w := .trans (.step (.refl _) checked begins) run
  obtain ⟨user, committed, status⟩ := suspended
  rcases World.step_cases begins with ⟨_, _, ⟨⟩, -⟩ | ⟨_, _, c, next, r, s, ⟨⟩, running, ran, same⟩ | ⟨_, _, ⟨⟩, -⟩
  obtain ⟨-, more, past, reads⟩ := read_later run i
  replace past : w.history i = .ran c r :: more := by simp [past, same, fresh]
  have clock : w₁.state.clock = env.now := by
    rw [same]
    exact (exec_clock ran).2
  obtain ⟨q, asked⟩ : ∃ q, w.request i = some q := by
    refine Option.ne_none_iff_exists'.mp fun none => ?_
    cases past.symm.trans (history_of_unstarted whole i none).1
  have switching : q.isUseCase = true ∨ ∃ userId status, q = .transaction (switchStatus userId status) := by
    obtain ⟨before, -, checked⟩ := asked_by whole asked
    exact checked.1
  have rows : ∀ familyId tokenHash expiresAt row,
      ¬w.Ran i (.sql .refreshTokens (.create userId familyId tokenHash expiresAt)) (.ok row) := by
    intro familyId tokenHash expiresAt row issued
    obtain ⟨h, rest, p, split, resumed, mine⟩ := resumed_of_ran whole asked issued
    have issues := (code_issues switching resumed mine).extend rest
    rw [← split, past] at issues
    have seen : ∀ {f : TableName} {a : Row f}, a ∈ (w₀.state.tables f).rows i →
        ((w₀.state.tables f).slot (Row.id f a)).committed = some a := by
      intro f a member
      obtain ⟨k, seen⟩ := Table.mem_rows.mp member
      rw [first_view reached fresh] at seen
      rwa [reachable_keyed reached f k a (Or.inl seen)]
    cases issues with
    | @login email _ other _ active own =>
      rcases exec_sql ran with ⟨e, failed, -⟩ | ⟨a, found, done⟩
      · cases failed
      · cases found
        obtain ⟨found, -⟩ := Outcome.ok.inj done
        have member := List.mem_singleton_self other
        rw [← found] at member
        have row := seen (f := .users) (List.mem_filter.mp member).1
        change ((w₀.state.tables .users).slot other.id).committed = some other at row
        rw [own, committed] at row
        cases row
        exact active status
    | registerUser created own =>
      exact created_apart later fresh (Table.mem_keys_of_version (Or.inl committed)) (past ▸ created) own
    | @refresh raw token now _ live unexpired own =>
      rcases exec_sql ran with ⟨e, failed, -⟩ | ⟨a, found, done⟩
      · cases failed
      · cases found
        obtain ⟨found, -⟩ := Outcome.ok.inj done
        have member := List.mem_singleton_self token
        rw [← found] at member
        obtain ⟨listed, hash⟩ := List.mem_filter.mp member
        have read := reads now List.mem_cons_self
        refine checked.2 ⟨_, token, ⟨next, running⟩, ⟨raw, ?_⟩, listed, of_decide_eq_true hash, live, ?_,
          own ▸ ⟨user, committed, status⟩⟩
        · obtain ⟨q₀, asked₀⟩ : ∃ q, w₀.request i = some q := by
            refine Option.ne_none_iff_exists'.mp fun none => ?_
            cases running.symm.trans (history_of_unstarted reached i none).2
          cases (later.asked asked₀).symm.trans asked
          exact asked₀
        · rw [clock] at read
          exact fun early => unexpired (lt_of_lt_of_le early read)
  refine ⟨rows, fun pair finished => ?_⟩
  obtain ⟨q', asked', resumed⟩ := resumed_of_finished whole finished
  cases asked.symm.trans asked'
  obtain ⟨other, familyId, within⟩ := code_replies switching resumed
  refine ⟨other, familyId, ?_, within⟩
  rintro rfl
  obtain ⟨tokenHash, expiresAt, row, created⟩ := issueTokens_created within
  exact rows _ _ _ _ created

/-! ### A run -/

/-- Runs of the use cases in which no refresh does anything. -/
def unrefreshing (w : SampleWorld) (l : SampleLabel) : Bool :=
  isUseCase w l && match l with
    | .start _ _ => true
    | .run i _ => (w.request i).all fun q => q.tables ≠ [.refreshTokens]
    | .kill _ => true

theorem checked_of_unrefreshing {w : SampleWorld} {l : SampleLabel} (h : unrefreshing w l = true) : Checked w l := by
  obtain ⟨useCase, calm⟩ := Bool.and_eq_true_iff.mp h
  constructor
  · cases l with
    | start i q => exact Or.inl useCase
    | run i env => trivial
    | kill i => trivial
  · cases l with
    | run i env =>
      rintro ⟨tokenHash, token, -, ⟨raw, asked⟩, -⟩
      simp [asked, Request.tables] at calm
    | start i q => exact id
    | kill i => exact id

def registered : SampleWorld := World.initial.replay unrefreshing sampleRegistration

/-- An operator has begun to suspend user 12. -/
def suspending : SampleWorld :=
  (registered.step (.start 1 (.transaction (switchStatus 12 .suspended)))).getD World.initial

/-- The suspension is committed, and user 12 is about to log in and to refresh the session. -/
def suspended : SampleWorld := suspending.replay unrefreshing (turns 1 2 30 2 ++
  [.start 2 (.login "ana@mail.com" ""), .start 3 (.refresh "")])

theorem suspended_reachable : Reachable Checked suspended := by
  have fresh : registered.request 1 = none := Option.isNone_iff_eq_none.mp (by decide +kernel)
  have moved : registered.step (.start 1 (.transaction (switchStatus 12 .suspended))) = some suspending := by
    unfold suspending
    simp [World.step, fresh]
  refine .trans (.step (run_replay (fun _ _ => checked_of_unrefreshing) _ _) ?_ moved)
    (run_replay (fun _ _ => checked_of_unrefreshing) _ _)
  exact ⟨Or.inr ⟨12, .suspended, rfl⟩, id⟩

theorem suspended_12 : Suspended suspended.state 12 := by
  have row : (((suspended.state.tables .users).slot 12).committed.any fun user => user.status = .suspended) = true := by
    decide +kernel
  generalize suspended = w at row
  unfold Suspended
  cases committed : ((w.state.tables .users).slot 12).committed with
  | none => simp [committed] at row
  | some user => exact ⟨user, rfl, by simpa [committed] using row⟩

def signing (i : Nat) : SampleLabel := .run i { now := 3, id := 40, text := "b" }

theorem moved_of_isSome {w : SampleWorld} {l : SampleLabel} (moves : (w.step l).isSome = true) :
    w.step l = some ((w.step l).getD w) := by
  obtain ⟨w', moved⟩ := Option.isSome_iff_exists.mp moves
  rw [moved]
  rfl

/-- The login of the suspended user. -/
theorem suspended_gets_no_credentials_login :
    NoCredentials (((suspended.step (signing 2)).getD suspended).replay unrefreshing (turns 2 3 41 6 "b")) 2 12 := by
  refine suspended_gets_no_credentials suspended_reachable (List.isEmpty_iff.mp (by decide +kernel))
    (checked_of_unrefreshing (l := signing 2) (by decide +kernel)) (moved_of_isSome (by decide +kernel))
    (run_replay (fun _ _ => checked_of_unrefreshing) _ _) suspended_12

/-- The user for whom an event has created a refresh token. -/
def createdFor : Event signature → Option Id
  | .ran (.sql .refreshTokens (.create userId _ _ _)) (.ok _) => some userId
  | _ => none

theorem ran_of_createdFor {e : Event signature} {userId : Id} (h : createdFor e = some userId) :
    ∃ familyId tokenHash expiresAt row, e = .ran (.sql .refreshTokens (.create userId familyId tokenHash expiresAt))
      (.ok row) := by
  unfold createdFor at h
  split at h
  · cases h
    exact ⟨_, _, _, _, rfl⟩
  · cases h

/-- A suspended user gets new credentials from a refresh. -/
theorem suspended_gets_credentials_refresh : ¬∀ (w₀ w₁ w : SampleWorld) (i : Nat) (env : Env) (userId : Id),
    Reachable Switching w₀ → w₀.history i = [] → w₀.step (.run i env) = some w₁ → Run Switching w₁ w →
    Suspended w₀.state userId → NoCredentials w i userId := by
  intro never
  have switching : ∀ (w : SampleWorld) l, isUseCase w l = true → Switching w l := by
    intro w l useCase
    cases l with
    | start i q => exact Or.inl useCase
    | run i env => trivial
    | kill i => trivial
  have created : ((((suspended.step (signing 3)).getD suspended).replay isUseCase (turns 3 3 41 7 "b")).history 3).any
      (fun e => createdFor e = some 12) = true := by decide +kernel
  obtain ⟨e, ran, issued⟩ := List.any_eq_true.mp created
  obtain ⟨familyId, tokenHash, expiresAt, row, rfl⟩ := ran_of_createdFor (of_decide_eq_true issued)
  refine (never suspended _ _ 3 _ 12 (suspended_reachable.mono fun _ _ checked => checked.1) (List.isEmpty_iff.mp ?_)
    (moved_of_isSome (l := signing 3) ?_) (run_replay switching _ (turns 3 3 41 7 "b")) suspended_12).rows
    familyId tokenHash expiresAt row ran
  · decide +kernel
  · decide +kernel

end TheClub
