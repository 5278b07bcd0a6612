import TheClub.Api.Deps

/-!
The connection pool under the two endpoints that go through `run_idempotent`. `get_current_user`
reads with the session of the request, which keeps its connection until the response is done,
and every transaction of `run_idempotent` takes a second connection. Requests therefore hold one
connection while they wait for another, and only a pool larger than the number of concurrent
requests, or the pool's timeout, keeps them going.
-/

namespace TheClub
open ReadCommitted

variable {platform : Platform} {settings : Settings}

/-- Command `c` waits for a connection unless its session has one. -/
def Needs (held : Bool) : Cmd → Prop
  | .sql _ _ => held = false
  | _ => False

/-- A session has a connection from its first statement to the end of the transaction. -/
def keeps (held : Bool) : Cmd → Bool
  | .sql _ _ => true
  | .commit _ => false
  | .rollback => false
  | _ => held

/-- A place for one request at a time. `first` tells whether the session of the request has a
connection, `second` whether the open session of `run_idempotent` has one. -/
inductive Stage where
  | idle
  | authenticating (q : MoneyRequest) (p : Prog User) (first : Bool)
  | handling (p : Prog Reply) (first second : Bool)
  | closing (first : Bool)

namespace Stage

def connections : Stage → Nat
  | idle => 0
  | authenticating _ _ first => first.toNat
  | handling _ first second => first.toNat + second.toNat
  | closing first => first.toNat

/-- The next command needs a connection. -/
def Waits : Stage → Prop
  | authenticating _ (.call c _) first => Needs first c
  | handling (.call c _) _ second => Needs second c
  | _ => False

/-- One step of a request while the pool has a free connection, or none; what the database
answers is left open. With `timeouts` a request may give up waiting. -/
inductive Moves (platform : Platform) (settings : Settings) (free timeouts : Prop) : Stage → Stage → Prop where
  | authenticate {q : MoneyRequest} {c : Cmd} {next : Except Error c.Ret → Prog User} {first : Bool}
      (answer : Except Error c.Ret) (enough : Needs first c → free) :
      Moves platform settings free timeouts (authenticating q (.call c next) first)
        (authenticating q (next answer) (keeps first c))
  | lookupTimesOut {q : MoneyRequest} {c : Cmd} {next : Except Error c.Ret → Prog User} {first : Bool}
      (impatient : timeouts) (waits : Needs first c) :
      Moves platform settings free timeouts (authenticating q (.call c next) first)
        (authenticating q (next (.error .poolTimeoutError)) first)
  | admitted {q : MoneyRequest} {user : User} {first : Bool} :
      Moves platform settings free timeouts (authenticating q (.done (.ok user)) first)
        (handling ((q.request user).code platform settings) first false)
  | refuse {q : MoneyRequest} {e : Error} {first : Bool} :
      Moves platform settings free timeouts (authenticating q (.done (.error e)) first) (closing first)
  | handle {c : Cmd} {next : Except Error c.Ret → Prog Reply} {first second : Bool} (answer : Except Error c.Ret)
      (enough : Needs second c → free) :
      Moves platform settings free timeouts (handling (.call c next) first second)
        (handling (next answer) first (keeps second c))
  | statementTimesOut {c : Cmd} {next : Except Error c.Ret → Prog Reply} {first second : Bool} (impatient : timeouts)
      (waits : Needs second c) :
      Moves platform settings free timeouts (handling (.call c next) first second)
        (handling (next (.error .poolTimeoutError)) first second)
  | respond {r : Except Error Reply} {first second : Bool} :
      Moves platform settings free timeouts (handling (.done r) first second) (closing first)
  | close {first : Bool} : Moves platform settings free timeouts (closing first) idle

end Stage

abbrev Requests (n : Nat) : Type := Fin n → Stage

namespace Requests
variable {n C : Nat} {s s' : Requests n}

def held (s : Requests n) : Nat := ∑ i, (s i).connections

def Step (platform : Platform) (settings : Settings) (C : Nat) (timeouts : Prop) (s : Requests n) (i : Fin n)
    (s' : Requests n) : Prop :=
  ∃ stage, (s i).Moves platform settings (s.held < C) timeouts stage ∧ s' = Function.update s i stage

/-- A request takes its next step, or a new one comes in. -/
def Change (platform : Platform) (settings : Settings) (C : Nat) (timeouts : Prop) (s s' : Requests n) : Prop :=
  (∃ i, s.Step platform settings C timeouts i s') ∨
  ∃ i q token, s i = .idle ∧ s' = Function.update s i (.authenticating q (getCurrentUser token) false)

abbrev Reach (platform : Platform) (settings : Settings) (C : Nat) (timeouts : Prop) (s : Requests n) : Prop :=
  Relation.ReflTransGen (Change platform settings C timeouts) (fun _ => .idle) s

/-- All connections of the pool are held by requests that wait for a further one. -/
def HoldAndWait (C : Nat) (s : Requests n) : Prop := s.held = C ∧ ∀ i, 0 < (s i).connections → (s i).Waits

end Requests

/-! ### A larger pool -/

theorem Stage.connections_of_waits {stage : Stage} (waits : stage.Waits) : stage.connections ≤ 1 := by
  have le : ∀ b : Bool, b.toNat ≤ 1 := by decide
  cases stage with
  | idle => exact waits.elim
  | authenticating q p first => exact le first
  | closing first => exact le first
  | handling p first second =>
    cases p with
    | done r => exact waits.elim
    | call c next =>
      have none : second = false := by
        cases c with
        | sql f q => exact waits
        | _ => exact waits.elim
      subst none
      exact le first

theorem Stage.moves {free timeouts : Prop} {stage : Stage} (busy : stage ≠ .idle)
    (enough : stage.Waits → free ∨ timeouts) : ∃ stage', stage.Moves platform settings free timeouts stage' := by
  cases stage with
  | idle => exact (busy rfl).elim
  | closing first => exact ⟨_, .close⟩
  | authenticating q p first =>
    cases p with
    | done r =>
      cases r with
      | ok user => exact ⟨_, .admitted⟩
      | error e => exact ⟨_, .refuse⟩
    | call c next =>
      by_cases waits : Needs first c
      · rcases enough waits with free | impatient
        · exact ⟨_, .authenticate (.error .poolTimeoutError) fun _ => free⟩
        · exact ⟨_, .lookupTimesOut impatient waits⟩
      · exact ⟨_, .authenticate (.error .poolTimeoutError) fun needs => (waits needs).elim⟩
  | handling p first second =>
    cases p with
    | done r => exact ⟨_, .respond⟩
    | call c next =>
      by_cases waits : Needs second c
      · rcases enough waits with free | impatient
        · exact ⟨_, .handle (.error .poolTimeoutError) fun _ => free⟩
        · exact ⟨_, .statementTimesOut impatient waits⟩
      · exact ⟨_, .handle (.error .poolTimeoutError) fun needs => (waits needs).elim⟩

theorem Stage.stuck_of_waits {stage stage' : Stage} (waits : stage.Waits) :
    ¬stage.Moves platform settings False False stage' := by
  intro moved
  cases moved with
  | authenticate answer enough => exact enough waits
  | lookupTimesOut impatient => exact impatient
  | handle answer enough => exact enough waits
  | statementTimesOut impatient => exact impatient
  | admitted => exact waits
  | refuse => exact waits
  | respond => exact waits
  | close => exact waits

namespace Requests
variable {n C : Nat} {s s' : Requests n}

theorem held_le_of_waits (waits : ∀ i, 0 < (s i).connections → (s i).Waits) : s.held ≤ n := by
  have each : ∀ i ∈ Finset.univ, (s i).connections ≤ 1 := by
    intro i _
    rcases Nat.eq_zero_or_pos (s i).connections with none | some
    · omega
    · exact Stage.connections_of_waits (waits i some)
  calc s.held ≤ ∑ _i : Fin n, 1 := Finset.sum_le_sum each
    _ = n := by simp

theorem progress (larger : n < C) {i : Fin n} (busy : s i ≠ .idle) :
    ∃ j s', s.Step platform settings C False j s' := by
  by_cases waits : ∀ j, 0 < (s j).connections → (s j).Waits
  · have free : s.held < C := lt_of_le_of_lt (held_le_of_waits waits) larger
    obtain ⟨stage, moved⟩ : ∃ stage, (s i).Moves platform settings (s.held < C) False stage :=
      Stage.moves busy fun _ => Or.inl free
    exact ⟨i, _, stage, moved, rfl⟩
  · push Not at waits
    obtain ⟨j, holds, goes⟩ := waits
    have busy : s j ≠ .idle := by
      intro idle
      rw [idle] at holds
      exact absurd holds (by decide)
    obtain ⟨stage, moved⟩ : ∃ stage, (s j).Moves platform settings (s.held < C) False stage :=
      Stage.moves busy fun waits => (goes waits).elim
    exact ⟨j, _, stage, moved, rfl⟩

/-! ### A pool that is too small -/

theorem held_update (i : Fin n) (stage : Stage) :
    (held (Function.update s i stage)) + (s i).connections = s.held + stage.connections := by
  have rest : ∀ t : Requests n, t.held = (t i).connections + ∑ j ∈ Finset.univ.erase i, (t j).connections :=
    fun t => (Finset.add_sum_erase _ _ (Finset.mem_univ i)).symm
  have others : ∑ j ∈ Finset.univ.erase i, (Function.update s i stage j).connections =
      ∑ j ∈ Finset.univ.erase i, (s j).connections := by
    refine Finset.sum_congr rfl fun j member => ?_
    rw [Function.update_of_ne (Finset.ne_of_mem_erase member)]
  rw [rest (Function.update s i stage), others, rest s, Function.update_self]
  omega

def sampleDeposit : MoneyRequest := .createDeposit "deposit-1" [] 1000

def sampleUser : User := { id := 0, email := "", passwordHash := "", status := .active, createdAt := 0 }

/-- The first `k` requests have read their user and go on with `p`. -/
def admitted (p : Prog Reply) (n k : Nat) : Requests n := fun i => if i.val < k then .handling p true false else .idle

theorem sampleDeposit_reserves : ∃ next : Except Error Time → Prog Reply,
    (sampleDeposit.request sampleUser).code platform settings = .call .datetimeNow next ∧
    ∃ q next', next (.ok 0) = .call (.sql .idempotencyKeys q) next' := ⟨_, rfl, _, _, rfl⟩

theorem sampleUser_found : ∃ next : Except Error (Option User) → Prog User,
    getCurrentUser (.ok 0) = .call (.sql .users (.getById 0)) next ∧
    next (.ok (some sampleUser)) = .done (.ok sampleUser) := ⟨_, rfl, rfl⟩

theorem admitted_succ (p : Prog Reply) {k : Nat} (room : k < n) :
    admitted p n (k + 1) = Function.update (admitted p n k) ⟨k, room⟩ (.handling p true false) := by
  funext i
  by_cases here : i = ⟨k, room⟩
  · subst here
    simp [admitted]
  · have ne : i.val ≠ k := fun same => here (Fin.ext same)
    have iff : i.val < k + 1 ↔ i.val < k := by omega
    simp [admitted, Function.update_of_ne here, iff]

theorem held_admitted (p : Prog Reply) {k : Nat} (le : k ≤ n) : (admitted p n k).held = k := by
  induction k with
  | zero => simp [held, admitted, Stage.connections]
  | succ k ih =>
    have before := ih (by omega)
    have balance := held_update (s := admitted p n k) ⟨k, le⟩ (.handling p true false)
    have idle : admitted p n k ⟨k, le⟩ = .idle := by simp [admitted]
    rw [idle, before] at balance
    rw [admitted_succ p le]
    simpa [Stage.connections] using balance

theorem reach_admitted {next : Except Error Time → Prog Reply}
    (code : (sampleDeposit.request sampleUser).code platform settings = .call .datetimeNow next) {k : Nat} (le : k ≤ n)
    (fits : k ≤ C) : (admitted (next (.ok 0)) n k).Reach platform settings C False := by
  induction k with
  | zero =>
    have start : admitted (next (.ok 0)) n 0 = fun _ => .idle := by
      funext i
      simp [admitted]
    rw [start]
  | succ k ih =>
    have before := ih (by omega) (by omega)
    obtain ⟨lookup, user, found⟩ := sampleUser_found
    have idle : admitted (next (.ok 0)) n k ⟨k, le⟩ = .idle := by simp [admitted]
    have comes : Reach platform settings C False (Function.update (admitted (next (.ok 0)) n k) ⟨k, le⟩
        (.authenticating sampleDeposit (.call (.sql .users (.getById 0)) lookup) false)) :=
      before.tail (Or.inr ⟨_, _, .ok 0, idle, by rw [user]⟩)
    -- one step of the new request, whatever it has been through
    have goes : ∀ {s : Requests n} {before after : Stage},
        Reach platform settings C False (Function.update s ⟨k, le⟩ before) →
        before.Moves platform settings (held (Function.update s ⟨k, le⟩ before) < C) False after →
        Reach platform settings C False (Function.update s ⟨k, le⟩ after) := by
      intro s before after reached moved
      refine reached.tail (Or.inl ⟨⟨k, le⟩, after, ?_, ?_⟩)
      · rwa [Function.update_self]
      · rw [Function.update_idem]
    have free : held (Function.update (admitted (next (.ok 0)) n k) ⟨k, le⟩
        (.authenticating sampleDeposit (.call (.sql .users (.getById 0)) lookup) false)) < C := by
      have balance := held_update (s := admitted (next (.ok 0)) n k) ⟨k, le⟩
        (.authenticating sampleDeposit (.call (.sql .users (.getById 0)) lookup) false)
      rw [idle, held_admitted _ (by omega)] at balance
      simp only [Stage.connections, Bool.toNat_false] at balance
      omega
    have looked := goes comes (.authenticate (.ok (some sampleUser)) fun _ => free)
    rw [found] at looked
    have handled := goes looked .admitted
    rw [code] at handled
    have timed := goes handled (.handle (.ok 0) fun needs => needs.elim)
    rw [admitted_succ _ le]
    exact timed

/-- As many requests as there are connections can all come to wait for a second one. -/
theorem deadlock (room : 0 < C) (le : C ≤ n) : ∃ s : Requests n, s.Reach platform settings C False ∧ s.HoldAndWait C ∧
    (∃ i, s i ≠ .idle) ∧ ∀ i s', ¬s.Step platform settings C False i s' := by
  obtain ⟨next, code, q, next', reserve⟩ := @sampleDeposit_reserves platform settings
  have full : (admitted (next (.ok 0)) n C).held = C := held_admitted _ le
  have waits : ∀ i, admitted (next (.ok 0)) n C i ≠ .idle → (admitted (next (.ok 0)) n C i).Waits := by
    intro i busy
    by_cases early : i.val < C
    · rw [admitted, if_pos early, reserve]
      rfl
    · exact (busy (if_neg early)).elim
  refine ⟨admitted (next (.ok 0)) n C, reach_admitted code le (Nat.le_refl C), ⟨full, fun i holds => ?_⟩, ?_, ?_⟩
  · refine waits i fun idle => ?_
    rw [idle] at holds
    exact absurd holds (by decide)
  · exact ⟨⟨0, by omega⟩, by simp [admitted, room]⟩
  · rintro i s' ⟨stage, moved, -⟩
    rw [full, lt_self_iff_false] at moved
    refine Stage.stuck_of_waits (waits i fun idle => ?_) moved
    rw [idle] at moved
    cases moved

end Requests

open Requests

/-- Giving up after `pool_timeout` keeps every request going. Without it some request can go on
in every reachable state exactly if there are fewer concurrent requests than connections. -/
theorem pool_progress {C n : Nat} (room : 0 < C) :
    (∀ s : Requests n, s.Reach platform settings C True → ∀ i, s i ≠ .idle →
      ∃ s', s.Step platform settings C True i s') ∧
    ((∀ s : Requests n, s.Reach platform settings C False → (∃ i, s i ≠ .idle) →
      ∃ i s', s.Step platform settings C False i s') ↔ n < C) ∧
    ((∃ s : Requests n, s.Reach platform settings C False ∧ s.HoldAndWait C) ↔ C ≤ n) := by
  refine ⟨?_, ⟨?_, ?_⟩, ⟨?_, ?_⟩⟩
  · intro s _ i busy
    obtain ⟨stage, moved⟩ : ∃ stage, (s i).Moves platform settings (s.held < C) True stage :=
      Stage.moves busy fun _ => Or.inr trivial
    exact ⟨_, stage, moved, rfl⟩
  · intro goes
    by_contra many
    obtain ⟨s, reached, -, busy, stuck⟩ := @deadlock platform settings n C room (Nat.not_lt.mp many)
    obtain ⟨i, s', step⟩ := goes s reached busy
    exact stuck i s' step
  · rintro larger s - ⟨i, busy⟩
    exact progress larger busy
  · rintro ⟨s, -, full, waits⟩
    have few := held_le_of_waits waits
    omega
  · intro many
    obtain ⟨s, reached, stuck, -⟩ := @deadlock platform settings n C room many
    exact ⟨s, reached, stuck⟩

theorem pool_progress_tenRequests :
    (∀ s : Requests 10, s.Reach samplePlatform sampleSettings 15 False → (∃ i, s i ≠ .idle) →
      ∃ i s', s.Step samplePlatform sampleSettings 15 False i s') ∧
    ¬∃ s : Requests 10, s.Reach samplePlatform sampleSettings 15 False ∧ s.HoldAndWait 15 := by
  obtain ⟨-, goes, waits⟩ := @pool_progress samplePlatform sampleSettings 15 10 (by decide)
  exact ⟨goes.mpr (by decide), mt waits.mp (by decide)⟩

/-- Fifteen requests on the default pool. -/
theorem default_pool_deadlocks : ¬∀ C n : Nat, 1 ≤ C → ∀ s : Requests n,
    s.Reach samplePlatform sampleSettings C False → (∃ i, s i ≠ .idle) →
    (∃ i s', s.Step samplePlatform sampleSettings C False i s') ∧ ¬s.HoldAndWait C := by
  intro claim
  obtain ⟨s, reached, -, busy, stuck⟩ :=
    @deadlock samplePlatform sampleSettings 15 15 (by decide) (by decide)
  obtain ⟨⟨i, s', step⟩, -⟩ := claim 15 15 (by decide) s reached busy
  exact stuck i s' step

end TheClub
