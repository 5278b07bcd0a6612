import TheClub.Text.Rendering

/-!
The limit on `/ws` connection attempts, per IP: one Redis counter for each IP and fixed window,
removed a rounded-up window after its first hit. The clock and the window are rational numbers of
seconds. A call reads the clock and increments at one instant; the first caller of a window sets the
TTL at any later time, or never.
-/

namespace TheClub.Ws

/-! ### Redis -/

structure Counter where
  count : Nat
  expiresAt : Option ℚ
  deriving DecidableEq

abbrev Redis := String → Option Counter

/-- A key is gone from the instant it expires on. -/
def Redis.get (redis : Redis) (now : ℚ) (key : String) : Option Counter :=
  (redis key).filter fun counter => counter.expiresAt.all fun expiresAt => now < expiresAt

/-- `INCR` of a missing key makes it 1, with no TTL. -/
def Redis.incr (redis : Redis) (now : ℚ) (key : String) : Redis × Nat :=
  let counter : Counter := match redis.get now key with
    | none => { count := 1, expiresAt := none }
    | some counter => { counter with count := counter.count + 1 }
  (Function.update redis key (some counter), counter.count)

/-- `EXPIRE` of a missing key does nothing; a TTL that is not positive deletes the key. -/
def Redis.expire (redis : Redis) (now : ℚ) (key : String) (ttl : Int) : Redis :=
  match redis.get now key with
  | none => redis
  | some counter =>
    Function.update redis key (if ttl ≤ 0 then none else some { counter with expiresAt := some (now + ttl) })

/-! ### The limiter -/

structure WsConnectRateLimiter where
  maxAttempts : Int
  windowSeconds : ℚ
  positive : 0 < windowSeconds

namespace WsConnectRateLimiter

def windowBucket (limiter : WsConnectRateLimiter) (now : ℚ) : Int := ⌊now / limiter.windowSeconds⌋

def redisKey (key : String) (windowBucket : Int) : String := s!"ws-connect-rl:{key}:{windowBucket}"

/-- `allow` up to its verdict, with the key whose TTL it is left to set. -/
def allow (limiter : WsConnectRateLimiter) (redis : Redis) (now : ℚ) (key : String) : Redis × Bool × Option String :=
  let redisKey := redisKey key (limiter.windowBucket now)
  let (redis, attempts) := redis.incr now redisKey
  (redis, decide (attempts ≤ limiter.maxAttempts), if attempts = 1 then some redisKey else none)

/-- The `EXPIRE` of a window's first request. -/
def setTtl (limiter : WsConnectRateLimiter) (redis : Redis) (now : ℚ) (redisKey : String) : Redis :=
  redis.expire now redisKey ⌈limiter.windowSeconds⌉

end WsConnectRateLimiter

structure Attempt where
  key : String
  time : ℚ
  allowed : Bool
  deriving DecidableEq

/-- `pending` are the keys whose `EXPIRE` is still to come, `log` the attempts so far. -/
structure Door where
  redis : Redis
  clock : ℚ
  pending : List String
  log : List Attempt

inductive Knock where
  | allow (key : String) (now : ℚ)
  | expire (redisKey : String) (now : ℚ)

namespace WsConnectRateLimiter

def step (limiter : WsConnectRateLimiter) (door : Door) : Knock → Option Door
  | .allow key now =>
    if now < door.clock then none
    else
      let (redis, allowed, first) := limiter.allow door.redis now key
      some {
        redis := redis,
        clock := now,
        pending := door.pending ++ first.toList,
        log := door.log ++ [⟨key, now, allowed⟩] }
  | .expire redisKey now =>
    if now < door.clock ∨ redisKey ∉ door.pending then none
    else some {
      redis := limiter.setTtl door.redis now redisKey,
      clock := now,
      pending := door.pending.erase redisKey,
      log := door.log }

/-- The states of any sequence of calls, from an empty Redis on. -/
inductive Run (limiter : WsConnectRateLimiter) : Door → Prop
  | start (clock : ℚ) : Run limiter ⟨fun _ => none, clock, [], []⟩
  | step {door door' : Door} (run : Run limiter door) (knock : Knock) (moved : limiter.step door knock = some door') :
      Run limiter door'

end WsConnectRateLimiter

/-! ### Keys and buckets -/

theorem redisKey_inj {key key' : String} {bucket bucket' : Int} :
    WsConnectRateLimiter.redisKey key bucket = WsConnectRateLimiter.redisKey key' bucket' ↔ key = key' ∧
      bucket = bucket' := by
  have chars : ∀ (key : String) (bucket : Int), (WsConnectRateLimiter.redisKey key bucket).toList =
      ("ws-connect-rl:".toList ++ key.toList) ++ ':' :: bucket.repr.toList := by
    intro key bucket
    show ("ws-connect-rl:" ++ key ++ ":" ++ bucket.repr).toList = _
    simp only [String.toList_append, List.append_assoc]
    rfl
  have free : ∀ bucket : Int, ':' ∉ bucket.repr.toList := fun bucket => Text.notMem_intRepr rfl (by decide)
  rw [← String.toList_inj, chars, chars, Text.append_cons_inj (free bucket) (free bucket'), List.append_right_inj,
    String.toList_inj, String.toList_inj, Text.intRepr_inj]

variable {limiter : WsConnectRateLimiter}

theorem windowBucket_eq_iff {now : ℚ} {k : Int} : limiter.windowBucket now = k ↔
    k * limiter.windowSeconds ≤ now ∧ now < (k + 1) * limiter.windowSeconds := by
  unfold WsConnectRateLimiter.windowBucket
  rw [Int.floor_eq_iff, le_div_iff₀ limiter.positive, div_lt_iff₀ limiter.positive]

/-- A closed interval as long as the window meets two buckets at most. -/
theorem windowBucket_within {start now : ℚ} (after : start ≤ now) (before : now ≤ start + limiter.windowSeconds) :
    limiter.windowBucket now = limiter.windowBucket start ∨
      limiter.windowBucket now = limiter.windowBucket start + 1 := by
  obtain ⟨low, high⟩ := windowBucket_eq_iff.mp (rfl : limiter.windowBucket start = _)
  rcases lt_or_ge now ((limiter.windowBucket start + 1) * limiter.windowSeconds) with same | next
  · exact Or.inl (windowBucket_eq_iff.mpr ⟨le_trans low after, same⟩)
  · refine Or.inr (windowBucket_eq_iff.mpr ?_)
    push_cast
    exact ⟨next, by linarith only [high, before]⟩

/-! ### The counter of a bucket -/

namespace WsConnectRateLimiter

/-- The attempts of one IP in one bucket, in order. -/
def inBucket (limiter : WsConnectRateLimiter) (log : List Attempt) (key : String) (k : Int) : List Attempt :=
  log.filter fun attempt => attempt.key = key ∧ limiter.windowBucket attempt.time = k

/-- Of the attempts of each IP in each bucket exactly the first `maxAttempts` are allowed. -/
def Fair (limiter : WsConnectRateLimiter) (log : List Attempt) : Prop :=
  ∀ (key : String) (k : Int) (i : Nat) (attempt : Attempt), (limiter.inBucket log key k)[i]? = some attempt →
    (attempt.allowed = true ↔ (i : Int) < limiter.maxAttempts)

/-- Until a bucket is over its key counts its attempts, and does not expire before the end of it. -/
structure Counts (limiter : WsConnectRateLimiter) (redis : Redis) (k : Int) (key : String) (n : Nat) : Prop where
  untouched : n = 0 → redis (redisKey key k) = none
  counter : 0 < n → ∃ counter, redis (redisKey key k) = some counter ∧ counter.count = n ∧
    ∀ expiresAt, counter.expiresAt = some expiresAt → (k + 1) * limiter.windowSeconds ≤ expiresAt

structure Sound (limiter : WsConnectRateLimiter) (door : Door) : Prop where
  past : ∀ attempt ∈ door.log, attempt.time ≤ door.clock
  fair : limiter.Fair door.log
  counts : ∀ (key : String) (k : Int), door.clock < (k + 1) * limiter.windowSeconds →
    limiter.Counts door.redis k key (limiter.inBucket door.log key k).length

end WsConnectRateLimiter

open WsConnectRateLimiter

theorem Redis.get_of_live {redis : Redis} {now : ℚ} {key : String} {counter : Counter}
    (found : redis key = some counter)
    (live : ∀ expiresAt, counter.expiresAt = some expiresAt → now < expiresAt) : redis.get now key = some counter := by
  unfold Redis.get
  rw [found, Option.filter_some, if_pos]
  cases expiry : counter.expiresAt with
  | none => rfl
  | some expiresAt => exact decide_eq_true (live expiresAt expiry)

theorem Redis.get_none {redis : Redis} {now : ℚ} {key : String} (missing : redis key = none) :
    redis.get now key = none := by
  unfold Redis.get
  rw [missing]
  rfl

theorem Redis.of_get {redis : Redis} {now : ℚ} {key : String} {counter : Counter}
    (found : redis.get now key = some counter) :
    redis key = some counter := (Option.filter_eq_some_iff.mp found).1

variable {redis : Redis} {now : ℚ} {key : String} {k : Int} {n : Nat} {log : List Attempt} {door door' : Door}

/-- Inside its bucket an `INCR` counts one more. -/
theorem WsConnectRateLimiter.Counts.incr (counts : limiter.Counts redis k key n)
    (inside : now < (k + 1) * limiter.windowSeconds) :
    (redis.incr now (redisKey key k)).2 = n + 1 ∧ limiter.Counts (redis.incr now (redisKey key k)).1 k key (n + 1) := by
  unfold Redis.incr
  rcases Nat.eq_zero_or_pos n with zero | more
  · rw [Redis.get_none (counts.untouched zero), zero]
    refine ⟨rfl, ?_, ?_⟩
    · intro none
      cases none
    · intro _
      refine ⟨_, Function.update_self .., rfl, ?_⟩
      intro expiresAt expiry
      cases expiry
  · obtain ⟨counter, found, count, late⟩ := counts.counter more
    have live : redis.get now (redisKey key k) = some counter :=
      Redis.get_of_live found fun expiresAt expiry => lt_of_lt_of_le inside (late expiresAt expiry)
    rw [live]
    refine ⟨congrArg (· + 1) count, ?_, ?_⟩
    · intro none
      cases none
    · intro _
      exact ⟨_, Function.update_self .., congrArg (· + 1) count, late⟩

theorem WsConnectRateLimiter.Counts.elsewhere (counts : limiter.Counts redis k key n) {other : String}
    {value : Option Counter}
    (apart : redisKey key k ≠ other) : limiter.Counts (Function.update redis other value) k key n := by
  constructor
  · intro none
    rw [Function.update_of_ne apart]
    exact counts.untouched none
  · intro more
    rw [Function.update_of_ne apart]
    exact counts.counter more

/-- An `EXPIRE` that comes once the bucket has begun takes effect after its end. -/
theorem WsConnectRateLimiter.Counts.setTtl (counts : limiter.Counts redis k key n) {other : String}
    (begun : 0 < n → k * limiter.windowSeconds ≤ now) : limiter.Counts (limiter.setTtl redis now other) k key n := by
  have ttl : limiter.windowSeconds ≤ ⌈limiter.windowSeconds⌉ := Int.le_ceil _
  have positive : ¬ ⌈limiter.windowSeconds⌉ ≤ 0 := Int.not_le.mpr (Int.ceil_pos.mpr limiter.positive)
  unfold WsConnectRateLimiter.setTtl Redis.expire
  cases found : redis.get now other with
  | none => exact counts
  | some counter =>
    dsimp only
    by_cases own : redisKey key k = other
    · subst own
      have present := Redis.of_get found
      rw [if_neg positive]
      constructor
      · intro none
        cases present.symm.trans (counts.untouched none)
      · intro more
        obtain ⟨counter', found', count, _⟩ := counts.counter more
        cases present.symm.trans found'
        refine ⟨_, Function.update_self .., count, ?_⟩
        intro expiresAt expiry
        cases expiry
        linarith only [begun more, ttl]
    · exact counts.elsewhere own

/-! ### Attempts of a bucket -/

theorem inBucket_append (log : List Attempt) (attempt : Attempt) (key : String) (k : Int) :
    limiter.inBucket (log ++ [attempt]) key k = limiter.inBucket log key k ++
      if attempt.key = key ∧ limiter.windowBucket attempt.time = k then [attempt] else [] := by
  unfold WsConnectRateLimiter.inBucket
  rw [List.filter_append, List.filter_singleton]
  congr 1
  by_cases own : attempt.key = key ∧ limiter.windowBucket attempt.time = k
  · rw [if_pos own, decide_eq_true own, cond_true]
  · rw [if_neg own, decide_eq_false own, cond_false]

theorem WsConnectRateLimiter.Fair.append (fair : limiter.Fair log) {attempt : Attempt}
    (verdict : attempt.allowed = true ↔
      ((limiter.inBucket log attempt.key (limiter.windowBucket attempt.time)).length : Int) < limiter.maxAttempts) :
    limiter.Fair (log ++ [attempt]) := by
  intro key k i found at_i
  rw [inBucket_append] at at_i
  split at at_i
  · rename_i own
    obtain ⟨rfl, rfl⟩ := own
    rcases Nat.lt_trichotomy i (limiter.inBucket log attempt.key (limiter.windowBucket attempt.time)).length with
      old | new | out
    · rw [List.getElem?_append_left old] at at_i
      exact fair _ _ i found at_i
    · rw [new, List.getElem?_append_right (Nat.le_refl _), Nat.sub_self] at at_i
      cases at_i
      rw [new]
      exact verdict
    · rw [List.getElem?_eq_none (by rw [List.length_append]; exact out)] at at_i
      cases at_i
  · rw [List.append_nil] at at_i
    exact fair key k i found at_i

theorem begun_of_nonempty (past : ∀ attempt ∈ log, attempt.time ≤ now)
    (more : 0 < (limiter.inBucket log key k).length) :
    k * limiter.windowSeconds ≤ now := by
  obtain ⟨attempt, member⟩ := List.exists_mem_of_length_pos more
  obtain ⟨listed, own⟩ := List.mem_filter.mp member
  obtain ⟨low, _⟩ := windowBucket_eq_iff.mp (of_decide_eq_true own).2
  exact le_trans low (past attempt listed)

/-! ### A run -/

theorem WsConnectRateLimiter.Sound.start (clock : ℚ) : limiter.Sound ⟨fun _ => none, clock, [], []⟩ where
  past := fun _ member => by cases member
  fair := fun _ _ _ _ found => by cases found
  counts := fun _ _ _ => ⟨fun _ => rfl, fun more => by cases more⟩

theorem WsConnectRateLimiter.Sound.step (sound : limiter.Sound door) {knock : Knock}
    (moved : limiter.step door knock = some door') : limiter.Sound door' := by
  cases knock with
  | allow key now =>
    simp only [WsConnectRateLimiter.step] at moved
    split at moved
    · cases moved
    · rename_i forward
      have later : door.clock ≤ now := not_lt.mp forward
      cases moved
      obtain ⟨_, inside⟩ := windowBucket_eq_iff.mp (rfl : limiter.windowBucket now = _)
      obtain ⟨attempts, counted⟩ := (sound.counts key _ (lt_of_le_of_lt later inside)).incr inside
      constructor
      · intro attempt member
        rcases List.mem_append.mp member with old | new
        · exact le_trans (sound.past attempt old) later
        · rw [List.mem_singleton.mp new]
      · apply sound.fair.append
        show decide (((door.redis.incr now _).2 : Int) ≤ limiter.maxAttempts) = true ↔ _
        rw [decide_eq_true_eq, attempts]
        push_cast
        exact Int.add_one_le_iff
      · intro key' k' inside'
        show limiter.Counts (door.redis.incr now _).1 k' key' _
        rw [inBucket_append]
        by_cases own : key = key' ∧ limiter.windowBucket now = k'
        · obtain ⟨rfl, rfl⟩ := own
          rw [if_pos ⟨rfl, rfl⟩, List.length_append]
          exact counted
        · rw [if_neg own, List.append_nil]
          refine (sound.counts key' k' (lt_of_le_of_lt later inside')).elsewhere ?_
          intro same
          obtain ⟨sameKey, sameBucket⟩ := redisKey_inj.mp same
          exact own ⟨sameKey.symm, sameBucket.symm⟩
  | expire redisKey now =>
    simp only [WsConnectRateLimiter.step] at moved
    split at moved
    · cases moved
    · rename_i forward
      have later : door.clock ≤ now := not_lt.mp fun early => forward (Or.inl early)
      cases moved
      have past : ∀ attempt ∈ door.log, attempt.time ≤ now :=
        fun attempt member => le_trans (sound.past attempt member) later
      refine ⟨past, sound.fair, fun key k inside => ?_⟩
      exact (sound.counts key k (lt_of_le_of_lt later inside)).setTtl (begun_of_nonempty past)

theorem WsConnectRateLimiter.Run.sound (run : limiter.Run door) : limiter.Sound door := by
  induction run with
  | start clock => exact .start clock
  | step _ knock moved ih => exact ih.step moved

/-! ### What the limiter guarantees -/

/-- Verdicts by rank: what is allowed stands among the first `max`. -/
theorem length_allowed {l : List Attempt} {max : Int}
    (ranked : ∀ (i : Nat) (attempt : Attempt), l[i]? = some attempt → (attempt.allowed = true ↔ (i : Int) < max)) :
    (l.filter Attempt.allowed).length ≤ max.toNat := by
  have rejected : (l.drop max.toNat).filter Attempt.allowed = [] := by
    refine List.filter_eq_nil_iff.mpr fun attempt member => ?_
    obtain ⟨j, found⟩ := List.mem_iff_getElem?.mp member
    rw [List.getElem?_drop] at found
    intro allowed
    have early := (ranked _ _ found).mp allowed
    omega
  rw [← List.take_append_drop max.toNat l, List.filter_append, rejected, List.append_nil]
  exact le_trans (List.length_filter_le ..) (List.length_take_le ..)

theorem length_filter_le_add {α : Type} {l : List α} {p q r : α → Bool}
    (cover : ∀ a, r a = true → p a = true ∨ q a = true) :
    (l.filter r).length ≤ (l.filter p).length + (l.filter q).length := by
  induction l with
  | nil => exact Nat.zero_le _
  | cons a l ih =>
    have left := ((List.sublist_cons_self a l).filter p).length_le
    have right := ((List.sublist_cons_self a l).filter q).length_le
    cases counted : r a with
    | false =>
      rw [List.filter_cons_of_neg (by rw [counted]; decide)]
      omega
    | true =>
      rw [List.filter_cons_of_pos counted, List.length_cons]
      rcases cover a counted with first | second
      · rw [List.filter_cons_of_pos first, List.length_cons]
        omega
      · rw [List.filter_cons_of_pos second, List.length_cons]
        omega

/-- The allowed attempts of one IP from `start` to a window later. -/
def WsConnectRateLimiter.allowedFrom (limiter : WsConnectRateLimiter) (log : List Attempt) (key : String) (start : ℚ) :
    List Attempt :=
  log.filter fun attempt =>
    attempt.key = key ∧ attempt.allowed ∧ start ≤ attempt.time ∧ attempt.time ≤ start + limiter.windowSeconds

theorem WsConnectRateLimiter.Fair.allowedFrom (fair : limiter.Fair log) (key : String) (start : ℚ) :
    (limiter.allowedFrom log key start).length ≤ 2 * limiter.maxAttempts.toNat := by
  have first := length_allowed (fair key (limiter.windowBucket start))
  have second := length_allowed (fair key (limiter.windowBucket start + 1))
  unfold WsConnectRateLimiter.inBucket at first second
  rw [List.filter_filter] at first second
  unfold WsConnectRateLimiter.allowedFrom
  rw [Nat.two_mul]
  refine le_trans (length_filter_le_add fun attempt inside => ?_) (Nat.add_le_add first second)
  obtain ⟨own, allowed, after, before⟩ := of_decide_eq_true inside
  rcases windowBucket_within after before with this | next
  · exact Or.inl (Bool.and_eq_true_iff.mpr ⟨allowed, decide_eq_true ⟨own, this⟩⟩)
  · exact Or.inr (Bool.and_eq_true_iff.mpr ⟨allowed, decide_eq_true ⟨own, next⟩⟩)

/-- The attempts of one IP, whatever others came between them. -/
def ofKey (log : List Attempt) (key : String) : List Attempt := log.filter fun attempt => attempt.key = key

theorem WsConnectRateLimiter.Fair.ofKey (fair : limiter.Fair log) (key : String) : limiter.Fair (ofKey log key) := by
  intro key' k i attempt found
  unfold WsConnectRateLimiter.inBucket TheClub.Ws.ofKey at found
  rw [List.filter_filter] at found
  obtain ⟨member, inside⟩ := List.mem_filter.mp (List.mem_of_getElem? found)
  obtain ⟨own, other⟩ := Bool.and_eq_true_iff.mp inside
  have same : key' = key := (of_decide_eq_true own).1.symm.trans (of_decide_eq_true other)
  subst same
  refine fair key' k i attempt ?_
  unfold WsConnectRateLimiter.inBucket
  rw [← found]
  congr 2
  funext attempt
  by_cases mine : attempt.key = key'
  · simp only [mine, true_and, decide_true, Bool.and_true]
  · simp only [mine, false_and, decide_false, Bool.and_false]

theorem WsConnectRateLimiter.Fair.init {attempt : Attempt} (fair : limiter.Fair (log ++ [attempt])) :
    limiter.Fair log := by
  intro key k i found at_i
  refine fair key k i found ?_
  obtain ⟨inside, _⟩ := List.getElem?_eq_some_iff.mp at_i
  rw [inBucket_append, List.getElem?_append_left inside]
  exact at_i

theorem WsConnectRateLimiter.Fair.last {attempt : Attempt} (fair : limiter.Fair (log ++ [attempt])) :
    attempt.allowed = true ↔
    ((limiter.inBucket log attempt.key (limiter.windowBucket attempt.time)).length : Int) < limiter.maxAttempts := by
  refine fair attempt.key (limiter.windowBucket attempt.time) _ attempt ?_
  rw [inBucket_append, if_pos ⟨rfl, rfl⟩, List.getElem?_append_right (Nat.le_refl _), Nat.sub_self]
  rfl

/-- The verdicts follow from whose attempts there were and when. -/
theorem WsConnectRateLimiter.Fair.determined {log log' : List Attempt} (fair : limiter.Fair log)
    (fair' : limiter.Fair log')
    (same : log.map (fun a => (a.key, a.time)) = log'.map fun a => (a.key, a.time)) : log = log' := by
  induction log using List.reverseRecOn generalizing log' with
  | nil => exact (List.map_eq_nil_iff.mp same.symm).symm
  | append_singleton log attempt ih =>
    rcases List.eq_nil_or_concat log' with rfl | ⟨log', attempt', rfl⟩
    · rw [List.map_append] at same
      cases List.append_ne_nil_of_right_ne_nil _ (by simp) same
    · rw [List.concat_eq_append] at same fair' ⊢
      rw [List.map_append, List.map_append] at same
      obtain ⟨before, last⟩ := List.append_inj' same rfl
      obtain rfl := ih fair.init fair'.init before
      have call : (attempt.key, attempt.time) = (attempt'.key, attempt'.time) := List.head_eq_of_cons_eq last
      obtain ⟨key, time⟩ := Prod.mk.inj call
      have verdict := fair.last
      rw [key, time, ← fair'.last] at verdict
      obtain ⟨attemptKey, attemptTime, allowed⟩ := attempt
      obtain ⟨attemptKey', attemptTime', allowed'⟩ := attempt'
      obtain rfl : attemptKey = attemptKey' := key
      obtain rfl : attemptTime = attemptTime' := time
      obtain rfl : allowed = allowed' := Bool.eq_iff_iff.mpr verdict
      rfl

/-- What holds of the attempts of every sequence of calls. -/
structure WsConnectRateLimiter.Limits (limiter : WsConnectRateLimiter) (log : List Attempt) : Prop where
  bucket : ∀ (key : String) (k : Int) (i : Nat) (attempt : Attempt),
    (log.filter fun a => a.key = key ∧ k * limiter.windowSeconds ≤ a.time ∧
      a.time < (k + 1) * limiter.windowSeconds)[i]? =
      some attempt → (attempt.allowed = true ↔ (i : Int) < limiter.maxAttempts)
  window : ∀ (key : String) (start : ℚ), (limiter.allowedFrom log key start).length ≤ 2 * limiter.maxAttempts.toNat
  others : ∀ (door' : Door), limiter.Run door' → ∀ key : String,
    (ofKey log key).map Attempt.time = (ofKey door'.log key).map Attempt.time → ofKey log key = ofKey door'.log key

theorem map_ofKey (log : List Attempt) (key : String) :
    (ofKey log key).map (fun a => (a.key, a.time)) = ((ofKey log key).map Attempt.time).map fun time =>
    (key, time) := by
  rw [List.map_map]
  apply List.map_congr_left
  intro attempt member
  rw [of_decide_eq_true (List.mem_filter.mp member).2]
  rfl

theorem connect_limits (run : limiter.Run door) : limiter.Limits door.log where
  bucket := by
    intro key k i attempt found
    refine run.sound.fair key k i attempt ?_
    unfold WsConnectRateLimiter.inBucket
    simp only [windowBucket_eq_iff]
    exact found
  window := run.sound.fair.allowedFrom
  others := by
    intro door' run' key times
    refine (run.sound.fair.ofKey key).determined (run'.sound.fair.ofKey key) ?_
    rw [map_ofKey, map_ofKey, times]

/-- The calls in turn; `none` if one of them cannot come. -/
def WsConnectRateLimiter.replay (limiter : WsConnectRateLimiter) : List Knock → Door → Option Door
  | [], door => some door
  | knock :: knocks, door => match limiter.step door knock with
    | some door' => limiter.replay knocks door'
    | none => none

theorem WsConnectRateLimiter.Run.replay (run : limiter.Run door) {knocks : List Knock} {reached : Door}
    (moved : limiter.replay knocks door = some reached) : limiter.Run reached := by
  induction knocks generalizing door with
  | nil =>
    cases moved
    exact run
  | cons knock knocks ih =>
    simp only [WsConnectRateLimiter.replay] at moved
    split at moved
    · rename_i door' stepped
      exact ih (run.step knock stepped) moved
    · cases moved

/-- One attempt a minute. -/
def sampleLimiter : WsConnectRateLimiter where
  maxAttempts := 1
  windowSeconds := 60
  positive := by norm_num

/-- The TTL of the first counter is set a second late, and two addresses knock. -/
def sampleKnocks : List Knock :=
  [.allow "203.0.113.7" 5, .expire "ws-connect-rl:203.0.113.7:0" 6, .allow "203.0.113.7" 30,
    .allow "198.51.100.2" (61 / 2), .allow "203.0.113.7" 61]

theorem connect_limits_sampleKnocks : ∃ door,
    sampleLimiter.replay sampleKnocks ⟨fun _ => none, 0, [], []⟩ = some door ∧
    door.log = [⟨"203.0.113.7", 5, true⟩, ⟨"203.0.113.7", 30, false⟩, ⟨"198.51.100.2", 61 / 2, true⟩,
      ⟨"203.0.113.7", 61, true⟩] ∧ sampleLimiter.Limits door.log := by
  have shown : ((sampleLimiter.replay sampleKnocks ⟨fun _ => none, 0, [], []⟩).any fun door =>
      door.log = [⟨"203.0.113.7", 5, true⟩, ⟨"203.0.113.7", 30, false⟩, ⟨"198.51.100.2", 61 / 2, true⟩,
        ⟨"203.0.113.7", 61, true⟩]) = true := by decide +kernel
  obtain ⟨door, replayed, log⟩ := (Option.any_eq_true _ _).mp shown
  exact ⟨door, replayed, of_decide_eq_true log, connect_limits (.replay (.start 0) replayed)⟩

end TheClub.Ws
