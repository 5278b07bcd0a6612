import TheClub.Infra.Platform
import TheClub.Queues.DropOldest

/-!
In-memory pub/sub for per-user WebSocket notifications. One queue a subscription; a publication goes
to every queue of its user and pushes the oldest message out of a full one. Subscribing, publishing,
taking a message and unsubscribing are steps without an await inside, interleaved in any order.
-/

namespace TheClub.Ws

/-- How many undelivered messages are kept per connection before the oldest gets dropped. -/
def QUEUE_MAXSIZE : Nat := 32

abbrev Message := Dict

/-- The identity of one `asyncio.Queue`. -/
abbrev QueueId := Nat

inductive QueueError where
  | queueEmpty
  | queueFull
  deriving DecidableEq, Repr

/-! ### `asyncio.Queue(maxsize=QUEUE_MAXSIZE)` -/

abbrev Queue := List Message

def Queue.full (queue : Queue) : Bool := QUEUE_MAXSIZE ≤ queue.length

def Queue.getNowait (queue : Queue) : Except QueueError (Message × Queue) :=
  match queue with
  | [] => .error .queueEmpty
  | message :: rest => .ok (message, rest)

def Queue.putNowait (queue : Queue) (message : Message) : Except QueueError Queue :=
  if queue.full then .error .queueFull else .ok (queue ++ [message])

/-! ### The broadcaster -/

/-- `subscribers` is the table; `queues` is what the queue objects hold. -/
structure InMemoryBroadcaster where
  subscribers : Id → Option (List QueueId)
  queues : QueueId → Queue

def InMemoryBroadcaster.init : InMemoryBroadcaster where
  subscribers := fun _ => none
  queues := fun _ => []

namespace InMemoryBroadcaster

/-- The body of the loop in `publish`. -/
def offer (broadcaster : InMemoryBroadcaster) (message : Message) (queue : QueueId) :
    Except QueueError InMemoryBroadcaster := do
  let entries := broadcaster.queues queue
  let kept := if Queue.full entries then
      match Queue.getNowait entries with
      | .ok (_, rest) => rest
      | .error _ => entries
    else entries
  let filled ← Queue.putNowait kept message
  return { broadcaster with queues := Function.update broadcaster.queues queue filled }

def publish (broadcaster : InMemoryBroadcaster) (userId : Id) (message : Message) :
    Except QueueError InMemoryBroadcaster :=
  ((broadcaster.subscribers userId).getD []).foldlM
    (fun broadcaster queue => broadcaster.offer message queue) broadcaster

/-- `subscribe` up to its `yield`, with `queue` as the new queue. -/
def subscribe (broadcaster : InMemoryBroadcaster) (userId : Id) (queue : QueueId) : InMemoryBroadcaster where
  subscribers := Function.update broadcaster.subscribers userId
    (some (List.insert queue ((broadcaster.subscribers userId).getD [])))
  queues := Function.update broadcaster.queues queue []

/-- The `finally` of `subscribe`. -/
def unsubscribe (broadcaster : InMemoryBroadcaster) (userId : Id) (queue : QueueId) : InMemoryBroadcaster :=
  match broadcaster.subscribers userId with
  | none => broadcaster
  | some subscribers =>
    let left := subscribers.erase queue
    { broadcaster with
      subscribers := Function.update broadcaster.subscribers userId (if left = [] then none else some left) }

end InMemoryBroadcaster

/-! ### Subscriptions in progress -/

/-- One `async with subscribe(user_id)`, what was published to the user while it was open and what
its reader took. -/
structure Subscription where
  userId : Id
  isOpen : Bool
  published : List Message
  taken : List Message

structure Traffic where
  broadcaster : InMemoryBroadcaster
  subscription : QueueId → Option Subscription

def Traffic.initial : Traffic := ⟨.init, fun _ => none⟩

inductive Action where
  | subscribe (userId : Id) (queue : QueueId)
  | publish (userId : Id) (message : Message)
  | get (queue : QueueId)
  | unsubscribe (queue : QueueId)

/-- What a publication adds to a subscription. -/
def Subscription.hear (userId : Id) (message : Message) (subscription : Subscription) : Subscription :=
  if subscription.userId = userId ∧ subscription.isOpen then
    { subscription with published := subscription.published ++ [message] } else subscription

namespace Traffic

def subscribed (traffic : Traffic) (userId : Id) (queue : QueueId) : Traffic where
  broadcaster := traffic.broadcaster.subscribe userId queue
  subscription := Function.update traffic.subscription queue (some ⟨userId, true, [], []⟩)

def heard (traffic : Traffic) (broadcaster : InMemoryBroadcaster) (userId : Id) (message : Message) : Traffic where
  broadcaster := broadcaster
  subscription := fun queue => (traffic.subscription queue).map (Subscription.hear userId message)

def took (traffic : Traffic) (queue : QueueId) (subscription : Subscription) (message : Message)
    (rest : Queue) : Traffic where
  broadcaster := { traffic.broadcaster with queues := Function.update traffic.broadcaster.queues queue rest }
  subscription := Function.update traffic.subscription queue
    (some { subscription with taken := subscription.taken ++ [message] })

def unsubscribed (traffic : Traffic) (queue : QueueId) (subscription : Subscription) : Traffic where
  broadcaster := traffic.broadcaster.unsubscribe subscription.userId queue
  subscription := Function.update traffic.subscription queue (some { subscription with isOpen := false })

/-- A `get` on an empty queue waits; a queue object is created once and its subscription left once. -/
def step (traffic : Traffic) : Action → Option Traffic
  | .subscribe userId queue =>
    match traffic.subscription queue with
    | some _ => none
    | none => some (traffic.subscribed userId queue)
  | .publish userId message =>
    match traffic.broadcaster.publish userId message with
    | .error _ => none
    | .ok broadcaster => some (traffic.heard broadcaster userId message)
  | .get queue =>
    match traffic.subscription queue with
    | none => none
    | some subscription =>
      match Queue.getNowait (traffic.broadcaster.queues queue) with
      | .error _ => none
      | .ok (message, rest) => some (traffic.took queue subscription message rest)
  | .unsubscribe queue =>
    match traffic.subscription queue with
    | none => none
    | some subscription => if subscription.isOpen then some (traffic.unsubscribed queue subscription) else none

end Traffic

/-- `Traffic.Run past traffic`: a run passed through the states `past` and is at `traffic`. -/
inductive Traffic.Run : List Traffic → Traffic → Prop
  | start : Run [] Traffic.initial
  | step {past : List Traffic} {traffic traffic' : Traffic} (run : Run past traffic) (action : Action)
      (moved : traffic.step action = some traffic') : Run (past ++ [traffic]) traffic'

/-! ### Publishing -/

/-- What a publication makes of one queue. -/
def Queue.push (queue : Queue) (message : Message) : Queue :=
  (if QUEUE_MAXSIZE ≤ queue.length then queue.tail else queue) ++ [message]

theorem length_push {queue : Queue} {message : Message} (short : queue.length ≤ QUEUE_MAXSIZE) :
    (queue.push message).length ≤ QUEUE_MAXSIZE := by
  unfold Queue.push
  rw [List.length_append, List.length_singleton]
  unfold QUEUE_MAXSIZE at *
  split
  · rw [List.length_tail]
    omega
  · omega

namespace InMemoryBroadcaster
variable {broadcaster : InMemoryBroadcaster} {userId : Id} {message : Message} {queue : QueueId}

theorem offer_eq (short : (broadcaster.queues queue).length ≤ QUEUE_MAXSIZE) : broadcaster.offer message queue =
    .ok { broadcaster with
      queues := Function.update broadcaster.queues queue ((broadcaster.queues queue).push message) } := by
  unfold offer Queue.putNowait Queue.push Queue.full
  by_cases full : QUEUE_MAXSIZE ≤ (broadcaster.queues queue).length
  · obtain ⟨oldest, rest, split⟩ := List.exists_cons_of_length_pos (Nat.lt_of_lt_of_le (by decide) full)
    rw [split, List.length_cons] at short full
    have room : ¬ QUEUE_MAXSIZE ≤ rest.length := Nat.not_le_of_lt short
    simp only [split, Queue.getNowait, List.length_cons, List.tail_cons, decide_eq_true_eq, if_pos full, if_neg room]
    rfl
  · simp only [decide_eq_true_eq, if_neg full]
    rfl

theorem foldlM_offer {listed : List QueueId} (nodup : listed.Nodup)
    (short : ∀ queue, (broadcaster.queues queue).length ≤ QUEUE_MAXSIZE) :
    listed.foldlM (fun broadcaster queue => broadcaster.offer message queue) broadcaster =
      .ok { broadcaster with queues := fun queue =>
        if queue ∈ listed then (broadcaster.queues queue).push message else broadcaster.queues queue } := by
  induction listed generalizing broadcaster with
  | nil => rfl
  | cons first rest ih =>
    obtain ⟨fresh, nodup⟩ := List.nodup_cons.mp nodup
    rw [List.foldlM_cons, offer_eq (short first)]
    show List.foldlM _ _ rest = _
    rw [ih nodup]
    · congr 2
      funext queue
      by_cases same : queue = first
      · subst same
        rw [if_neg fresh, if_pos List.mem_cons_self]
        exact Function.update_self ..
      · simp only [List.mem_cons, same, false_or]
        rw [Function.update_of_ne same]
    · intro queue
      dsimp only
      by_cases same : queue = first
      · rw [same, Function.update_self]
        exact length_push (short first)
      · rw [Function.update_of_ne same]
        exact short queue

end InMemoryBroadcaster

/-! ### The table and the queues -/

def Subscription.status (subscription : Subscription) : Id × Bool := (subscription.userId, subscription.isOpen)

theorem status_hear (userId : Id) (message : Message) (subscription : Subscription) :
    (subscription.hear userId message).status = subscription.status := by
  unfold Subscription.hear
  split <;> rfl

def Traffic.status (traffic : Traffic) (queue : QueueId) : Option (Id × Bool) :=
  (traffic.subscription queue).map Subscription.status

/-- The table lists the open subscriptions of each user, once each, and no user without one. -/
structure Traffic.Tidy (traffic : Traffic) : Prop where
  nonempty : ∀ userId, traffic.broadcaster.subscribers userId ≠ some []
  nodup : ∀ userId, ((traffic.broadcaster.subscribers userId).getD []).Nodup
  listed : ∀ userId queue,
    queue ∈ (traffic.broadcaster.subscribers userId).getD [] ↔ traffic.status queue = some (userId, true)
  short : ∀ queue, (traffic.broadcaster.queues queue).length ≤ QUEUE_MAXSIZE

variable {traffic traffic' : Traffic} {past : List Traffic}

theorem Traffic.Tidy.publish (tidy : traffic.Tidy) (userId : Id) (message : Message) :
    traffic.broadcaster.publish userId message = .ok { traffic.broadcaster with
      queues := fun queue =>
        if traffic.status queue = some (userId, true) then (traffic.broadcaster.queues queue).push message
        else traffic.broadcaster.queues queue } := by
  unfold InMemoryBroadcaster.publish
  rw [InMemoryBroadcaster.foldlM_offer (tidy.nodup userId) tidy.short]
  simp only [tidy.listed]

theorem Traffic.Tidy.initial : Traffic.initial.Tidy where
  nonempty := fun _ same => by cases same
  nodup := fun _ => List.nodup_nil
  listed := fun userId queue => iff_of_false List.not_mem_nil fun same => by cases same
  short := fun _ => Nat.zero_le _

theorem Traffic.Tidy.subscribe (tidy : traffic.Tidy) (userId : Id) {queue : QueueId}
    (fresh : traffic.subscription queue = none) : (traffic.subscribed userId queue).Tidy where
  nonempty := by
    intro userId'
    dsimp only [Traffic.subscribed, InMemoryBroadcaster.subscribe]
    by_cases same : userId' = userId
    · rw [same, Function.update_self]
      intro empty
      exact List.not_mem_nil (Option.some.inj empty ▸ List.mem_insert_self)
    · rw [Function.update_of_ne same]
      exact tidy.nonempty userId'
  nodup := by
    intro userId'
    dsimp only [Traffic.subscribed, InMemoryBroadcaster.subscribe]
    by_cases same : userId' = userId
    · rw [same, Function.update_self]
      exact (tidy.nodup userId).insert
    · rw [Function.update_of_ne same]
      exact tidy.nodup userId'
  listed := by
    intro userId' queue'
    dsimp only [Traffic.subscribed, InMemoryBroadcaster.subscribe, Traffic.status]
    have absent : ∀ userId', queue ∉ (traffic.broadcaster.subscribers userId').getD [] := by
      intro userId' member
      have status := (tidy.listed userId' queue).mp member
      rw [Traffic.status, fresh] at status
      cases status
    by_cases own : queue' = queue
    · subst own
      rw [Function.update_self]
      by_cases same : userId' = userId
      · rw [same, Function.update_self]
        exact iff_of_true List.mem_insert_self rfl
      · rw [Function.update_of_ne same]
        exact iff_of_false (absent userId') fun status => same (Prod.ext_iff.mp (Option.some.inj status)).1.symm
    · rw [Function.update_of_ne own]
      show _ ↔ traffic.status queue' = _
      rw [← tidy.listed]
      by_cases same : userId' = userId
      · rw [same, Function.update_self]
        show queue' ∈ List.insert queue _ ↔ _
        rw [List.mem_insert_iff, or_iff_right own]
      · rw [Function.update_of_ne same]
  short := by
    intro queue'
    dsimp only [Traffic.subscribed, InMemoryBroadcaster.subscribe]
    by_cases own : queue' = queue
    · rw [own, Function.update_self]
      exact Nat.zero_le _
    · rw [Function.update_of_ne own]
      exact tidy.short queue'

theorem getD_left (left : List QueueId) :
    (if left = [] then none else some left : Option (List QueueId)).getD [] = left := by
  split
  · rename_i none
    exact none.symm
  · rfl

theorem Traffic.Tidy.unsubscribe (tidy : traffic.Tidy) {queue : QueueId} {subscription : Subscription}
    (found : traffic.subscription queue = some subscription) (isOpen : subscription.isOpen = true) :
    (traffic.unsubscribed queue subscription).Tidy := by
  have status : traffic.status queue = some (subscription.userId, true) := by
    rw [Traffic.status, found, Option.map_some, Subscription.status, isOpen]
  have member := (tidy.listed subscription.userId queue).mpr status
  obtain ⟨listed, entry⟩ : ∃ listed, traffic.broadcaster.subscribers subscription.userId = some listed := by
    cases entry : traffic.broadcaster.subscribers subscription.userId with
    | none =>
      rw [entry] at member
      cases member
    | some listed => exact ⟨listed, rfl⟩
  have nodup := tidy.nodup subscription.userId
  rw [entry, Option.getD_some] at member nodup
  have table : traffic.broadcaster.unsubscribe subscription.userId queue = { traffic.broadcaster with
      subscribers := Function.update traffic.broadcaster.subscribers subscription.userId
        (if listed.erase queue = [] then none else some (listed.erase queue)) } := by
    unfold InMemoryBroadcaster.unsubscribe
    rw [entry]
  unfold Traffic.unsubscribed
  rw [table]
  constructor
  · intro userId'
    dsimp only
    by_cases same : userId' = subscription.userId
    · rw [same, Function.update_self]
      split
      · exact fun empty => by cases empty
      · rename_i others
        exact fun empty => others (Option.some.inj empty)
    · rw [Function.update_of_ne same]
      exact tidy.nonempty userId'
  · intro userId'
    dsimp only
    by_cases same : userId' = subscription.userId
    · rw [same, Function.update_self, getD_left]
      exact nodup.erase queue
    · rw [Function.update_of_ne same]
      exact tidy.nodup userId'
  · intro userId' queue'
    dsimp only [Traffic.status]
    by_cases own : queue' = queue
    · subst own
      rw [Function.update_self]
      refine iff_of_false ?_ fun closed => by cases closed
      by_cases same : userId' = subscription.userId
      · rw [same, Function.update_self, getD_left]
        exact nodup.not_mem_erase
      · rw [Function.update_of_ne same, tidy.listed, status]
        exact fun other => same (Prod.ext_iff.mp (Option.some.inj other)).1.symm
    · rw [Function.update_of_ne own]
      show _ ↔ traffic.status queue' = _
      rw [← tidy.listed]
      by_cases same : userId' = subscription.userId
      · rw [same, Function.update_self, getD_left, entry, Option.getD_some, List.mem_erase_of_ne own]
      · rw [Function.update_of_ne same]
  · exact tidy.short

/-- A step that keeps the table and only moves messages keeps everything tidy. -/
theorem Traffic.Tidy.moves (tidy : traffic.Tidy)
    (table : traffic'.broadcaster.subscribers = traffic.broadcaster.subscribers)
    (status : traffic'.status = traffic.status)
    (short : ∀ queue, (traffic'.broadcaster.queues queue).length ≤ QUEUE_MAXSIZE) : traffic'.Tidy where
  nonempty := table ▸ tidy.nonempty
  nodup := table ▸ tidy.nodup
  listed := by
    rw [table, status]
    exact tidy.listed
  short := short

/-- What a publication leaves of the broadcaster. -/
def Traffic.told (traffic : Traffic) (userId : Id) (message : Message) : InMemoryBroadcaster :=
  { traffic.broadcaster with
  queues := fun queue =>
    if traffic.status queue = some (userId, true) then (traffic.broadcaster.queues queue).push message
    else traffic.broadcaster.queues queue }

/-- A step is one of four. -/
theorem Traffic.Tidy.step_cases (tidy : traffic.Tidy) {action : Action} (moved : traffic.step action = some traffic') :
    (∃ userId queue, traffic.subscription queue = none ∧ traffic' = traffic.subscribed userId queue) ∨
    (∃ userId message, traffic' = traffic.heard (traffic.told userId message) userId message) ∨
    (∃ queue subscription message rest, traffic.subscription queue = some subscription ∧
      traffic.broadcaster.queues queue = message :: rest ∧ traffic' = traffic.took queue subscription message rest) ∨
    ∃ queue subscription, traffic.subscription queue = some subscription ∧ subscription.isOpen = true ∧
      traffic' = traffic.unsubscribed queue subscription := by
  cases action with
  | subscribe userId queue =>
    simp only [Traffic.step] at moved
    split at moved
    · cases moved
    · rename_i fresh
      cases moved
      exact Or.inl ⟨userId, queue, fresh, rfl⟩
  | publish userId message =>
    simp only [Traffic.step, tidy.publish] at moved
    cases moved
    exact Or.inr (Or.inl ⟨userId, message, rfl⟩)
  | get queue =>
    simp only [Traffic.step] at moved
    split at moved
    · cases moved
    · rename_i subscription found
      cases front : traffic.broadcaster.queues queue with
      | nil =>
        rw [front] at moved
        cases moved
      | cons message rest =>
        rw [front] at moved
        cases moved
        exact Or.inr (Or.inr (Or.inl ⟨queue, subscription, message, rest, found, front, rfl⟩))
  | unsubscribe queue =>
    simp only [Traffic.step] at moved
    split at moved
    · cases moved
    · rename_i subscription found
      split at moved
      · rename_i isOpen
        cases moved
        exact Or.inr (Or.inr (Or.inr ⟨queue, subscription, found, isOpen, rfl⟩))
      · cases moved

theorem status_heard (traffic : Traffic) (broadcaster : InMemoryBroadcaster) (userId : Id) (message : Message) :
    (traffic.heard broadcaster userId message).status = traffic.status := by
  funext queue
  unfold Traffic.status Traffic.heard
  rw [Option.map_map]
  congr 1
  funext subscription
  exact status_hear userId message subscription

theorem status_took {queue : QueueId} {subscription : Subscription}
    (found : traffic.subscription queue = some subscription)
    (message : Message) (rest : Queue) : (traffic.took queue subscription message rest).status = traffic.status := by
  funext queue'
  dsimp only [Traffic.status, Traffic.took]
  by_cases own : queue' = queue
  · rw [own, Function.update_self, found]
    rfl
  · rw [Function.update_of_ne own]

/-- Publications and reads open and close nothing. -/
theorem Traffic.Tidy.status_publish (tidy : traffic.Tidy) {userId : Id} {message : Message}
    (moved : traffic.step (.publish userId message) = some traffic') : traffic'.status = traffic.status := by
  simp only [Traffic.step, tidy.publish] at moved
  cases moved
  exact status_heard ..

theorem status_get {queue : QueueId} (moved : traffic.step (.get queue) = some traffic') :
    traffic'.status = traffic.status := by
  simp only [Traffic.step] at moved
  split at moved
  · cases moved
  · rename_i subscription found
    split at moved
    · cases moved
    · cases moved
      exact status_took found ..

theorem Traffic.Tidy.heard (tidy : traffic.Tidy) (userId : Id) (message : Message) :
    (traffic.heard (traffic.told userId message) userId message).Tidy := by
  refine tidy.moves rfl (status_heard ..) ?_
  · intro queue
    dsimp only [Traffic.heard, Traffic.told]
    split
    · exact length_push (tidy.short queue)
    · exact tidy.short queue

theorem Traffic.Tidy.took (tidy : traffic.Tidy) {queue : QueueId} {subscription : Subscription} {message : Message}
    {rest : Queue} (found : traffic.subscription queue = some subscription)
    (front : traffic.broadcaster.queues queue = message :: rest) :
    (traffic.took queue subscription message rest).Tidy := by
  refine tidy.moves rfl (status_took found message rest) ?_
  · intro queue'
    dsimp only [Traffic.took]
    by_cases own : queue' = queue
    · have short := tidy.short queue
      rw [front, List.length_cons] at short
      rw [own, Function.update_self]
      exact Nat.le_of_succ_le short
    · rw [Function.update_of_ne own]
      exact tidy.short queue'

theorem Traffic.Tidy.step (tidy : traffic.Tidy) {action : Action} (moved : traffic.step action = some traffic') :
    traffic'.Tidy := by
  obtain ⟨userId, queue, fresh, rfl⟩ | ⟨userId, message, rfl⟩ | ⟨queue, subscription, message, rest,
    found, front, rfl⟩ |
    ⟨queue, subscription, found, isOpen, rfl⟩ := tidy.step_cases moved
  · exact tidy.subscribe userId fresh
  · exact tidy.heard userId message
  · exact tidy.took found front
  · exact tidy.unsubscribe found isOpen

theorem Traffic.Run.tidy (run : Traffic.Run past traffic) : traffic.Tidy := by
  induction run with
  | start => exact .initial
  | step _ action moved ih => exact ih.step moved

/-! ### One subscription along a run -/

open DropOldest

def Subscription.line (subscription : Subscription) (queue : Queue) : Line Message :=
  ⟨subscription.published, subscription.taken, queue⟩

theorem Traffic.Tidy.subscription_none (tidy : traffic.Tidy) {action : Action}
    (moved : traffic.step action = some traffic')
    {queue : QueueId} (missing : traffic'.subscription queue = none) : traffic.subscription queue = none := by
  obtain ⟨userId, other, fresh, rfl⟩ | ⟨userId, message, rfl⟩ | ⟨other, subscription, message, rest,
    found, front, rfl⟩ |
    ⟨other, subscription, found, isOpen, rfl⟩ := tidy.step_cases moved
  · dsimp only [Traffic.subscribed] at missing
    by_cases own : queue = other
    · rw [own, Function.update_self] at missing
      cases missing
    · rwa [Function.update_of_ne own] at missing
  · exact Option.map_eq_none_iff.mp missing
  · dsimp only [Traffic.took] at missing
    by_cases own : queue = other
    · rw [own, Function.update_self] at missing
      cases missing
    · rwa [Function.update_of_ne own] at missing
  · dsimp only [Traffic.unsubscribed] at missing
    by_cases own : queue = other
    · rw [own, Function.update_self] at missing
      cases missing
    · rwa [Function.update_of_ne own] at missing

theorem unsubscribe_queues (broadcaster : InMemoryBroadcaster) (userId : Id) (queue : QueueId) :
    (broadcaster.unsubscribe userId queue).queues = broadcaster.queues := by
  unfold InMemoryBroadcaster.unsubscribe
  split <;> rfl

/-- A step begins the line of a subscription, leaves it as it is, or moves one message. -/
theorem Traffic.Tidy.line_step (tidy : traffic.Tidy) {action : Action} (moved : traffic.step action = some traffic')
    {queue : QueueId} {later : Subscription} (kept : traffic'.subscription queue = some later) :
    (traffic.subscription queue = none ∧ later.line (traffic'.broadcaster.queues queue) = ⟨[], [], []⟩) ∨
    ∃ earlier, traffic.subscription queue = some earlier ∧
      (later.line (traffic'.broadcaster.queues queue) = earlier.line (traffic.broadcaster.queues queue) ∨
        Line.Step QUEUE_MAXSIZE (earlier.line (traffic.broadcaster.queues queue))
          (later.line (traffic'.broadcaster.queues queue))) := by
  obtain ⟨userId, other, fresh, rfl⟩ | ⟨userId, message, rfl⟩ | ⟨other, subscription, message, rest,
    found, front, rfl⟩ |
    ⟨other, subscription, found, isOpen, rfl⟩ := tidy.step_cases moved
  · dsimp only [Traffic.subscribed, InMemoryBroadcaster.subscribe] at kept ⊢
    by_cases own : queue = other
    · subst own
      rw [Function.update_self] at kept
      cases kept
      rw [Function.update_self]
      exact Or.inl ⟨fresh, rfl⟩
    · rw [Function.update_of_ne own] at kept
      rw [Function.update_of_ne own]
      exact Or.inr ⟨later, kept, Or.inl rfl⟩
  · dsimp only [Traffic.heard, Traffic.told] at kept ⊢
    obtain ⟨earlier, found, rfl⟩ := Option.map_eq_some_iff.mp kept
    refine Or.inr ⟨earlier, found, ?_⟩
    by_cases hears : earlier.userId = userId ∧ earlier.isOpen = true
    · have status : traffic.status queue = some (userId, true) := by
        rw [Traffic.status, found, Option.map_some, Subscription.status, hears.1, hears.2]
      rw [if_pos status, Subscription.hear, if_pos hears]
      exact Or.inr (.put (earlier.line (traffic.broadcaster.queues queue)) message)
    · have status : traffic.status queue ≠ some (userId, true) := by
        rw [Traffic.status, found, Option.map_some]
        intro same
        exact hears (Prod.ext_iff.mp (Option.some.inj same))
      rw [if_neg status, Subscription.hear, if_neg hears]
      exact Or.inl rfl
  · dsimp only [Traffic.took] at kept ⊢
    by_cases own : queue = other
    · subst own
      rw [Function.update_self] at kept
      cases kept
      rw [Function.update_self]
      exact Or.inr ⟨subscription, found,
        Or.inr (.take (subscription.line (traffic.broadcaster.queues queue)) message rest front)⟩
    · rw [Function.update_of_ne own] at kept
      rw [Function.update_of_ne own]
      exact Or.inr ⟨later, kept, Or.inl rfl⟩
  · dsimp only [Traffic.unsubscribed] at kept ⊢
    rw [unsubscribe_queues]
    by_cases own : queue = other
    · subst own
      rw [Function.update_self] at kept
      cases kept
      exact Or.inr ⟨subscription, found, Or.inl rfl⟩
    · rw [Function.update_of_ne own] at kept
      exact Or.inr ⟨later, kept, Or.inl rfl⟩

theorem Traffic.Run.unsubscribed (run : Traffic.Run past traffic) {queue : QueueId}
    (missing : traffic.subscription queue = none) : ∀ t ∈ past ++ [traffic], t.subscription queue = none := by
  induction run with
  | start =>
    intro t member
    rw [List.mem_singleton.mp member]
    exact missing
  | step run action moved ih =>
    intro t member
    rcases List.mem_append.mp member with earlier | now
    · exact ih (run.tidy.subscription_none moved missing) t earlier
    · rw [List.mem_singleton.mp now]
      exact missing

/-- The states of a subscription along a run are a run of its line. -/
theorem Traffic.Run.visits (run : Traffic.Run past traffic) {queue : QueueId} {subscription : Subscription}
    (found : traffic.subscription queue = some subscription) :
    ∃ lines, Line.Visits QUEUE_MAXSIZE lines (subscription.line (traffic.broadcaster.queues queue)) ∧
      ∀ v, v ∈ lines ++ [subscription.line (traffic.broadcaster.queues queue)] ↔
        ∃ t ∈ past ++ [traffic], ∃ earlier, t.subscription queue = some earlier ∧
          v = earlier.line (t.broadcaster.queues queue) := by
  induction run generalizing subscription with
  | start => cases found
  | @step past traffic traffic' run action moved ih =>
    have here : ∀ v : Line Message, (v = subscription.line (traffic'.broadcaster.queues queue) ↔
        ∃ t ∈ [traffic'], ∃ earlier, t.subscription queue = some earlier ∧
            v = earlier.line (t.broadcaster.queues queue)) := by
      intro v
      constructor
      · intro same
        exact ⟨traffic', List.mem_singleton_self _, subscription, found, same⟩
      · rintro ⟨t, member, earlier, found', same⟩
        rw [List.mem_singleton.mp member] at found' same
        cases found.symm.trans found'
        exact same
    obtain ⟨fresh, start⟩ | ⟨earlier, found', change⟩ := run.tidy.line_step moved found
    · refine ⟨[], start ▸ .start, ?_⟩
      intro v
      rw [List.nil_append, List.mem_singleton, here v]
      constructor
      · rintro ⟨t, member, rest⟩
        exact ⟨t, List.mem_append_right _ member, rest⟩
      · rintro ⟨t, member, earlier, found', same⟩
        rcases List.mem_append.mp member with old | now
        · cases (run.unsubscribed fresh t old).symm.trans found'
        · exact ⟨t, now, earlier, found', same⟩
    · obtain ⟨lines, visits, same⟩ := ih found'
      refine ⟨lines ++ [earlier.line (traffic.broadcaster.queues queue)], ?_, ?_⟩
      · rcases change with still | moves
        · rw [still]
          exact visits.stay
        · exact visits.step moves
      · intro v
        rw [List.mem_append, same v, List.mem_singleton, here v]
        constructor
        · rintro (⟨t, member, rest⟩ | ⟨t, member, rest⟩)
          · exact ⟨t, List.mem_append_left _ member, rest⟩
          · exact ⟨t, List.mem_append_right _ member, rest⟩
        · rintro ⟨t, member, rest⟩
          rcases List.mem_append.mp member with old | now
          · exact Or.inl ⟨t, old, rest⟩
          · exact Or.inr ⟨t, now, rest⟩

/-! ### Delivery -/

/-- `kept` lists, in order and each once, the publications a subscription has taken or still queues. One
is missing exactly if 32 later ones were published, in some state of the run, before it was taken. -/
structure Traffic.Delivers (visited : List Traffic) (traffic : Traffic) (queue : QueueId) (subscription : Subscription)
    (kept : List Nat) : Prop where
  increasing : kept.Pairwise (· < ·)
  published : ∀ k ∈ kept, k < subscription.published.length
  delivered : (subscription.taken ++ traffic.broadcaster.queues queue).map some =
    kept.map (subscription.published[·]?)
  missing : ∀ k < subscription.published.length, k ∉ kept ↔
    ∃ t ∈ visited, ∃ earlier, t.subscription queue = some earlier ∧
    k + 32 < earlier.published.length ∧ k ∉ kept.take earlier.taken.length

/-- What holds of the broadcaster in every state of every run. -/
structure Traffic.Serves (visited : List Traffic) (traffic : Traffic) : Prop where
  delivers : ∀ queue subscription, traffic.subscription queue = some subscription →
    ∃ kept, traffic.Delivers visited queue subscription kept
  bounded : ∀ queue, (traffic.broadcaster.queues queue).length ≤ 32
  publishes : ∀ userId message, ∃ broadcaster, traffic.broadcaster.publish userId message = .ok broadcaster
  listed : ∀ userId, traffic.broadcaster.subscribers userId ≠ none ↔
    ∃ queue subscription, traffic.subscription queue = some subscription ∧ subscription.userId = userId ∧
      subscription.isOpen

theorem Traffic.Tidy.entry_iff (tidy : traffic.Tidy) (userId : Id) : traffic.broadcaster.subscribers userId ≠ none ↔
    ∃ queue subscription, traffic.subscription queue = some subscription ∧ subscription.userId = userId ∧
      subscription.isOpen := by
  have opened : ∀ queue, queue ∈ (traffic.broadcaster.subscribers userId).getD [] ↔
      ∃ subscription, traffic.subscription queue = some subscription ∧ subscription.userId = userId ∧
          subscription.isOpen := by
    intro queue
    rw [tidy.listed, Traffic.status, Option.map_eq_some_iff]
    simp only [Subscription.status, Prod.mk.injEq]
  simp only [← opened]
  cases entry : traffic.broadcaster.subscribers userId with
  | none =>
    refine iff_of_false (fun entry => entry rfl) ?_
    rintro ⟨queue, member⟩
    exact List.not_mem_nil member
  | some listed =>
    refine iff_of_true (fun none => by cases none) ?_
    apply List.exists_mem_of_ne_nil
    rintro rfl
    exact tidy.nonempty userId entry

theorem broadcaster_serves (run : Traffic.Run past traffic) : traffic.Serves (past ++ [traffic]) where
  delivers := by
    intro queue subscription found
    obtain ⟨lines, visits, same⟩ := run.visits found
    obtain ⟨-, kept, keeps⟩ := visits.keeps (by decide)
    refine ⟨kept, keeps.increasing, keeps.published, keeps.delivered, ?_⟩
    intro k published
    rw [keeps.missing k published]
    constructor
    · rintro ⟨v, member, late⟩
      obtain ⟨t, visited, earlier, found', rfl⟩ := (same v).mp member
      exact ⟨t, visited, earlier, found', late⟩
    · rintro ⟨t, visited, earlier, found', late⟩
      exact ⟨_, (same _).mpr ⟨t, visited, earlier, found', rfl⟩, late⟩
  bounded := run.tidy.short
  publishes := fun userId message => ⟨_, run.tidy.publish userId message⟩
  listed := run.tidy.entry_iff

/-- Take the actions in turn, noting the states passed through; `none` if one of them has to wait. -/
def Traffic.replay : List Action → List Traffic → Traffic → Option (List Traffic × Traffic)
  | [], past, traffic => some (past, traffic)
  | action :: actions, past, traffic => match traffic.step action with
    | some traffic' => replay actions (past ++ [traffic]) traffic'
    | none => none

theorem Traffic.Run.replay (run : Traffic.Run past traffic) {actions : List Action} {reached : List Traffic × Traffic}
    (moved : Traffic.replay actions past traffic = some reached) : Traffic.Run reached.1 reached.2 := by
  induction actions generalizing past traffic with
  | nil =>
    cases moved
    exact run
  | cons action actions ih =>
    simp only [Traffic.replay] at moved
    split at moved
    · rename_i traffic' stepped
      exact ih (run.step action stepped) moved
    · cases moved

def settledMessage (nonce : Nat) : Message := [("type", .str "round.settled"), ("nonce", .int nonce)]

def messageNonces (messages : List Message) : List Int := messages.filterMap fun message => match message with
  | [_, (_, .int nonce)] => some nonce
  | _ => none

/-- Users 12 and 34 connect. User 12 is told of 33 rounds before the first message is taken, and leaves. -/
def sampleActions : List Action :=
  [.subscribe 12 0, .subscribe 34 1] ++ (List.range 33).map (fun nonce => .publish 12 (settledMessage nonce)) ++
    [.publish 34 (settledMessage 7), .get 0, .unsubscribe 0, .publish 12 (settledMessage 33)]

theorem broadcaster_serves_sampleTraffic : ∃ past traffic,
    Traffic.replay sampleActions [] .initial = some (past, traffic) ∧
    (traffic.subscription 0).map (fun s => (messageNonces s.taken, s.published.length, s.isOpen)) =
      some ([1], 33, false) ∧
    messageNonces (traffic.broadcaster.queues 0) = (List.range 31).map (fun k => (k + 2 : Int)) ∧
    messageNonces (traffic.broadcaster.queues 1) = [7] ∧ traffic.Serves (past ++ [traffic]) := by
  have shown : ((Traffic.replay sampleActions [] .initial).any fun reached =>
      (reached.2.subscription 0).map (fun s => (messageNonces s.taken, s.published.length, s.isOpen)) =
          some ([1], 33, false) &&
        messageNonces (reached.2.broadcaster.queues 0) = (List.range 31).map (fun k => (k + 2 : Int)) &&
        messageNonces (reached.2.broadcaster.queues 1) = [7]) = true := by decide +kernel
  obtain ⟨reached, replayed, shown⟩ := (Option.any_eq_true _ _).mp shown
  simp only [Bool.and_eq_true, decide_eq_true_eq] at shown
  exact ⟨reached.1, reached.2, replayed, shown.1.1, shown.1.2, shown.2, broadcaster_serves (.replay .start replayed)⟩

end TheClub.Ws
