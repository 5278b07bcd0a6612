import TheClub.Api.Pagination
import TheClub.Keyset
import TheClub.Ledger
import TheClub.Lone

/-!
Walks through the list endpoints from page to page, while rows are added in between. What an
endpoint returns is a keyset page of the committed rows.
-/

namespace TheClub
open ReadCommitted Program

variable {platform : Platform} {settings : Settings} {codec : CursorCodec} {i : Nat} {s s' : Database}

/-! ### The queries as keyset pages -/

section
variable {α : Type} (createdAt : α → Time) (id : α → Id)

/-- The columns by which a history is sorted. -/
def historyKey (a : α) : Time ×ₗ Id := toLex (createdAt a, id a)

theorem newestFirst_eq (rows : List α) : newestFirst createdAt id rows =
    rows.insertionSort fun a b => historyKey createdAt id b ≤ historyKey createdAt id a := by
  have order : ∀ a b : α, (createdAt b < createdAt a ∨ (createdAt a = createdAt b ∧ id b ≤ id a)) ↔
      historyKey createdAt id b ≤ historyKey createdAt id a := by
    intro a b
    rw [historyKey, historyKey, Prod.Lex.toLex_le_toLex]
    simp only [eq_comm]
  unfold newestFirst
  simp only [order]

theorem newestFirst_page (rows : List α) (cursor : Option (Time × Id)) (limit : Nat) :
    (newestFirst createdAt id (rows.filter (afterCursor createdAt id cursor))).take limit =
      Keyset.page (historyKey createdAt id) rows (cursor.map toLex) limit := by
  have after : ∀ a, afterCursor createdAt id cursor a =
      (cursor.map toLex).all fun k => decide (historyKey createdAt id a < k) := by
    intro a
    cases cursor with
    | none => rfl
    | some c =>
      obtain ⟨time, k⟩ := c
      rw [Bool.eq_iff_iff]
      simp [afterCursor, historyKey, Prod.Lex.toLex_lt_toLex]
  rw [newestFirst_eq]
  unfold Keyset.page
  rw [funext after]

end

/-- A statement that succeeds changes its own table only. -/
theorem alone_sql {f : TableName} {q : Query f} {a : Query.Ret f q}
    (alone : Alone (application platform settings) i (sql f q) s (.ok a) s') :
    (∃ ctx, Query.exec platform ctx i f q (s.tables f) = .ok a (s'.tables f)) ∧ ∀ f', f' ≠ f →
      s'.tables f' = s.tables f' := by
  obtain ⟨env, ran⟩ := alone_perform.mp alone
  constructor
  · rcases exec_sql ran with ⟨e, failed, -⟩ | ⟨b, same, done⟩
    · cases failed
    · cases same
      exact ⟨_, done⟩
  · intro f' ne
    exact exec_frame ran f' fun q' same => by
      cases same
      exact ne rfl

theorem alone_scalarOneOrNone {α : Type} {rows : List α} {a : Option α}
    (alone : Alone (application platform settings) i (scalarOneOrNone rows) s (.ok a) s') :
    rows = a.toList ∧ s' = s := by
  unfold scalarOneOrNone at alone
  split at alone
  · obtain ⟨same, rfl⟩ := alone_done.mp alone
    cases same
    exact ⟨rfl, rfl⟩
  · obtain ⟨same, rfl⟩ := alone_done.mp alone
    cases same
    exact ⟨rfl, rfl⟩
  · obtain ⟨same, -⟩ := alone_done.mp alone
    cases same

theorem alone_ok {α β : Type} {p : Prog α} {f : α → Prog β} {b : β}
    (alone : Alone (application platform settings) i (p.bind f) s (.ok b) s') :
    ∃ a m, Alone (application platform settings) i p s (.ok a) m ∧
      Alone (application platform settings) i (f a) m (.ok b) s' :=
  (alone_bind.mp alone).resolve_right fun ⟨_, same, _⟩ => by cases same

theorem alone_requireWallet {userId : Id} {wallet : Wallet}
    (alone : Alone (application platform settings) i (requireWallet platform userId) s (.ok wallet) s')
    (idle : s.Idle i) : (∃ row ∈ (s.tables .wallets).committedRows, row.userId = userId ∧ row.id = wallet.id) ∧
      s'.tables = s.tables := by
  obtain ⟨found, m, lookup, rest⟩ := alone_ok alone
  obtain ⟨rows, m', read, single⟩ := alone_ok lookup
  obtain ⟨⟨ctx, done⟩, frame⟩ := alone_sql read
  obtain ⟨rfl, rfl⟩ := alone_scalarOneOrNone single
  cases found with
  | none =>
    obtain ⟨same, -⟩ := alone_done.mp rest
    cases same
  | some found =>
    obtain ⟨same, rfl⟩ := alone_done.mp rest
    cases same
    obtain ⟨listed, same⟩ := Outcome.ok.inj done
    have member : wallet ∈ (((s.tables .wallets).rows i).filter fun w => w.userId = userId).map WalletRow.toWallet := by
      rw [listed]
      exact List.mem_singleton.mpr rfl
    obtain ⟨row, seen, rfl⟩ := List.mem_map.mp member
    obtain ⟨seen, owner⟩ := List.mem_filter.mp seen
    rw [rows_of_idle (idle .wallets)] at seen
    refine ⟨⟨row, seen, by simpa using owner, rfl⟩, ?_⟩
    funext f
    by_cases here : f = .wallets
    · subst here
      exact same.symm
    · exact frame f here

/-! ### One page -/

/-- The committed rounds of a user. -/
def roundsOfUser (s : Database) (userId : Id) : List Round :=
  (s.tables .rounds).committedRows.filter fun r => r.userId = userId

/-- The wallet of the user, by the unique constraint on `wallets.user_id`. -/
def OwnsWallet (s : Database) (userId walletId : Id) : Prop :=
  ∀ w ∈ (s.tables .wallets).committedRows, w.userId = userId → w.id = walletId

variable {userId walletId : Id} {cursor : Option String} {limit : Nat}

theorem nextCursor_eq {α : Type} {createdAt : α → Time} {id : α → Id} {rows : List α} :
    nextCursor platform codec createdAt id rows limit =
      (Keyset.next (historyKey createdAt id) rows limit).map fun k =>
        encodeCursor platform codec (ofLex k).1 (ofLex k).2 := by
  unfold nextCursor Keyset.next
  split
  · rw [Option.map_map]
    rfl
  · rfl

theorem transactions_page {page : Page LedgerEntry} (idle : s.Idle i) (owns : OwnsWallet s userId walletId)
    (alone : Alone (application platform settings) i
      (unitOfWork .request (listTransactionsPage platform codec userId cursor limit)) s (.ok page) s') :
    ∃ c, decodedCursor codec cursor = .ok c ∧
      page.items = Keyset.page (historyKey LedgerEntry.createdAt LedgerEntry.id) (entriesOf s walletId)
        (c.map toLex) limit ∧
      page.nextCursor = nextCursor platform codec LedgerEntry.createdAt LedgerEntry.id page.items limit := by
  obtain ⟨m, body⟩ := alone_unitOfWork_ok alone
  obtain ⟨c, m, decoded, rest⟩ := alone_ok body
  obtain ⟨same, rfl⟩ := alone_done.mp decoded
  obtain ⟨entries, m', listed, rest⟩ := alone_ok rest
  obtain ⟨same', rfl⟩ := alone_done.mp rest
  obtain ⟨wallet, m, found, listed⟩ := alone_ok listed
  obtain ⟨⟨row, known, owner, id⟩, tables⟩ := alone_requireWallet found idle
  obtain ⟨⟨ctx, done⟩, -⟩ := alone_sql listed
  obtain ⟨entries', -⟩ := Outcome.ok.inj done
  have mine : wallet.id = walletId := id ▸ owns row known owner
  cases same'
  refine ⟨c, same.symm, ?_, rfl⟩
  rw [← entries', newestFirst_page, tables, rows_of_idle (idle .ledgerEntries), mine]
  rfl

theorem rounds_page {page : Page (Round × List Bet)} (idle : s.Idle i)
    (alone : Alone (application platform settings) i
      (unitOfWork .request (listRoundsPage platform codec userId cursor limit)) s (.ok page) s') :
    ∃ c, decodedCursor codec cursor = .ok c ∧
      page.items.map Prod.fst = Keyset.page (historyKey Round.createdAt Round.id) (roundsOfUser s userId)
        (c.map toLex) limit ∧
      page.nextCursor = nextCursor platform codec Round.createdAt Round.id (page.items.map Prod.fst) limit := by
  obtain ⟨m, body⟩ := alone_unitOfWork_ok alone
  obtain ⟨c, m, decoded, rest⟩ := alone_ok body
  obtain ⟨same, rfl⟩ := alone_done.mp decoded
  obtain ⟨rounds, m', listed, rest⟩ := alone_ok rest
  obtain ⟨found, m, read, withBets⟩ := alone_ok listed
  obtain ⟨bets, m, -, zipped⟩ := alone_ok withBets
  obtain ⟨same', -⟩ := alone_done.mp zipped
  obtain ⟨⟨ctx, done⟩, -⟩ := alone_sql read
  obtain ⟨found', -⟩ := Outcome.ok.inj done
  have firsts : rounds.map Prod.fst = found := by
    cases same'
    simp [Function.comp_def]
  refine ⟨c, same.symm, ?_⟩
  split at rest
  · obtain ⟨raised, -⟩ := alone_done.mp rest
    cases raised
  · obtain ⟨same', -⟩ := alone_done.mp rest
    cases same'
    constructor
    · rw [firsts, ← found', newestFirst_page, rows_of_idle (idle .rounds)]
      rfl
    · unfold nextCursor
      rw [List.length_map, List.getLast?_map, Option.map_map]
      rfl

/-! ### A walk -/

section
variable {α β : Type}

/-- The rows that page requests have returned so far, from no cursor on, and the cursor the last
of them returned. `Page` says which state a request may start in, and `rows` what the committed
rows are there. Rows may be added between two requests, in any number. -/
inductive PageWalk (platform : Platform) (settings : Settings) (endpoint : Option String → Nat → Prog (Page β))
    (item : β → α) (rows : Database → List α) (Starts : Nat → Database → Prop) :
    (first last : Database) → (returned : List α) → (cursor : Option String) → Prop where
  | start {i limit : Nat} {s s' : Database} {page : Page β} (starts : Starts i s) (size : 1 ≤ limit ∧ limit ≤ 100)
      (request : Alone (application platform settings) i (unitOfWork .request (endpoint none limit)) s (.ok page) s') :
      PageWalk platform settings endpoint item rows Starts s s (page.items.map item) page.nextCursor
  | more {i limit : Nat} {first last s s' : Database} {returned : List α} {cursor : String} {page : Page β}
      (walk : PageWalk platform settings endpoint item rows Starts first last returned (some cursor))
      (grown : rows last ⊆ rows s) (starts : Starts i s) (size : 1 ≤ limit ∧ limit ≤ 100)
      (request : Alone (application platform settings) i (unitOfWork .request (endpoint (some cursor) limit)) s
        (.ok page) s') :
      PageWalk platform settings endpoint item rows Starts first s (returned ++ page.items.map item) page.nextCursor

/-- What a walk has returned, when `first` were the rows at its first request and `last` those at
its last one. -/
structure Complete (codec : CursorCodec) (createdAt : α → Time) (id : α → Id) (first last returned : List α)
    (cursor : Option String) : Prop where
  decreasing : returned.Pairwise fun a b => createdAt b < createdAt a ∨ createdAt b = createdAt a ∧ id b < id a
  once : returned.Nodup
  exist : returned ⊆ last
  /-- The next request starts right after the last row. -/
  resumes : ∀ text ∈ cursor, ∃ a, returned.getLast? = some a ∧
    decodedCursor codec (some text) = .ok (some (createdAt a, id a))
  all : cursor = none → ∀ a ∈ first, a ∈ returned
  ended : cursor = none → ∀ a ∈ last, ∃ b, returned.getLast? = some b ∧
    (createdAt b < createdAt a ∨ createdAt b = createdAt a ∧ id b ≤ id a)

theorem decodedCursor_encodeCursor (inverse : codec.Inverse platform) (createdAt : Time) (itemId : Id) :
    decodedCursor codec (some (encodeCursor platform codec createdAt itemId)) = .ok (some (createdAt, itemId)) := by
  simp only [decodedCursor, if_neg (encodeCursor_ne inverse createdAt itemId), decodeCursor_encodeCursor inverse]
  rfl

/-- Page requests that each return a keyset page of the rows make up a keyset walk. -/
theorem PageWalk.keyset {endpoint : Option String → Nat → Prog (Page β)} {item : β → α} {rows : Database → List α}
    {Starts : Nat → Database → Prop} (createdAt : α → Time) (id : α → Id) (inverse : codec.Inverse platform)
    (distinct : ∀ i s, Starts i s → ((rows s).map (historyKey createdAt id)).Nodup)
    (serves : ∀ i s s' cursor limit page, Starts i s →
      Alone (application platform settings) i (unitOfWork .request (endpoint cursor limit)) s (.ok page) s' →
      ∃ c, decodedCursor codec cursor = .ok c ∧
        page.items.map item = Keyset.page (historyKey createdAt id) (rows s) (c.map toLex) limit ∧
        page.nextCursor = nextCursor platform codec createdAt id (page.items.map item) limit)
    {first last : Database} {returned : List α} {cursor : Option String}
    (walk : PageWalk platform settings endpoint item rows Starts first last returned cursor) :
    ∃ k, Keyset.Walk (historyKey createdAt id) (rows first) (rows last) returned k ∧
      cursor = k.map fun k => encodeCursor platform codec (ofLex k).1 (ofLex k).2 := by
  induction walk with
  | start starts size request =>
    obtain ⟨c, decoded, items, next⟩ := serves _ _ _ _ _ _ starts request
    cases decoded
    rw [next, items, nextCursor_eq]
    exact ⟨_, .start (distinct _ _ starts) size.1, rfl⟩
  | more walk grown starts size request ih =>
    obtain ⟨k, walked, same⟩ := ih
    obtain ⟨c, decoded, items, next⟩ := serves _ _ _ _ _ _ starts request
    cases k with
    | none => cases same
    | some k =>
      obtain rfl := Option.some.inj same
      rw [decodedCursor_encodeCursor inverse] at decoded
      cases decoded
      rw [next, items, nextCursor_eq]
      exact ⟨_, walked.more grown (distinct _ _ starts) size.1, rfl⟩

theorem Complete.of_walk {createdAt : α → Time} {id : α → Id} (inverse : codec.Inverse platform)
    {first last returned : List α}
    {k : Option (Time ×ₗ Id)} (walk : Keyset.Walk (historyKey createdAt id) first last returned k) :
    Complete codec createdAt id first last returned
      (k.map fun k => encodeCursor platform codec (ofLex k).1 (ofLex k).2) := by
  have walked := walk.walked
  have lt : ∀ {a b : α}, historyKey createdAt id b < historyKey createdAt id a →
      createdAt b < createdAt a ∨ createdAt b = createdAt a ∧ id b < id a := Prod.Lex.toLex_lt_toLex.mp
  have le : ∀ {a b : α}, historyKey createdAt id b ≤ historyKey createdAt id a →
      createdAt b < createdAt a ∨ createdAt b = createdAt a ∧ id b ≤ id a := Prod.Lex.toLex_le_toLex.mp
  refine ⟨walked.ordered.imp lt, ?_, walked.exist, ?_, ?_, ?_⟩
  · exact walked.ordered.imp fun below same => (same ▸ below).false
  · intro text given
    obtain ⟨k, member, rfl⟩ := Option.mem_map.mp given
    obtain ⟨a, last, rfl⟩ := walked.last k member
    exact ⟨a, last, decodedCursor_encodeCursor inverse _ _⟩
  · intro ended a member
    rcases walked.left a member with returned | ⟨k, more, -⟩
    · exact returned
    · cases (Option.map_eq_none_iff.mp ended).symm.trans more
  · intro ended a member
    obtain ⟨b, last, below⟩ := walked.ended (Option.map_eq_none_iff.mp ended) a member
    exact ⟨b, last, le below⟩

end

/-- The state in which process `i` asks for a page of the rows of table `f`: it has no transaction
open, and the rows are stored under their own ids. -/
structure Asks (f : TableName) (i : Nat) (s : Database) : Prop where
  idle : s.Idle i
  keyed : (s.tables f).Keyed (Row.id f)

theorem historyKey_nodup {α : Type} {createdAt : α → Time} {id : α → Id} {rows : List α}
    (distinct : (rows.map id).Nodup)
    (p : α → Bool) : ((rows.filter p).map (historyKey createdAt id)).Nodup := by
  have ids : (((rows.filter p).map (historyKey createdAt id)).map fun k => (ofLex k).2).Nodup := by
    rw [List.map_map]
    exact distinct.sublist (List.filter_sublist.map id)
  exact ids.of_map _

variable (platform settings codec) in
/-- Walks through the history of wallet `walletId`, which is the wallet of user `userId`. -/
abbrev TransactionsWalk (userId walletId : Id) : (first last : Database) → List LedgerEntry → Option String → Prop :=
  PageWalk platform settings (listTransactionsPage platform codec userId) (fun e => e) (fun s => entriesOf s walletId)
    fun i s => Asks .ledgerEntries i s ∧ OwnsWallet s userId walletId

variable (platform settings codec) in
/-- Walks through the rounds of user `userId`. -/
abbrev RoundsWalk (userId : Id) : (first last : Database) → List Round → Option String → Prop :=
  PageWalk platform settings (listRoundsPage platform codec userId) Prod.fst (fun s => roundsOfUser s userId)
    fun i s => Asks .rounds i s

/-- Walks through the histories skip no row and repeat none, whatever is inserted on the way. -/
theorem walks_complete (inverse : codec.Inverse platform) :
    (∀ userId walletId first last returned cursor,
      TransactionsWalk platform settings codec userId walletId first last returned cursor →
      Complete codec LedgerEntry.createdAt LedgerEntry.id (entriesOf first walletId)
        (entriesOf last walletId) returned cursor) ∧
    ∀ userId first last returned cursor, RoundsWalk platform settings codec userId first last returned cursor →
      Complete codec Round.createdAt Round.id (roundsOfUser first userId)
        (roundsOfUser last userId) returned cursor := by
  constructor
  · intro userId walletId first last returned cursor walk
    obtain ⟨k, walked, rfl⟩ := walk.keyset LedgerEntry.createdAt LedgerEntry.id inverse
      (fun i s asks => historyKey_nodup asks.1.keyed.committedRows_nodup _)
      (fun i s s' cursor limit page asks request => by
        rw [List.map_id']
        exact transactions_page asks.1.idle asks.2 request)
    exact .of_walk inverse walked
  · intro userId first last returned cursor walk
    obtain ⟨k, walked, rfl⟩ := walk.keyset Round.createdAt Round.id inverse
      (fun i s asks => historyKey_nodup asks.keyed.committedRows_nodup _)
      (fun i s s' cursor limit page asks request => rounds_page asks.idle request)
    exact .of_walk inverse walked

/-! ### A concrete walk -/

/-- Timestamps and ids in decimal; the encoding leaves the text as it is. -/
def sampleCodec : CursorCodec where
  fromisoformat := String.toInt?
  uuid := String.toNat?
  urlsafeB64encode := id
  urlsafeB64decode := some

theorem digits_bar (n : Nat) : '|' ∉ n.repr.toList := by
  rw [Nat.toList_repr]
  intro member
  cases Nat.isDigit_of_mem_toDigits (b := 10) (by decide) (by decide) member

theorem sampleCodec_inverse : sampleCodec.Inverse samplePlatform where
  fromisoformat t := Int.toInt?_repr t
  uuid k := Nat.toNat?_repr k
  urlsafeB64decode raw := rfl
  empty := rfl
  isoformat_bar t := by
    cases t with
    | ofNat n => exact digits_bar n
    | negSucc n =>
      change '|' ∉ ("-" ++ n.succ.repr).toList
      simpa [String.toList_append] using digits_bar n.succ
  uuidText_bar := digits_bar

/-- Another deposit of the user, made after the bet. -/
def secondDeposit : SampleWorld :=
  sampleRound.replay isUseCase (.start 3 (.deposit 12 "deposit-2" 500) :: turns 3 5 90 7)

theorem secondDeposit_reachable : Reachable UseCases secondDeposit :=
  .trans (sampleRun_reachable _) (run_replay (fun _ _ => id) _ _)

/-- A request that user 12 makes for pages of two. -/
theorem requested_page (s : Database) (cursor : Option String) (shown : Page LedgerEntry → Bool)
    (ran : ((solo (application samplePlatform sampleSettings) 7 (List.replicate 3 { now := 9 })
      (unitOfWork .request (listTransactionsPage samplePlatform sampleCodec 12 cursor 2)) s).any fun x => match x.1 with
        | .ok page => shown page
        | .error _ => false) = true) :
    ∃ page s', Alone (application samplePlatform sampleSettings) 7
      (unitOfWork .request (listTransactionsPage samplePlatform sampleCodec 12 cursor 2)) s (.ok page) s' ∧
      shown page = true := by
  obtain ⟨⟨r, s'⟩, ran, shown⟩ := (Option.any_eq_true _ _).mp ran
  cases r with
  | ok page => exact ⟨page, s', alone_solo ran, shown⟩
  | error e => cases shown

theorem sample_asks {w : SampleWorld} (reached : Reachable UseCases w) (unstarted : w.request 7 = none) :
    Asks .ledgerEntries 7 w.state :=
  ⟨unstarted_idle reached unstarted, reachable_keyed reached .ledgerEntries⟩

/-- The history of wallet 15 on two pages, the payout and the stake on the first one. Before the second one is asked for
there is another deposit, which the walk does not return. -/
theorem walks_complete_sampleRound :
    (entriesOf sampleRound.state 15).length = 3 ∧ (entriesOf secondDeposit.state 15).length = 4 ∧
    ∃ returned, returned.length = 3 ∧
    TransactionsWalk samplePlatform sampleSettings sampleCodec 12 15 sampleRound.state secondDeposit.state returned
      none ∧
    Complete sampleCodec LedgerEntry.createdAt LedgerEntry.id (entriesOf sampleRound.state 15)
      (entriesOf secondDeposit.state 15) returned none := by
  refine ⟨by decide +kernel, by decide +kernel, ?_⟩
  obtain ⟨page, _, first, shown⟩ := requested_page sampleRound.state none
    (fun page => page.items.length = 2 && page.nextCursor = some (encodeCursor samplePlatform sampleCodec 3 59))
    (by decide +kernel)
  obtain ⟨page', _, second, shown'⟩ := requested_page secondDeposit.state
    (some (encodeCursor samplePlatform sampleCodec 3 59)) (fun page => page.items.length = 1 && page.nextCursor = none)
    (by
      rw [listTransactionsPage, decodedCursor_encodeCursor sampleCodec_inverse]
      decide +kernel)
  simp only [Bool.and_eq_true, decide_eq_true_eq] at shown shown'
  have asks : Asks .ledgerEntries 7 sampleRound.state :=
    sample_asks (sampleRun_reachable _) (Option.isNone_iff_eq_none.mp (by decide +kernel))
  have asks' : Asks .ledgerEntries 7 secondDeposit.state :=
    sample_asks secondDeposit_reachable (Option.isNone_iff_eq_none.mp (by decide +kernel))
  have owns : OwnsWallet sampleRound.state 12 15 := by
    unfold OwnsWallet
    decide +kernel
  have owns' : OwnsWallet secondDeposit.state 12 15 := by
    unfold OwnsWallet
    decide +kernel
  have grown : entriesOf sampleRound.state 15 ⊆ entriesOf secondDeposit.state 15 := by decide +kernel
  have walk : TransactionsWalk samplePlatform sampleSettings sampleCodec 12 15 sampleRound.state sampleRound.state
      (page.items.map fun e => e) page.nextCursor := .start ⟨asks, owns⟩ (by decide) first
  rw [shown.2] at walk
  have walk := walk.more grown ⟨asks', owns'⟩ (by decide) second
  rw [shown'.2] at walk
  refine ⟨_, ?_, walk, (walks_complete sampleCodec_inverse).1 _ _ _ _ _ _ walk⟩
  rw [List.length_append, List.length_map, List.length_map, shown.1, shown'.1]

end TheClub
