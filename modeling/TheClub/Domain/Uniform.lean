import TheClub.Domain.Fairness

/-!
The derivation of an outcome as rejection sampling on one stream of four-byte words. A digest of
any length is unbiased: exchanging two remainders in every accepted block exchanges the digests
that return them. The loops over blocks and over digests are one search.
-/

namespace TheClub

/-! ### The blocks of a digest -/

/-- The complete four-byte blocks of `digest`, read big-endian. -/
def blocks : Bytes → List Nat
  | a :: b :: c :: d :: rest => fromBytes a b c d :: blocks rest
  | _ => []

/-- The largest multiple of `modulus` that does not exceed 2^32. -/
def acceptanceLimit (modulus : Nat) : Nat := CHUNK_SPACE / modulus * modulus

theorem acceptanceLimit_le (modulus : Nat) : acceptanceLimit modulus ≤ CHUNK_SPACE := Nat.div_mul_le_self ..

theorem uniformBelow_eq (digest : Bytes) (modulus : Nat) :
    uniformBelow digest modulus = ((blocks digest).find? (· < acceptanceLimit modulus)).map (· % modulus) := by
  fun_induction uniformBelow digest modulus with
  | case1 limit a b c d rest value below =>
    have accepted : decide (fromBytes a b c d < acceptanceLimit modulus) = true := decide_eq_true below
    unfold blocks
    rw [List.find?_cons, accepted]
    rfl
  | case2 limit a b c d rest value above ih =>
    have refused : decide (fromBytes a b c d < acceptanceLimit modulus) = false := decide_eq_false above
    unfold blocks
    rw [List.find?_cons, refused, ih]
  | case3 digest short =>
    unfold blocks
    split
    · exact (short _ _ _ _ _ rfl).elim
    · rfl

theorem uniformBelow_none {digest : Bytes} {modulus : Nat} :
    uniformBelow digest modulus = none ↔ ∀ word ∈ blocks digest, acceptanceLimit modulus ≤ word := by
  rw [uniformBelow_eq, Option.map_eq_none_iff, List.find?_eq_none]
  simp

theorem fromBytes_lt (a b c d : UInt8) : fromBytes a b c d < CHUNK_SPACE := by
  have := a.toNat_lt
  have := b.toNat_lt
  have := c.toNat_lt
  have := d.toNat_lt
  unfold fromBytes CHUNK_SPACE
  omega

/-- `word.to_bytes(4, "big")`. -/
def toBytes (word : Nat) : Bytes :=
  [UInt8.ofNat (word / 2 ^ 24), UInt8.ofNat (word / 2 ^ 16), UInt8.ofNat (word / 2 ^ 8), UInt8.ofNat word]

theorem toBytes_fromBytes (a b c d : UInt8) : toBytes (fromBytes a b c d) = [a, b, c, d] := by
  have ha := a.toNat_lt
  have hb := b.toNat_lt
  have hc := c.toNat_lt
  have hd := d.toNat_lt
  unfold toBytes fromBytes
  refine congrArg₂ List.cons ?_ (congrArg₂ List.cons ?_ (congrArg₂ List.cons ?_ (congrArg₂ List.cons ?_ rfl)))
  all_goals
    apply UInt8.toNat_inj.mp
    rw [UInt8.toNat_ofNat']
    omega

/-- Replace every complete block of a digest. -/
def mapBlocks (f : Nat → Nat) : Bytes → Bytes
  | a :: b :: c :: d :: rest => toBytes (f (fromBytes a b c d)) ++ mapBlocks f rest
  | rest => rest

theorem blocks_toBytes {word : Nat} (fits : word < CHUNK_SPACE) (rest : Bytes) :
    blocks (toBytes word ++ rest) = word :: blocks rest := by
  have same : fromBytes (UInt8.ofNat (word / 2 ^ 24)) (UInt8.ofNat (word / 2 ^ 16)) (UInt8.ofNat (word / 2 ^ 8))
      (UInt8.ofNat word) = word := by
    unfold CHUNK_SPACE at fits
    simp only [fromBytes, UInt8.toNat_ofNat']
    omega
  show fromBytes _ _ _ _ :: blocks rest = _
  rw [same]

theorem length_mapBlocks (f : Nat → Nat) (digest : Bytes) : (mapBlocks f digest).length = digest.length := by
  fun_induction mapBlocks f digest with
  | case1 a b c d rest ih => simp [toBytes, ih]
  | case2 => rfl

theorem blocks_mapBlocks {f : Nat → Nat} (fits : ∀ word < CHUNK_SPACE, f word < CHUNK_SPACE) (digest : Bytes) :
    blocks (mapBlocks f digest) = (blocks digest).map f := by
  fun_induction mapBlocks f digest with
  | case1 a b c d rest ih =>
    rw [blocks_toBytes (fits _ (fromBytes_lt a b c d)), ih]
    rfl
  | case2 digest short =>
    unfold blocks
    split
    · exact (short _ _ _ _ _ rfl).elim
    · rfl

theorem mapBlocks_mapBlocks {f : Nat → Nat} (fits : ∀ word < CHUNK_SPACE, f word < CHUNK_SPACE)
    (back : ∀ word, f (f word) = word) (digest : Bytes) : mapBlocks f (mapBlocks f digest) = digest := by
  fun_induction mapBlocks f digest with
  | case1 a b c d rest ih =>
    obtain ⟨a', b', c', d', split⟩ : ∃ a' b' c' d', toBytes (f (fromBytes a b c d)) = [a', b', c', d'] :=
      ⟨_, _, _, _, rfl⟩
    have word : fromBytes a' b' c' d' = f (fromBytes a b c d) := by
      have read := blocks_toBytes (fits _ (fromBytes_lt a b c d)) []
      rw [split] at read
      exact (List.cons.inj read).1
    rw [split]
    show toBytes (f (fromBytes a' b' c' d')) ++ mapBlocks f (mapBlocks f rest) = _
    rw [word, back, toBytes_fromBytes, ih]
    rfl
  | case2 digest short =>
    unfold mapBlocks
    split
    · exact (short _ _ _ _ _ rfl).elim
    · rfl

/-! ### Every remainder is returned equally often -/

/-- Exchange the remainders `r` and `r'` of the words below the limit. -/
def exchange (modulus r r' word : Nat) : Nat :=
  if word < acceptanceLimit modulus then word / modulus * modulus + Equiv.swap r r' (word % modulus) else word

section
variable {modulus r r' : Nat} (left : r < modulus) (right : r' < modulus)
include left right

theorem swap_lt {n : Nat} (lt : n < modulus) : Equiv.swap r r' n < modulus := by
  rw [Equiv.swap_apply_def]
  split
  · exact right
  split
  · exact left
  · exact lt

theorem exchange_lt_limit {word : Nat} :
    exchange modulus r r' word < acceptanceLimit modulus ↔ word < acceptanceLimit modulus := by
  unfold exchange
  split
  · rename_i below
    have quotient : word / modulus < CHUNK_SPACE / modulus := Nat.div_lt_of_lt_mul (Nat.mul_comm .. ▸ below)
    have swapped := swap_lt left right (Nat.mod_lt word (by omega))
    have room : word / modulus * modulus + modulus ≤ acceptanceLimit modulus := by
      rw [← Nat.succ_mul]
      exact Nat.mul_le_mul_right modulus quotient
    exact ⟨fun _ => below, fun _ => by omega⟩
  · exact Iff.rfl

theorem exchange_mod {word : Nat} (below : word < acceptanceLimit modulus) :
    exchange modulus r r' word % modulus = Equiv.swap r r' (word % modulus) := by
  have swapped := swap_lt left right (Nat.mod_lt word (by omega))
  unfold exchange
  rw [if_pos below, Nat.mul_add_mod_self_right, Nat.mod_eq_of_lt swapped]

theorem exchange_exchange (word : Nat) : exchange modulus r r' (exchange modulus r r' word) = word := by
  by_cases below : word < acceptanceLimit modulus
  · have kept := (exchange_lt_limit left right).mpr below
    have swapped := swap_lt left right (Nat.mod_lt word (by omega))
    have quotient : exchange modulus r r' word / modulus = word / modulus := by
      unfold exchange
      rw [if_pos below, Nat.mul_comm, Nat.mul_add_div (by omega), Nat.div_eq_of_lt swapped, Nat.add_zero]
    rw [exchange, if_pos kept, quotient, exchange_mod left right below, Equiv.swap_apply_self, Nat.mul_comm]
    exact Nat.div_add_mod word modulus
  · have same : exchange modulus r r' word = word := if_neg below
    rw [same, same]

theorem exchange_fits : ∀ word < CHUNK_SPACE, exchange modulus r r' word < CHUNK_SPACE := by
  intro word fits
  by_cases below : word < acceptanceLimit modulus
  · exact lt_of_lt_of_le ((exchange_lt_limit left right).mpr below) (acceptanceLimit_le modulus)
  · rwa [exchange, if_neg below]

theorem find_exchange (words : List Nat) :
    ((words.map (exchange modulus r r')).find? (· < acceptanceLimit modulus)).map (· % modulus) =
      ((words.find? (· < acceptanceLimit modulus)).map (· % modulus)).map (Equiv.swap r r') := by
  induction words with
  | nil => rfl
  | cons word words ih =>
    rw [List.map_cons]
    by_cases below : word < acceptanceLimit modulus
    · have kept := (exchange_lt_limit left right).mpr below
      rw [List.find?_cons_of_pos (by simpa using kept), List.find?_cons_of_pos (by simpa using below)]
      simp only [Option.map_some, exchange_mod left right below]
    · have kept := mt (exchange_lt_limit left right).mp below
      rw [List.find?_cons_of_neg (by simpa using kept), List.find?_cons_of_neg (by simpa using below), ih]

theorem uniformBelow_exchange (digest : Bytes) :
    uniformBelow (mapBlocks (exchange modulus r r') digest) modulus =
      (uniformBelow digest modulus).map (Equiv.swap r r') := by
  rw [uniformBelow_eq, uniformBelow_eq, blocks_mapBlocks (exchange_fits left right), find_exchange left right]

theorem uniformBelow_card (L : Nat) :
    (Finset.univ.filter fun digest : List.Vector UInt8 L => uniformBelow digest.toList modulus = some r).card =
      (Finset.univ.filter fun digest : List.Vector UInt8 L => uniformBelow digest.toList modulus = some r').card := by
  let f (digest : List.Vector UInt8 L) : List.Vector UInt8 L :=
    ⟨mapBlocks (exchange modulus r r') digest.toList, (length_mapBlocks ..).trans digest.2⟩
  have back : ∀ digest, f (f digest) = digest := fun digest => Subtype.ext
    (mapBlocks_mapBlocks (exchange_fits left right) (exchange_exchange left right) digest.toList)
  have moves : ∀ digest s, uniformBelow digest.toList modulus = some s →
      uniformBelow (f digest).toList modulus = some (Equiv.swap r r' s) := by
    intro digest s found
    show uniformBelow (mapBlocks _ digest.toList) modulus = _
    rw [uniformBelow_exchange left right, found]
    rfl
  refine Finset.card_bij' (fun digest _ => f digest) (fun digest _ => f digest) ?_ ?_ (fun digest _ => back digest)
    fun digest _ => back digest
  · intro digest member
    obtain ⟨-, found⟩ := Finset.mem_filter.mp member
    exact Finset.mem_filter.mpr ⟨Finset.mem_univ _, by rw [moves digest r found, Equiv.swap_apply_left]⟩
  · intro digest member
    obtain ⟨-, found⟩ := Finset.mem_filter.mp member
    exact Finset.mem_filter.mpr ⟨Finset.mem_univ _, by rw [moves digest r' found, Equiv.swap_apply_right]⟩

end

/-- Each remainder is returned on equally many digests of any length. -/
theorem uniformBelow_unbiased {modulus : Nat} (positive : 0 < modulus) (L : Nat) :
    (∀ r < modulus, ∀ r' < modulus,
      (Finset.univ.filter fun digest : List.Vector UInt8 L => uniformBelow digest.toList modulus = some r).card =
      (Finset.univ.filter fun digest : List.Vector UInt8 L => uniformBelow digest.toList modulus = some r').card) ∧
    (∀ digest : Bytes, ∀ r, uniformBelow digest modulus = some r → r < modulus) ∧
    ∀ digest : Bytes, uniformBelow digest modulus = none ↔
      ∀ word ∈ blocks digest, 2 ^ 32 / modulus * modulus ≤ word :=
  ⟨fun _ left _ right => uniformBelow_card left right L, fun _ _ => uniformBelow_lt positive,
    fun _ => uniformBelow_none⟩

theorem uniformBelow_unbiased_pockets :
    (Finset.univ.filter fun digest : List.Vector UInt8 32 => uniformBelow digest.toList 37 = some 0).card =
      (Finset.univ.filter fun digest : List.Vector UInt8 32 => uniformBelow digest.toList 37 = some 36).card ∧
    uniformBelow (List.replicate 32 255) 37 = none := by
  obtain ⟨equal, -, rejects⟩ := uniformBelow_unbiased (show 0 < 37 by decide) 32
  exact ⟨equal 0 (by decide) 36 (by decide), (rejects _).mpr (by decide)⟩

/-! ### One stream -/

section
variable (hmacSha256 : Bytes → Bytes → Bytes) (seed : SeedMaterial)

/-- The digest that round `roundIndex` of the loop requests. -/
def digestAt (roundIndex : Nat) : Bytes :=
  hmacSha256 seed.serverSeed (message seed.clientSeed seed.nonce roundIndex)

/-- Byte `n` of the digests one after another. -/
def streamByte (n : Nat) : UInt8 := (digestAt hmacSha256 seed (n / 32)).getD (n % 32) 0

/-- Word `n` of that stream. -/
def streamWord (n : Nat) : Nat :=
  fromBytes (streamByte hmacSha256 seed (4 * n)) (streamByte hmacSha256 seed (4 * n + 1))
    (streamByte hmacSha256 seed (4 * n + 2)) (streamByte hmacSha256 seed (4 * n + 3))

/-- The messages whose digests `derive_outcome` requests from `roundIndex` on, for at most `fuel` of them. -/
def requestedFrom (modulus : Nat) : Nat → Nat → List Bytes
  | 0, _ => []
  | fuel + 1, roundIndex =>
    message seed.clientSeed seed.nonce roundIndex ::
      match uniformBelow (digestAt hmacSha256 seed roundIndex) modulus with
      | some _ => []
      | none => requestedFrom modulus fuel (roundIndex + 1)

end

section
variable {hmacSha256 : Bytes → Bytes → Bytes} {seed : SeedMaterial} {modulus : Nat}

/-- The eight words of a digest of 32 bytes. -/
theorem blocks_eq {digest : Bytes} (length : digest.length = 32) :
    blocks digest = (List.range 8).map fun n => fromBytes (digest.getD (4 * n) 0) (digest.getD (4 * n + 1) 0)
      (digest.getD (4 * n + 2) 0) (digest.getD (4 * n + 3) 0) := by
  have cut : ∀ (count : Nat) (digest : Bytes), digest.length = 4 * count → blocks digest =
      (List.range count).map fun n => fromBytes (digest.getD (4 * n) 0) (digest.getD (4 * n + 1) 0)
        (digest.getD (4 * n + 2) 0) (digest.getD (4 * n + 3) 0) := by
    intro count
    induction count with
    | zero =>
      intro digest length
      obtain rfl := List.eq_nil_of_length_eq_zero length
      rfl
    | succ count ih =>
      intro digest length
      obtain ⟨a, b, c, d, rest, rfl⟩ : ∃ a b c d rest, digest = a :: b :: c :: d :: rest := by
        match digest, length with
        | a :: b :: c :: d :: rest, _ => exact ⟨a, b, c, d, rest, rfl⟩
      have tail := ih rest (by simpa [Nat.mul_add] using length)
      rw [blocks, tail, List.range_succ_eq_map, List.map_cons, List.map_map]
      rfl
  exact cut 8 digest (by omega)

theorem blocks_digest (digests : ∀ key text, (hmacSha256 key text).length = 32) (roundIndex : Nat) :
    blocks (digestAt hmacSha256 seed roundIndex) =
      (List.range 8).map fun n => streamWord hmacSha256 seed (8 * roundIndex + n) := by
  rw [blocks_eq (show (digestAt hmacSha256 seed roundIndex).length = 32 from digests _ _)]
  refine List.map_congr_left fun n member => ?_
  have small := List.mem_range.mp member
  have byte : ∀ k < 4, (digestAt hmacSha256 seed roundIndex).getD (4 * n + k) 0 =
      streamByte hmacSha256 seed (4 * (8 * roundIndex + n) + k) := by
    intro k lt
    have quotient : (4 * (8 * roundIndex + n) + k) / 32 = roundIndex := by omega
    have remainder : (4 * (8 * roundIndex + n) + k) % 32 = 4 * n + k := by omega
    rw [streamByte, quotient, remainder]
  rw [streamWord, byte 1 (by decide), byte 2 (by decide), byte 3 (by decide)]
  exact congrArg (fromBytes · _ _ _) (byte 0 (by decide))

/-- The two loops are one search. -/
theorem deriveOutcomeFrom_eq (digests : ∀ key text, (hmacSha256 key text).length = 32) (fuel roundIndex : Nat) :
    deriveOutcomeFrom hmacSha256 seed modulus fuel roundIndex =
      (((List.range (8 * fuel)).map fun n => streamWord hmacSha256 seed (8 * roundIndex + n)).find?
        (· < acceptanceLimit modulus)).map (· % modulus) := by
  induction fuel generalizing roundIndex with
  | zero => rfl
  | succ fuel ih =>
    have later : ((List.range (8 * fuel)).map (8 + ·)).map (fun n => streamWord hmacSha256 seed (8 * roundIndex + n)) =
        (List.range (8 * fuel)).map fun n => streamWord hmacSha256 seed (8 * (roundIndex + 1) + n) := by
      rw [List.map_map]
      refine List.map_congr_left fun n _ => ?_
      have place : 8 * roundIndex + (8 + n) = 8 * (roundIndex + 1) + n := by omega
      show streamWord hmacSha256 seed (8 * roundIndex + (8 + n)) = _
      rw [place]
    have split : List.range (8 * (fuel + 1)) = List.range 8 ++ (List.range (8 * fuel)).map (8 + ·) := by
      rw [← List.range_add]
      congr 1
      omega
    rw [split, List.map_append, List.find?_append, later, ← blocks_digest digests]
    show (match uniformBelow (digestAt hmacSha256 seed roundIndex) modulus with
      | some result => some result
      | none => deriveOutcomeFrom hmacSha256 seed modulus fuel (roundIndex + 1)) = _
    rw [uniformBelow_eq]
    cases (blocks (digestAt hmacSha256 seed roundIndex)).find? (· < acceptanceLimit modulus) with
    | some word => rfl
    | none => exact ih (roundIndex + 1)

section
variable {n : Nat} (below : streamWord hmacSha256 seed n < acceptanceLimit modulus)
  (first : ∀ k < n, acceptanceLimit modulus ≤ streamWord hmacSha256 seed k)
include below first

theorem deriveOutcome_first (digests : ∀ key text, (hmacSha256 key text).length = 32) (fuel : Nat) :
    deriveOutcome hmacSha256 fuel seed modulus =
      if n / 8 < fuel then some (streamWord hmacSha256 seed n % modulus) else none := by
  unfold deriveOutcome
  rw [deriveOutcomeFrom_eq digests]
  simp only [Nat.mul_zero, Nat.zero_add, List.find?_map, Function.comp_def]
  split
  · rename_i enough
    have found : (List.range (8 * fuel)).find?
      (fun k => decide (streamWord hmacSha256 seed k < acceptanceLimit modulus)) =
        some n := by
      refine List.find?_range_eq_some.mpr ⟨decide_eq_true below, List.mem_range.mpr (by omega), fun k lt => ?_⟩
      simpa using first k lt
    rw [found]
    rfl
  · rename_i short
    have missed : (List.range (8 * fuel)).find?
      (fun k => decide (streamWord hmacSha256 seed k < acceptanceLimit modulus)) =
        none := by
      refine List.find?_range_eq_none.mpr fun k lt => ?_
      simpa using first k (by omega)
    rw [missed]
    rfl

theorem requestedFrom_first (digests : ∀ key text, (hmacSha256 key text).length = 32) {fuel roundIndex : Nat}
    (reached : roundIndex ≤ n / 8) (enough : n / 8 < roundIndex + fuel) :
    requestedFrom hmacSha256 seed modulus fuel roundIndex =
      (List.range' roundIndex (n / 8 + 1 - roundIndex)).map (message seed.clientSeed seed.nonce) := by
  induction fuel generalizing roundIndex with
  | zero => omega
  | succ fuel ih =>
    obtain ⟨rest, count⟩ : ∃ rest, n / 8 + 1 - roundIndex = rest + 1 := ⟨n / 8 - roundIndex, by omega⟩
    have digest : uniformBelow (digestAt hmacSha256 seed roundIndex) modulus = none ↔ roundIndex < n / 8 := by
      rw [uniformBelow_none, blocks_digest digests]
      constructor
      · intro refused
        by_contra last
        refine absurd below (Nat.not_lt.mpr (refused _ (List.mem_map.mpr ⟨n % 8, List.mem_range.mpr (by omega), ?_⟩)))
        exact congrArg _ (by omega)
      · intro earlier word member
        obtain ⟨k, small, rfl⟩ := List.mem_map.mp member
        have := List.mem_range.mp small
        exact first _ (by omega)
    rw [count, List.range'_succ, List.map_cons, requestedFrom]
    refine congrArg (_ :: ·) ?_
    cases h : uniformBelow (digestAt hmacSha256 seed roundIndex) modulus with
    | some result =>
      have last : ¬roundIndex < n / 8 := fun earlier => by
        rw [digest.mpr earlier] at h
        cases h
      obtain rfl : rest = 0 := by omega
      rfl
    | none =>
      have earlier := digest.mp h
      have tail := @ih (roundIndex + 1) (by omega) (by omega)
      rw [show n / 8 + 1 - (roundIndex + 1) = rest by omega] at tail
      exact tail

end

/-- The words of the stream decide: whether there is an outcome, which one, and how many digests it takes. -/
theorem derive_outcome_stream (digests : ∀ key text, (hmacSha256 key text).length = 32) (seed : SeedMaterial)
    (positive : 0 < modulus) :
    ((∃ outcome, DerivesOutcome hmacSha256 seed modulus outcome) ↔
      ∃ n, streamWord hmacSha256 seed n < 2 ^ 32 / modulus * modulus) ∧
    ∀ n, streamWord hmacSha256 seed n < 2 ^ 32 / modulus * modulus →
      (∀ k < n, 2 ^ 32 / modulus * modulus ≤ streamWord hmacSha256 seed k) →
      streamWord hmacSha256 seed n % modulus < modulus ∧
      ∀ fuel, (deriveOutcome hmacSha256 fuel seed modulus =
          if n / 8 < fuel then some (streamWord hmacSha256 seed n % modulus) else none) ∧
        (n / 8 < fuel → requestedFrom hmacSha256 seed modulus fuel 0 =
          (List.range (n / 8 + 1)).map (message seed.clientSeed seed.nonce)) := by
  refine ⟨⟨?_, ?_⟩, ?_⟩
  · rintro ⟨outcome, fuel, derived⟩
    unfold deriveOutcome at derived
    rw [deriveOutcomeFrom_eq digests] at derived
    obtain ⟨word, found, -⟩ := Option.map_eq_some_iff.mp derived
    have below := List.find?_some found
    obtain ⟨n, -, rfl⟩ := List.mem_map.mp (List.mem_of_find?_eq_some found)
    exact ⟨8 * 0 + n, of_decide_eq_true below⟩
  · intro accepted
    have below := Nat.find_spec accepted
    have first : ∀ k < Nat.find accepted, acceptanceLimit modulus ≤ streamWord hmacSha256 seed k :=
      fun k lt => Nat.not_lt.mp (Nat.find_min accepted lt)
    refine ⟨streamWord hmacSha256 seed (Nat.find accepted) % modulus, Nat.find accepted / 8 + 1, ?_⟩
    rw [deriveOutcome_first below first digests, if_pos (Nat.lt_succ_self _)]
  · intro n below first
    refine ⟨Nat.mod_lt _ positive, fun fuel => ⟨deriveOutcome_first below first digests fuel, fun enough => ?_⟩⟩
    rw [requestedFrom_first below first digests (Nat.zero_le _) (by omega), List.range_eq_range']
    rfl

end

/-- A function that rejects the first seven words of every digest. -/
def lateHmac (_ _ : Bytes) : Bytes := List.replicate 28 255 ++ [0, 0, 0, 7]

theorem derive_outcome_stream_lateHmac :
    deriveOutcome lateHmac 1 { serverSeed := [], clientSeed := "", nonce := 1 } 37 = some 7 ∧
    requestedFrom lateHmac { serverSeed := [], clientSeed := "", nonce := 1 } 37 1 0 = [message "" 1 0] := by
  obtain ⟨-, returns⟩ := @derive_outcome_stream lateHmac 37 (fun _ _ => rfl)
    { serverSeed := [], clientSeed := "", nonce := 1 } (by decide)
  obtain ⟨-, runs⟩ := returns 7 (by decide) (by decide)
  exact ⟨(runs 1).1.trans (by decide), (runs 1).2 (by decide)⟩

end TheClub
