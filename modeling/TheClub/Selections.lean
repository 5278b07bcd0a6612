import TheClub.HouseEdge

/-!
The selections a bet type documents against the ones it accepts. A figure is described by the cells
of the grid; the derived lists hold the figures and nothing else. A list is looked up as a set and a
map by one key, so a repetition or a key beside the one that is read is overlooked.
-/

namespace TheClub.Roulette

theorem mem_range {n start stop : Int} : n ∈ range start stop ↔ start ≤ n ∧ n < stop := by
  unfold range
  simp only [List.bind_eq_flatMap, List.pure_def, List.mem_map, List.mem_flatMap, List.mem_range, List.mem_singleton]
  constructor
  · rintro ⟨k, ⟨j, small, same⟩, sum⟩
    omega
  · rintro ⟨low, high⟩
    exact ⟨n - start, ⟨(n - start).toNat, by omega, by omega⟩, by omega⟩

/-! ### The figures of the grid -/

/-- Rows 1 to 3 and columns 1 to 12. -/
def OnGrid (row col : Int) : Prop := 1 ≤ row ∧ row ≤ 3 ∧ 1 ≤ col ∧ col ≤ 12

/-- The numbers a bet on single numbers may cover. -/
inductive Figure : BetType → Finset Int → Prop
  | straight (n : Int) (low : 0 ≤ n) (high : n ≤ 36) : Figure .straight {n}
  | across (row col : Int) (cell : OnGrid row col) (next : OnGrid row (col + 1)) :
      Figure .split {numberAt row col, numberAt row (col + 1)}
  | along (row col : Int) (cell : OnGrid row col) (next : OnGrid (row + 1) col) :
      Figure .split {numberAt row col, numberAt (row + 1) col}
  | street (col : Int) (cell : OnGrid 1 col) : Figure .street {numberAt 1 col, numberAt 2 col, numberAt 3 col}
  | corner (row col : Int) (cell : OnGrid row col) (opposite : OnGrid (row + 1) (col + 1)) :
      Figure .corner {numberAt row col, numberAt (row + 1) col, numberAt row (col + 1), numberAt (row + 1) (col + 1)}
  | line (col : Int) (cell : OnGrid 1 col) (next : OnGrid 1 (col + 1)) : Figure .line
      ({numberAt 1 col, numberAt 2 col, numberAt 3 col} ∪
        {numberAt 1 (col + 1), numberAt 2 (col + 1), numberAt 3 (col + 1)})

theorem onGrid_right {row col : Int} (cell : OnGrid row col) : OnGrid row (col + 1) ↔ col < COLS := by
  unfold OnGrid COLS at *
  omega

theorem onGrid_above {row col : Int} (cell : OnGrid row col) : OnGrid (row + 1) col ↔ row < ROWS := by
  unfold OnGrid ROWS at *
  omega

theorem numberAt_position {n : Int} (onGrid : 1 ≤ n ∧ n ≤ 36) :
    OnGrid (position n).1 (position n).2 ∧ numberAt (position n).1 (position n).2 = n := by
  unfold OnGrid position numberAt ROWS
  omega

theorem position_numberAt {row col : Int} (cell : OnGrid row col) :
    (1 ≤ numberAt row col ∧ numberAt row col ≤ 36) ∧ position (numberAt row col) = (row, col) := by
  unfold OnGrid at cell
  unfold position numberAt ROWS
  refine ⟨by omega, Prod.ext ?_ ?_⟩
  · show ((col - 1) * 3 + row - 1) % 3 + 1 = row
    omega
  · show ((col - 1) * 3 + row - 1) / 3 + 1 = col
    omega

theorem street_eq (col : Int) : ((range 1 (ROWS + 1)).map fun row => numberAt row col).toFinset =
    {numberAt 1 col, numberAt 2 col, numberAt 3 col} := by
  have rows : range 1 (ROWS + 1) = [1, 2, 3] := by decide
  rw [rows, List.map_cons, List.map_cons, List.map_cons, List.map_nil, List.toFinset_cons, List.toFinset_cons,
    List.toFinset_cons, List.toFinset_nil, insert_empty_eq]

theorem pair_eq (a b : Int) : [a, b].toFinset = {a, b} := by
  rw [List.toFinset_cons, List.toFinset_cons, List.toFinset_nil, insert_empty_eq]

theorem block_eq (a b c d : Int) : [a, b, c, d].toFinset = {a, b, c, d} := by
  rw [List.toFinset_cons, List.toFinset_cons, List.toFinset_cons, List.toFinset_cons, List.toFinset_nil,
    insert_empty_eq]

theorem straight_figures {s : Finset Int} :
    s ∈ (range 0 37).map (fun n => ({n} : Finset Int)) ↔ Figure .straight s := by
  rw [List.mem_map]
  constructor
  · rintro ⟨n, inside, same⟩
    obtain ⟨low, high⟩ := mem_range.mp inside
    rw [← same]
    exact .straight n low (by omega)
  · intro figure
    cases figure with
    | straight n low high => exact ⟨n, mem_range.mpr ⟨low, by omega⟩, rfl⟩

theorem mem_splits {s : Finset Int} : s ∈ splits ↔ ∃ n, (1 ≤ n ∧ n < 37) ∧
    ((position n).2 < COLS ∧ s = {n, numberAt (position n).1 ((position n).2 + 1)} ∨
      (position n).1 < ROWS ∧ s = {n, numberAt ((position n).1 + 1) (position n).2}) := by
  unfold splits
  simp only [List.mem_flatMap, mem_range, List.mem_append, List.mem_ite_nil_right, List.mem_singleton, pair_eq]

theorem split_figures {s : Finset Int} : s ∈ VALID_SPLITS ↔ Figure .split s := by
  unfold VALID_SPLITS
  rw [mem_splits]
  constructor
  · rintro ⟨n, inside, found⟩
    obtain ⟨cell, same⟩ := numberAt_position ⟨inside.1, Int.le_of_lt_add_one inside.2⟩
    generalize position n = place at *
    subst same
    rcases found with ⟨inner, rfl⟩ | ⟨inner, rfl⟩
    · exact .across place.1 place.2 cell ((onGrid_right cell).mpr inner)
    · exact .along place.1 place.2 cell ((onGrid_above cell).mpr inner)
  · intro figure
    cases figure with
    | across row col cell next =>
      obtain ⟨inside, place⟩ := position_numberAt cell
      refine ⟨numberAt row col, ⟨inside.1, by omega⟩, ?_⟩
      rw [place]
      exact Or.inl ⟨(onGrid_right cell).mp next, rfl⟩
    | along row col cell next =>
      obtain ⟨inside, place⟩ := position_numberAt cell
      refine ⟨numberAt row col, ⟨inside.1, by omega⟩, ?_⟩
      rw [place]
      exact Or.inr ⟨(onGrid_above cell).mp next, rfl⟩

theorem street_figures {s : Finset Int} : s ∈ VALID_STREETS ↔ Figure .street s := by
  unfold VALID_STREETS streets
  rw [List.mem_map]
  constructor
  · rintro ⟨col, inside, same⟩
    obtain ⟨low, high⟩ := mem_range.mp inside
    rw [← same, street_eq]
    exact .street col (by unfold OnGrid; unfold COLS at high; omega)
  · intro figure
    cases figure with
    | street col cell =>
      unfold OnGrid at cell
      exact ⟨col, mem_range.mpr (by unfold COLS; omega), street_eq col⟩

theorem corner_figures {s : Finset Int} : s ∈ VALID_CORNERS ↔ Figure .corner s := by
  unfold VALID_CORNERS corners
  rw [List.mem_flatMap]
  constructor
  · rintro ⟨col, inside, member⟩
    obtain ⟨low, high⟩ := mem_range.mp inside
    obtain ⟨row, within, same⟩ := List.mem_map.mp member
    obtain ⟨bottom, top⟩ := mem_range.mp within
    unfold COLS at high
    unfold ROWS at top
    rw [← same]
    rw [block_eq]
    exact .corner row col (by unfold OnGrid; omega) (by unfold OnGrid; omega)
  · intro figure
    cases figure with
    | corner row col cell opposite =>
      unfold OnGrid at cell opposite
      refine ⟨col, mem_range.mpr (by unfold COLS; omega),
        List.mem_map.mpr ⟨row, mem_range.mpr (by unfold ROWS; omega), ?_⟩⟩
      exact block_eq ..

theorem lines_eq : lines = (range 1 COLS).map fun col =>
    ((range 1 (ROWS + 1)).map fun row => numberAt row col).toFinset ∪
      ((range 1 (ROWS + 1)).map fun row => numberAt row (col + 1)).toFinset := by
  rfl

theorem line_figures {s : Finset Int} : s ∈ VALID_LINES ↔ Figure .line s := by
  unfold VALID_LINES
  rw [lines_eq, List.mem_map]
  constructor
  · rintro ⟨col, inside, same⟩
    obtain ⟨low, high⟩ := mem_range.mp inside
    unfold COLS at high
    rw [← same, street_eq, street_eq]
    exact .line col (by unfold OnGrid; omega) (by unfold OnGrid; omega)
  · intro figure
    cases figure with
    | line col cell next =>
      unfold OnGrid at cell next
      exact ⟨col, mem_range.mpr (by unfold COLS; omega), by rw [street_eq, street_eq]⟩

theorem figures_iff {betType : BetType} {figures : List (Finset Int)} (h : NUMBERS_SELECTIONS betType = some figures)
    {s : Finset Int} : s ∈ figures ↔ Figure betType s := by
  cases betType with
  | straight =>
    cases h
    exact straight_figures
  | split =>
    cases h
    exact split_figures
  | street =>
    cases h
    exact street_figures
  | corner =>
    cases h
    exact corner_figures
  | line =>
    cases h
    exact line_figures
  | dozen | column | red | black | odd | even | high | low => cases h

theorem dozen_iff {i : Int} : (∃ s, DOZEN_BY_INDEX i = some s) ↔ 1 ≤ i ∧ i ≤ 3 := by
  unfold DOZEN_BY_INDEX
  constructor
  · rintro ⟨s, found⟩
    by_contra outside
    rw [if_neg (by omega), if_neg (by omega), if_neg (by omega)] at found
    cases found
  · rintro ⟨low, high⟩
    obtain rfl | rfl | rfl : i = 1 ∨ i = 2 ∨ i = 3 := by omega
    all_goals exact ⟨_, rfl⟩

theorem column_iff {i : Int} : (∃ s, COLUMN_BY_INDEX i = some s) ↔ 1 ≤ i ∧ i ≤ 3 := by
  have three : columns.length = 3 := by
    unfold columns
    rw [List.length_map]
    rfl
  unfold COLUMN_BY_INDEX
  constructor
  · rintro ⟨s, found⟩
    split at found
    · obtain ⟨bound, _⟩ := List.getElem?_eq_some_iff.mp found
      omega
    · cases found
  · rintro ⟨low, high⟩
    rw [if_pos low]
    exact ⟨_, List.getElem?_eq_getElem (by omega)⟩

theorem index_iff {betType : BetType} {byIndex : Int → Option (Finset Int)}
    (h : INDEX_SELECTIONS betType = some byIndex)
    {i : Int} : (∃ s, byIndex i = some s) ↔ 1 ≤ i ∧ i ≤ 3 := by
  cases betType with
  | dozen =>
    cases h
    exact dozen_iff
  | column =>
    cases h
    exact column_iff
  | straight | split | street | corner | line | red | black | odd | even | high | low => cases h

/-! ### Reading a map by one key -/

theorem mem_of_get {selection : Selection} {key : String} {value : SelectionValue}
    (read : selection.get key = some value) : (key, value) ∈ selection.entries := by
  unfold Selection.get at read
  obtain ⟨entry, found, same⟩ := Option.map_eq_some_iff.mp read
  have hit := List.find?_some found
  have own : entry.1 = key := of_decide_eq_true hit
  rw [← own, ← same]
  exact List.mem_of_find?_eq_some found

theorem get_singleton {selection : Selection} {key : String} {value : SelectionValue}
    (only : selection.entries = [(key, value)]) : selection.get key = some value := by
  unfold Selection.get
  rw [only, List.find?_cons, decide_eq_true rfl]
  rfl

/-- A map whose only key is the one that is read. -/
theorem entries_iff {selection : Selection} {key : String} {value : SelectionValue} :
    selection.entries = [(key, value)] ↔
    selection.get key = some value ∧ ¬ ∃ entry ∈ selection.entries, entry.1 ≠ key := by
  constructor
  · intro only
    refine ⟨get_singleton only, ?_⟩
    rintro ⟨entry, member, other⟩
    rw [only] at member
    rw [List.mem_singleton.mp member] at other
    exact other rfl
  · rintro ⟨read, alone⟩
    have keys : ∀ k ∈ selection.entries.map Prod.fst, k = key := by
      intro k member
      obtain ⟨entry, listed, same⟩ := List.mem_map.mp member
      by_contra other
      exact alone ⟨entry, listed, same ▸ other⟩
    have once := List.eq_replicate_of_mem keys
    have small : (selection.entries.map Prod.fst).length ≤ 1 := by
      by_contra more
      have nodup := selection.keys_nodup
      rw [once] at nodup
      exact more (List.nodup_replicate.mp nodup)
    rw [List.length_map] at small
    have member := mem_of_get read
    cases listed : selection.entries with
    | nil =>
      rw [listed] at member
      cases member
    | cons entry rest =>
      rw [listed] at small member
      obtain rfl := List.length_eq_zero_iff.mp (Nat.le_zero.mp (Nat.le_of_succ_le_succ small))
      rw [List.mem_singleton.mp member]

/-! ### What is documented and what is overlooked -/

/-- The selections the event schema describes for `betType`. -/
def Documented (betType : BetType) (selection : Selection) : Prop :=
  match betType with
  | .red | .black | .odd | .even | .high | .low => selection.entries = []
  | .dozen | .column => ∃ i : Int, (1 ≤ i ∧ i ≤ 3) ∧ selection.entries = [("index", .int i)]
  | .straight | .split | .street | .corner | .line =>
    ∃ l : List Int, (l.Nodup ∧ Figure betType l.toFinset) ∧ selection.entries = [("numbers", .list l)]

/-- The value that is read would do, but it repeats a number or the map has another key. -/
def Overlooked (betType : BetType) (selection : Selection) : Prop :=
  match betType with
  | .red | .black | .odd | .even | .high | .low => False
  | .dozen | .column => ∃ i : Int, (1 ≤ i ∧ i ≤ 3) ∧ selection.get "index" = some (.int i) ∧
      ∃ entry ∈ selection.entries, entry.1 ≠ "index"
  | .straight | .split | .street | .corner | .line => ∃ l : List Int, Figure betType l.toFinset ∧
      selection.get "numbers" = some (.list l) ∧ (¬ l.Nodup ∨ ∃ entry ∈ selection.entries, entry.1 ≠ "numbers")

/-- What a bet type covers: as many numbers of the wheel as declared, and of a list its members. -/
def Covers (betType : BetType) (selection : Selection) (s : Finset Int) : Prop :=
  s.card = (BET_SPECS betType).coverage ∧ (∀ n ∈ s, 0 ≤ n ∧ n ≤ 36) ∧
    (NUMBERS_SELECTIONS betType ≠ none → ∃ l, selection.get "numbers" = some (.list l) ∧ s = l.toFinset)

theorem accepts_fixed {betType : BetType} {fixed : Finset Int} (h : FIXED_SELECTIONS betType = some fixed)
    {selection : Selection} {s : Finset Int} :
    coveredNumbers betType selection = .ok s ↔ selection.entries = [] ∧ s = fixed := by
  unfold coveredNumbers
  rw [h]
  dsimp only
  split
  · rename_i extra
    constructor
    · intro same
      cases same
    · rintro ⟨empty, _⟩
      exact absurd empty extra
  · rename_i empty
    constructor
    · intro same
      exact ⟨not_not.mp empty, (Except.ok.inj same).symm⟩
    · rintro ⟨_, same⟩
      rw [same]

theorem accepts_numbers {betType : BetType} {figures : List (Finset Int)} (free : FIXED_SELECTIONS betType = none)
    (h : NUMBERS_SELECTIONS betType = some figures) {selection : Selection} {s : Finset Int} :
    coveredNumbers betType selection = .ok s ↔
      ∃ l : List Int, selection.get "numbers" = some (.list l) ∧ Figure betType l.toFinset ∧ s = l.toFinset := by
  unfold coveredNumbers
  rw [free, h]
  dsimp only
  split
  · rename_i numbers read
    split
    · rename_i member
      constructor
      · intro same
        exact ⟨numbers, read, (figures_iff h).mp member, (Except.ok.inj same).symm⟩
      · rintro ⟨l, read', _, same⟩
        cases read.symm.trans read'
        rw [same]
    · rename_i outside
      constructor
      · intro same
        cases same
      · rintro ⟨l, read', figure, _⟩
        cases read.symm.trans read'
        exact absurd ((figures_iff h).mpr figure) outside
  · rename_i other
    constructor
    · intro same
      cases same
    · rintro ⟨l, read, _⟩
      exact absurd read (other l)

theorem accepts_index {betType : BetType} {byIndex : Int → Option (Finset Int)} (free : FIXED_SELECTIONS betType = none)
    (free' : NUMBERS_SELECTIONS betType = none) (h : INDEX_SELECTIONS betType = some byIndex) {selection : Selection}
    {s : Finset Int} : coveredNumbers betType selection = .ok s ↔
      ∃ i : Int, selection.get "index" = some (.int i) ∧ byIndex i = some s := by
  unfold coveredNumbers
  rw [free, free', h]
  dsimp only
  split
  · rename_i byIndex' i same read
    cases same
    split
    · rename_i numbers found
      constructor
      · intro same
        exact ⟨i, read, found.trans (congrArg some (Except.ok.inj same))⟩
      · rintro ⟨j, read', found'⟩
        cases read.symm.trans read'
        rw [Option.some.inj (found.symm.trans found')]
    · rename_i missing
      constructor
      · intro same
        cases same
      · rintro ⟨j, read', found⟩
        cases read.symm.trans read'
        cases missing.symm.trans found
  · rename_i other
    constructor
    · intro same
      cases same
    · rintro ⟨i, read, _⟩
      exact (other byIndex i rfl read).elim

/-- Every bet type pays 36 times its stake in all. -/
theorem declared (betType : BetType) :
    ((BET_SPECS betType).coverage : Int) * ((BET_SPECS betType).payoutRatio + 1) = 36 := by
  cases betType <;> rfl

theorem covers {betType : BetType} {selection : Selection} {s : Finset Int}
    (accepted : coveredNumbers betType selection = .ok s) : Covers betType selection s := by
  obtain ⟨inside, pays⟩ := covered_fair accepted
  refine ⟨?_, inside, fun numbers => ?_⟩
  · have positive : (BET_SPECS betType).payoutRatio + 1 ≠ 0 := by
      cases betType <;> decide
    exact Int.ofNat_inj.mp (Int.eq_of_mul_eq_mul_right positive (pays.trans (declared betType).symm))
  · obtain ⟨figures, h⟩ := Option.ne_none_iff_exists'.mp numbers
    have free : FIXED_SELECTIONS betType = none := by
      cases betType <;> first | rfl | cases h
    obtain ⟨l, read, _, same⟩ := (accepts_numbers free h).mp accepted
    exact ⟨l, read, same⟩

/-! ### The selections that are accepted -/

/-- A reader that takes one value and ignores `Extra` and whether the value is `Plain`. -/
theorem overlooks_iff {α : Type} {Reads Fits Plain : α → Prop} {Extra : Prop}
    (unique : ∀ a b, Reads a → Reads b → a = b) :
    ((∃ a, Reads a ∧ Fits a) ↔ ∃ a, (Plain a ∧ Fits a) ∧ Reads a ∧ ¬ Extra) ↔
      ¬ ∃ a, Fits a ∧ Reads a ∧ (¬ Plain a ∨ Extra) := by
  constructor
  · rintro agrees ⟨a, fits, reads, overlooked⟩
    obtain ⟨b, ⟨plain, _⟩, reads', alone⟩ := agrees.mp ⟨a, reads, fits⟩
    obtain rfl := unique a b reads reads'
    exact overlooked.elim (fun repeated => repeated plain) alone
  · intro careful
    constructor
    · rintro ⟨a, reads, fits⟩
      by_contra undocumented
      refine careful ⟨a, fits, reads, ?_⟩
      by_contra neither
      exact undocumented ⟨a, ⟨not_not.mp fun repeated => neither (.inl repeated), fits⟩, reads, fun extra =>
        neither (.inr extra)⟩
    · rintro ⟨a, ⟨_, fits⟩, reads, _⟩
      exact ⟨a, reads, fits⟩

theorem accepts_documented_fixed {betType : BetType} {fixed : Finset Int} (h : FIXED_SELECTIONS betType = some fixed)
    {selection : Selection} : (∃ s, coveredNumbers betType selection = .ok s) ↔ selection.entries = [] := by
  constructor
  · rintro ⟨s, accepted⟩
    exact ((accepts_fixed h).mp accepted).1
  · intro empty
    exact ⟨fixed, (accepts_fixed h).mpr ⟨empty, rfl⟩⟩

theorem accepts_documented_numbers {betType : BetType} {figures : List (Finset Int)}
    (free : FIXED_SELECTIONS betType = none)
    (h : NUMBERS_SELECTIONS betType = some figures) {selection : Selection} :
    ((∃ s, coveredNumbers betType selection = .ok s) ↔
      ∃ l : List Int, (l.Nodup ∧ Figure betType l.toFinset) ∧ selection.entries = [("numbers", .list l)]) ↔
    ¬ ∃ l : List Int, Figure betType l.toFinset ∧ selection.get "numbers" = some (.list l) ∧
      (¬ l.Nodup ∨ ∃ entry ∈ selection.entries, entry.1 ≠ "numbers") := by
  have accepts : (∃ s, coveredNumbers betType selection = .ok s) ↔
      ∃ l : List Int, selection.get "numbers" = some (.list l) ∧ Figure betType l.toFinset := by
    constructor
    · rintro ⟨s, accepted⟩
      obtain ⟨l, read, figure, _⟩ := (accepts_numbers free h).mp accepted
      exact ⟨l, read, figure⟩
    · rintro ⟨l, read, figure⟩
      exact ⟨l.toFinset, (accepts_numbers free h).mpr ⟨l, read, figure, rfl⟩⟩
  simp only [accepts, entries_iff]
  apply overlooks_iff
  intro l l' read read'
  cases read.symm.trans read'
  rfl

theorem accepts_documented_index {betType : BetType} {byIndex : Int → Option (Finset Int)}
    (free : FIXED_SELECTIONS betType = none) (free' : NUMBERS_SELECTIONS betType = none)
    (h : INDEX_SELECTIONS betType = some byIndex) {selection : Selection} :
    ((∃ s, coveredNumbers betType selection = .ok s) ↔
      ∃ i : Int, (1 ≤ i ∧ i ≤ 3) ∧ selection.entries = [("index", .int i)]) ↔
    ¬ ∃ i : Int, (1 ≤ i ∧ i ≤ 3) ∧ selection.get "index" = some (.int i) ∧
      ∃ entry ∈ selection.entries, entry.1 ≠ "index" := by
  have accepts : (∃ s, coveredNumbers betType selection = .ok s) ↔
      ∃ i : Int, selection.get "index" = some (.int i) ∧ 1 ≤ i ∧ i ≤ 3 := by
    constructor
    · rintro ⟨s, accepted⟩
      obtain ⟨i, read, found⟩ := (accepts_index free free' h).mp accepted
      exact ⟨i, read, (index_iff h).mp ⟨s, found⟩⟩
    · rintro ⟨i, read, inside⟩
      obtain ⟨s, found⟩ := (index_iff h).mpr inside
      exact ⟨s, (accepts_index free free' h).mpr ⟨i, read, found⟩⟩
  have whole := @overlooks_iff Int (fun i => selection.get "index" = some (.int i)) (fun i => 1 ≤ i ∧ i ≤ 3)
    (fun _ => True)
    (∃ entry ∈ selection.entries, entry.1 ≠ "index") (by
      intro i j read read'
      cases read.symm.trans read'
      rfl)
  simp only [true_and, not_true, false_or] at whole
  rw [accepts]
  simp only [entries_iff]
  exact whole

/-- A selection is accepted exactly if it is documented, unless the bet type overlooks something in it. -/
theorem accepts_documented (betType : BetType) (selection : Selection) :
    (((∃ s, coveredNumbers betType selection = .ok s) ↔ Documented betType selection) ∧
      ∀ s, coveredNumbers betType selection = .ok s → Covers betType selection s) ↔ ¬ Overlooked betType selection := by
  rw [and_iff_left fun s => covers]
  cases betType with
  | red | black | odd | even | high | low => exact iff_of_true (accepts_documented_fixed rfl) id
  | dozen | column => exact accepts_documented_index rfl rfl rfl
  | straight | split | street | corner | line => exact accepts_documented_numbers rfl rfl

/-- `{"numbers": [7, 7]}` -/
def repeated : Selection := { entries := [("numbers", .list [7, 7])] }

theorem accepts_documented_repeated :
    coveredNumbers .straight repeated = .ok {7} ∧ ¬ Documented .straight repeated := by
  refine ⟨by decide +kernel, ?_⟩
  rintro ⟨l, ⟨plain, _⟩, only⟩
  cases only
  exact absurd plain (by decide)


end TheClub.Roulette
