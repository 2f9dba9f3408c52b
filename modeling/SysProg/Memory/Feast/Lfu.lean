import SysProg.Memory.Feast
import Mathlib.Tactic

namespace SysProg.Memory.Feast

open Function

/-! ## The loop that looks for the dish and for the least used platter -/

/-- Less used, or equally used and further left. -/
def Precedes (platters : Platters) (i j : Fin tableSpace) : Prop :=
  (platters i).uses < (platters j).uses ∨ (platters i).uses = (platters j).uses ∧ i ≤ j

variable {platters : Platters} {orderId : Int}

theorem scan_found {least found last : Fin tableSpace} {rest : List (Fin tableSpace)}
    (scanned : scan platters orderId least rest = (some found, last)) : (platters found).dish = orderId := by
  induction rest generalizing least with
  | nil => cases scanned
  | cons i rest ih =>
      simp only [scan] at scanned
      split at scanned
      · cases scanned
        assumption
      · exact ih scanned

theorem scan_missing {least last : Fin tableSpace} {rest : List (Fin tableSpace)}
    (ascending : rest.Pairwise (· < ·)) (ahead : ∀ i ∈ rest, least ≤ i)
    (scanned : scan platters orderId least rest = (none, last)) :
    (∀ i ∈ rest, (platters i).dish ≠ orderId) ∧ Precedes platters last least ∧ ∀ i ∈ rest, Precedes platters last i := by
  induction rest generalizing least with
  | nil =>
      cases scanned
      exact ⟨by simp, .inr ⟨rfl, le_refl _⟩, by simp⟩
  | cons i rest ih =>
      obtain ⟨first, later⟩ := List.pairwise_cons.mp ascending
      simp only [scan] at scanned
      split at scanned
      · cases scanned
      · rename_i other
        split at scanned
        · rename_i less
          obtain ⟨missing, before, rest⟩ := ih later (fun j member => le_of_lt (first j member)) scanned
          refine ⟨List.forall_mem_cons.mpr ⟨other, missing⟩, ?_, List.forall_mem_cons.mpr ⟨before, rest⟩⟩
          rcases before with fewer | ⟨same, -⟩
          · exact .inl (fewer.trans less)
          · exact .inl (same ▸ less)
        · rename_i notLess
          obtain ⟨missing, before, rest⟩ := ih later (fun j member => ahead j (List.mem_cons_of_mem i member)) scanned
          refine ⟨List.forall_mem_cons.mpr ⟨other, missing⟩, before, List.forall_mem_cons.mpr ⟨?_, rest⟩⟩
          have inOrder := ahead i List.mem_cons_self
          rcases before with fewer | ⟨same, left⟩
          · exact .inl (lt_of_lt_of_le fewer (not_lt.mp notLess))
          · rcases lt_or_eq_of_le (not_lt.mp notLess) with fewer | equal
            · exact .inl (same ▸ fewer)
            · exact .inr ⟨same.trans equal, left.trans inOrder⟩

/-- The dish is on some platter. -/
def OnTable (table : Table) (dish : Int) : Prop := ∃ i, (table.platters i).dish = dish

instance (table : Table) (dish : Int) : Decidable (OnTable table dish) :=
  inferInstanceAs (Decidable (∃ i, (table.platters i).dish = dish))

theorem serveDish_hit {table : Table} (hit : OnTable table orderId) :
    ∃ i, (table.platters i).dish = orderId ∧
      (serveDish table orderId).platters =
        update table.platters i { dish := orderId, uses := wrapInt ((table.platters i).uses + 1) } ∧
      (serveDish table orderId).fetches = table.fetches := by
  unfold serveDish
  split
  · rename_i found last scanned
    have dish := scan_found scanned
    refine ⟨found, dish, ?_, rfl⟩
    simp only [dish]
  · rename_i last scanned
    obtain ⟨i, dish⟩ := hit
    have missing := (scan_missing (List.pairwise_lt_finRange tableSpace) (fun i _ => Fin.zero_le i) scanned).1
    exact absurd dish (missing i (List.mem_finRange i))

theorem serveDish_miss {table : Table} (miss : ¬ OnTable table orderId) :
    ∃ i, (∀ j, Precedes table.platters i j) ∧
      (serveDish table orderId).platters = update table.platters i { dish := orderId, uses := 0 } ∧
      (serveDish table orderId).fetches = wrapInt (table.fetches + 1) := by
  unfold serveDish
  split
  · rename_i found last scanned
    exact absurd ⟨found, scan_found scanned⟩ miss
  · rename_i last scanned
    have before := scan_missing (List.pairwise_lt_finRange tableSpace) (fun i _ => Fin.zero_le i) scanned
    exact ⟨last, fun j => before.2.2 j (List.mem_finRange j), rfl, rfl⟩

/-! ## Histories of orders -/

/-- The table after the orders, from the one that `main` lays. -/
def served (orders : List Int) : Table := orders.foldl serveDish laid

theorem served_snoc (orders : List Int) (order : Int) : served (orders ++ [order]) = serveDish (served orders) order := by
  simp [served]

/-- The number of orders whose dish was not on the table when ordered. -/
def missesFrom (table : Table) : List Int → Nat
  | [] => 0
  | order :: rest => (if OnTable table order then 0 else 1) + missesFrom (serveDish table order) rest

theorem missesFrom_snoc (table : Table) (orders : List Int) (order : Int) :
    missesFrom table (orders ++ [order]) =
      missesFrom table orders + if OnTable (orders.foldl serveDish table) order then 0 else 1 := by
  induction orders generalizing table with
  | nil => exact Nat.add_comm _ _
  | cons first rest ih =>
      rw [List.cons_append, missesFrom, missesFrom, ih, Nat.add_assoc]
      rfl

/-- The misses from the table that `main` lays. -/
def misses (orders : List Int) : Nat := missesFrom laid orders

theorem misses_snoc (orders : List Int) (order : Int) :
    misses (orders ++ [order]) = misses orders + if OnTable (served orders) order then 0 else 1 :=
  missesFrom_snoc laid orders order

theorem missesFrom_le (table : Table) (orders : List Int) : missesFrom table orders ≤ orders.length := by
  induction orders generalizing table with
  | nil => exact Nat.le_refl 0
  | cons first rest ih =>
      have tail := ih (serveDish table first)
      simp only [missesFrom, List.length_cons]
      split <;> omega

/-- The dish was last fetched by the order between `earlier` and `later`. -/
structure LastFetch (orders earlier later : List Int) (dish : Int) : Prop where
  split : orders = earlier ++ dish :: later
  missed : ¬ OnTable (served earlier) dish
  kept : ∀ between rest, later = between ++ dish :: rest → OnTable (served (earlier ++ dish :: between)) dish

variable {orders earlier later : List Int} {order dish : Int}

theorem LastFetch.snoc (fetch : LastFetch orders earlier later dish)
    (again : order = dish → OnTable (served orders) dish) :
    LastFetch (orders ++ [order]) earlier (later ++ [order]) dish where
  split := by simp [fetch.split]
  missed := fetch.missed
  kept := by
    intro between rest joined
    rcases List.eq_nil_or_concat rest with rfl | ⟨front, last, rfl⟩
    · obtain ⟨rfl, same⟩ := List.append_inj' joined rfl
      rw [← fetch.split]
      exact again (List.singleton_inj.mp same)
    · rw [List.concat_eq_append, ← List.cons_append, ← List.append_assoc] at joined
      exact fetch.kept between front (List.append_inj' joined rfl).1

/-- An empty platter, or a dish with the number of orders for it since it was fetched. -/
def Counted (orders : List Int) (platter : Platter) : Prop :=
  platter = { dish := -1, uses := -1 } ∨
    platter.dish ≠ -1 ∧ ∃ earlier later, LastFetch orders earlier later platter.dish ∧
      platter.uses = later.count platter.dish

structure Lfu (orders : List Int) : Prop where
  counted : ∀ i, Counted orders ((served orders).platters i)
  distinct : ∀ i j, ((served orders).platters i).dish = ((served orders).platters j).dish →
    ((served orders).platters i).dish ≠ -1 → i = j
  fetches : (served orders).fetches = misses orders

theorem lfu_nil : Lfu [] where
  counted := fun _ => .inl rfl
  distinct := fun _ _ _ filled => absurd rfl filled
  fetches := rfl

theorem Counted.snoc {platter : Platter} (counted : Counted orders platter) (other : platter.dish ≠ order) :
    Counted (orders ++ [order]) platter := by
  rcases counted with empty | ⟨filled, earlier, later, fetch, uses⟩
  · exact .inl empty
  · refine .inr ⟨filled, earlier, later ++ [order], fetch.snoc fun same => absurd same.symm other, ?_⟩
    rw [uses, List.count_append, List.count_singleton]
    simp [other.symm]

theorem Lfu.hit (lfu : Lfu orders) (real : order ≠ -1) (bounded : orders.length + 1 < 2 ^ 31)
    (hit : OnTable (served orders) order) : Lfu (orders ++ [order]) := by
  obtain ⟨i, dish, platters, fetches⟩ := serveDish_hit hit
  rw [← served_snoc] at platters fetches
  have otherDish : ∀ j, j ≠ i → ((served orders).platters j).dish ≠ order := by
    intro j other same
    exact other (lfu.distinct j i (same.trans dish.symm) (same ▸ real))
  constructor
  · intro j
    rw [platters]
    by_cases same : j = i
    · subst same
      rw [update_self]
      rcases lfu.counted j with empty | ⟨filled, earlier, later, fetch, uses⟩
      · rw [empty] at dish
        exact absurd dish.symm real
      · rw [dish] at fetch uses
        have short := List.count_le_length (a := order) (l := later)
        have size := congrArg List.length fetch.split
        simp only [List.length_append, List.length_cons] at size
        refine .inr ⟨real, earlier, later ++ [order], fetch.snoc fun _ => hit, ?_⟩
        rw [uses, wrapInt_of_range (by omega) (by omega), List.count_append, List.count_singleton_self]
        push_cast
        rfl
    · rw [update_of_ne same]
      exact (lfu.counted j).snoc (otherDish j same)
  · have dishes : ∀ j, ((served (orders ++ [order])).platters j).dish = ((served orders).platters j).dish := by
      intro j
      rw [platters]
      by_cases same : j = i
      · subst same
        rw [update_self]
        exact dish.symm
      · rw [update_of_ne same]
    intro j k equal filled
    rw [dishes, dishes] at equal
    rw [dishes] at filled
    exact lfu.distinct j k equal filled
  · have here := misses_snoc orders order
    rw [if_pos hit, Nat.add_zero] at here
    rw [fetches, lfu.fetches, here]

theorem Lfu.miss (lfu : Lfu orders) (real : order ≠ -1) (bounded : orders.length + 1 < 2 ^ 31)
    (miss : ¬ OnTable (served orders) order) : Lfu (orders ++ [order]) := by
  obtain ⟨i, -, platters, fetches⟩ := serveDish_miss miss
  rw [← served_snoc] at platters fetches
  have otherDish : ∀ j, ((served orders).platters j).dish ≠ order := fun j same => miss ⟨j, same⟩
  constructor
  · intro j
    rw [platters]
    by_cases same : j = i
    · subst same
      rw [update_self]
      exact .inr ⟨real, orders, [], ⟨rfl, miss, by simp⟩, rfl⟩
    · rw [update_of_ne same]
      exact (lfu.counted j).snoc (otherDish j)
  · intro j k equal filled
    rw [platters] at equal filled
    by_cases first : j = i
    · by_cases second : k = i
      · rw [first, second]
      · rw [first, update_self, update_of_ne second] at equal
        exact absurd equal.symm (otherDish k)
    · by_cases second : k = i
      · rw [second, update_self, update_of_ne first] at equal
        exact absurd equal (otherDish j)
      · rw [update_of_ne first] at equal filled
        rw [update_of_ne second] at equal
        exact lfu.distinct j k equal filled
  · have here := misses_snoc orders order
    have few : misses orders ≤ orders.length := missesFrom_le laid orders
    rw [if_neg miss] at here
    rw [fetches, lfu.fetches, here, wrapInt_of_range (by omega) (by omega)]
    push_cast
    rfl

theorem lfu_of_orders (real : ∀ order ∈ orders, order ≠ -1) (bounded : orders.length < 2 ^ 31) : Lfu orders := by
  induction orders using List.reverseRecOn with
  | nil => exact lfu_nil
  | append_singleton orders order ih =>
      rw [List.length_append, List.length_singleton] at bounded
      have lfu := ih (fun earlier member => real earlier (List.mem_append_left _ member)) (by omega)
      have ordered := real order (by simp)
      by_cases hit : OnTable (served orders) order
      · exact lfu.hit ordered bounded hit
      · exact lfu.miss ordered bounded hit

/-! ## The table is a least-frequently-used cache -/

/-- A source that has the given orders and then ends. -/
def takeOrder : List Int → Int × List Int
  | [] => (-1, [])
  | order :: rest => (order, rest)

theorem serveDishes_runs {fuel : Nat} (table : Table) (real : ∀ order ∈ orders, order ≠ -1)
    (enough : orders.length < fuel) :
    serveDishes takeOrder fuel orders table = .ok (orders.foldl serveDish table) := by
  induction orders generalizing fuel table with
  | nil =>
      obtain ⟨fuel, rfl⟩ := Nat.exists_eq_add_of_lt enough
      rfl
  | cons order rest ih =>
      obtain ⟨fuel, rfl⟩ : ∃ less, fuel = less + 1 := ⟨fuel - 1, by omega⟩
      obtain ⟨first, others⟩ := List.forall_mem_cons.mp real
      simp only [serveDishes, takeOrder, ne_eq, first, not_false_eq_true, if_true, List.foldl_cons]
      rw [List.length_cons] at enough
      exact ih (serveDish table order) others (by omega)

def Platter.Empty (platter : Platter) : Prop := platter.uses = -1

theorem Counted.nonneg {platter : Platter} (counted : Counted orders platter) (filled : ¬ platter.Empty) :
    0 ≤ platter.uses := by
  rcases counted with empty | ⟨-, -, later, -, uses⟩
  · rw [empty] at filled
    exact absurd rfl filled
  · omega

theorem Counted.dish_of_filled {platter : Platter} (counted : Counted orders platter) (filled : ¬ platter.Empty) :
    platter.dish ≠ -1 := by
  rcases counted with empty | known
  · rw [empty] at filled
    exact absurd rfl filled
  · exact known.1

theorem Lfu.resident (lfu : Lfu orders) (i : Fin tableSpace) (filled : ¬ ((served orders).platters i).Empty) :
    ∃ earlier later, LastFetch orders earlier later ((served orders).platters i).dish ∧
      ((served orders).platters i).uses = later.count ((served orders).platters i).dish := by
  rcases lfu.counted i with empty | ⟨-, known⟩
  · rw [empty] at filled
    exact absurd rfl filled
  · exact known

theorem Lfu.ordered (lfu : Lfu (orders ++ [order])) (real : order ≠ -1) :
    ∃! i, ((served (orders ++ [order])).platters i).dish = order := by
  have some : ∃ i, ((served (orders ++ [order])).platters i).dish = order := by
    rw [served_snoc]
    by_cases hit : OnTable (served orders) order
    · obtain ⟨i, -, platters, -⟩ := serveDish_hit hit
      exact ⟨i, by rw [platters, update_self]⟩
    · obtain ⟨i, -, platters, -⟩ := serveDish_miss hit
      exact ⟨i, by rw [platters, update_self]⟩
  obtain ⟨i, dish⟩ := some
  refine ⟨i, dish, ?_⟩
  intro j same
  exact lfu.distinct j i (same.trans dish.symm) (by rw [same]; exact real)

theorem served_changes (orders : List Int) (order : Int) :
    ∃ i, ∀ j, j ≠ i → (served (orders ++ [order])).platters j = (served orders).platters j := by
  rw [served_snoc]
  by_cases hit : OnTable (served orders) order
  · obtain ⟨i, -, platters, -⟩ := serveDish_hit hit
    exact ⟨i, fun j other => by rw [platters, update_of_ne other]⟩
  · obtain ⟨i, -, platters, -⟩ := serveDish_miss hit
    exact ⟨i, fun j other => by rw [platters, update_of_ne other]⟩

/-- The platter that makes room on a miss. -/
structure Evicted (platters : Platters) (i : Fin tableSpace) : Prop where
  empty : (∃ j, (platters j).Empty) → (platters i).Empty
  least : (∀ j, ¬ (platters j).Empty) → ∀ j, (platters i).uses ≤ (platters j).uses
  leftmost : (∀ j, ¬ (platters j).Empty) → ∀ j, j < i → (platters i).uses < (platters j).uses

theorem Lfu.evicts (lfu : Lfu orders) (miss : ¬ OnTable (served orders) order) :
    ∃ i, Evicted (served orders).platters i ∧
      (served (orders ++ [order])).platters = update (served orders).platters i { dish := order, uses := 0 } := by
  obtain ⟨i, precedes, platters, -⟩ := serveDish_miss miss
  rw [← served_snoc] at platters
  have least : ∀ j, ((served orders).platters i).uses ≤ ((served orders).platters j).uses := by
    intro j
    rcases precedes j with fewer | ⟨same, -⟩
    · exact le_of_lt fewer
    · exact le_of_eq same
  refine ⟨i, ⟨?_, fun _ => least, ?_⟩, platters⟩
  · intro someEmpty
    obtain ⟨j, empty⟩ := someEmpty
    by_contra filled
    have nonneg := (lfu.counted i).nonneg filled
    have below := least j
    rw [empty] at below
    omega
  · intro _ j before
    rcases precedes j with fewer | ⟨-, after⟩
    · exact fewer
    · exact absurd before (not_lt.mpr after)

/-- After every order of every history the table is that of a
least-frequently-used cache, and `serve_dishes` returns the number of misses. -/
theorem serveDishes_lfu (orders : List Int) (real : ∀ order ∈ orders, order ≠ -1)
    (bounded : orders.length < 2 ^ 31) :
    (∀ fuel, orders.length < fuel → serveDishes takeOrder fuel orders laid = .ok (served orders)) ∧
    (served orders).fetches = misses orders ∧
    ∀ earlier order later, orders = earlier ++ order :: later →
      let before := (served earlier).platters
      let after := (served (earlier ++ [order])).platters
      (∃! i, (after i).dish = order) ∧
      (∀ i j, ¬ (after i).Empty → ¬ (after j).Empty → (after i).dish = (after j).dish → i = j) ∧
      (∃ i, ∀ j, j ≠ i → after j = before j) ∧
      (∀ i, ¬ (after i).Empty → ∃ first rest, LastFetch (earlier ++ [order]) first rest (after i).dish ∧
        (after i).uses = rest.count (after i).dish) ∧
      ((∀ i, (before i).dish ≠ order) →
        ∃ i, Evicted before i ∧ after = update before i { dish := order, uses := 0 }) := by
  refine ⟨fun fuel enough => serveDishes_runs laid real enough, (lfu_of_orders real bounded).fetches, ?_⟩
  intro earlier order later split
  subst split
  have lengths := bounded
  rw [List.length_append, List.length_cons] at lengths
  have lfu : Lfu earlier := lfu_of_orders (fun order member => real order (by simp [member])) (by omega)
  have ordered : order ≠ -1 := real order (by simp)
  have lfuAfter : Lfu (earlier ++ [order]) := by
    apply lfu_of_orders
    · intro order member
      apply real order
      simp only [List.mem_append, List.mem_cons] at member ⊢
      tauto
    · simp
      omega
  refine ⟨lfuAfter.ordered ordered, ?_, served_changes earlier order, lfuAfter.resident, ?_⟩
  · intro i j first _ same
    exact lfuAfter.distinct i j same ((lfuAfter.counted i).dish_of_filled first)
  · intro missing
    exact lfu.evicts fun hit => hit.elim missing

theorem serveDishes_lfu_six : (served [1, 2, 3, 4, 5, 1, 6]).fetches = 6 ∧
    ∃ i, Evicted (served [1, 2, 3, 4, 5, 1]).platters i ∧
      (served [1, 2, 3, 4, 5, 1, 6]).platters =
        update (served [1, 2, 3, 4, 5, 1]).platters i { dish := 6, uses := 0 } := by
  obtain ⟨-, fetches, history⟩ := serveDishes_lfu [1, 2, 3, 4, 5, 1, 6] (by decide) (by decide)
  obtain ⟨-, -, -, -, evicts⟩ := history [1, 2, 3, 4, 5, 1] 6 [] rfl
  exact ⟨fetches, evicts (by decide)⟩

end SysProg.Memory.Feast
