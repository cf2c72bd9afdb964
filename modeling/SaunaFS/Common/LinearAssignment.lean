import Mathlib
import SaunaFS.Lib.Assignment

/-! Bertsekas' auction algorithm with ε-scaling (`src/common/linear_assignment_optimizer.h`).

Persons and objects are `Fin n`; `-1` in `assignment` and `object_assignment` is `none`
and `std::numeric_limits<V>::lowest()` is `⊥` of `WithBot Int`. Values and prices are
`Int` without bound: the callers keep the scaled values and the prices far below
`INT_MAX`. The bidding loop of a phase runs on fuel.

In a phase every assigned person holds an object within `eps` of its best net value
(`Inv.slack`), every object nobody holds still has its price from the start of the
phase (`Inv.unbid`), and while a person waits every price stays below a bound set by
the values and those starting prices (`Inv.bounded`). A bid raises one price by `eps`
or more, so a phase ends, and the last phase, with `eps = 1` on values scaled by
`size + 1`, leaves an optimal assignment (`Assignment.value_le_of_slack_scaled`).
-/

set_option autoImplicit false

namespace SaunaFS

namespace LinearAssignment

variable {n : Nat}

/-- What `detail::auctionStep` keeps between bids. -/
structure Auction (n : Nat) where
  assignment : Fin n → Option (Fin n)
  objectAssignment : Fin n → Option (Fin n)
  prices : Fin n → Int
  unassignedIdx : Fin n
  assignedCount : Nat

/-- `++unassigned_idx`, back to `0` at `size`. -/
def next (idx : Fin n) : Fin n := if h : idx.val + 1 < n then ⟨idx.val + 1, h⟩ else ⟨0, idx.pos⟩

/-- `while (assignment[unassigned_idx] >= 0) ...`: the first unassigned person from `idx`
on, among `fuel` persons. -/
def findUnassigned (assignment : Fin n → Option (Fin n)) : Nat → Fin n → Option (Fin n)
  | 0, _ => none
  | fuel + 1, idx => if assignment idx = none then some idx else findUnassigned assignment fuel (next idx)

/-- `c > v`, where `v` may still be `numeric_limits<V>::lowest()`, below every value. -/
def exceeds (c : Int) : WithBot Int → Bool
  | ⊥ => true
  | (v : Int) => decide (v < c)

theorem exceeds_iff (c : Int) (v : WithBot Int) : exceeds c v = true ↔ v < c := by
  cases v with
  | bot => simp [exceeds, WithBot.bot_lt_coe]
  | coe v => simp [exceeds]

/-- The body of the loop over the objects, on `(w, v, v_idx)`. -/
def bestStep (value : Fin n → Fin n → Int) (prices : Fin n → Int) (person : Fin n)
    (acc : WithBot Int × WithBot Int × Option (Fin n)) (i : Fin n) : WithBot Int × WithBot Int × Option (Fin n) :=
  let c := value person i - prices i
  if exceeds c acc.2.1 then (acc.2.1, c, some i) else (max (c : WithBot Int) acc.1, acc.2.1, acc.2.2)

/-- The loop over the objects: the second best net value `w` of `person`, its best `v`,
and the first object `v_idx` with the best. -/
def bestTwo (value : Fin n → Fin n → Int) (prices : Fin n → Int) (person : Fin n) :
    WithBot Int × WithBot Int × Option (Fin n) :=
  (List.finRange n).foldl (bestStep value prices person) (⊥, ⊥, none)

/-- `person` takes `object`, whose price goes up by `raise`; the object's holder, if
any, loses it. -/
def Auction.award (s : Auction n) (person object : Fin n) (raise : Int) : Auction n :=
  let released : (Fin n → Option (Fin n)) × Nat :=
    match s.objectAssignment object with
    | some holder => (Function.update s.assignment holder none, s.assignedCount - 1)
    | none => (s.assignment, s.assignedCount)
  { assignment := Function.update released.1 person (some object)
    objectAssignment := Function.update s.objectAssignment object (some person)
    prices := Function.update s.prices object (s.prices object + raise)
    unassignedIdx := person
    assignedCount := released.2 + 1 }

/-- One round of `while (assigned_count < size)`: the next unassigned person bids for
its best object, raising its price by `v - w + eps`. -/
def bid (value : Fin n → Fin n → Int) (eps : Int) (s : Auction n) : Option (Auction n) :=
  match findUnassigned s.assignment n s.unassignedIdx with
  | none => none
  | some person =>
    match bestTwo value s.prices person with
    | (some w, some v, some object) => some (s.award person object (v - w + eps))
    | _ => none

/-- `while (assigned_count < size)`, for `fuel` rounds at most. -/
def auctionLoop (value : Fin n → Fin n → Int) (eps : Int) : Nat → Auction n → Option (Auction n)
  | 0, _ => none
  | fuel + 1, s => if s.assignedCount < n then (bid value eps s).bind (auctionLoop value eps fuel) else some s

/-- `detail::auctionStep`: everybody unassigned, then bids until all are assigned. -/
def auctionStep [NeZero n] (value : Fin n → Fin n → Int) (eps : Int) (fuel : Nat) (prices : Fin n → Int) :
    Option (Auction n) :=
  auctionLoop value eps fuel ⟨fun _ => none, fun _ => none, prices, 0, 0⟩

/-- The phases of `auctionOptimization`: while `eps > 1` a phase and `eps = (eps + 2) / 5`,
then a phase with `eps = 1`; each phase starts from the prices the last one left. -/
def auctionPhases [NeZero n] (value : Fin n → Fin n → Int) (fuel : Nat) (prices : Fin n → Int) (eps : Int) :
    Option (Auction n) :=
  if 1 < eps then
    match auctionStep value eps fuel prices with
    | none => none
    | some s => auctionPhases value fuel s.prices ((eps + 2).tdiv 5)
  else auctionStep value 1 fuel prices
termination_by eps.toNat
decreasing_by
  rw [Int.tdiv_eq_ediv_of_nonneg (by omega)]
  omega

/-- What `auctionOptimization` leaves: `assignment`, `object_assignment`, and
`value_matrix`, which it scales in place. -/
structure Optimized (n : Nat) where
  assignment : Fin n → Option (Fin n)
  objectAssignment : Fin n → Option (Fin n)
  valueMatrix : Fin n → Fin n → Int

/-- `value_matrix[i][j] *= (size + 1)`: with values scaled so, `eps = 1` gives an optimal
assignment. -/
def scaleValues {size : Nat} (value : Fin size → Fin size → Int) : Fin size → Fin size → Int :=
  fun i j => value i j * (size + 1)

/-- The heuristic for the first `eps`, `(max_a + 12) / 25`, `max_a` the largest value. -/
def initialEps (value : Fin n → Fin n → Int) : Int :=
  let maxA : WithBot Int := (List.finRange n).foldl
    (fun m i => (List.finRange n).foldl (fun m j => max (value i j : WithBot Int) m) m) ⊥
  (maxA.unbotD 0 + 12).tdiv 25

/-- `auctionOptimization(value_matrix, assignment, object_assignment, size)`, with `fuel`
rounds for each phase. -/
def auctionOptimization (fuel : Nat) : (size : Nat) → (Fin size → Fin size → Int) → Option (Optimized size)
  | 0, value => some ⟨fun _ => none, fun _ => none, value⟩
  | 1, value => some ⟨fun _ => some 0, fun _ => some 0, value⟩
  | _ + 2, value =>
    let scaled := scaleValues value
    (auctionPhases scaled fuel (fun _ => 0) (initialEps scaled)).map fun s => ⟨s.assignment, s.objectAssignment, scaled⟩

/-! ## The search for an unassigned person -/

theorem next_val (idx : Fin n) : (next idx).val = (idx.val + 1) % n := by
  unfold next
  split_ifs with below
  · exact (Nat.mod_eq_of_lt below).symm
  · have last : idx.val + 1 = n := by omega
    simp [last]

theorem iterate_next_val (idx : Fin n) (k : Nat) : (next^[k] idx).val = (idx.val + k) % n := by
  induction k with
  | zero => simp [Nat.mod_eq_of_lt idx.isLt]
  | succ k ih => rw [Function.iterate_succ_apply', next_val, ih, Nat.mod_add_mod, Nat.add_assoc]

/-- Going round from any person reaches every person within `n` steps. -/
theorem exists_iterate_next (idx i : Fin n) : ∃ k < n, next^[k] idx = i := by
  by_cases ahead : idx.val ≤ i.val
  · refine ⟨i.val - idx.val, by omega, Fin.ext ?_⟩
    rw [iterate_next_val, show idx.val + (i.val - idx.val) = i.val by omega, Nat.mod_eq_of_lt i.isLt]
  · refine ⟨i.val + n - idx.val, by omega, Fin.ext ?_⟩
    rw [iterate_next_val, show idx.val + (i.val + n - idx.val) = i.val + n by omega, Nat.add_mod_right,
      Nat.mod_eq_of_lt i.isLt]

theorem findUnassigned_spec (assignment : Fin n → Option (Fin n)) :
    ∀ (fuel : Nat) (idx : Fin n), (∃ k < fuel, assignment (next^[k] idx) = none) →
      ∃ person, findUnassigned assignment fuel idx = some person ∧ assignment person = none
  | 0, _, ⟨_, bound, _⟩ => absurd bound (Nat.not_lt_zero _)
  | fuel + 1, idx, ⟨k, bound, free⟩ => by
    by_cases here : assignment idx = none
    · exact ⟨idx, by simp [findUnassigned, here], here⟩
    · rw [findUnassigned, if_neg here]
      cases k with
      | zero => exact absurd free here
      | succ k =>
        rw [Function.iterate_succ_apply] at free
        exact findUnassigned_spec assignment fuel (next idx) ⟨k, by omega, free⟩

/-- With somebody unassigned, the search finds an unassigned person. -/
theorem findUnassigned_of_free {assignment : Fin n → Option (Fin n)} {i : Fin n} (free : assignment i = none)
    (idx : Fin n) : ∃ person, findUnassigned assignment n idx = some person ∧ assignment person = none := by
  obtain ⟨k, bound, reached⟩ := exists_iterate_next idx i
  exact findUnassigned_spec assignment n idx ⟨k, bound, reached ▸ free⟩

/-! ## The loop over the objects -/

section Best

variable (value : Fin n → Fin n → Int) (prices : Fin n → Int) (person : Fin n)

/-- What the loop over the objects knows after the objects `seen`: `v` is the best net
value, reached at `best`, and `w` bounds the net values of the other objects. -/
structure BestSoFar (seen : List (Fin n)) (w v : WithBot Int) (best : Option (Fin n)) : Prop where
  le_best : ∀ i ∈ seen, ((value person i - prices i : Int) : WithBot Int) ≤ v
  le_second : ∀ i ∈ seen, best ≠ some i → ((value person i - prices i : Int) : WithBot Int) ≤ w
  second_le : w ≤ v
  found : (seen = [] ∧ v = ⊥) ∨ ∃ j ∈ seen, best = some j ∧ v = ((value person j - prices j : Int) : WithBot Int)

theorem bestSoFar_step {seen : List (Fin n)} {acc : WithBot Int × WithBot Int × Option (Fin n)}
    (known : BestSoFar value prices person seen acc.1 acc.2.1 acc.2.2) (i : Fin n) :
    let acc' := bestStep value prices person acc i
    BestSoFar value prices person (seen ++ [i]) acc'.1 acc'.2.1 acc'.2.2 := by
  obtain ⟨w, v, best⟩ := acc
  obtain ⟨le_best, le_second, second_le, found⟩ := known
  simp only [bestStep]
  split_ifs with better <;> rw [exceeds_iff] at better
  · -- a new best: the old best becomes the bound on the others
    refine ⟨fun k member => ?_, fun k member other => ?_, le_of_lt better, Or.inr ⟨i, by simp, rfl, rfl⟩⟩
    · rcases List.mem_append.mp member with member | member
      · exact le_trans (le_best k member) (le_of_lt better)
      · rw [List.mem_singleton.mp member]
    · rcases List.mem_append.mp member with member | member
      · exact le_best k member
      · exact absurd (by rw [List.mem_singleton.mp member]) other
  · have below := not_lt.mp better
    refine ⟨fun k member => ?_, fun k member other => ?_, max_le below second_le, ?_⟩
    · rcases List.mem_append.mp member with member | member
      · exact le_best k member
      · rw [List.mem_singleton.mp member]
        exact below
    · rcases List.mem_append.mp member with member | member
      · exact le_trans (le_second k member other) (le_max_right _ _)
      · rw [List.mem_singleton.mp member]
        exact le_max_left _ _
    · -- nothing beats `⊥`, so something was seen before
      rcases found with ⟨-, rfl⟩ | ⟨j, member, same, value_eq⟩
      · exact absurd (WithBot.bot_lt_coe _) better
      · exact Or.inr ⟨j, List.mem_append_left _ member, same, value_eq⟩

theorem bestSoFar_foldl :
    ∀ (objects seen : List (Fin n)) (acc : WithBot Int × WithBot Int × Option (Fin n)),
      BestSoFar value prices person seen acc.1 acc.2.1 acc.2.2 →
      let acc' := objects.foldl (bestStep value prices person) acc
      BestSoFar value prices person (seen ++ objects) acc'.1 acc'.2.1 acc'.2.2
  | [], seen, _, known => by simpa using known
  | i :: objects, seen, acc, known => by
    have step := bestSoFar_foldl objects (seen ++ [i]) _ (bestSoFar_step value prices person known i)
    simpa using step

/-- With two objects or more, the loop finds a best object `j` and a second best value
`w` at most its net value, above the net value of every other object. -/
theorem bestTwo_spec (two : 2 ≤ n) : ∃ (w : Int) (j : Fin n),
    bestTwo value prices person = ((w : WithBot Int), ((value person j - prices j : Int) : WithBot Int), some j) ∧
      w ≤ value person j - prices j ∧ ∀ k, k ≠ j → value person k - prices k ≤ w := by
  have start : BestSoFar value prices person [] ⊥ ⊥ none :=
    ⟨by simp, by simp, le_rfl, Or.inl ⟨rfl, rfl⟩⟩
  have known := bestSoFar_foldl value prices person (List.finRange n) [] (⊥, ⊥, none) start
  simp only [List.nil_append] at known
  unfold bestTwo
  generalize (List.finRange n).foldl (bestStep value prices person) (⊥, ⊥, none) = acc at known
  obtain ⟨w, v, best⟩ := acc
  obtain ⟨le_best, le_second, second_le, found⟩ := known
  rcases found with ⟨empty, -⟩ | ⟨j, -, rfl, rfl⟩
  · exact absurd empty (List.ne_nil_of_length_pos (by simp; omega))
  · -- another object bounds `w` from below, so `w` is a value
    have other : ∃ k : Fin n, k ≠ j := ⟨if j.val = 0 then ⟨1, by omega⟩ else ⟨0, by omega⟩, by
      intro same
      split_ifs at same with first <;> simp [Fin.ext_iff] at same <;> omega⟩
    obtain ⟨k, differ⟩ := other
    have bounded := le_second k (List.mem_finRange k) (fun same => differ (Option.some_injective _ same).symm)
    cases w with
    | bot => exact absurd bounded (not_le.mpr (WithBot.bot_lt_coe _))
    | coe w =>
      refine ⟨w, j, rfl, WithBot.coe_le_coe.mp second_le, fun k' differ' => ?_⟩
      exact WithBot.coe_le_coe.mp
        (le_second k' (List.mem_finRange k') (fun same => differ' (Option.some_injective _ same).symm))

end Best

/-! ## A bid -/

/-- The persons holding an object. -/
def assigned (assignment : Fin n → Option (Fin n)) : Finset (Fin n) :=
  Finset.univ.filter fun i => (assignment i).isSome

theorem card_assigned_update_some {assignment : Fin n → Option (Fin n)} {person : Fin n}
    (free : assignment person = none) (object : Fin n) :
    (assigned (Function.update assignment person (some object))).card = (assigned assignment).card + 1 := by
  have grown : assigned (Function.update assignment person (some object)) = insert person (assigned assignment) := by
    ext i
    by_cases same : i = person <;> simp [assigned, Function.update_apply, same]
  rw [grown, Finset.card_insert_of_notMem (by simp [assigned, free])]

theorem card_assigned_update_none {assignment : Fin n → Option (Fin n)} {holder : Fin n}
    (held : (assignment holder).isSome) :
    (assigned (Function.update assignment holder none)).card + 1 = (assigned assignment).card := by
  have shrunk : assigned assignment = insert holder (assigned (Function.update assignment holder none)) := by
    ext i
    by_cases same : i = holder
    · subst same
      simp [assigned, held]
    · simp [assigned, Function.update_apply, same]
  rw [shrunk, Finset.card_insert_of_notMem (by simp [assigned])]

namespace Auction

variable (s : Auction n) (person object : Fin n) (raise : Int)

@[simp] theorem award_objectAssignment :
    (s.award person object raise).objectAssignment = Function.update s.objectAssignment object (some person) := rfl

@[simp] theorem award_prices :
    (s.award person object raise).prices = Function.update s.prices object (s.prices object + raise) := rfl

theorem award_assignment (i : Fin n) :
    (s.award person object raise).assignment i =
      if i = person then some object else if s.objectAssignment object = some i then none else s.assignment i := by
  unfold award
  cases held : s.objectAssignment object with
  | none => simp [Function.update_apply]
  | some holder =>
    by_cases same : i = holder
    · subst same
      simp [Function.update_apply]
    · simp [Function.update_apply, same, Ne.symm same]

theorem award_assignedCount :
    (s.award person object raise).assignedCount =
      match s.objectAssignment object with
      | some _ => s.assignedCount - 1 + 1
      | none => s.assignedCount + 1 := by
  unfold award
  cases s.objectAssignment object <;> rfl

end Auction

section Phase

variable (value : Fin n → Fin n → Int) (eps : Int) (start : Fin n → Int) (bound : Int)

/-- What holds between the bids of a phase that started at the prices `start`. -/
structure Inv (s : Auction n) : Prop where
  matched : ∀ i j, s.objectAssignment j = some i ↔ s.assignment i = some j
  counted : s.assignedCount = (assigned s.assignment).card
  slack : ∀ i j, s.assignment i = some j → ∀ k, value i k - s.prices k ≤ value i j - s.prices j + eps
  unbid : ∀ j, s.objectAssignment j = none → s.prices j = start j
  bounded : s.assignedCount < n → ∀ j, s.prices j ≤ bound

/-- `bound` is above every starting price, and above every price a bid can set while
an object nobody has bid for is left. -/
def Bounds : Prop := (∀ j, start j ≤ bound) ∧ ∀ i j k, value i j - value i k + start k + eps ≤ bound

variable {value eps start bound}

/-- While somebody waits, some object is held by nobody. -/
theorem exists_free_object {s : Auction n} (matched : ∀ i j, s.objectAssignment j = some i ↔ s.assignment i = some j)
    (counted : s.assignedCount = (assigned s.assignment).card) (waiting : s.assignedCount < n) :
    ∃ j, s.objectAssignment j = none := by
  by_contra allHeld
  have held : ∀ j, ∃ i, s.objectAssignment j = some i := fun j =>
    Option.ne_none_iff_exists'.mp fun free => allHeld ⟨j, free⟩
  choose holder holds using held
  -- the holders are distinct, so everybody holds an object
  have injective : Function.Injective holder := fun j k same => by
    have first := (matched _ _).mp (holds j)
    have second := (matched _ _).mp (holds k)
    rw [← same, first] at second
    exact Option.some_injective _ second
  have everyone : assigned s.assignment = Finset.univ := by
    refine Finset.filter_true_of_mem fun i _ => ?_
    obtain ⟨j, rfl⟩ := Finite.injective_iff_surjective.mp injective i
    simp [(matched _ _).mp (holds j)]
  rw [counted, everyone, Finset.card_univ, Fintype.card_fin] at waiting
  exact lt_irrefl _ waiting

section Award

variable {s : Auction n} {person object : Fin n} {raise : Int}
  (matched : ∀ i j, s.objectAssignment j = some i ↔ s.assignment i = some j) (free : s.assignment person = none)
include matched free

theorem matched_award :
    ∀ i j, (s.award person object raise).objectAssignment j = some i ↔ (s.award person object raise).assignment i = some j := by
  intro i j
  rw [Auction.award_objectAssignment, Auction.award_assignment, Function.update_apply]
  by_cases sameObject : j = object
  · subst sameObject
    by_cases samePerson : i = person
    · simp [samePerson]
    · have other : s.objectAssignment j ≠ some i → s.assignment i ≠ some j :=
        fun differ same => differ ((matched i j).mpr same)
      by_cases holds : s.objectAssignment j = some i <;> simp [samePerson, Ne.symm samePerson, holds, other]
  · by_cases samePerson : i = person
    · subst samePerson
      have notHeld : s.objectAssignment j ≠ some i := fun same => by
        have holds := (matched i j).mp same
        rw [free] at holds
        cases holds
      simp [sameObject, notHeld, Ne.symm sameObject]
    · by_cases holds : s.objectAssignment object = some i
      · -- the holder of `object` held nothing else
        have heldObject := (matched i object).mp holds
        have notOther : s.objectAssignment j ≠ some i := fun same =>
          sameObject (Option.some_injective _ (((matched i j).mp same).symm.trans heldObject))
        simp [sameObject, samePerson, holds, notOther]
      · simp [sameObject, samePerson, holds, matched]

theorem counted_award (counted : s.assignedCount = (assigned s.assignment).card) :
    (s.award person object raise).assignedCount = (assigned (s.award person object raise).assignment).card := by
  rw [Auction.award_assignedCount]
  cases held : s.objectAssignment object with
  | none =>
    dsimp only
    have same : (s.award person object raise).assignment = Function.update s.assignment person (some object) := by
      funext i
      rw [Auction.award_assignment, held, Function.update_apply]
      simp
    rw [same, card_assigned_update_some free, counted]
  | some holder =>
    dsimp only
    have holds := (matched holder object).mp held
    have differ : holder ≠ person := fun same => by
      rw [same, free] at holds
      cases holds
    have same : (s.award person object raise).assignment =
        Function.update (Function.update s.assignment holder none) person (some object) := by
      funext i
      rw [Auction.award_assignment, held, Function.update_apply, Function.update_apply]
      by_cases isHolder : i = holder
      · simp [isHolder]
      · simp [isHolder, Ne.symm isHolder]
    have released := card_assigned_update_none (show (s.assignment holder).isSome by simp [holds])
    rw [same, card_assigned_update_some (by simp [Ne.symm differ, free]), counted, ← released,
      Nat.add_sub_cancel]

/-- A person in `eps`-slackness keeps it when another object's price rises; the bidder
is left with net value `w - eps` for its object, within `eps` of every other object. -/
theorem slack_award (slack : ∀ i j, s.assignment i = some j → ∀ k, value i k - s.prices k ≤ value i j - s.prices j + eps)
    {w : Int} (nonneg : 0 ≤ eps) (second : w ≤ value person object - s.prices object)
    (others : ∀ k, k ≠ object → value person k - s.prices k ≤ w)
    (raised : raise = value person object - s.prices object - w + eps) :
    ∀ i j, (s.award person object raise).assignment i = some j → ∀ k,
      value i k - (s.award person object raise).prices k ≤ value i j - (s.award person object raise).prices j + eps := by
  intro i j assignedTo k
  rw [Auction.award_assignment] at assignedTo
  simp only [Auction.award_prices, Function.update_apply]
  split_ifs at assignedTo with isPerson holds
  · -- the bidder now holds `object`
    cases assignedTo
    subst isPerson
    by_cases same : k = object
    · simp only [same, if_true]
      omega
    · have cheaper := others k same
      simp only [same, if_false, if_true]
      omega
  · -- anybody else holds another object, whose price did not move
    have differ : j ≠ object := fun same => holds ((matched i object).mpr (same ▸ assignedTo))
    have old := slack i j assignedTo k
    by_cases same : k = object
    · subst same
      simp only [differ, if_true, if_false]
      omega
    · simp only [same, differ, if_false]
      exact old

theorem bounded_award (bounds : Bounds value eps start bound)
    (unbid : ∀ j, s.objectAssignment j = none → s.prices j = start j)
    (bounded : s.assignedCount < n → ∀ j, s.prices j ≤ bound)
    (counted : s.assignedCount = (assigned s.assignment).card) (waiting : s.assignedCount < n)
    {w : Int} (others : ∀ k, k ≠ object → value person k - s.prices k ≤ w)
    (raised : raise = value person object - s.prices object - w + eps) :
    (s.award person object raise).assignedCount < n → ∀ j, (s.award person object raise).prices j ≤ bound := by
  intro waiting' j
  simp only [Auction.award_prices, Function.update_apply]
  split_ifs with same
  · -- an object nobody has bid for is left, and the bidder valued it at most `w`
    obtain ⟨U, freeU⟩ := exists_free_object (matched_award matched free) (counted_award matched free counted) waiting'
    have differ : U ≠ object := by
      rintro rfl
      simp at freeU
    rw [Auction.award_objectAssignment, Function.update_of_ne differ] at freeU
    have startU := unbid U freeU
    have cheap := others U differ
    have reach := bounds.2 person object U
    omega
  · exact bounded waiting j

end Award

theorem unbid_award {s : Auction n} {person object : Fin n} {raise : Int}
    (unbid : ∀ j, s.objectAssignment j = none → s.prices j = start j) :
    ∀ j, (s.award person object raise).objectAssignment j = none → (s.award person object raise).prices j = start j := by
  intro j free'
  have differ : j ≠ object := by
    rintro rfl
    simp at free'
  rw [Auction.award_objectAssignment, Function.update_of_ne differ] at free'
  rw [Auction.award_prices, Function.update_of_ne differ]
  exact unbid j free'

theorem sum_update_add (prices : Fin n → Int) (object : Fin n) (raise : Int) :
    ∑ j, Function.update prices object (prices object + raise) j = ∑ j, prices j + raise := by
  rw [Finset.sum_update_of_mem (Finset.mem_univ object),
    Finset.sum_eq_add_sum_sdiff_singleton_of_mem (Finset.mem_univ object) prices]
  omega

/-- A bid keeps the invariant and raises the prices by `eps` or more. -/
theorem bid_spec (two : 2 ≤ n) (nonneg : 0 ≤ eps) (bounds : Bounds value eps start bound) {s : Auction n}
    (inv : Inv value eps start bound s) (waiting : s.assignedCount < n) :
    ∃ s', bid value eps s = some s' ∧ Inv value eps start bound s' ∧ ∑ j, s.prices j + eps ≤ ∑ j, s'.prices j := by
  -- somebody waits, and the search finds an unassigned person
  have someoneFree : ∃ i, s.assignment i = none := by
    by_contra everyoneHolds
    have everyone : assigned s.assignment = Finset.univ := Finset.filter_true_of_mem fun i _ => by
      cases held : s.assignment i with
      | none => exact absurd ⟨i, held⟩ everyoneHolds
      | some _ => rfl
    rw [inv.counted, everyone, Finset.card_univ, Fintype.card_fin] at waiting
    exact lt_irrefl _ waiting
  obtain ⟨i, freeI⟩ := someoneFree
  obtain ⟨person, found, free⟩ := findUnassigned_of_free freeI s.unassignedIdx
  obtain ⟨w, object, best, second, others⟩ := bestTwo_spec value s.prices person two
  have raised : value person object - s.prices object - w + eps = value person object - s.prices object - w + eps := rfl
  refine ⟨s.award person object (value person object - s.prices object - w + eps), ?_, ?_, ?_⟩
  · simp only [bid, found, best]
  · exact ⟨matched_award inv.matched free, counted_award inv.matched free inv.counted,
      slack_award inv.matched free inv.slack nonneg second others raised, unbid_award inv.unbid,
      bounded_award inv.matched free bounds inv.unbid inv.bounded inv.counted waiting others raised⟩
  · rw [Auction.award_prices, sum_update_add]
    omega

/-- The invariant at the start of a phase. -/
theorem inv_start [NeZero n] (bounds : Bounds value eps start bound) :
    Inv value eps start bound ⟨fun _ => none, fun _ => none, start, 0, 0⟩ where
  matched := by simp
  counted := by simp [assigned]
  slack := by simp
  unbid := fun _ _ => rfl
  bounded := fun _ => bounds.1

theorem assignedCount_le {s : Auction n} (inv : Inv value eps start bound s) : s.assignedCount ≤ n := by
  rw [inv.counted]
  exact (Finset.card_filter_le _ _).trans (by simp)

/-- From a state of the invariant, enough rounds end the phase with everybody assigned:
every bid raises the prices by one or more, and they stay below `bound` while somebody waits. -/
theorem auctionLoop_spec (two : 2 ≤ n) (one : 1 ≤ eps) (bounds : Bounds value eps start bound) :
    ∀ (fuel : Nat) (s : Auction n), Inv value eps start bound s →
      (n * bound - ∑ j, s.prices j).toNat + 2 ≤ fuel →
      ∃ r, auctionLoop value eps fuel s = some r ∧ Inv value eps start bound r ∧ r.assignedCount = n
  | 0, _, _, enough => absurd enough (by omega)
  | fuel + 1, s, inv, enough => by
    rw [auctionLoop]
    by_cases waiting : s.assignedCount < n
    · obtain ⟨s', bidded, inv', rise⟩ := bid_spec two (by omega) bounds inv waiting
      rw [if_pos waiting, bidded, Option.bind_some]
      have below : ∑ j, s.prices j ≤ n * bound := by
        simpa using Finset.sum_le_card_nsmul Finset.univ s.prices bound fun j _ => inv.bounded waiting j
      by_cases waiting' : s'.assignedCount < n
      · have below' : ∑ j, s'.prices j ≤ n * bound := by
          simpa using Finset.sum_le_card_nsmul Finset.univ s'.prices bound fun j _ => inv'.bounded waiting' j
        exact auctionLoop_spec two one bounds fuel s' inv' (by omega)
      · -- the bid assigned the last person
        have full : s'.assignedCount = n := le_antisymm (assignedCount_le inv') (not_lt.mp waiting')
        obtain ⟨fuel, rfl⟩ : ∃ fuel', fuel = fuel' + 1 := ⟨fuel - 1, by omega⟩
        exact ⟨s', by rw [auctionLoop, if_neg waiting'], inv', full⟩
    · rw [if_neg waiting]
      exact ⟨s, rfl, inv, le_antisymm (assignedCount_le inv) (not_lt.mp waiting)⟩

theorem auctionLoop_add : ∀ (fuel more : Nat) (s r : Auction n),
    auctionLoop value eps fuel s = some r → auctionLoop value eps (fuel + more) s = some r
  | 0, _, _, _, ended => by cases ended
  | fuel + 1, more, s, r, ended => by
    rw [show fuel + 1 + more = fuel + more + 1 by omega, auctionLoop]
    rw [auctionLoop] at ended
    split_ifs at ended ⊢ with waiting
    · cases bidded : bid value eps s with
      | none => simp [bidded] at ended
      | some s' =>
        rw [bidded, Option.bind_some] at ended
        rw [Option.bind_some]
        exact auctionLoop_add fuel more s' r ended
    · exact ended

end Phase

/-! ## Phases -/

/-- The end of a phase: everybody holds an object, within `eps` of their best net value. -/
structure Complete (value : Fin n → Fin n → Int) (eps : Int) (r : Auction n) : Prop where
  matched : ∀ i j, r.objectAssignment j = some i ↔ r.assignment i = some j
  assigned : ∀ i, (r.assignment i).isSome
  slack : ∀ i j, r.assignment i = some j → ∀ k, value i k - r.prices k ≤ value i j - r.prices j + eps

/-- A complete phase pairs persons and objects by a permutation, `object_assignment` its inverse. -/
theorem Complete.exists_perm {value : Fin n → Fin n → Int} {eps : Int} {r : Auction n}
    (complete : Complete value eps r) :
    ∃ σ : Equiv.Perm (Fin n), (∀ i, r.assignment i = some (σ i)) ∧ ∀ j, r.objectAssignment j = some (σ.symm j) := by
  choose σ holds using fun i => Option.isSome_iff_exists.mp (complete.assigned i)
  have injective : Function.Injective σ := fun i k same => by
    have first := (complete.matched _ _).mpr (holds i)
    have second := (complete.matched _ _).mpr (holds k)
    rw [← same, first] at second
    exact Option.some_injective _ second
  let perm := Equiv.ofBijective σ (Finite.injective_iff_bijective.mp injective)
  refine ⟨perm, holds, fun j => ?_⟩
  apply (complete.matched _ _).mpr
  rw [holds]
  exact congrArg some (perm.apply_symm_apply j)

/-- A phase with `eps` of one or more ends, and more rounds do not change its result. -/
theorem auctionStep_spec [NeZero n] (two : 2 ≤ n) (value : Fin n → Fin n → Int) {eps : Int} (one : 1 ≤ eps)
    (start : Fin n → Int) :
    ∃ fuel r, Complete value eps r ∧ ∀ more, auctionStep value eps (fuel + more) start = some r := by
  obtain ⟨reach, aboveReach⟩ := Finite.exists_le fun ijk : Fin n × Fin n × Fin n =>
    value ijk.1 ijk.2.1 - value ijk.1 ijk.2.2 + start ijk.2.2 + eps
  obtain ⟨highest, aboveStart⟩ := Finite.exists_le start
  have bounds : Bounds value eps start (max reach highest) :=
    ⟨fun j => le_trans (aboveStart j) (le_max_right _ _),
      fun i j k => le_trans (aboveReach (i, j, k)) (le_max_left _ _)⟩
  obtain ⟨r, ended, inv, full⟩ := auctionLoop_spec two one bounds _ _ (inv_start bounds) le_rfl
  have everyone : assigned r.assignment = Finset.univ :=
    Finset.eq_univ_of_card _ (by rw [← inv.counted, full, Fintype.card_fin])
  refine ⟨_, r, ⟨inv.matched, fun i => ?_, inv.slack⟩, fun more => auctionLoop_add _ more _ r ended⟩
  have member : i ∈ assigned r.assignment := everyone ▸ Finset.mem_univ i
  simpa [assigned] using member

/-- The phases end, the last with `eps = 1`, and more rounds do not change the result. -/
theorem auctionPhases_spec [NeZero n] (two : 2 ≤ n) (value : Fin n → Fin n → Int) (eps : Int)
    (prices : Fin n → Int) :
    ∃ fuel r, Complete value 1 r ∧ ∀ more, auctionPhases value (fuel + more) prices eps = some r := by
  by_cases coarse : 1 < eps
  · obtain ⟨fuel₁, r₁, -, phase⟩ := auctionStep_spec two value (le_of_lt coarse) prices
    obtain ⟨fuel₂, r, complete, rest⟩ := auctionPhases_spec two value ((eps + 2).tdiv 5) r₁.prices
    refine ⟨fuel₁ + fuel₂, r, complete, fun more => ?_⟩
    rw [auctionPhases, if_pos coarse, show fuel₁ + fuel₂ + more = fuel₁ + (fuel₂ + more) by omega, phase]
    dsimp only
    rw [show fuel₁ + (fuel₂ + more) = fuel₂ + (fuel₁ + more) by omega, rest]
  · obtain ⟨fuel, r, complete, phase⟩ := auctionStep_spec two value le_rfl prices
    exact ⟨fuel, r, complete, fun more => by rw [auctionPhases, if_neg coarse, phase]⟩
termination_by eps.toNat
decreasing_by
  rw [Int.tdiv_eq_ediv_of_nonneg (by omega)]
  omega

/-- `auctionOptimization` ends for every size of one or more and every integer value
matrix, and leaves a permutation, `object_assignment` its inverse, whose total value
is the largest for the values before scaling. -/
theorem auctionOptimization_optimal (size : Nat) (positive : 0 < size) (value : Fin size → Fin size → Int) :
    ∃ (fuel : Nat) (σ : Equiv.Perm (Fin size)), ∀ more, ∃ result,
      auctionOptimization (fuel + more) size value = some result ∧
        (∀ i, result.assignment i = some (σ i)) ∧ (∀ j, result.objectAssignment j = some (σ.symm j)) ∧
        ∀ τ : Equiv.Perm (Fin size), ∑ i, value i (τ i) ≤ ∑ i, value i (σ i) := by
  match size, positive, value with
  | 0, positive, _ => exact absurd positive (lt_irrefl 0)
  | 1, _, value =>
    -- one person and one object
    refine ⟨0, Equiv.refl _, fun more => ⟨_, rfl, fun i => ?_, fun j => ?_, fun τ => ?_⟩⟩
    · rw [Subsingleton.elim i 0]
      rfl
    · rw [Subsingleton.elim j 0]
      rfl
    · rw [Fin.sum_univ_one, Fin.sum_univ_one, Subsingleton.elim (τ 0) (Equiv.refl (Fin 1) 0)]
  | size + 2, _, value =>
    obtain ⟨fuel, r, complete, phases⟩ :=
      auctionPhases_spec (by omega) (scaleValues value) (initialEps (scaleValues value)) (fun _ => 0)
    obtain ⟨σ, assignment, objectAssignment⟩ := complete.exists_perm
    refine ⟨fuel, σ, fun more => ⟨_, by rw [auctionOptimization, phases]; rfl, assignment, objectAssignment,
      fun τ => ?_⟩⟩
    -- the last phase leaves `σ` in slackness one for the scaled values
    have slack : Assignment.Slack (fun i k => value i k * (Fintype.card (Fin (size + 2)) + 1)) r.prices 1 σ := by
      intro i k
      have held := complete.slack i (σ i) (assignment i) k
      simpa [scaleValues] using held
    exact Assignment.value_le_of_slack_scaled slack τ

/-- The costs `optimize` builds for three parts, each part matching its own target
best: the auction keeps every part in place. -/
theorem auctionOptimization_optimal_threeParts :
    let value : Fin 3 → Fin 3 → Int := fun i j =>
      ([[1280, 1100, 900], [1000, 1280, 1279], [1279, 1200, 1280]].getD i []).getD j 0
    0 < 3 ∧ (auctionOptimization 100 3 value).map (fun r => (List.finRange 3).map r.assignment) =
        some [some 0, some 1, some 2] ∧
      ∃ (fuel : Nat) (σ : Equiv.Perm (Fin 3)), ∀ more, ∃ result,
        auctionOptimization (fuel + more) 3 value = some result ∧
          (∀ i, result.assignment i = some (σ i)) ∧ (∀ j, result.objectAssignment j = some (σ.symm j)) ∧
          ∀ τ : Equiv.Perm (Fin 3), ∑ i, value i (τ i) ≤ ∑ i, value i (σ i) :=
  ⟨by decide, by decide +kernel, auctionOptimization_optimal 3 (by decide) _⟩

end LinearAssignment

end SaunaFS
