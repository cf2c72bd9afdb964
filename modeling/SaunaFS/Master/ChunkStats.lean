import Mathlib.Algebra.BigOperators.Group.List.Basic
import Mathlib.Algebra.Group.Pi.Basic
import Mathlib.Tactic.Abel

/-! The master's chunk statistics (`src/master/chunks.cc`, `chunk_goal_counters.cc`,
`common/chunks_availability_state.h`).

Every chunk caches what its last `updateStats` computed (availability, missing and
redundant parts, full and expected copies) and counts itself in three global
tables: `allChunksAvailability`, `allChunksReplicationState` and
`allFullChunkCopies`. The three tables are one function from a `StatKey` to a
count here; the source's counters are `uint64_t` and are integers here, as a
table that agrees with its chunks never goes below zero. What `updateStats`
computes from the goal and the parts (`ChunkCopiesCalculator` under the merged
goal) is the parameter `assess`; a reload of the goal definitions changes only
that.

A method of `Chunk` that changes the goal counters removes the chunk from the
tables, changes the counters and adds it back. `ChunkGoalCounters` throws
`InvalidOperation` for an invalid or absent goal; the exception leaves the
method between the two halves, and its callers catch it.
-/

set_option autoImplicit false

namespace SaunaFS

namespace GoalId

def kMin : UInt8 := 1
def kMax : UInt8 := 40

def isValid (id : UInt8) : Bool := kMin ≤ id && id ≤ kMax

end GoalId

/-- `ChunksAvailabilityState::State`. -/
inductive AvailabilityState where
  | kSafe
  | kEndangered
  | kLost
  deriving DecidableEq, Repr

/-- `ChunkGoalCounters::GoalCounter`: how many files of one goal hold the chunk,
up to 255 in one counter. -/
structure GoalCounter where
  goal : UInt8
  count : UInt8
  deriving DecidableEq, Repr

namespace ChunkGoalCounters

/-- The largest size of a `compact_vector` that keeps its size in the top 20 bits
of its pointer. -/
def maxSize : Nat := 2 ^ 20 - 1

/-- `ChunkGoalCounters::addFile`. The counters are sorted by goal, so the
`lower_bound` of the source splits them where `takeWhile` does. -/
def addFile (counters : List GoalCounter) (goal : UInt8) : Except String (List GoalCounter) :=
  let before := counters.takeWhile fun counter => counter.goal < goal
  let after := counters.dropWhile fun counter => counter.goal < goal
  let insert : Except String (List GoalCounter) :=
    if counters.length = maxSize then .error "There is no more space for goals"
    else .ok (before ++ ⟨goal, 1⟩ :: after)
  if !GoalId.isValid goal then .error ("Trying to add non-existent goal: " ++ toString goal)
  else
    match after with
    | counter :: rest =>
      -- a full counter gets a new counter of the same goal in front of it
      if counter.goal ≠ goal ∨ counter.count = 255 then insert
      else .ok (before ++ { counter with count := counter.count + 1 } :: rest)
    | [] => insert

/-- `ChunkGoalCounters::removeFile`. -/
def removeFile (counters : List GoalCounter) (goal : UInt8) : Except String (List GoalCounter) :=
  let before := counters.takeWhile fun counter => counter.goal < goal
  let absent : Except String (List GoalCounter) :=
    .error ("Trying to remove non-existent goal: " ++ toString goal)
  match counters.dropWhile fun counter => counter.goal < goal with
  | counter :: rest =>
    if counter.goal ≠ goal then absent
    else if counter.count - 1 = 0 then .ok (before ++ rest)
    else .ok (before ++ { counter with count := counter.count - 1 } :: rest)
  | [] => absent

/-- The counters a call leaves and the exception it threw: `addFile` and
`removeFile` throw before they change anything. -/
def keepOnError (counters : List GoalCounter) :
    Except String (List GoalCounter) → List GoalCounter × Except String Unit
  | .ok changed => (changed, .ok ())
  | .error message => (counters, .error message)

/-- `ChunkGoalCounters::changeFileGoal`: when `addFile` throws, the file is already
removed. -/
def changeFileGoal (counters : List GoalCounter) (prevGoal newGoal : UInt8) :
    List GoalCounter × Except String Unit :=
  match removeFile counters prevGoal with
  | .ok removed => keepOnError removed (addFile removed newGoal)
  | .error message => (counters, .error message)

end ChunkGoalCounters

/-! ## The tables -/

/-- One counter of the tables: `allChunksAvailability` per state and goal,
`allChunksReplicationState` per goal and number of parts to replicate or delete,
and `allFullChunkCopies[expected][actual]`. -/
inductive StatKey where
  | availability (goal : UInt8) (state : AvailabilityState)
  | toReplicate (goal : UInt8) (missingParts : Nat)
  | toDelete (goal : UInt8) (redundantParts : Nat)
  | fullCopies (expected actual : Nat)
  deriving DecidableEq

/-- The three tables, counter by counter. -/
abbrev Stats := StatKey → Int

/-- `++` or `--` on one counter. -/
def bump (stats : Stats) (key : StatKey) (delta : Int) : Stats :=
  Function.update stats key (stats key + delta)

def kMaxStatCount : Nat := 15
def CHUNK_MATRIX_SIZE : Nat := 11
/-- `ChunksReplicationState::kMaxPartsCount`. -/
def kMaxPartsCount : Nat := 11

/-- The fields of `Chunk` the statistics read and write. The 4-bit fields hold
values cut to `kMaxStatCount`. -/
structure Chunk (Part : Type) where
  chunkid : UInt64
  parts : List Part
  goalCounters : List GoalCounter
  allAvailabilityState : AvailabilityState
  copiesInStats : Nat
  allMissingParts : Nat
  allRedundantParts : Nat
  allFullCopies : Nat
  deriving DecidableEq

/-- What `updateStats` reads off `ChunkCopiesCalculator` for the chunk's goal and
parts: `getFullCopiesCount()`, `getState()`, `countPartsToRecover()`,
`countPartsToRemove()` and the goal's own `getFullCopiesCount(g)`. -/
structure Assessment where
  fullCopies : Nat
  state : AvailabilityState
  partsToRecover : Nat
  partsToRemove : Nat
  expectedCopies : Nat

/-- The goals the loops of `removeFromStats` and `addToStats` visit: a counter's
goal, unless it is the goal of the counter before (`prev_goal`, `-1` at first). -/
def visitedGoals : List GoalCounter → Option UInt8 → List UInt8
  | [], _ => []
  | counter :: rest, prevGoal =>
    if prevGoal = some counter.goal then visitedGoals rest prevGoal
    else counter.goal :: visitedGoals rest (some counter.goal)

namespace Chunk

variable {Part : Type}

/-- `addChunk` or `removeChunk` of both goal tables for one goal. -/
def changeGoalStats (chunk : Chunk Part) (delta : Int) (stats : Stats) (goal : UInt8) : Stats :=
  let stats := bump stats (.availability goal chunk.allAvailabilityState) delta
  -- `ChunksReplicationState` keeps counts up to `kMaxPartsCount - 1`
  let stats := bump stats (.toReplicate goal (min chunk.allMissingParts (kMaxPartsCount - 1))) delta
  bump stats (.toDelete goal (min chunk.allRedundantParts (kMaxPartsCount - 1))) delta

/-- The body shared by `removeFromStats` (`delta = -1`) and `addToStats` (`delta = 1`). -/
def changeStats (chunk : Chunk Part) (delta : Int) (stats : Stats) : Stats :=
  let stats := (visitedGoals chunk.goalCounters none).foldl (chunk.changeGoalStats delta) stats
  bump stats (.fullCopies (min (CHUNK_MATRIX_SIZE - 1) chunk.copiesInStats)
    (min (CHUNK_MATRIX_SIZE - 1) chunk.allFullCopies)) delta

/-- `Chunk::removeFromStats`. -/
def removeFromStats (chunk : Chunk Part) (stats : Stats) : Stats := chunk.changeStats (-1) stats

/-- `Chunk::addToStats`. -/
def addToStats (chunk : Chunk Part) (stats : Stats) : Stats := chunk.changeStats 1 stats

/-- `Chunk::updateStats(remove_from_stats)`, without the endangered-chunks queue. -/
def updateStats (assess : List GoalCounter → List Part → Assessment) (chunk : Chunk Part)
    (removeFromStats : Bool) (stats : Stats) : Stats × Chunk Part :=
  let stats := if removeFromStats then chunk.removeFromStats stats else stats
  let all := assess chunk.goalCounters chunk.parts
  let chunk := { chunk with
    allFullCopies := min kMaxStatCount all.fullCopies
    allAvailabilityState := all.state
    allMissingParts := min kMaxStatCount all.partsToRecover
    allRedundantParts := min kMaxStatCount all.partsToRemove
    copiesInStats := min kMaxStatCount all.expectedCopies }
  (chunk.addToStats stats, chunk)

/-- What a call of a chunk's method leaves: the tables, the chunk and the exception
it threw, if any. -/
structure Call (Part : Type) where
  stats : Stats
  chunk : Chunk Part
  result : Except String Unit

/-- The shape of `addFileWithGoal`, `removeFileWithGoal` and `changeFileGoal`:
`removeFromStats()`, a change of the goal counters that leaves `change.1` and
may throw, then `updateStats(false)` unless it threw. -/
def bracketStats (assess : List GoalCounter → List Part → Assessment) (chunk : Chunk Part)
    (change : List GoalCounter × Except String Unit) (stats : Stats) : Call Part :=
  let stats := chunk.removeFromStats stats
  let chunk := { chunk with goalCounters := change.1 }
  match change.2 with
  | .ok () =>
    let (stats, chunk) := chunk.updateStats assess false stats
    ⟨stats, chunk, .ok ()⟩
  -- the exception leaves the chunk out of the tables
  | .error message => ⟨stats, chunk, .error message⟩

/-- `Chunk::addFileWithGoal`. -/
def addFileWithGoal (assess : List GoalCounter → List Part → Assessment) (chunk : Chunk Part)
    (goal : UInt8) (stats : Stats) : Call Part :=
  chunk.bracketStats assess
    (ChunkGoalCounters.keepOnError chunk.goalCounters (ChunkGoalCounters.addFile chunk.goalCounters goal))
    stats

/-- `Chunk::removeFileWithGoal`. -/
def removeFileWithGoal (assess : List GoalCounter → List Part → Assessment) (chunk : Chunk Part)
    (goal : UInt8) (stats : Stats) : Call Part :=
  chunk.bracketStats assess
    (ChunkGoalCounters.keepOnError chunk.goalCounters (ChunkGoalCounters.removeFile chunk.goalCounters goal))
    stats

/-- `Chunk::changeFileGoal`. -/
def changeFileGoal (assess : List GoalCounter → List Part → Assessment) (chunk : Chunk Part)
    (prevGoal newGoal : UInt8) (stats : Stats) : Call Part :=
  chunk.bracketStats assess (ChunkGoalCounters.changeFileGoal chunk.goalCounters prevGoal newGoal) stats

/-- A chunk from `chunk_malloc`: `Chunk::clear()` with the cached fields reset. -/
def cleared (chunkid : UInt64) : Chunk Part where
  chunkid := chunkid
  parts := []
  goalCounters := []
  allAvailabilityState := .kSafe
  copiesInStats := 0
  allMissingParts := 0
  allRedundantParts := 0
  allFullCopies := 0

end Chunk

/-! ## The master -/

/-- What the chunk functions of the master return. -/
inductive ChunkStatus where
  | ok
  | eNoChunk
  | eChunkLost
  deriving DecidableEq, Repr

/-- The live chunks and the tables. -/
structure Master (Part : Type) where
  chunks : List (Chunk Part)
  stats : Stats

namespace Master

variable {Part : Type}

/-- `chunk_strinit`: no chunks and every counter zero. -/
def empty : Master Part := ⟨[], 0⟩

/-- `chunk_find`: the index of the chunk. -/
def find? (master : Master Part) (chunkid : UInt64) : Option Nat :=
  master.chunks.findIdx? fun chunk => chunk.chunkid == chunkid

/-- `chunk_new`: `Chunk::clear()` counts the new chunk with `updateStats(false)`. -/
def chunkNew (assess : List GoalCounter → List Part → Assessment) (master : Master Part)
    (chunkid : UInt64) : Master Part :=
  let (stats, chunk) := (Chunk.cleared chunkid).updateStats assess false master.stats
  ⟨master.chunks ++ [chunk], stats⟩

/-- `chunk_delete`: `freeStats()` takes the chunk out of the tables. -/
def chunkDelete (master : Master Part) (chunkid : UInt64) : Master Part :=
  match master.find? chunkid with
  | some i =>
    match master.chunks[i]? with
    | some chunk => ⟨master.chunks.eraseIdx i, chunk.removeFromStats master.stats⟩
    | none => master
  | none => master

/-- A method call on the chunk `chunkid` as the master makes it: the exception is
caught and reported as `SAUNAFS_ERROR_CHUNKLOST`. -/
def callChunk (master : Master Part) (chunkid : UInt64) (method : Chunk Part → Stats → Chunk.Call Part) :
    Master Part × ChunkStatus :=
  match master.find? chunkid with
  | some i =>
    match master.chunks[i]? with
    | some chunk =>
      let call := method chunk master.stats
      (⟨master.chunks.set i call.chunk, call.stats⟩,
        match call.result with
        | .ok () => .ok
        | .error _ => .eChunkLost)
    | none => (master, .eNoChunk)
  | none => (master, .eNoChunk)

/-- `chunk_add_file`. -/
def chunkAddFile (assess : List GoalCounter → List Part → Assessment) (master : Master Part)
    (chunkid : UInt64) (goal : UInt8) : Master Part × ChunkStatus :=
  master.callChunk chunkid fun chunk => chunk.addFileWithGoal assess goal

/-- `chunk_delete_file`. -/
def chunkDeleteFile (assess : List GoalCounter → List Part → Assessment) (master : Master Part)
    (chunkid : UInt64) (goal : UInt8) : Master Part × ChunkStatus :=
  master.callChunk chunkid fun chunk => chunk.removeFileWithGoal assess goal

/-- `chunk_change_file`. -/
def chunkChangeFile (assess : List GoalCounter → List Part → Assessment) (master : Master Part)
    (chunkid : UInt64) (prevGoal newGoal : UInt8) : Master Part × ChunkStatus :=
  if prevGoal = newGoal then (master, .ok)
  else master.callChunk chunkid fun chunk => chunk.changeFileGoal assess prevGoal newGoal

/-- A change of the chunk's parts followed by `Chunk::updateStats()`. -/
def chunkSetParts (assess : List GoalCounter → List Part → Assessment) (master : Master Part)
    (chunkid : UInt64) (parts : List Part) : Master Part × ChunkStatus :=
  master.callChunk chunkid fun chunk stats =>
    let (stats, chunk) := { chunk with parts }.updateStats assess true stats
    ⟨stats, chunk, .ok ()⟩

end Master

/-! ## The tables as a sum over the chunks -/

theorem bump_add (stats other : Stats) (key : StatKey) (delta : Int) :
    bump (stats + other) key delta = bump stats key delta + other := by
  funext k
  by_cases same : k = key
  · subst same
    simp only [bump, Function.update_self, Pi.add_apply]
    omega
  · simp [bump, Function.update_of_ne same]

theorem bump_neg (stats : Stats) (key : StatKey) (delta : Int) :
    bump (-stats) key (-delta) = -bump stats key delta := by
  funext k
  by_cases same : k = key
  · subst same
    simp only [bump, Function.update_self, Pi.neg_apply]
    omega
  · simp [bump, Function.update_of_ne same]

namespace Chunk

variable {Part : Type}

/-- What the chunk adds to the tables. -/
def contribution (chunk : Chunk Part) : Stats := chunk.changeStats 1 0

theorem foldl_changeGoalStats_add (chunk : Chunk Part) (delta : Int) (other : Stats) :
    ∀ (goals : List UInt8) (stats : Stats),
      goals.foldl (chunk.changeGoalStats delta) (stats + other) =
        goals.foldl (chunk.changeGoalStats delta) stats + other
  | [], _ => rfl
  | goal :: rest, stats => by
    have step : chunk.changeGoalStats delta (stats + other) goal =
        chunk.changeGoalStats delta stats goal + other := by
      simp only [changeGoalStats, bump_add]
    rw [List.foldl_cons, List.foldl_cons, step]
    exact foldl_changeGoalStats_add chunk delta other rest _

theorem foldl_changeGoalStats_neg (chunk : Chunk Part) (delta : Int) :
    ∀ (goals : List UInt8) (stats : Stats),
      goals.foldl (chunk.changeGoalStats (-delta)) (-stats) =
        -goals.foldl (chunk.changeGoalStats delta) stats
  | [], _ => rfl
  | goal :: rest, stats => by
    have step : chunk.changeGoalStats (-delta) (-stats) goal = -chunk.changeGoalStats delta stats goal := by
      simp only [changeGoalStats, bump_neg]
    rw [List.foldl_cons, List.foldl_cons, step]
    exact foldl_changeGoalStats_neg chunk delta rest _

theorem changeStats_add (chunk : Chunk Part) (delta : Int) (stats other : Stats) :
    chunk.changeStats delta (stats + other) = chunk.changeStats delta stats + other := by
  simp only [changeStats, foldl_changeGoalStats_add, bump_add]

theorem changeStats_neg (chunk : Chunk Part) (delta : Int) (stats : Stats) :
    chunk.changeStats (-delta) (-stats) = -chunk.changeStats delta stats := by
  simp only [changeStats, foldl_changeGoalStats_neg, bump_neg]

theorem addToStats_eq (chunk : Chunk Part) (stats : Stats) :
    chunk.addToStats stats = stats + chunk.contribution := by
  have shifted := chunk.changeStats_add 1 0 stats
  rw [zero_add] at shifted
  rw [addToStats, shifted, contribution, add_comm]

theorem removeFromStats_eq (chunk : Chunk Part) (stats : Stats) :
    chunk.removeFromStats stats = stats - chunk.contribution := by
  have shifted := chunk.changeStats_add (-1) 0 stats
  have negated := chunk.changeStats_neg 1 0
  rw [zero_add] at shifted
  rw [neg_zero] at negated
  rw [removeFromStats, shifted, negated, contribution, sub_eq_add_neg, add_comm]

theorem foldl_changeGoalStats_fullCopies (chunk : Chunk Part) (delta : Int) (expected actual : Nat) :
    ∀ (goals : List UInt8) (stats : Stats),
      goals.foldl (chunk.changeGoalStats delta) stats (.fullCopies expected actual) =
        stats (.fullCopies expected actual)
  | [], _ => rfl
  | goal :: rest, stats => by
    rw [List.foldl_cons, foldl_changeGoalStats_fullCopies chunk delta expected actual rest]
    simp [changeGoalStats, bump]

/-- Every chunk counts once in `allFullChunkCopies`, so it always adds something. -/
theorem contribution_ne_zero (chunk : Chunk Part) : chunk.contribution ≠ 0 := by
  intro nothing
  have counted : chunk.contribution (.fullCopies (min (CHUNK_MATRIX_SIZE - 1) chunk.copiesInStats)
      (min (CHUNK_MATRIX_SIZE - 1) chunk.allFullCopies)) = 1 := by
    simp [contribution, changeStats, bump, foldl_changeGoalStats_fullCopies]
  rw [nothing, Pi.zero_apply] at counted
  exact absurd counted (by decide)

theorem updateStats_stats (assess : List GoalCounter → List Part → Assessment) (chunk : Chunk Part)
    (removeFromStats : Bool) (stats : Stats) :
    (chunk.updateStats assess removeFromStats stats).1 =
      (if removeFromStats then stats - chunk.contribution else stats) +
        (chunk.updateStats assess removeFromStats stats).2.contribution := by
  simp only [updateStats, addToStats_eq]
  split <;> simp [removeFromStats_eq]

/-- A call that took the chunk out of the tables and counts what it left. -/
def Call.Balanced (call : Call Part) (chunk : Chunk Part) (stats : Stats) : Prop :=
  call.stats = stats - chunk.contribution + call.chunk.contribution

theorem bracketStats_balanced (assess : List GoalCounter → List Part → Assessment)
    (chunk : Chunk Part) (change : List GoalCounter × Except String Unit) (stats : Stats)
    (completed : (chunk.bracketStats assess change stats).result = .ok ()) :
    (chunk.bracketStats assess change stats).Balanced chunk stats := by
  unfold bracketStats at completed ⊢
  split
  next =>
    simp only [Call.Balanced, updateStats_stats, Bool.false_eq_true, if_false, removeFromStats_eq]
  next message thrown =>
    rw [thrown] at completed
    cases completed

/-- When the counters throw, the chunk is out of the tables and keeps its cached fields. -/
theorem bracketStats_thrown (assess : List GoalCounter → List Part → Assessment) (chunk : Chunk Part)
    (change : List GoalCounter × Except String Unit) (stats : Stats) (message : String)
    (thrown : change.2 = .error message) :
    chunk.bracketStats assess change stats =
      ⟨stats - chunk.contribution, { chunk with goalCounters := change.1 }, .error message⟩ := by
  simp [bracketStats, thrown, removeFromStats_eq]

end Chunk

namespace Master

variable {Part : Type}

/-- The tables count exactly the live chunks, each with its cached fields. -/
def Consistent (master : Master Part) : Prop :=
  master.stats = (master.chunks.map Chunk.contribution).sum

theorem empty_consistent : (empty : Master Part).Consistent := rfl

theorem chunkNew_consistent (assess : List GoalCounter → List Part → Assessment)
    (master : Master Part) (chunkid : UInt64) (consistent : master.Consistent) :
    (master.chunkNew assess chunkid).Consistent := by
  have added := Chunk.updateStats_stats assess (Chunk.cleared chunkid) false master.stats
  simp only [Bool.false_eq_true, if_false] at added
  unfold Consistent at consistent ⊢
  simp only [chunkNew, List.map_append, List.sum_append, List.map_cons, List.map_nil,
    List.sum_cons, List.sum_nil, add_zero]
  rw [added, consistent]

theorem chunkDelete_consistent (master : Master Part) (chunkid : UInt64)
    (consistent : master.Consistent) : (master.chunkDelete chunkid).Consistent := by
  unfold chunkDelete
  split
  next i found =>
    split
    next chunk stored =>
      obtain ⟨inside, rfl⟩ := List.getElem?_eq_some_iff.mp stored
      have split := List.add_sum_eraseIdx (l := master.chunks.map Chunk.contribution)
        (by simpa using inside) fun _ _ => AddCommute.all _ _
      rw [List.getElem_map] at split
      unfold Consistent at consistent
      simp only [Consistent, Chunk.removeFromStats_eq, ← List.eraseIdx_map, consistent, ← split]
      abel
    next => exact consistent
  next => exact consistent

/-- A call that completes is balanced, so the master stays consistent. -/
theorem callChunk_consistent (master : Master Part) (chunkid : UInt64)
    (method : Chunk Part → Stats → Chunk.Call Part)
    (balanced : ∀ chunk stats, (method chunk stats).result = .ok () →
      (method chunk stats).Balanced chunk stats)
    (consistent : master.Consistent) (caught : (master.callChunk chunkid method).2 ≠ .eChunkLost) :
    (master.callChunk chunkid method).1.Consistent := by
  unfold callChunk at caught ⊢
  split
  next i found =>
    split
    next chunk stored =>
      obtain ⟨inside, rfl⟩ := List.getElem?_eq_some_iff.mp stored
      have completed : (method master.chunks[i] master.stats).result = .ok () := by
        simp only [found, stored] at caught
        split at caught
        · assumption
        · exact absurd rfl caught
      have call := balanced _ _ completed
      simp only [Consistent, List.map_set, List.sum_set', List.length_map, inside, dif_pos,
        List.getElem_map]
      unfold Consistent at consistent
      rw [call, consistent]
      abel
    next => exact consistent
  next => exact consistent

theorem callChunk_caught (master : Master Part) (chunkid : UInt64)
    (method : Chunk Part → Stats → Chunk.Call Part)
    (completes : ∀ chunk stats, (method chunk stats).result = .ok ()) :
    (master.callChunk chunkid method).2 ≠ .eChunkLost := by
  unfold callChunk
  repeat' split
  all_goals simp_all

/-- The master's steps that report no exception: a new or deleted chunk, a file
added, removed or moved to another goal, new parts, each under the goal
definitions of its time. -/
inductive Step : Master Part → Master Part → Prop where
  | chunkNew (assess : List GoalCounter → List Part → Assessment) (master : Master Part)
      (chunkid : UInt64) : Step master (master.chunkNew assess chunkid)
  | chunkDelete (master : Master Part) (chunkid : UInt64) : Step master (master.chunkDelete chunkid)
  | chunkAddFile (assess : List GoalCounter → List Part → Assessment) (master : Master Part)
      (chunkid : UInt64) (goal : UInt8) (caught : (master.chunkAddFile assess chunkid goal).2 ≠ .eChunkLost) :
      Step master (master.chunkAddFile assess chunkid goal).1
  | chunkDeleteFile (assess : List GoalCounter → List Part → Assessment) (master : Master Part)
      (chunkid : UInt64) (goal : UInt8)
      (caught : (master.chunkDeleteFile assess chunkid goal).2 ≠ .eChunkLost) :
      Step master (master.chunkDeleteFile assess chunkid goal).1
  | chunkChangeFile (assess : List GoalCounter → List Part → Assessment) (master : Master Part)
      (chunkid : UInt64) (prevGoal newGoal : UInt8)
      (caught : (master.chunkChangeFile assess chunkid prevGoal newGoal).2 ≠ .eChunkLost) :
      Step master (master.chunkChangeFile assess chunkid prevGoal newGoal).1
  | chunkSetParts (assess : List GoalCounter → List Part → Assessment) (master : Master Part)
      (chunkid : UInt64) (parts : List Part) :
      Step master (master.chunkSetParts assess chunkid parts).1

theorem Step.consistent {master master' : Master Part} (step : Step master master')
    (consistent : master.Consistent) : master'.Consistent := by
  cases step with
  | chunkNew assess _ chunkid => exact chunkNew_consistent assess master chunkid consistent
  | chunkDelete _ chunkid => exact chunkDelete_consistent master chunkid consistent
  | chunkAddFile assess _ chunkid goal caught =>
    exact callChunk_consistent master chunkid _
      (fun chunk stats => Chunk.bracketStats_balanced assess chunk _ stats) consistent caught
  | chunkDeleteFile assess _ chunkid goal caught =>
    exact callChunk_consistent master chunkid _
      (fun chunk stats => Chunk.bracketStats_balanced assess chunk _ stats) consistent caught
  | chunkChangeFile assess _ chunkid prevGoal newGoal caught =>
    by_cases same : prevGoal = newGoal
    · simp only [Master.chunkChangeFile, same, if_true]
      exact consistent
    · simp only [Master.chunkChangeFile, same, if_false] at caught ⊢
      exact callChunk_consistent master chunkid _
        (fun chunk stats => Chunk.bracketStats_balanced assess chunk _ stats) consistent caught
  | chunkSetParts assess _ chunkid parts =>
    -- the new parts are counted as `updateStats()` leaves them
    have balanced : ∀ (chunk : Chunk Part) stats,
        let updated := ({ chunk with parts }).updateStats assess true stats
        (Chunk.Call.mk updated.1 updated.2 (.ok ())).Balanced chunk stats := by
      intro chunk stats
      simp only [Chunk.Call.Balanced, Chunk.updateStats_stats, if_true]
      rfl
    exact callChunk_consistent master chunkid _ (fun chunk stats _ => balanced chunk stats) consistent
      (callChunk_caught master chunkid _ fun _ _ => rfl)

/-- The states the master reaches from `chunk_strinit` by steps that report no exception. -/
inductive Reachable : Master Part → Prop where
  | empty : Reachable empty
  | step {master master' : Master Part} : Reachable master → Step master master' → Reachable master'

theorem Reachable.consistent {master : Master Part} (reachable : Reachable master) :
    master.Consistent := by
  induction reachable with
  | empty => exact empty_consistent
  | step _ step consistent => exact step.consistent consistent

/-- When `ChunkGoalCounters::addFile` throws inside `Chunk::addFileWithGoal`, the
chunk stays live but is no longer counted: `chunk_add_file` reports the chunk
lost and the tables miss the chunk's contribution. -/
theorem chunkAddFile_thrown_drops_chunk (assess : List GoalCounter → List Part → Assessment)
    (master : Master Part) (chunkid : UInt64) (goal : UInt8) (i : Nat) (chunk : Chunk Part)
    (message : String) (consistent : master.Consistent) (found : master.find? chunkid = some i)
    (stored : master.chunks[i]? = some chunk)
    (thrown : ChunkGoalCounters.addFile chunk.goalCounters goal = .error message) :
    (master.chunkAddFile assess chunkid goal).2 = .eChunkLost ∧
      ¬(master.chunkAddFile assess chunkid goal).1.Consistent := by
  obtain ⟨inside, rfl⟩ := List.getElem?_eq_some_iff.mp stored
  have call := Chunk.bracketStats_thrown assess master.chunks[i]
    (master.chunks[i].goalCounters, .error message) master.stats message rfl
  simp only [chunkAddFile, callChunk, found, stored, Chunk.addFileWithGoal, ChunkGoalCounters.keepOnError,
    thrown, call]
  refine ⟨trivial, ?_⟩
  intro counted
  rw [Consistent, List.set_getElem_self, ← consistent, sub_eq_self] at counted
  exact Chunk.contribution_ne_zero _ counted

/-- A chunk of one file with goal 1 is given a file with goal 0, which is not a
valid goal id: the master reports the chunk lost and its tables no longer count it. -/
theorem chunkAddFile_thrown_drops_chunk_goalZero :
    let assess : List GoalCounter → List Unit → Assessment := fun _ _ => ⟨1, .kSafe, 0, 0, 1⟩
    let master := (((Master.empty : Master Unit).chunkNew assess 7).chunkAddFile assess 7 1).1
    let chunk : Chunk Unit := ⟨7, [], [⟨1, 1⟩], .kSafe, 1, 0, 0, 1⟩
    master.Consistent ∧ master.find? 7 = some 0 ∧ master.chunks[0]? = some chunk ∧
      ChunkGoalCounters.addFile chunk.goalCounters 0 = .error "Trying to add non-existent goal: 0" ∧
      (master.chunkAddFile assess 7 0).2 = .eChunkLost ∧ ¬(master.chunkAddFile assess 7 0).1.Consistent := by
  intro assess master chunk
  have consistent : master.Consistent :=
    (((Reachable.empty).step (Step.chunkNew assess _ 7)).step
      (Step.chunkAddFile assess _ 7 1 (by decide))).consistent
  have found : master.find? 7 = some 0 := by decide
  have stored : master.chunks[0]? = some chunk := by decide
  have thrown : ChunkGoalCounters.addFile chunk.goalCounters 0 = .error "Trying to add non-existent goal: 0" := by
    decide
  exact ⟨consistent, found, stored, thrown,
    chunkAddFile_thrown_drops_chunk assess master 7 0 0 chunk _ consistent found stored thrown⟩

end Master

end SaunaFS
