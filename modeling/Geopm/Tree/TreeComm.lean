import Geopm.Exception
import Geopm.Lib.RowMajor

/-!
# The communication tree

The nodes of a job are numbered row by row on a grid whose side lengths are the fan-outs, from the
root to the leaves.

* `TreeCommImp.initLevel` : the collective splits of a rank, and the levels it joins and controls;
* `TreeCommImp.levelComm` : the communicator of a level, from the splits of all ranks;
* `TreeCommImp.make` : the members of `TreeCommImp` on a rank;
* `TreeComm.fanOut` : the side lengths for a number of nodes.
-/

namespace Geopm

/-- A call of `MPI_Comm_split`.  The color `none` is `M_SPLIT_COLOR_UNDEFINED`. -/
structure Split where
  color : Option ℕ
  key : ℕ
deriving DecidableEq, Repr

/-- `MPI_Comm_split` among `n` ranks: the ranks that call it with the color `c`, in the order of
their keys, and of their ranks where the keys agree. -/
def commSplit (n : ℕ) (call : ℕ → Option Split) (c : ℕ) : List ℕ :=
  ((List.range n).filter fun r => (call r).bind Split.color = some c).mergeSort fun r r' =>
    ((call r).elim 0 Split.key : ℕ) ≤ (call r').elim 0 Split.key

/-- The members of `TreeCommLevelImp` that the tree reads. -/
structure TreeCommLevel where
  size : ℕ
  rank : ℕ
deriving DecidableEq, Repr

/-- The members of `TreeCommImp`. -/
structure TreeCommImp where
  fanOut : List ℕ
  rootLevel : ℕ
  numLevelCtl : ℕ
  maxLevel : ℕ
  levelCtl : List TreeCommLevel
deriving DecidableEq, Repr

namespace TreeCommImp

/-- `num_level_controlled`: the number of zeros at the end of the coordinates. -/
def numLevelControlled (coords : List ℕ) : ℕ := (coords.reverse.takeWhile (· == 0)).length

/-- The first loop of `init_level`, for `n` levels from `level` on. -/
def joinLevels (dims : List ℕ) (rankCart rootLevel : ℕ) : ℕ → ℕ → List ℕ → List Split
  | _, 0, _ => []
  | level, n + 1, parentCoords =>
    let parentCoords := parentCoords.set (rootLevel - 1 - level) 0
    ⟨some (RowMajor.rank dims parentCoords), rankCart⟩ ::
      joinLevels dims rankCart rootLevel (level + 1) n parentCoords

/-- What `init_level` determines on one rank. -/
structure LevelPlan where
  numLevelCtl : ℕ
  maxLevel : ℕ
  splits : List Split
deriving DecidableEq, Repr

/-- `init_level`, on the rank `rankCart` of the Cartesian communicator. -/
def initLevel (dims : List ℕ) (rankCart : ℕ) : LevelPlan :=
  let rootLevel := dims.length
  let coords := RowMajor.coords dims rankCart
  let numLevelCtl := numLevelControlled coords
  let maxLevel := if numLevelCtl ≠ rootLevel then numLevelCtl + 1 else numLevelCtl
  { numLevelCtl, maxLevel
    splits := joinLevels dims rankCart rootLevel 0 maxLevel coords ++
      List.replicate (rootLevel - maxLevel) ⟨none, 0⟩ }

/-- The split of a rank for a level. -/
def splitAt (dims : List ℕ) (level rankCart : ℕ) : Option Split :=
  (initLevel dims rankCart).splits[level]?

/-- The ranks of the communicator of a level that the rank is in, in their order in it. -/
def levelComm (dims : List ℕ) (level rankCart : ℕ) : List ℕ :=
  match (splitAt dims level rankCart).bind Split.color with
  | none => []
  | some c => commSplit dims.prod (splitAt dims level) c

/-- The constructor, on the rank `rankCart` of the Cartesian communicator. -/
def make (dims : List ℕ) (rankCart : ℕ) : TreeCommImp where
  fanOut := dims.reverse
  rootLevel := dims.length
  numLevelCtl := (initLevel dims rankCart).numLevelCtl
  maxLevel := (initLevel dims rankCart).maxLevel
  levelCtl := (List.range (initLevel dims rankCart).maxLevel).map fun level =>
    { size := (levelComm dims level rankCart).length
      rank := (levelComm dims level rankCart).idxOf rankCart }

def levelRank (t : TreeCommImp) (level : ℤ) : Except Exception ℕ :=
  if level < 0 ∨ t.maxLevel ≤ level then
    .error ⟨"TreeCommImp::level_rank()", [], .levelRange⟩
  else .ok ((t.levelCtl[level.toNat]?).elim 0 TreeCommLevel.rank)

def levelSize (t : TreeCommImp) (level : ℤ) : Except Exception ℕ :=
  if level < 0 ∨ t.fanOut.length ≤ level then
    .error ⟨"TreeCommImp::level_size()", [], .levelRange⟩
  else .ok (t.fanOut.getD level.toNat 0)

end TreeCommImp

/-! ### The side lengths -/

namespace TreeComm

/-- The loop of `fan_out`, for at most `fuel` more dimensions. -/
def fanOutLoop (dimsCreate : ℕ → ℕ → List ℕ) (numNodes maxFanOut : ℕ) :
    ℕ → List ℕ → Option (List ℕ)
  | 0, _ => none
  | fuel + 1, fanOut =>
    if maxFanOut < fanOut.headD 0 ∧ fanOut.getLastD 0 ≠ 1 then
      fanOutLoop dimsCreate numNodes maxFanOut fuel (dimsCreate numNodes (fanOut.length + 1))
    else some fanOut

/-- `fan_out`, with `MPI_Dims_create` as a parameter. -/
def fanOut (dimsCreate : ℕ → ℕ → List ℕ) (numNodes maxFanOut fuel : ℕ) : Option (List ℕ) :=
  if 1 < numNodes then
    (fanOutLoop dimsCreate numNodes maxFanOut fuel [numNodes]).map fun fanOut =>
      (if 1 < fanOut.length ∧ fanOut.getLastD 0 = 1 then fanOut.dropLast else fanOut).reverse
  else some []

end TreeComm

end Geopm
