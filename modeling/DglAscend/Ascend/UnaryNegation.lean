import DglAscend.Ascend.UnifiedBuffer
import DglAscend.Lib.DisjointWrites
import DglAscend.Lib.Lanes
import DglAscend.Lib.Loops

/-!
# Negating an array

`unary_neg_i64` negates an array of `int64` on the vector cores, as a stream of lanes of 32 bits.  A tile
is negated in one subtraction, unless it has a lane that is zero, which makes the borrow of the
subtraction wrong: such a tile is computed again from its lanes and from its lanes one place on.

The cast to `float` that the probe for zeros uses is a parameter.  Every buffer holds anything at first.
-/

namespace DglAscend.Ascend.UnaryNeg

/-- `kI64TileElems` -/
def tileElems : ℕ := 1024

/-- `kI64TileLanes` -/
def tileLanes : ℕ := tileElems * 2

/-- `LocalTensor<int32_t>` -/
abbrev LocalTensor := ℕ → Lane

/-! ## Instructions -/

namespace LocalTensor

variable (dst a b : LocalTensor)

def createVecIndex (first : Lane) (n : ℕ) : LocalTensor :=
  lanewise n dst fun l => first + BitVec.ofNat 32 l

def duplicate (v : Lane) (n : ℕ) : LocalTensor := lanewise n dst fun _ => v

/-- `And` counts lanes of 16 bits. -/
def and (n : ℕ) : LocalTensor := lanewise (n / 2) dst fun l => a l &&& b l

def muls (s : Lane) (n : ℕ) : LocalTensor := lanewise n dst fun l => a l * s

def adds (s : Lane) (n : ℕ) : LocalTensor := lanewise n dst fun l => a l + s

def maxs (s : Lane) (n : ℕ) : LocalTensor := lanewise n dst fun l => signedMax (a l) s

def min (n : ℕ) : LocalTensor := lanewise n dst fun l => signedMin (a l) (b l)

def mul (n : ℕ) : LocalTensor := lanewise n dst fun l => a l * b l

def add (n : ℕ) : LocalTensor := lanewise n dst fun l => a l + b l

def sub (n : ℕ) : LocalTensor := lanewise n dst fun l => a l - b l

/-- `DataCopy` and `DataCopyPad` into the buffer, of a number of bytes. -/
def copyIn (src : ℕ → Lane) (bytes : ℕ) : LocalTensor := lanewise (bytes / 4) dst src

/-- `t[offset]` -/
def view (t : LocalTensor) (offset : ℕ) : LocalTensor := fun l => t (offset + l)

/-- A tensor after an instruction on `t[offset]`. -/
def withView (t : LocalTensor) (offset : ℕ) (f : LocalTensor → LocalTensor) : LocalTensor :=
  fun l => if l < offset then t l else f (t.view offset) (l - offset)

/-- `DataCopy` and `DataCopyPad` out of the buffer: the lanes that are written from `base` on. -/
def copyOut (base bytes : ℕ) : List (ℕ × Lane) :=
  (List.range (bytes / 4)).map fun l => (base + l, a l)

end LocalTensor

/-- `xGm`: lane `2i` is the low half of element `i`, lane `2i + 1` its high half. -/
def gmLanes (x : List (BitVec 64)) (l : ℕ) : Lane :=
  if l % 2 = 0 then loLane (x.getD (l / 2) 0) else hiLane (x.getD (l / 2) 0)

/-! ## Tiles -/

/-- The unified buffer of a core.  Of the buffers of a queue the first one is allocated next; `idx` is also
`parityOdd`. -/
structure Ub where
  xQueue : LocalTensor × LocalTensor
  yQueue : LocalTensor × LocalTensor
  borrow : LocalTensor
  idx : LocalTensor
  probeF : ℕ → ℚ
  reduceOut : ℚ
  rareLo : LocalTensor
  rareHi : LocalTensor
  rareLoOut : LocalTensor
  rareHiOut : LocalTensor
  sSub : LocalTensor
  tmpRSub : LocalTensor
  tSub : LocalTensor

open LocalTensor

/-- The pattern of the borrow, `[0, -1, 0, -1, ..]`, and `parityOdd`. -/
def buildPattern (ub : Ub) : Ub :=
  let idx := createVecIndex ub.idx 0 tileLanes
  let borrow := duplicate ub.borrow 1 tileLanes
  let borrow := LocalTensor.and borrow borrow idx tileLanes
  let borrow := withView borrow tileElems fun v =>
    LocalTensor.and v v (idx.view tileElems) tileLanes
  let borrow := muls borrow borrow (-1) tileLanes
  { ub with borrow := borrow, idx := muls idx borrow (-1) tileLanes }

variable (cast : Lane → ℚ) (x : List (BitVec 64))

/-- The bytes of a tile. -/
def tileBytes (cnt : ℕ) : ℕ := if cnt = tileElems then tileLanes * 4 else cnt * 8

/-- `s`: the lanes of a tile. -/
def loadTile (off cnt : ℕ) (ub : Ub) : LocalTensor :=
  copyIn ub.xQueue.1 (fun l => gmLanes x (off * 2 + l)) (tileBytes cnt)

/-- The smallest magnitude of the first lanes of `s`. -/
def probe (s : LocalTensor) (lanes : ℕ) (ub : Ub) : Ub :=
  let probeF := lanewise lanes ub.probeF fun l => cast (s l)
  let probeF := lanewise lanes probeF fun l => |probeF l|
  { ub with
    probeF := probeF
    reduceOut := (List.range (lanes - 1)).foldl (fun m l => Min.min m (probeF (l + 1))) (probeF 0) }

/-- The first element of a tile with a zero. -/
def rareFirst (laneBase : ℕ) (ub : Ub) : Ub :=
  let rareLo := copyIn ub.rareLo (fun l => gmLanes x (laneBase + l)) 4
  let rareHi := copyIn ub.rareHi (fun l => gmLanes x (laneBase + 1 + l)) 4
  let rareLoOut := muls ub.rareLoOut rareLo (-1) 1
  let rareLo := LocalTensor.min rareLo rareLo rareLoOut 1
  let rareLo := maxs rareLo rareLo (-1) 1
  let rareLo := muls rareLo rareLo (-1) 1
  let rareHiOut := muls ub.rareHiOut rareHi (-1) 1
  let rareHiOut := sub rareHiOut rareHiOut rareLo 1
  { ub with rareLo := rareLo, rareHi := rareHi, rareLoOut := rareLoOut, rareHiOut := rareHiOut }

/-- The other elements of a tile with a zero. -/
def rareRest (laneBase lanes : ℕ) (ub : Ub) : Ub :=
  let lanesSub := lanes - 2
  let sSub := copyIn ub.sSub (fun l => gmLanes x (laneBase + 2 + l)) (lanesSub * 4)
  let tmpRSub := copyIn ub.tmpRSub (fun l => gmLanes x (laneBase + 1 + l)) (lanesSub * 4)
  let tSub := muls ub.tSub tmpRSub (-1) lanesSub
  let tmpRSub := LocalTensor.min tmpRSub tmpRSub tSub lanesSub
  let tmpRSub := maxs tmpRSub tmpRSub (-1) lanesSub
  let tmpRSub := adds tmpRSub tmpRSub 1 lanesSub
  let tmpRSub := mul tmpRSub tmpRSub ub.idx lanesSub
  let tSub := sub tSub ub.borrow sSub lanesSub
  let tSub := add tSub tSub tmpRSub lanesSub
  { ub with sSub := sSub, tmpRSub := tmpRSub, tSub := tSub }

/-- A tile with a zero. -/
def rareTile (off cnt : ℕ) (ub : Ub) : Ub × List (ℕ × Lane) :=
  let laneBase := off * 2
  let lanes := cnt * 2
  let ub := rareFirst x laneBase ub
  let ub := if 2 ≤ cnt then rareRest x laneBase lanes ub else ub
  (ub, copyOut ub.rareLoOut laneBase 4 ++ copyOut ub.rareHiOut (laneBase + 1) 4 ++
    if 2 ≤ cnt then copyOut ub.tSub (laneBase + 2) ((lanes - 2) * 4) else [])

/-- A tile without zeros. -/
def fastTile (s : LocalTensor) (off cnt : ℕ) (ub : Ub) : Ub × List (ℕ × Lane) :=
  let t := sub ub.yQueue.1 ub.borrow s (cnt * 2)
  ({ ub with yQueue := (ub.yQueue.2, t) }, copyOut t (off * 2) (tileBytes cnt))

/-- A turn of the loop over the tiles. -/
def tile (off cnt : ℕ) (ub : Ub) : Ub × List (ℕ × Lane) :=
  let s := loadTile x off cnt ub
  let ub := probe cast s (cnt * 2) ub
  let ub := { ub with xQueue := (ub.xQueue.2, s) }
  if ub.reduceOut = 0 then rareTile x off cnt ub else fastTile s off cnt ub

/-! ## Cores -/

/-- A core in its loop: the lanes that it has written are `writes`. -/
structure Core where
  off : ℕ
  ub : Ub
  writes : List (ℕ × Lane)

/-- `UnaryBlockRange` -/
def unaryBlockRange (n blockId blockNum : ℕ) : ℕ × ℕ :=
  let perCore := u32 ((n + blockNum - 1) / blockNum)
  let blockFormer := u32 (u32 (perCore + 512 - 1) / 512 * 512)
  let start := u32 (blockId * blockFormer)
  (start, u32 (if start + blockFormer < n then start + blockFormer else n))

/-- The loop over the tiles goes on. -/
def pending (stop : ℕ) (c : Core) : Bool := c.off < stop

/-- The next tile. -/
def turn (stop : ℕ) (c : Core) : Core :=
  let cnt := if tileElems < stop - c.off then tileElems else stop - c.off
  let next := tile cast x c.off cnt c.ub
  ⟨u32 (c.off + cnt), next.1, c.writes ++ next.2⟩

/-- `unary_neg_i64` on a core. -/
def block (blockNum blockId : ℕ) (ub : Ub) : Except Core Core :=
  let range := unaryBlockRange x.length blockId blockNum
  whileLoop (pending range.2) (turn cast x range.2) (range.2 - range.1 + 1)
    ⟨range.1, buildPattern ub, []⟩

/-- The lanes that the cores write. -/
def launch (blockNum : ℕ) (ub : ℕ → Ub) : Except Core (List (ℕ × Lane)) :=
  ((List.range blockNum).mapM fun b => block cast x blockNum b (ub b)).map
    fun cores => cores.flatMap Core.writes

/-- `CalcBlockDim`, where the device tells how many vector cores it has or fails to. -/
def calcBlockDim (vectorCores : Option ℤ) (length : ℕ) : ℕ :=
  let available : ℤ := match vectorCores with
    | some cores => if cores ≤ 0 then 8 else cores
    | none => 8
  let needed := u32 ((length + 1024 - 1) / 1024)
  let cores := u32 available.toNat
  let blockDim := if needed < cores then needed else cores
  if 0 < blockDim then blockDim else 1

/-- Element `i` of `yGm`. -/
def wordAt (y : List Lane) (i : ℕ) : BitVec 64 := joinLanes (y.getD (2 * i) 0) (y.getD (2 * i + 1) 0)

end DglAscend.Ascend.UnaryNeg
