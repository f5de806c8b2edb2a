/-
  Cutting blocks out of an extent item (`extent40_trunc_units`).

  The cut begins at `hint->offset`, or at the next block border behind it, in the unit at the position of
  the place, and goes on for `hint->count` bytes or to the end of the item.  A loop takes the blocks away:
  the unit at the position loses blocks at its end (`eskip`, in the first round only), or at its start, or
  goes as a whole; then the units behind it move up, and the same position holds the next unit.

  What the loop does is not what it is for in these places:

    * the rest of the size is kept in an `int32_t`, start and width of the unit in `uint32_t`;
    * a unit that has lost blocks at its end stays the current one;
    * the move of the units takes `16 * units - (pos + 1)` bytes, not `16 * (units - (pos + 1))`;
    * the blocks of a unit that goes in part are counted a second time in `hint->bytes`, those of a hole
      once.
-/
import Reiser4.Extent40.Memory
import Reiser4.Extent40.Remove

namespace Reiser4

open Reiser4.Lib

/-! ## The routine -/

/-- What the loop does not change: the block size, the body of the item in the node, its units, the
    position in them, the size of the cut and the blocks of the first unit in front of it. -/
structure TruncCall where
  blksize : Nat
  body : Nat
  units : Nat
  pos : Nat
  count : Nat
  epos : Nat
  deriving Repr

/-- What the loop changes: the memory of the node, the offset of the next block to drop from the data
    cache, the rest of the size, `hint->len` and `hint->bytes`. -/
structure TruncState where
  mem : Bytes
  offset : Nat
  size : Nat
  len : Nat
  bytes : Nat

section Routine

variable {σ : Type} (dropBlock : Nat → Run σ Errno Unit) (incFree : Nat → Run σ Errno Unit)
  (regionFunc : Nat → Nat → Run σ Errno Unit)

namespace TruncCall

variable (c : TruncCall)

/-- The unit at the position. -/
def unit (s : TruncState) : ExtentUnit := unitAt s.mem c.body c.pos

/-- `eskip`: the blocks of the unit in front of the cut. -/
def eskip (s : TruncState) : Nat := if s.size = c.count then c.epos else 0

/-- `remove`: the blocks taken away in this round; the difference has 32 bits. -/
def remove (s : TruncState) : Nat :=
  min (s.size / c.blksize) (u32 (u32 (c.unit s).width + (two32 - c.eskip s)))

/-- The calls of one round for `n` blocks. -/
def notify (s : TruncState) (n : Nat) : Run σ Errno Unit := do
  Run.forEach dropBlock ((List.range n).map fun i => u64 (s.offset + i * c.blksize))
  let start := u32 (c.unit s).start
  if start = extentHoleUnit then pure ()
  else if start = extentUnallocUnit then incFree n
  else do
    incFree n
    regionFunc (u32 (start + c.eskip s)) n

/-- The size of the move of the units behind the current one, in bytes. -/
def moveSize : Nat := 16 * c.units - (c.pos + 1)

/-- The memory, what is added to `hint->len` and what is added to `hint->bytes` in one round for `n`
    blocks. -/
def change (s : TruncState) (n : Nat) : Bytes × Nat × Nat :=
  let e := c.unit s
  let start := u32 e.start
  let counted := if start = extentHoleUnit then 0 else n * c.blksize
  if c.eskip s ≠ 0 then
    (setWidth s.mem c.body c.pos (e.width + (two64 - n)), 0, counted + n * c.blksize)
  else if n < u32 e.width then
    let mem := if start = extentHoleUnit ∨ start = extentUnallocUnit then s.mem
      else setStart s.mem c.body c.pos (e.start + n)
    (setWidth mem c.body c.pos (e.width + (two64 - n)), 0, counted + n * c.blksize)
  else
    (if c.pos < c.units - 1 then
      s.mem.move (c.body + 16 * c.pos) (c.body + 16 * (c.pos + 1)) c.moveSize
    else s.mem, 16, counted)

/-- The state after a round. -/
def next (s : TruncState) (n : Nat) : TruncState where
  mem := (c.change s n).1
  offset := u64 (s.offset + n * c.blksize)
  size := s.size - n * c.blksize
  len := s.len + (c.change s n).2.1
  bytes := u64 (s.bytes + (c.change s n).2.2)

/-- The loop; every round takes something of the size, so the size bounds the rounds. -/
def loop : Nat → TruncState → Run σ Errno TruncState
  | 0, s => pure s
  | fuel + 1, s =>
    if c.remove s = 0 then pure s
    else do
      c.notify dropBlock incFree regionFunc s (c.remove s)
      loop fuel (c.next s (c.remove s))

end TruncCall

/-- What is left of a size in an `int32_t`; the loop does not run on a negative one. -/
def sizeInt32 (count : Nat) : Nat := if u32 count < 2147483648 then u32 count else 0

/-- What the routine is given: the block size, the memory of the node, the body and the number of units
    of the item, its key, the position, and offset and count of the cut. -/
structure TruncArgs where
  blksize : Nat
  mem : Bytes
  body : Nat
  units : Nat
  key : Key
  unit : Option Nat
  offset : Nat
  count : Nat

namespace TruncArgs

variable (a : TruncArgs)

/-- `skip`: the bytes in front of the first block border. -/
def skip : Nat := if a.blksize - a.offset % a.blksize = a.blksize then 0
  else a.blksize - a.offset % a.blksize

/-- The units of the item. -/
def extents : List ExtentUnit := unitsAt a.mem a.body a.units

/-- `offset`, from the start of the item on. -/
def relOffset : Nat := u64 (u64 (a.offset + a.skip) + (two64 - a.key.offset))

/-- `esize`: the bytes of the item behind the border. -/
def esize : Nat := u64 (extent40Offset a.blksize a.extents a.units + (two64 - a.relOffset))

/-- `count`: what is cut of them. -/
def cutCount : Nat := min (a.count - a.skip) a.esize

/-- `epos`. -/
def epos : Nat :=
  u32 (u64 (a.relOffset + (two64 - extent40Offset a.blksize a.extents (a.unit.getD 0))) / a.blksize)

def call : TruncCall where
  blksize := a.blksize
  body := a.body
  units := a.units
  pos := a.unit.getD 0
  count := a.cutCount
  epos := a.epos

def start : TruncState where
  mem := a.mem
  offset := u64 (a.offset + a.skip)
  size := sizeInt32 a.cutCount
  len := 0
  bytes := 0

end TruncArgs

/-- What the routine leaves: the memory, the item key, `hint->len`, `hint->bytes` and its result. -/
structure TruncResult where
  mem : Bytes
  key : Key
  len : Nat
  bytes : Nat
  result : Nat

/-- `extent40_trunc_units`. -/
def extent40TruncUnits (a : TruncArgs) : Run σ Errno TruncResult :=
  if a.count < a.skip then pure ⟨a.mem, a.key, 0, 0, a.count⟩
  else do
    let s ← a.call.loop dropBlock incFree regionFunc a.start.size a.start
    let key := if a.call.pos = 0 ∧ a.epos = 0 ∧ a.cutCount ≠ 0 then
        a.key.setOffset (u64 (a.key.offset + a.cutCount / a.blksize * a.blksize))
      else a.key
    pure ⟨s.mem, key, s.len, s.bytes, a.cutCount + a.skip⟩

end Routine

end Reiser4
