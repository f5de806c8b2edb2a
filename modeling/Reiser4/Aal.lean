/-
  The device, the blocks and the error codes every plugin works with (the `aal` layer).

  `libaal` itself is not part of this repository; what the code relies on is documented by its use:
  a block is loaded from and written to a block number of a device, as a whole, and a read or a
  write that the device cannot serve is reported to the caller, who turns it into `-EIO`.  A device
  here is the contents of its blocks; a number the device cannot serve holds `none`.
-/
import Reiser4.Lib.Bytes

namespace Reiser4

open Reiser4.Lib

/-- The error codes (`errno_t`) that the modelled routines return. -/
inductive Errno
  | eio | einval | estruct | enomem | enospc
  deriving DecidableEq, Repr

/-- `aal_device_t`: the contents of each block the device can serve. -/
abbrev Device := Nat → Option Bytes

/-- `aal_block_t`: a block in memory, with the number it belongs to. -/
structure Block where
  nr : Nat
  data : Bytes

/-- `aal_block_load`. -/
def aalBlockLoad (dev : Device) (nr : Nat) : Option Block :=
  (dev nr).map (fun data => { nr, data })

/-- `aal_block_move`: the block now belongs to another number. -/
def aalBlockMove (b : Block) (nr : Nat) : Block := { b with nr }

/-- `aal_block_write`; `none` is a failed write. -/
def aalBlockWrite (dev : Device) (b : Block) : Option Device :=
  if (dev b.nr).isSome then some (fun n => if n = b.nr then some b.data else dev n) else none

/-- The state bit of an entity whose contents differ from the device (`1 << ENTITY_DIRTY`). -/
def entityDirty : Nat := 1

end Reiser4
