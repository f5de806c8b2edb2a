/-
  The bytes of a node (`node40`).

      node header | body 0 | … | body n-1 | free space | item header n-1 | … | item header 0

  An item header holds the key, the offset of the body in the block, the flags and the plugin id.  The
  length of an item is the offset of the next one less its own; the last item ends where the free space
  starts.

    1. `bound`     the offset of item `i`, and the start of the free space behind the last one;
    2. `WF`        the bodies follow one another from the node header on, and the free space is what the
                   bodies and the headers leave;
    3. `fetch`, `shrink`   the routines the other operations of the node are made of;
    4. `WF.shrink_room`    what `node40_shrink` does when it takes bytes out of an item.
-/
import Reiser4.Bitmap
import Reiser4.Item.Body
import Reiser4.Cde40.Layout

namespace Reiser4

open Reiser4.Lib

/-- `reiser4_node_t`: the memory of the block and its size. -/
structure NodeBlock where
  mem : Bytes
  size : Nat

namespace Node40

variable (pol : KeyPol) (node : NodeBlock)

/-! ## Fields -/

/-- `nh_get_num_items`. -/
def getNumItems : Nat := node.mem.getLe 2 2

/-- `nh_get_free_space`. -/
def getFreeSpace : Nat := node.mem.getLe 2 4

/-- `nh_get_free_space_start`. -/
def getFreeSpaceStart : Nat := node.mem.getLe 2 6

/-- `nh_dec_num_items`. -/
def decNumItems (v : Nat) : NodeBlock :=
  { node with mem := node.mem.setLe 2 2 (getNumItems node + (two32 - v)) }

/-- `nh_inc_free_space`. -/
def incFreeSpace (v : Nat) : NodeBlock :=
  { node with mem := node.mem.setLe 2 4 (getFreeSpace node + v) }

/-- `nh_dec_free_space_start`. -/
def decFreeSpaceStart (v : Nat) : NodeBlock :=
  { node with mem := node.mem.setLe 2 6 (getFreeSpaceStart node + (two32 - v)) }

/-- `key_size`. -/
def keySize : Nat :=
  match pol with
  | .short => 24
  | .large => 32

/-- `ih_size`: the key, the offset, the flags and the plugin id. -/
def ihSize : Nat := keySize pol + 6

/-- `ih_get_offset`. -/
def ihGetOffset (mem : Bytes) (ih : Nat) : Nat := mem.getLe 2 (ih + keySize pol)

/-- `ih_get_flags`. -/
def ihGetFlags (mem : Bytes) (ih : Nat) : Nat := mem.getLe 2 (ih + keySize pol + 2)

/-- `ih_get_pid`. -/
def ihGetPid (mem : Bytes) (ih : Nat) : Nat := mem.getLe 2 (ih + keySize pol + 4)

/-- `ih_dec_offset`. -/
def ihDecOffset (mem : Bytes) (ih v : Nat) : Bytes :=
  mem.setLe 2 (ih + keySize pol) (ihGetOffset pol mem ih + (two32 - v))

/-- The key of an item header (`node40_get_key_by_ih`). -/
def ihGetKey (mem : Bytes) (ih : Nat) : Key :=
  match pol with
  | .short => ⟨mem.getLe 8 ih, 0, mem.getLe 8 (ih + 8), mem.getLe 8 (ih + 16)⟩
  | .large => ⟨mem.getLe 8 ih, mem.getLe 8 (ih + 8), mem.getLe 8 (ih + 16), mem.getLe 8 (ih + 24)⟩

/-- `node40_ih_at`. -/
def ihAt (pos : Nat) : Nat := node.size - ihSize pol * (pos + 1)

/-- `node40_ib_at`. -/
def ibAt (pos : Nat) : Nat := ihGetOffset pol node.mem (ihAt pol node pos)

/-- `node40_len_by_ih`, for the item at `pos` of `items`; the result has 16 bits. -/
def lenByIh (pos items : Nat) : Nat :=
  let ih := ihAt pol node pos
  if pos + 1 = items then
    (getFreeSpaceStart node + (two16 - ihGetOffset pol node.mem ih)) % two16
  else (ihGetOffset pol node.mem (ih - ihSize pol) + (two16 - ihGetOffset pol node.mem ih)) % two16

/-! ## Fetching an item -/

/-- The part of `reiser4_place_t` that `node40_fetch` sets. -/
structure Place where
  item : Nat
  body : Nat
  len : Nat
  key : Key
  plug : ItemPlug
  off : Nat
  deriving DecidableEq, Repr

/-- `factory_ops.ifind` on the ids of the item plugins. -/
def ifind : Nat → Option ItemPlug
  | 0 => some .stat40
  | 2 => some .cde40
  | 3 => some .nodeptr40
  | 5 => some .extent40
  | 6 => some .plain40
  | 7 => some .ctail40
  | 8 => some .bbox40
  | _ => none

/-- The offset of the first unit, by the `init` method of the plugin (`ctail40_init`). -/
def initOff : ItemPlug → Nat
  | .ctail40 => 1
  | _ => 0

/-- `node40_fetch`. -/
def fetch (pos : Nat) : Except Errno Place :=
  let ih := ihAt pol node pos
  match ifind (ihGetPid pol node.mem ih) with
  | none => .error .einval
  | some plug => .ok
    { item := pos
      body := ihGetOffset pol node.mem ih
      len := lenByIh pol node pos (getNumItems node)
      key := ihGetKey pol node.mem ih
      plug := plug
      off := initOff plug }

/-! ## Taking bytes out -/

/-- The loops over `n` item headers from `ih` down. -/
def decOffsets (len : Nat) : Nat → Bytes → Nat → Bytes
  | 0, mem, _ => mem
  | n + 1, mem, ih => decOffsets len n (ihDecOffset pol mem ih len) (ih - ihSize pol)

/-- `node40_shrink`: takes out `count` items of `len` bytes (the unit is `MAX_UINT32`), or the last `len`
    bytes of one. -/
def shrink (pos unit len count : Nat) : NodeBlock :=
  let items := getNumItems node
  let last := ihAt pol node (items - 1)
  let node' :=
    if unit = maxUint32 then
      let headers := count * ihSize pol
      let moved :=
        if pos + count < items then
          let dst := ibAt pol node pos
          let mem := node.mem.move dst (dst + len) (last - (dst + len))
          let mem := mem.move (last + headers) last ((items - (pos + count)) * ihSize pol)
          { node with mem := decOffsets pol len (items - count - pos) mem (ihAt pol node pos) }
        else node
      incFreeSpace (decNumItems moved count) (len + headers)
    else
      let src := ibAt pol node pos + lenByIh pol node pos items
      let mem := node.mem.move (src - len) src (last - src)
      let mem := decOffsets pol len (items - (pos + 1)) mem (ihAt pol node pos - ihSize pol)
      incFreeSpace { node with mem := mem } len
  decFreeSpaceStart node' len

/-! ## Well-formed nodes -/

/-- The offset of an item; behind the last one, the start of the free space. -/
def bound (i : Nat) : Nat := if i < getNumItems node then ibAt pol node i else getFreeSpaceStart node

/-- A node whose header has `hs` bytes: the bodies follow one another, and the free space is counted. -/
structure WF (hs : Nat) : Prop where
  header : 28 ≤ hs
  start : bound pol node 0 = hs
  order : ∀ i, i < getNumItems node → bound pol node i < bound pol node (i + 1)
  space : getFreeSpaceStart node + getFreeSpace node + getNumItems node * ihSize pol = node.size
  size : node.size ≤ maxBlksize

/-- An item of a node: its header without the offset, and the bytes of its body. -/
structure RawItem where
  key : Key
  flags : Nat
  pid : Nat
  body : List UInt8
  deriving DecidableEq

/-- The item at a position. -/
def item (i : Nat) : RawItem where
  key := ihGetKey pol node.mem (ihAt pol node i)
  flags := ihGetFlags pol node.mem (ihAt pol node i)
  pid := ihGetPid pol node.mem (ihAt pol node i)
  body := node.mem.slice (bound pol node i) (bound pol node (i + 1) - bound pol node i)

section Bounds

variable {pol : KeyPol} {node : NodeBlock} {hs : Nat}

theorem bound_top : bound pol node (getNumItems node) = getFreeSpaceStart node :=
  if_neg (Nat.lt_irrefl _)

theorem bound_lt {i : Nat} (hi : i < getNumItems node) :
    bound pol node i = ihGetOffset pol node.mem (ihAt pol node i) := if_pos hi

namespace WF

variable (h : WF pol node hs)

include h

theorem bound_mono {i j : Nat} (hij : i ≤ j) (hj : j ≤ getNumItems node) :
    bound pol node i ≤ bound pol node j := by
  induction j with
  | zero => rw [show i = 0 by omega]
  | succ j ih =>
    by_cases heq : i = j + 1
    · rw [heq]
    · have := h.order j hj
      have := ih (by omega) (by omega)
      omega

/-- An item header has its place at the end of the block. -/
theorem ihAt_add {i : Nat} (hi : i < getNumItems node) :
    ihAt pol node i + (i + 1) * ihSize pol = node.size := by
  have hle : (i + 1) * ihSize pol ≤ getNumItems node * ihSize pol := Nat.mul_le_mul_right _ hi
  have := h.space
  unfold ihAt
  rw [Nat.mul_comm (ihSize pol)]
  omega

/-- An item header is behind the bodies. -/
theorem start_le_ihAt {i : Nat} (hi : i < getNumItems node) :
    getFreeSpaceStart node + getFreeSpace node ≤ ihAt pol node i := by
  have hle : (i + 1) * ihSize pol ≤ getNumItems node * ihSize pol := Nat.mul_le_mul_right _ hi
  have := h.ihAt_add hi
  have := h.space
  omega

/-- The header of the next item is right in front. -/
theorem ihAt_succ {i : Nat} (hi : i + 1 < getNumItems node) :
    ihAt pol node (i + 1) + ihSize pol = ihAt pol node i := by
  have h1 := h.ihAt_add hi
  have h2 := h.ihAt_add (Nat.lt_of_succ_lt hi)
  rw [Nat.succ_mul (i + 1)] at h1
  omega

theorem ihAt_lt {i j : Nat} (hij : i < j) (hj : j < getNumItems node) :
    ihAt pol node j + ihSize pol ≤ ihAt pol node i := by
  have h1 := h.ihAt_add hj
  have h2 := h.ihAt_add (Nat.lt_trans hij hj)
  have hle : (i + 1) * ihSize pol + ihSize pol ≤ (j + 1) * ihSize pol := by
    rw [← Nat.succ_mul]
    exact Nat.mul_le_mul_right _ (Nat.succ_le_succ hij)
  omega

theorem small : bound pol node (getNumItems node) ≤ 8192 := by
  have h1 := h.space
  have h2 := h.size
  rw [bound_top]
  unfold maxBlksize at h2
  omega

/-- The length of an item. -/
theorem lenByIh_eq {i : Nat} (hi : i < getNumItems node) :
    lenByIh pol node i (getNumItems node) = bound pol node (i + 1) - bound pol node i := by
  have horder := h.order i hi
  have hmono : bound pol node (i + 1) ≤ bound pol node (getNumItems node) :=
    h.bound_mono hi (Nat.le_refl _)
  have hsmall := h.small
  have h16 := two16_eq
  unfold lenByIh
  dsimp only
  rw [← bound_lt hi]
  by_cases hlast : i + 1 = getNumItems node
  · have hnext : bound pol node (i + 1) = getFreeSpaceStart node := by
      rw [hlast]
      exact bound_top
    rw [if_pos hlast, ← hnext]
    unfold two16
    omega
  · have hnext : i + 1 < getNumItems node := by omega
    have hih : ihAt pol node i - ihSize pol = ihAt pol node (i + 1) := by
      rw [← h.ihAt_succ hnext, Nat.add_sub_cancel]
    rw [if_neg hlast, hih, ← bound_lt hnext]
    unfold two16
    omega

end WF

/-- What `node40_fetch` gives for an item of a well-formed node. -/
theorem WF.fetch_eq (h : WF pol node hs) {i : Nat} (hi : i < getNumItems node) {p : Place} :
    fetch pol node i = .ok p ↔
      ∃ plug, ifind (ihGetPid pol node.mem (ihAt pol node i)) = some plug ∧
        p = { item := i
              body := bound pol node i
              len := bound pol node (i + 1) - bound pol node i
              key := ihGetKey pol node.mem (ihAt pol node i)
              plug := plug
              off := initOff plug } := by
  unfold fetch
  dsimp only
  rw [h.lenByIh_eq hi, ← bound_lt hi]
  cases ifind (ihGetPid pol node.mem (ihAt pol node i)) with
  | none => simp
  | some plug =>
    constructor
    · intro heq
      exact ⟨plug, rfl, (Except.ok.inj heq).symm⟩
    · rintro ⟨found, hfound, rfl⟩
      obtain rfl := Option.some.inj hfound
      rfl

/-- The key, the flags and the plugin id are in the header without its offset. -/
theorem head_moved {mem mem' : Bytes} {ih ih' : Nat}
    (h : ∀ a, a < ihSize pol → (a < keySize pol ∨ keySize pol + 2 ≤ a) →
      mem' (ih' + a) = mem (ih + a)) :
    ihGetKey pol mem' ih' = ihGetKey pol mem ih ∧ ihGetFlags pol mem' ih' = ihGetFlags pol mem ih ∧
      ihGetPid pol mem' ih' = ihGetPid pol mem ih := by
  have hsize : ihSize pol = keySize pol + 6 := rfl
  have hnum : ∀ n k, (k + n ≤ keySize pol ∨ (keySize pol + 2 ≤ k ∧ k + n ≤ ihSize pol)) →
      mem'.getLe n (ih' + k) = mem.getLe n (ih + k) := by
    intro n k hk
    refine Bytes.getLe_congr n _ _ _ _ fun i hi => ?_
    have := h (k + i) (by omega) (by omega)
    rwa [← Nat.add_assoc, ← Nat.add_assoc] at this
  refine ⟨?_, ?_, ?_⟩
  · cases pol with
    | short =>
      have hkey : keySize .short = 24 := rfl
      show Key.mk (mem'.getLe 8 (ih' + 0)) 0 (mem'.getLe 8 (ih' + 8)) (mem'.getLe 8 (ih' + 16)) = _
      rw [hnum 8 0 (by omega), hnum 8 8 (by omega), hnum 8 16 (by omega)]
      rfl
    | large =>
      have hkey : keySize .large = 32 := rfl
      show Key.mk (mem'.getLe 8 (ih' + 0)) (mem'.getLe 8 (ih' + 8)) (mem'.getLe 8 (ih' + 16))
        (mem'.getLe 8 (ih' + 24)) = _
      rw [hnum 8 0 (by omega), hnum 8 8 (by omega), hnum 8 16 (by omega), hnum 8 24 (by omega)]
      rfl
  · have := hnum 2 (keySize pol + 2) (by omega)
    rwa [← Nat.add_assoc, ← Nat.add_assoc] at this
  · have := hnum 2 (keySize pol + 4) (by omega)
    rwa [← Nat.add_assoc, ← Nat.add_assoc] at this

end Bounds

/-! ## Taking bytes out of an item -/

section Shrink

variable {pol : KeyPol} {node : NodeBlock} {hs pos len : Nat}

theorem ihDecOffset_out (mem : Bytes) (ih v a : Nat)
    (h : a < ih + keySize pol ∨ ih + keySize pol + 2 ≤ a) : ihDecOffset pol mem ih v a = mem a :=
  Bytes.setLe_out 2 _ _ _ _ h

theorem ihGetOffset_dec (mem : Bytes) (ih v : Nat) : ihGetOffset pol (ihDecOffset pol mem ih v) ih =
    (ihGetOffset pol mem ih + (two32 - v)) % two16 := Bytes.getLe_setLe 2 _ _ _

/-- The loop over the headers changes their offsets and no other byte. -/
theorem decOffsets_spec : ∀ (n : Nat) (mem : Bytes) (ih : Nat), n * ihSize pol ≤ ih + ihSize pol →
    (∀ a, (∀ i, i < n → a < ih - i * ihSize pol + keySize pol ∨
        ih - i * ihSize pol + keySize pol + 2 ≤ a) → decOffsets pol len n mem ih a = mem a) ∧
    (∀ i, i < n → ihGetOffset pol (decOffsets pol len n mem ih) (ih - i * ihSize pol) =
      (ihGetOffset pol mem (ih - i * ihSize pol) + (two32 - len)) % two16)
  | 0, _, _, _ => ⟨fun _ _ => rfl, fun _ hi => absurd hi (Nat.not_lt_zero _)⟩
  | n + 1, mem, ih, hroom => by
    rw [Nat.succ_mul] at hroom
    have hsize : ihSize pol = keySize pol + 6 := rfl
    obtain ⟨ihout, ihset⟩ := decOffsets_spec n (ihDecOffset pol mem ih len) (ih - ihSize pol) (by omega)
    have hstep : ∀ i, ih - ihSize pol - i * ihSize pol = ih - (i + 1) * ihSize pol := by
      intro i
      rw [Nat.succ_mul, Nat.sub_sub, Nat.add_comm (ihSize pol)]
    -- the later headers are in front of this one
    have hlater : ∀ i, i < n → ih - (i + 1) * ihSize pol + ihSize pol ≤ ih := by
      intro i hi
      have hle : (i + 1) * ihSize pol ≤ n * ihSize pol := Nat.mul_le_mul_right _ hi
      have hone : ihSize pol ≤ (i + 1) * ihSize pol := Nat.le_mul_of_pos_left _ (Nat.succ_pos i)
      omega
    constructor
    · intro a ha
      show decOffsets pol len n (ihDecOffset pol mem ih len) (ih - ihSize pol) a = mem a
      have hrest := ihout a fun i hi => by
        rw [hstep]
        exact ha (i + 1) (Nat.succ_lt_succ hi)
      rw [hrest]
      refine ihDecOffset_out _ _ _ _ ?_
      have := ha 0 (Nat.succ_pos n)
      omega
    · intro i hi
      show ihGetOffset pol (decOffsets pol len n (ihDecOffset pol mem ih len) (ih - ihSize pol)) _ = _
      cases i with
      | zero =>
        rw [Nat.zero_mul, Nat.sub_zero]
        have hkeep : ihGetOffset pol
            (decOffsets pol len n (ihDecOffset pol mem ih len) (ih - ihSize pol)) ih =
            ihGetOffset pol (ihDecOffset pol mem ih len) ih :=
          Bytes.getLe_congr 2 _ _ _ _ fun j hj => ihout _ fun i hi => by
            have := hlater i hi
            rw [hstep]
            omega
        rw [hkeep, ihGetOffset_dec]
      | succ i =>
        have hlt := hlater i (Nat.lt_of_succ_lt_succ hi)
        have hkeep : ihGetOffset pol (ihDecOffset pol mem ih len) (ih - (i + 1) * ihSize pol) =
            ihGetOffset pol mem (ih - (i + 1) * ihSize pol) :=
          Bytes.getLe_congr 2 _ _ _ _ fun j hj => ihDecOffset_out _ _ _ _ (by omega)
        have := ihset i (Nat.lt_of_succ_lt_succ hi)
        rw [hstep] at this
        rw [this, hkeep]

/-- The node after the last `len` bytes of item `pos` are gone: the bodies behind them have moved up,
    with their offsets, and the rest of the headers is as it was. -/
structure Shrunk (pol : KeyPol) (node node' : NodeBlock) (pos len : Nat) : Prop where
  size : node'.size = node.size
  items : getNumItems node' = getNumItems node
  space : getFreeSpace node' = getFreeSpace node + len
  start : getFreeSpaceStart node' = getFreeSpaceStart node - len
  head : ∀ i, i < getNumItems node → ∀ a, a < ihSize pol → (a < keySize pol ∨ keySize pol + 2 ≤ a) →
    node'.mem (ihAt pol node i + a) = node.mem (ihAt pol node i + a)
  offsetFront : ∀ i, i ≤ pos → i < getNumItems node →
    ihGetOffset pol node'.mem (ihAt pol node i) = bound pol node i
  offsetBack : ∀ i, pos < i → i < getNumItems node →
    ihGetOffset pol node'.mem (ihAt pol node i) = bound pol node i - len
  bodyFront : ∀ a, 8 ≤ a → a < bound pol node (pos + 1) - len → node'.mem a = node.mem a
  bodyBack : ∀ a, bound pol node (pos + 1) - len ≤ a → a < getFreeSpaceStart node - len →
    node'.mem a = node.mem (a + len)

/-- **`node40_shrink` takes bytes out of an item.** -/
theorem WF.shrink_room (h : WF pol node hs) {unit count : Nat} (hunit : unit ≠ maxUint32)
    (hpos : pos < getNumItems node)
    (hlen : len ≤ bound pol node (pos + 1) - bound pol node pos) :
    Shrunk pol node (shrink pol node pos unit len count) pos len := by
  have hihsize : ihSize pol = keySize pol + 6 := rfl
  have h16 := two16_eq
  have hsmall := h.small
  have hspace := h.space
  have hsize := h.size
  have hblk := maxBlksize_eq
  have hheader := h.header
  have horder := h.order pos hpos
  have htop := @bound_top pol node
  have hnext : bound pol node (pos + 1) ≤ getFreeSpaceStart node := by
    rw [← htop]
    exact h.bound_mono hpos (Nat.le_refl _)
  have hfirst : 28 ≤ bound pol node pos := by
    have := h.bound_mono (Nat.zero_le pos) (Nat.le_of_lt hpos)
    have := h.start
    omega
  have hlast := h.start_le_ihAt (show getNumItems node - 1 < getNumItems node by omega)
  have hsrc : ibAt pol node pos + lenByIh pol node pos (getNumItems node) =
      bound pol node (pos + 1) := by
    rw [h.lenByIh_eq hpos, show ibAt pol node pos = bound pol node pos from (bound_lt hpos).symm]
    omega
  -- the memory when the bodies and the offsets have been changed
  obtain ⟨moved, hmoved⟩ : ∃ m, m = node.mem.move (bound pol node (pos + 1) - len)
      (bound pol node (pos + 1)) (ihAt pol node (getNumItems node - 1) - bound pol node (pos + 1)) :=
    ⟨_, rfl⟩
  have hin : ∀ a, bound pol node (pos + 1) - len ≤ a →
      a < ihAt pol node (getNumItems node - 1) - len → moved a = node.mem (a + len) := by
    intro a hlo hhi
    rw [hmoved, Bytes.move_in _ _ _ _ _ hlo (by omega)]
    congr 1
    omega
  have hout : ∀ a, a < bound pol node (pos + 1) - len ∨ ihAt pol node (getNumItems node - 1) - len ≤ a →
      moved a = node.mem a := by
    intro a ha
    rw [hmoved, Bytes.move_out _ _ _ _ _ (by omega)]
  have hroom : (getNumItems node - (pos + 1)) * ihSize pol ≤
      ihAt pol node pos - ihSize pol + ihSize pol := by
    have hadd := h.ihAt_add hpos
    have hn : (getNumItems node - (pos + 1)) * ihSize pol + (pos + 1) * ihSize pol =
        getNumItems node * ihSize pol := by
      rw [← Nat.add_mul, Nat.sub_add_cancel hpos]
    omega
  obtain ⟨hrest, hdec⟩ := @decOffsets_spec pol len (getNumItems node - (pos + 1)) moved
    (ihAt pol node pos - ihSize pol) hroom
  -- the headers the loop goes over are those behind the position
  have hih : ∀ i, pos + 1 + i < getNumItems node →
      ihAt pol node pos - ihSize pol - i * ihSize pol = ihAt pol node (pos + 1 + i) := by
    intro i hi
    have h1 := h.ihAt_add hpos
    have h2 := h.ihAt_add hi
    have h3 : (pos + 1 + i + 1) * ihSize pol = (pos + 1) * ihSize pol + i * ihSize pol + ihSize pol := by
      rw [Nat.add_right_comm, Nat.add_mul, Nat.succ_mul (pos + 1)]
      omega
    omega
  obtain ⟨final, hfinal⟩ : ∃ m, m = decOffsets pol len (getNumItems node - (pos + 1)) moved
      (ihAt pol node pos - ihSize pol) := ⟨_, rfl⟩
  rw [← hfinal] at hrest hdec
  have hbehind : ∀ a, a < ihAt pol node (getNumItems node - 1) → final a = moved a := by
    intro a ha
    refine hrest a fun i hi => Or.inl ?_
    rw [hih i (by omega)]
    have : ihAt pol node (getNumItems node - 1) ≤ ihAt pol node (pos + 1 + i) := by
      by_cases heq : pos + 1 + i = getNumItems node - 1
      · rw [heq]
      · have := h.ihAt_lt (show pos + 1 + i < getNumItems node - 1 by omega) (by omega)
        omega
    omega
  have hnode : shrink pol node pos unit len count =
      decFreeSpaceStart (incFreeSpace { node with mem := final } len) len := by
    unfold shrink
    dsimp only
    rw [if_neg hunit, hsrc, hfinal, hmoved]
  -- the node header is in front of the bodies
  have hnh : ∀ o, o + 2 ≤ 8 → final.getLe 2 o = node.mem.getLe 2 o := by
    intro o ho
    refine Bytes.getLe_congr 2 _ _ _ _ fun a ha => ?_
    rw [hbehind _ (by omega), hout _ (Or.inl (by omega))]
  have hset : ∀ a, 8 ≤ a → (shrink pol node pos unit len count).mem a = final a := by
    intro a ha
    rw [hnode]
    show ((final.setLe 2 4 _).setLe 2 6 _) a = final a
    rw [Bytes.setLe_out _ _ _ _ _ (by omega), Bytes.setLe_out _ _ _ _ _ (by omega)]
  have hhead : ∀ i, i < getNumItems node → 8 ≤ ihAt pol node i := by
    intro i hi
    have := h.start_le_ihAt hi
    omega
  have hlow : ∀ i, i < getNumItems node → ihAt pol node (getNumItems node - 1) ≤ ihAt pol node i := by
    intro i hi
    by_cases heq : i = getNumItems node - 1
    · rw [heq]
    · have := h.ihAt_lt (show i < getNumItems node - 1 by omega) (by omega)
      omega
  refine ⟨?_, ?_, ?_, ?_, ?_, ?_, ?_, ?_, ?_⟩
  · rw [hnode]
    rfl
  · rw [hnode]
    show ((final.setLe 2 4 _).setLe 2 6 _).getLe 2 2 = _
    rw [Bytes.getLe_setLe_disj _ _ _ _ _ _ (Or.inl (by omega)),
      Bytes.getLe_setLe_disj _ _ _ _ _ _ (Or.inl (by omega)), hnh 2 (by omega)]
    rfl
  · rw [hnode]
    show ((final.setLe 2 4 (final.getLe 2 4 + len)).setLe 2 6 _).getLe 2 4 = _
    rw [Bytes.getLe_setLe_disj _ _ _ _ _ _ (Or.inl (by omega)), Bytes.getLe_setLe, hnh 4 (by omega)]
    exact Nat.mod_eq_of_lt (show getFreeSpace node + len < 65536 by omega)
  · rw [hnode]
    show ((final.setLe 2 4 _).setLe 2 6 ((final.setLe 2 4 _).getLe 2 6 + (two32 - len))).getLe 2 6 = _
    rw [Bytes.getLe_setLe, Bytes.getLe_setLe_disj _ _ _ _ _ _ (Or.inr (by omega)), hnh 6 (by omega)]
    exact dec_mod (show len ≤ getFreeSpaceStart node by omega)
      (show getFreeSpaceStart node < two16 by omega)
  · intro i hi a ha hfield
    have h8 := hhead i hi
    have hlow' := hlow i hi
    rw [hset _ (by omega), hrest _ fun j hj => ?_, hout _ (Or.inr (by omega))]
    rw [hih j (by omega)]
    rcases Nat.lt_trichotomy i (pos + 1 + j) with hij | hij | hij
    · have := h.ihAt_lt hij (by omega)
      omega
    · rw [hij]
      omega
    · have := h.ihAt_lt hij hi
      omega
  · intro i hle hi
    have h8 := hhead i hi
    have hlow' := hlow i hi
    rw [bound_lt hi]
    refine Bytes.getLe_congr 2 _ _ _ _ fun a ha => ?_
    rw [hset _ (by omega), hrest _ fun j hj => ?_, hout _ (Or.inr (by omega))]
    rw [hih j (by omega)]
    have := h.ihAt_lt (show i < pos + 1 + j by omega) (by omega)
    omega
  · intro i hlt hi
    have h8 := hhead i hi
    have hlow' := hlow i hi
    obtain ⟨j, rfl⟩ := Nat.exists_eq_add_of_lt hlt
    have hj := hdec j (by omega)
    rw [hih j (by omega), Nat.add_right_comm] at hj
    have hsame : ihGetOffset pol (shrink pol node pos unit len count).mem (ihAt pol node (pos + j + 1)) =
        ihGetOffset pol final (ihAt pol node (pos + j + 1)) :=
      Bytes.getLe_congr 2 _ _ _ _ fun a ha => hset _ (by omega)
    have hold : ihGetOffset pol moved (ihAt pol node (pos + j + 1)) =
        bound pol node (pos + j + 1) := by
      rw [bound_lt hi]
      exact Bytes.getLe_congr 2 _ _ _ _ fun a ha => hout _ (Or.inr (by omega))
    have hge := h.bound_mono (show pos + 1 ≤ pos + j + 1 by omega) (Nat.le_of_lt hi)
    have hle := h.bound_mono (Nat.le_of_lt hi) (Nat.le_refl _)
    rw [hsame, hj, hold, dec_mod (by omega) (by omega)]
  · intro a h8 ha
    rw [hset _ h8, hbehind _ (by omega), hout _ (Or.inl ha)]
  · intro a hlo hhi
    rw [hset _ (by omega), hbehind _ (by omega), hin _ hlo (by omega)]

end Shrink

end Node40

end Reiser4
