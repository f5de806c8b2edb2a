/-
  Packing a node (`node40_pack`, `node41_pack`) and unpacking it.

  The stream is the id of the plugin and the number of the block, the node header without its magic and
  its padding, the item headers, and then the bodies.  It is for the metadata of a file system: an item
  with a `pack` method, which only tails have, writes what is in front of its first unit, which is nothing
  for a `plain40` item and the cluster shift for a `ctail40` one.  Any other body is written as it is.

    1. `headerUnpack_pack`, `headsUnpack_pack`, `bodiesUnpack_pack`   what each part reads back;
    2. `node40Unpack_pack`     unpack takes from the stream what pack wrote, and restores the node but for
                               the bytes of its tails;
    3. packing that node again writes the same.
-/
import Reiser4.Lib.Stream
import Reiser4.Node40.Layout

namespace Reiser4

open Reiser4.Lib

namespace Node40

/-- The node plugins. -/
inductive NodeFormat
  | node40
  | node41
  deriving DecidableEq, Repr

/-- `NODE_REISER40_ID` and `NODE_REISER41_ID`. -/
def NodeFormat.id : NodeFormat → Nat
  | .node40 => 0
  | .node41 => 1

/-- `NODE40_MAGIC` and `NODE41_MAGIC`. -/
def NodeFormat.magic : NodeFormat → Nat
  | .node40 => 0x52344653
  | .node41 => 0x19051966

/-- The sizes of `node40_header_t` and `node41_header_t`. -/
def NodeFormat.headerSize : NodeFormat → Nat
  | .node40 => 28
  | .node41 => 32

/-- `factory_ops.ifind` on the ids of the node plugins. -/
def nodeIfind : Nat → Option NodeFormat
  | 0 => some .node40
  | 1 => some .node41
  | _ => none

/-- The item plugin has the methods `pack` and `unpack`. -/
def hasPack : ItemPlug → Bool
  | .plain40 | .ctail40 => true
  | _ => false

section Model

variable (pol : KeyPol) (fmt : NodeFormat) (node : NodeBlock) (size : Nat)

/-! ## Pack -/

/-- `node40_header_pack`: the number of items, the free space and its start, the stamps of mkfs and of the
    flush, the flags and the level. -/
def node40HeaderPack (mem : Bytes) : List UInt8 :=
  [mem.slice 2 2, mem.slice 4 2, mem.slice 6 2, mem.slice 12 4, mem.slice 16 8, mem.slice 24 2,
    mem.slice 26 1].flatten

/-- The function for the header that the `pack` method passes on; `node41_header_pack` adds the checksum. -/
def headerPack (mem : Bytes) : List UInt8 :=
  match fmt with
  | .node40 => node40HeaderPack mem
  | .node41 => node40HeaderPack mem ++ mem.slice 28 4

/-- The item headers of `node40_items_pack`, `n` of them from a position on. -/
def headsPack : Nat → Nat → List UInt8
  | 0, _ => []
  | n + 1, pos => node.mem.slice (ihAt pol node pos) (ihSize pol) ++ headsPack n (pos + 1)

/-- `tail40_pack`. -/
def tail40Pack (place : Place) : List UInt8 :=
  if place.off ≠ 0 then node.mem.slice place.body place.off else []

/-- The body of an item. -/
def bodyPack (place : Place) : List UInt8 :=
  if hasPack place.plug then tail40Pack node place
  else node.mem.slice (ibAt pol node place.item) (lenByIh pol node place.item (getNumItems node))

/-- The bodies of `node40_items_pack`. -/
def bodiesPack : Nat → Nat → Except Errno (List UInt8)
  | 0, _ => .ok []
  | n + 1, pos =>
    match fetch pol node pos with
    | .error _ => .error .einval
    | .ok place => (bodiesPack n (pos + 1)).map (bodyPack pol node place ++ ·)

/-- `node40_items_pack`. -/
def node40ItemsPack : Except Errno (List UInt8) :=
  (bodiesPack pol node (getNumItems node) 0).map (headsPack pol node (getNumItems node) 0 ++ ·)

/-- `node40_pack_common`; `nr` is the number of the block. -/
def node40PackCommon (nr : Nat) : Except Errno (List UInt8) :=
  (node40ItemsPack pol node).map fun items =>
    (Bytes.zero.setLe 4 0 fmt.id).slice 0 4 ++ ((Bytes.zero.setLe 8 0 nr).slice 0 8 ++
      (headerPack fmt node.mem ++ items))

/-! ## Unpack -/

/-- `node40_header_unpack`. -/
def node40HeaderUnpack : Run (Bytes × List UInt8) Unit Unit := do
  Stream.readAll () 2 2
  Stream.readAll () 4 2
  Stream.readAll () 6 2
  Stream.readAll () 12 4
  Stream.readAll () 16 8
  Stream.readAll () 24 2
  Stream.readAll () 26 1

/-- The function for the header that the `unpack` method passes on. -/
def headerUnpack : Run (Bytes × List UInt8) Unit Unit :=
  match fmt with
  | .node40 => node40HeaderUnpack
  | .node41 => do
    node40HeaderUnpack
    Stream.readAll () 28 4

/-- The item headers of `node40_items_unpack`. -/
def headsUnpack : Nat → Nat → Run (Bytes × List UInt8) Unit Unit
  | 0, _ => pure ()
  | n + 1, pos => do
    let s ← Run.get
    Stream.readAll () (ihAt pol ⟨s.1, size⟩ pos) (ihSize pol)
    headsUnpack n (pos + 1)

/-- `tail40_unpack`: it does not look at how much was read. -/
def tail40Unpack (place : Place) : Run (Bytes × List UInt8) Unit Unit :=
  if place.off ≠ 0 then do
    let _ ← Stream.read place.body place.off
    pure ()
  else pure ()

/-- The body of an item. -/
def bodyUnpack (pos : Nat) : Run (Bytes × List UInt8) Unit Unit := do
  let s ← Run.get
  match fetch pol ⟨s.1, size⟩ pos with
  | .error _ => Run.fail ()
  | .ok place =>
    if hasPack place.plug then tail40Unpack place
    else
      let node : NodeBlock := ⟨s.1, size⟩
      Stream.readAll () (ibAt pol node pos) (lenByIh pol node pos (getNumItems node))

/-- The bodies of `node40_items_unpack`. -/
def bodiesUnpack : Nat → Nat → Run (Bytes × List UInt8) Unit Unit
  | 0, _ => pure ()
  | n + 1, pos => do
    bodyUnpack pol size pos
    bodiesUnpack n (pos + 1)

/-- `node40_items_unpack`. -/
def node40ItemsUnpack : Run (Bytes × List UInt8) Unit Unit := do
  let s ← Run.get
  let num := getNumItems ⟨s.1, size⟩
  headsUnpack pol size num 0
  bodiesUnpack pol size num 0

/-- `node40_unpack_common`. -/
def node40UnpackCommon : Run (Bytes × List UInt8) Unit Unit := do
  headerUnpack fmt
  -- `nh_set_magic` and `nh_set_pid`
  Run.modify fun s => (s.1.setLe 4 8 fmt.magic, s.2)
  Run.modify fun s => (s.1.setLe 2 0 fmt.id, s.2)
  node40ItemsUnpack pol size

/-- `repair_node_unpack`: the plugin and the number of the block, and the block as the memory. -/
def repairNodeUnpack : Run (Bytes × List UInt8) Unit (NodeFormat × Nat) := do
  let pid ← Stream.readNumber () 4
  let blk ← Stream.readNumber () 8
  match nodeIfind pid with
  | none => Run.fail ()
  | some fmt => do
    -- `aal_block_alloc` and `aal_block_fill`
    Run.modify fun s => (Bytes.zero, s.2)
    node40UnpackCommon pol fmt size
    pure (fmt, blk)

/-! ## What is packed -/

/-- The bytes of the node header that are packed or set. -/
def headerBytes : Set Nat := {a | a < fmt.headerSize ∧ a ≠ 27}

/-- The number of bytes that are packed of a body. -/
def packedLen (pos : Nat) : Nat :=
  match fetch pol node pos with
  | .error _ => 0
  | .ok place => if hasPack place.plug then place.off else lenByIh pol node pos (getNumItems node)

/-- The bytes that are packed of the bodies of `n` items. -/
def bodyBytes (n pos : Nat) : Set Nat :=
  {a | ∃ i, pos ≤ i ∧ i < pos + n ∧ ibAt pol node i ≤ a ∧ a < ibAt pol node i + packedLen pol node i}

end Model

section Parts

variable {pol : KeyPol} {fmt : NodeFormat} {node : NodeBlock} {S : Set Nat} {n pos : Nat}
  {rest : List UInt8}

/-- **The node header** is read back, but for the padding. -/
theorem headerUnpack_pack (hid : node.mem.getLe 2 0 = fmt.id) (hmagic : node.mem.getLe 4 8 = fmt.magic) :
    ∃ s, (headerUnpack fmt).run (Bytes.zero, headerPack fmt node.mem ++ rest) = some (.ok (), s) ∧
      ((s.1.setLe 4 8 fmt.magic).setLe 2 0 fmt.id, s.2) =
        (Stream.only node.mem (headerBytes fmt), rest) := by
  have hcommon : ∀ tail, (node40HeaderUnpack).run (Bytes.zero, node40HeaderPack node.mem ++ tail) =
      some (.ok (), Stream.only node.mem (∅ ∪ Set.Ico 2 4 ∪ Set.Ico 4 6 ∪ Set.Ico 6 8 ∪ Set.Ico 12 16 ∪
        Set.Ico 16 24 ∪ Set.Ico 24 26 ∪ Set.Ico 26 27), tail) := by
    intro tail
    unfold node40HeaderUnpack node40HeaderPack
    simp only [List.flatten_cons, List.flatten_nil, List.append_assoc, List.append_nil]
    rw [← @Stream.only_empty node.mem, Run.bind_of_ok Stream.readAll_written,
      Run.bind_of_ok Stream.readAll_written, Run.bind_of_ok Stream.readAll_written,
      Run.bind_of_ok Stream.readAll_written, Run.bind_of_ok Stream.readAll_written,
      Run.bind_of_ok Stream.readAll_written, Stream.readAll_written]
  cases fmt with
  | node40 =>
    refine ⟨_, hcommon rest, ?_⟩
    rw [Stream.setLe_only hmagic, Stream.setLe_only hid]
    congr 2
    ext a
    simp only [headerBytes, NodeFormat.headerSize, Set.mem_union, Set.mem_Ico, Set.mem_empty_iff_false,
      Set.mem_ofPred_eq, false_or]
    constructor <;> omega
  | node41 =>
    have hrun : (headerUnpack .node41).run (Bytes.zero, headerPack .node41 node.mem ++ rest) =
        (Stream.readAll () 28 4).run (Stream.only node.mem (∅ ∪ Set.Ico 2 4 ∪ Set.Ico 4 6 ∪ Set.Ico 6 8 ∪
          Set.Ico 12 16 ∪ Set.Ico 16 24 ∪ Set.Ico 24 26 ∪ Set.Ico 26 27), node.mem.slice 28 4 ++ rest) := by
      show (node40HeaderUnpack >>= fun _ => Stream.readAll () 28 4).run
        (Bytes.zero, (node40HeaderPack node.mem ++ node.mem.slice 28 4) ++ rest) = _
      rw [List.append_assoc, Run.bind_of_ok (hcommon _)]
    rw [hrun, Stream.readAll_written]
    refine ⟨_, rfl, ?_⟩
    rw [Stream.setLe_only hmagic, Stream.setLe_only hid]
    congr 2
    ext a
    simp only [headerBytes, NodeFormat.headerSize, Set.mem_union, Set.mem_Ico, Set.mem_empty_iff_false,
      Set.mem_ofPred_eq, false_or]
    constructor <;> omega

/-- **The item headers** are read back. -/
theorem headsUnpack_pack : ∀ {n pos : Nat} {S : Set Nat}, (pos + n) * ihSize pol ≤ node.size →
    (headsUnpack pol node.size n pos).run (Stream.only node.mem S, headsPack pol node n pos ++ rest) =
      some (.ok (), Stream.only node.mem
        (S ∪ Set.Ico (node.size - (pos + n) * ihSize pol) (node.size - pos * ihSize pol)), rest)
  | 0, pos, S, _ => by
    rw [Nat.add_zero, Set.Ico_self, Set.union_empty]
    rfl
  | n + 1, pos, S, hroom => by
    have hat : ihAt pol node pos = node.size - (pos + 1) * ihSize pol := by
      unfold ihAt
      rw [Nat.mul_comm]
    have hone : (pos + 1) * ihSize pol = pos * ihSize pol + ihSize pol := Nat.succ_mul pos _
    have hle : (pos + 1) * ihSize pol ≤ (pos + (n + 1)) * ihSize pol := Nat.mul_le_mul_right _ (by omega)
    show (Stream.readAll () (ihAt pol node pos) (ihSize pol) >>= fun _ =>
      headsUnpack pol node.size n (pos + 1)).run (Stream.only node.mem S,
        node.mem.slice (ihAt pol node pos) (ihSize pol) ++ headsPack pol node n (pos + 1) ++ rest) = _
    rw [List.append_assoc, Run.bind_of_ok Stream.readAll_written,
      headsUnpack_pack (by rw [show pos + 1 + n = pos + (n + 1) by omega]; exact hroom)]
    congr 4
    ext a
    rw [show pos + 1 + n = pos + (n + 1) by omega]
    simp only [Set.mem_union, Set.mem_Ico]
    constructor
    · rintro ((h | h) | h)
      · exact Or.inl h
      · exact Or.inr (by omega)
      · exact Or.inr (by omega)
    · rintro (h | h)
      · exact Or.inl (Or.inl h)
      · omega

/-- The set has the fields of the node header that say how many items there are and where the last one
    ends, and the item headers. -/
structure Covers (pol : KeyPol) (node : NodeBlock) (S : Set Nat) : Prop where
  nh : ∀ a, 2 ≤ a → a < 8 → a ∈ S
  heads : ∀ i, i < getNumItems node → ∀ a, a < ihSize pol → ihAt pol node i + a ∈ S

theorem Covers.union (h : Covers pol node S) (T : Set Nat) : Covers pol node (S ∪ T) :=
  ⟨fun a h2 h8 => Or.inl (h.nh a h2 h8), fun i hi a ha => Or.inl (h.heads i hi a ha)⟩

/-- What has been read back of the node. -/
noncomputable def part (node : NodeBlock) (S : Set Nat) : NodeBlock := ⟨Stream.only node.mem S, node.size⟩

theorem slice_part {o n : Nat} (h : ∀ a, a < n → o + a ∈ S) :
    (part node S).mem.slice o n = node.mem.slice o n :=
  Bytes.slice_congr _ _ _ _ _ fun a ha => Stream.only_in (h a ha)

theorem Covers.getNumItems_eq (h : Covers pol node S) : getNumItems (part node S) = getNumItems node :=
  Stream.getLe_only fun i hi => h.nh _ (by omega) (by omega)

theorem Covers.ihGetOffset_eq (h : Covers pol node S) {i : Nat} (hi : i < getNumItems node) :
    ihGetOffset pol (part node S).mem (ihAt pol node i) = ihGetOffset pol node.mem (ihAt pol node i) :=
  Stream.getLe_only fun a ha => by
    rw [Nat.add_assoc]
    exact h.heads i hi _ (by unfold ihSize; omega)

theorem Covers.lenByIh_eq (h : Covers pol node S) {hs : Nat} (hwf : WF pol node hs) {i : Nat}
    (hi : i < getNumItems node) :
    lenByIh pol (part node S) i (getNumItems node) = lenByIh pol node i (getNumItems node) := by
  have hstart : getFreeSpaceStart (part node S) = getFreeSpaceStart node :=
    Stream.getLe_only fun j hj => h.nh _ (by omega) (by omega)
  have hat : ihAt pol (part node S) i = ihAt pol node i := rfl
  unfold lenByIh
  dsimp only
  rw [hstart, hat, h.ihGetOffset_eq hi]
  by_cases hlast : i + 1 = getNumItems node
  · rw [if_pos hlast, if_pos hlast]
  · have hnext : i + 1 < getNumItems node := by omega
    have hih : ihAt pol node i - ihSize pol = ihAt pol node (i + 1) := by
      rw [← hwf.ihAt_succ hnext, Nat.add_sub_cancel]
    rw [if_neg hlast, if_neg hlast, hih, h.ihGetOffset_eq hnext]

/-- An item is fetched from what has been read back as it is from the node. -/
theorem Covers.fetch_eq (h : Covers pol node S) {hs : Nat} (hwf : WF pol node hs) {i : Nat}
    (hi : i < getNumItems node) : fetch pol (part node S) i = fetch pol node i := by
  obtain ⟨hkey, -, hpid⟩ := @head_moved pol node.mem (part node S).mem (ihAt pol node i) (ihAt pol node i)
    fun a ha _ => Stream.only_in (h.heads i hi a ha)
  have hat : ihAt pol (part node S) i = ihAt pol node i := rfl
  unfold fetch
  dsimp only
  rw [hat, hkey, hpid, h.ihGetOffset_eq hi, h.getNumItems_eq, h.lenByIh_eq hwf hi]

/-- **The body of an item** is read back as far as it was written. -/
theorem bodyUnpack_pack (h : Covers pol node S) {hs : Nat} (hwf : WF pol node hs) {i : Nat}
    (hi : i < getNumItems node) {p : Place} (hp : fetch pol node i = .ok p) :
    (bodyUnpack pol node.size i).run (Stream.only node.mem S, bodyPack pol node p ++ rest) =
      some (.ok (), Stream.only node.mem
        (S ∪ Set.Ico (ibAt pol node i) (ibAt pol node i + packedLen pol node i)), rest) := by
  obtain ⟨plug, hplug, rfl⟩ := (hwf.fetch_eq hi).mp hp
  have hib : bound pol node i = ibAt pol node i := if_pos hi
  have hget : (bodyUnpack pol node.size i).run (Stream.only node.mem S,
      bodyPack pol node ⟨i, bound pol node i, bound pol node (i + 1) - bound pol node i,
        ihGetKey pol node.mem (ihAt pol node i), plug, initOff plug⟩ ++ rest) =
      (match fetch pol (part node S) i with
        | .error _ => Run.fail ()
        | .ok place =>
          if hasPack place.plug then tail40Unpack place
          else Stream.readAll () (ibAt pol (part node S) i)
            (lenByIh pol (part node S) i (getNumItems (part node S)))).run
        (Stream.only node.mem S, bodyPack pol node ⟨i, bound pol node i,
          bound pol node (i + 1) - bound pol node i, ihGetKey pol node.mem (ihAt pol node i), plug,
          initOff plug⟩ ++ rest) := rfl
  have hibpart : ibAt pol (part node S) i = ibAt pol node i := h.ihGetOffset_eq hi
  rw [hget, h.fetch_eq hwf hi, hp, h.getNumItems_eq, h.lenByIh_eq hwf hi, hibpart]
  unfold bodyPack packedLen
  rw [hp]
  dsimp only
  cases hpack : hasPack plug with
  | false =>
    rw [if_neg Bool.false_ne_true, if_neg Bool.false_ne_true, if_neg Bool.false_ne_true,
      Stream.readAll_written]
  | true =>
    rw [if_pos rfl, if_pos rfl, if_pos rfl]
    unfold tail40Unpack tail40Pack
    dsimp only
    by_cases hoff : initOff plug = 0
    · rw [if_neg (not_not_intro hoff), if_neg (not_not_intro hoff), hoff, Nat.add_zero, Set.Ico_self,
        Set.union_empty]
      rfl
    · rw [if_pos hoff, if_pos hoff, Run.bind_of_ok Stream.read_written, hib]
      rfl

theorem bodyBytes_succ : bodyBytes pol node (n + 1) pos =
    Set.Ico (ibAt pol node pos) (ibAt pol node pos + packedLen pol node pos) ∪
      bodyBytes pol node n (pos + 1) := by
  ext a
  constructor
  · rintro ⟨i, hlo, hhi, ha⟩
    by_cases heq : i = pos
    · rw [heq] at ha
      exact Or.inl ha
    · exact Or.inr ⟨i, by omega, by omega, ha⟩
  · rintro (ha | ⟨i, hlo, hhi, ha⟩)
    · exact ⟨pos, Nat.le_refl _, by omega, ha⟩
    · exact ⟨i, by omega, by omega, ha⟩

/-- **The bodies** are read back, as far as they were written. -/
theorem bodiesUnpack_pack {hs : Nat} (hwf : WF pol node hs) : ∀ {n pos : Nat} {S : Set Nat}
    {bytes : List UInt8}, Covers pol node S → pos + n ≤ getNumItems node →
    bodiesPack pol node n pos = .ok bytes →
    (bodiesUnpack pol node.size n pos).run (Stream.only node.mem S, bytes ++ rest) =
      some (.ok (), Stream.only node.mem (S ∪ bodyBytes pol node n pos), rest)
  | 0, pos, S, bytes, _, _, hpack => by
    obtain rfl := Except.ok.inj hpack
    have hnone : bodyBytes pol node 0 pos = ∅ := by
      ext a
      constructor
      · rintro ⟨i, hlo, hhi, -⟩
        omega
      · exact fun h => absurd h (Set.notMem_empty a)
    rw [hnone, Set.union_empty]
    rfl
  | n + 1, pos, S, bytes, hS, hn, hpack => by
    unfold bodiesPack at hpack
    cases hp : fetch pol node pos with
    | error e => rw [hp] at hpack; cases hpack
    | ok place =>
      rw [hp] at hpack
      cases hrest : bodiesPack pol node n (pos + 1) with
      | error e => rw [hrest] at hpack; cases hpack
      | ok bytes' =>
        rw [hrest] at hpack
        obtain rfl := Except.ok.inj hpack
        show (bodyUnpack pol node.size pos >>= fun _ => bodiesUnpack pol node.size n (pos + 1)).run
          (Stream.only node.mem S, bodyPack pol node place ++ bytes' ++ rest) = _
        rw [List.append_assoc, Run.bind_of_ok (bodyUnpack_pack hS hwf (by omega) hp),
          bodiesUnpack_pack hwf (hS.union _) (by omega) hrest, bodyBytes_succ, Set.union_assoc]

/-- Where the plugins of the items are known, pack does not fail. -/
theorem bodiesPack_ok (hknown : ∀ i, i < getNumItems node → ∃ p, fetch pol node i = .ok p) :
    ∀ {n pos : Nat}, pos + n ≤ getNumItems node → ∃ bytes, bodiesPack pol node n pos = .ok bytes
  | 0, _, _ => ⟨[], rfl⟩
  | n + 1, pos, hn => by
    obtain ⟨p, hp⟩ := hknown pos (by omega)
    obtain ⟨bytes, hbytes⟩ := @bodiesPack_ok hknown n (pos + 1) (by omega)
    refine ⟨bodyPack pol node p ++ bytes, ?_⟩
    unfold bodiesPack
    rw [hp]
    show (bodiesPack pol node n (pos + 1)).map _ = _
    rw [hbytes]
    rfl

/-! ## Packing what has been read back -/

theorem headsPack_part (h : Covers pol node S) : ∀ {n pos : Nat}, pos + n ≤ getNumItems node →
    headsPack pol (part node S) n pos = headsPack pol node n pos
  | 0, _, _ => rfl
  | n + 1, pos, hn => by
    show (part node S).mem.slice (ihAt pol node pos) (ihSize pol) ++ headsPack pol (part node S) n (pos + 1) = _
    rw [headsPack_part h (by omega), slice_part (h.heads pos (by omega))]
    rfl

theorem bodiesPack_part (h : Covers pol node S) {hs : Nat} (hwf : WF pol node hs)
    (hS : ∀ a, a ∈ bodyBytes pol node (getNumItems node) 0 → a ∈ S) :
    ∀ {n pos : Nat}, pos + n ≤ getNumItems node →
      bodiesPack pol (part node S) n pos = bodiesPack pol node n pos
  | 0, _, _ => rfl
  | n + 1, pos, hn => by
    unfold bodiesPack
    rw [h.fetch_eq hwf (by omega)]
    cases hp : fetch pol node pos with
    | error e => rfl
    | ok place =>
      obtain ⟨plug, -, hplace⟩ := (hwf.fetch_eq (show pos < getNumItems node by omega)).mp hp
      have hin : ∀ a, a < packedLen pol node pos → ibAt pol node pos + a ∈ S := fun a ha =>
        hS _ ⟨pos, Nat.zero_le _, by omega, by omega, by omega⟩
      have hbody : bodyPack pol (part node S) place = bodyPack pol node place := by
        unfold packedLen at hin
        rw [hp] at hin
        unfold bodyPack tail40Pack
        dsimp only at hin
        rw [h.getNumItems_eq, hplace]
        dsimp only
        rw [h.lenByIh_eq hwf (by omega), show ibAt pol (part node S) pos = ibAt pol node pos from
          h.ihGetOffset_eq (by omega), show bound pol node pos = ibAt pol node pos from if_pos (by omega)]
        rw [hplace] at hin
        dsimp only at hin
        cases hpack : hasPack plug with
        | true =>
          rw [hpack, if_pos rfl] at hin
          rw [if_pos rfl, if_pos rfl, slice_part hin]
        | false =>
          rw [hpack, if_neg Bool.false_ne_true] at hin
          rw [if_neg Bool.false_ne_true, if_neg Bool.false_ne_true, slice_part hin]
      dsimp only
      rw [hbody, bodiesPack_part h hwf hS (by omega)]

end Parts

/-! ## The node -/

section Whole

variable {pol : KeyPol} {fmt : NodeFormat} {node : NodeBlock} {nr : Nat}

/-- What comes back of a node. -/
structure Unpacked (pol : KeyPol) (fmt : NodeFormat) (node node' : NodeBlock) : Prop where
  size : node'.size = node.size
  header : ∀ a, a < fmt.headerSize → a ≠ 27 → node'.mem a = node.mem a
  padding : node'.mem 27 = 0
  heads : ∀ i, i < getNumItems node → ∀ a, a < ihSize pol →
    node'.mem (ihAt pol node i + a) = node.mem (ihAt pol node i + a)
  /-- The bodies without a `pack` method. -/
  bodies : ∀ i, i < getNumItems node → ∀ p, fetch pol node i = .ok p → hasPack p.plug = false →
    ∀ a, bound pol node i ≤ a → a < bound pol node (i + 1) → node'.mem a = node.mem a
  /-- The tails: what is in front of the first unit. -/
  tails : ∀ i, i < getNumItems node → ∀ p, fetch pol node i = .ok p → hasPack p.plug = true →
    ∀ a, bound pol node i ≤ a → a < bound pol node (i + 1) →
      node'.mem a = if a < bound pol node i + p.off then node.mem a else 0

/-- The bytes of a node that are packed or set. -/
def packedBytes (pol : KeyPol) (fmt : NodeFormat) (node : NodeBlock) : Set Nat :=
  headerBytes fmt ∪ Set.Ico (node.size - getNumItems node * ihSize pol) node.size ∪
    bodyBytes pol node (getNumItems node) 0

theorem headerSize_range : 28 ≤ fmt.headerSize ∧ fmt.headerSize ≤ 32 := by
  cases fmt <;> decide

theorem covers_packed (h : WF pol node fmt.headerSize) : Covers pol node
    (headerBytes fmt ∪ Set.Ico (node.size - getNumItems node * ihSize pol) node.size) := by
  have hsize := @headerSize_range fmt
  constructor
  · intro a h2 h8
    exact Or.inl ⟨by omega, by omega⟩
  · intro i hi a ha
    have hat := h.ihAt_add hi
    have hle : (i + 1) * ihSize pol ≤ getNumItems node * ihSize pol := Nat.mul_le_mul_right _ hi
    have hone : ihSize pol ≤ (i + 1) * ihSize pol := Nat.le_mul_of_pos_left _ (Nat.succ_pos i)
    exact Or.inr ⟨by omega, by omega⟩

/-- No more is packed of an item than its body. -/
theorem packedLen_le (h : WF pol node fmt.headerSize) {i : Nat} (hi : i < getNumItems node) :
    ibAt pol node i = bound pol node i ∧
      bound pol node i + packedLen pol node i ≤ bound pol node (i + 1) := by
  have horder := h.order i hi
  refine ⟨(bound_lt hi).symm, ?_⟩
  unfold packedLen
  cases hp : fetch pol node i with
  | error e => exact Nat.le_of_lt horder
  | ok p =>
    obtain ⟨plug, -, rfl⟩ := (h.fetch_eq hi).mp hp
    dsimp only
    have hoff : initOff plug ≤ 1 := by cases plug <;> decide
    rw [h.lenByIh_eq hi]
    split <;> omega

/-- What has been read back in the end. -/
theorem unpacked_part (h : WF pol node fmt.headerSize) :
    Unpacked pol fmt node (part node (packedBytes pol fmt node)) := by
  have hsize := @headerSize_range fmt
  have hcov := (covers_packed h).union (bodyBytes pol node (getNumItems node) 0)
  have hspace := h.space
  have hlow : ∀ i, i < getNumItems node → fmt.headerSize ≤ bound pol node i := by
    intro i hi
    have := h.bound_mono (Nat.zero_le i) (Nat.le_of_lt hi)
    rwa [h.start] at this
  have hhigh : ∀ i, i < getNumItems node → bound pol node (i + 1) ≤ getFreeSpaceStart node := by
    intro i hi
    rw [← @bound_top pol node]
    exact h.bound_mono hi (Nat.le_refl _)
  have htop : fmt.headerSize ≤ getFreeSpaceStart node := by
    rw [← @bound_top pol node, ← h.start]
    exact h.bound_mono (Nat.zero_le _) (Nat.le_refl _)
  refine ⟨rfl, ?_, ?_, ?_, ?_, ?_⟩
  · intro a ha hpad
    exact Stream.only_in (Or.inl (Or.inl ⟨ha, hpad⟩))
  · refine Stream.only_out ?_
    rintro ((⟨-, hpad⟩ | ⟨hlo, -⟩) | ⟨i, -, hi, hlo, -⟩)
    · exact hpad rfl
    · omega
    · have := (packedLen_le h (show i < getNumItems node by omega)).1
      have := hlow i (by omega)
      omega
  · intro i hi a ha
    exact Stream.only_in (hcov.heads i hi a ha)
  · intro i hi p hp hpack a hlo hhi
    obtain ⟨hib, -⟩ := packedLen_le h hi
    refine Stream.only_in (Or.inr ⟨i, Nat.zero_le _, by omega, by omega, ?_⟩)
    unfold packedLen
    rw [hp]
    dsimp only
    rw [hpack, if_neg Bool.false_ne_true, h.lenByIh_eq hi]
    omega
  · intro i hi p hp hpack a hlo hhi
    obtain ⟨hib, -⟩ := packedLen_le h hi
    have hlen : packedLen pol node i = p.off := by
      unfold packedLen
      rw [hp]
      dsimp only
      rw [hpack, if_pos rfl]
    by_cases hin : a < bound pol node i + p.off
    · rw [if_pos hin]
      exact Stream.only_in (Or.inr ⟨i, Nat.zero_le _, by omega, by omega, by omega⟩)
    · rw [if_neg hin]
      refine Stream.only_out ?_
      have h1 := hlow i hi
      have h2 := hhigh i hi
      rintro ((⟨hhead, -⟩ | ⟨hhead, -⟩) | ⟨j, -, hj, hjlo, hjhi⟩)
      · omega
      · omega
      · -- the bodies of two items have no byte in common
        obtain ⟨hjb, hjle⟩ := packedLen_le h (show j < getNumItems node by omega)
        rcases Nat.lt_trichotomy j i with hlt | heq | hgt
        · have := h.bound_mono (show j + 1 ≤ i from hlt) (Nat.le_of_lt hi)
          omega
        · rw [heq] at hjb hjhi
          omega
        · have := h.bound_mono (show i + 1 ≤ j from hgt) (by omega)
          omega

/-- **Unpack restores what pack wrote**: it takes exactly the bytes of the node from the stream, and what
    it leaves is the node but for the bytes of the tails.  Packing that again writes the same bytes. -/
theorem node40Unpack_pack (h : WF pol node fmt.headerSize) (hid : node.mem.getLe 2 0 = fmt.id)
    (hmagic : node.mem.getLe 4 8 = fmt.magic)
    (hknown : ∀ i, i < getNumItems node → ∃ p, fetch pol node i = .ok p) (hnr : nr < 2 ^ 64) :
    ∃ bytes mem', node40PackCommon pol fmt node nr = .ok bytes ∧
      (∀ mem rest, (repairNodeUnpack pol node.size).run (mem, bytes ++ rest) =
        some (.ok (fmt, nr), mem', rest)) ∧
      Unpacked pol fmt node ⟨mem', node.size⟩ ∧
      node40PackCommon pol fmt ⟨mem', node.size⟩ nr = .ok bytes := by
  obtain ⟨bodies, hbodies⟩ := bodiesPack_ok hknown (Nat.le_of_eq (Nat.zero_add (getNumItems node)))
  have hcov := covers_packed h
  have hroom : (0 + getNumItems node) * ihSize pol ≤ node.size := by
    rw [Nat.zero_add]
    have := h.space
    omega
  have hpack : node40PackCommon pol fmt node nr = .ok ((Bytes.zero.setLe 4 0 fmt.id).slice 0 4 ++
      ((Bytes.zero.setLe 8 0 nr).slice 0 8 ++
        (headerPack fmt node.mem ++ (headsPack pol node (getNumItems node) 0 ++ bodies)))) := by
    unfold node40PackCommon node40ItemsPack
    rw [hbodies]
    rfl
  refine ⟨_, (part node (packedBytes pol fmt node)).mem, hpack, ?_, unpacked_part h, ?_⟩
  · intro mem rest
    have hpid : (Bytes.zero.setLe 4 0 fmt.id).getLe 4 0 = fmt.id := by cases fmt <;> decide +kernel
    have hblk : (Bytes.zero.setLe 8 0 nr).getLe 8 0 = nr :=
      Bytes.getLe_setLe_of_lt 8 _ _ _ (Nat.lt_of_lt_of_le hnr (by decide))
    have hfind : nodeIfind fmt.id = some fmt := by cases fmt <;> rfl
    have hnode : (node40UnpackCommon pol fmt node.size).run (Bytes.zero, headerPack fmt node.mem ++
        (headsPack pol node (getNumItems node) 0 ++ (bodies ++ rest))) =
        some (.ok (), (part node (packedBytes pol fmt node)).mem, rest) := by
      obtain ⟨s, hrun, hs⟩ := @headerUnpack_pack fmt node
        (headsPack pol node (getNumItems node) 0 ++ (bodies ++ rest)) hid hmagic
      have hnum : getNumItems (part node (headerBytes fmt)) = getNumItems node :=
        Stream.getLe_only fun i hi => ⟨by have := @headerSize_range fmt; omega, by omega⟩
      have hheads := @headsUnpack_pack pol node (bodies ++ rest) (getNumItems node) 0 (headerBytes fmt) hroom
      rw [Nat.zero_add, Nat.zero_mul, Nat.sub_zero] at hheads
      unfold node40UnpackCommon
      rw [Run.bind_of_ok hrun, Run.modify_bind, Run.modify_bind, hs]
      show (headsUnpack pol node.size (getNumItems (part node (headerBytes fmt))) 0 >>= fun _ =>
        bodiesUnpack pol node.size (getNumItems (part node (headerBytes fmt))) 0).run
          (Stream.only node.mem (headerBytes fmt), _) = _
      rw [hnum, Run.bind_of_ok hheads,
        bodiesUnpack_pack h hcov (Nat.le_of_eq (Nat.zero_add _)) hbodies]
      rfl
    unfold repairNodeUnpack
    simp only [List.append_assoc]
    rw [Run.bind_of_ok Stream.readNumber_written, hpid, Run.bind_of_ok Stream.readNumber_written, hblk,
      hfind]
    dsimp only
    rw [Run.modify_bind]
    rw [Run.bind_of_ok hnode]
    rfl
  · have hall : Covers pol node (packedBytes pol fmt node) := hcov.union _
    have hsize := @headerSize_range fmt
    have hspan : ∀ o n, o + n ≤ fmt.headerSize → (o + n ≤ 27 ∨ 28 ≤ o) →
        (part node (packedBytes pol fmt node)).mem.slice o n = node.mem.slice o n := fun o n hn hpad =>
      slice_part fun a ha => Or.inl (Or.inl ⟨by omega, by omega⟩)
    have hheader : headerPack fmt (part node (packedBytes pol fmt node)).mem = headerPack fmt node.mem := by
      have hcommon : node40HeaderPack (part node (packedBytes pol fmt node)).mem =
          node40HeaderPack node.mem := by
        unfold node40HeaderPack
        rw [hspan 2 2 (by omega) (by omega), hspan 4 2 (by omega) (by omega),
          hspan 6 2 (by omega) (by omega), hspan 12 4 (by omega) (by omega),
          hspan 16 8 (by omega) (by omega), hspan 24 2 (by omega) (by omega),
          hspan 26 1 (by omega) (by omega)]
      cases fmt with
      | node40 => exact hcommon
      | node41 =>
        show node40HeaderPack _ ++ Bytes.slice _ 28 4 = _
        rw [hcommon, hspan 28 4 (by decide) (by omega)]
        rfl
    show node40PackCommon pol fmt (part node (packedBytes pol fmt node)) nr = _
    unfold node40PackCommon node40ItemsPack
    have hn : getNumItems (part node (packedBytes pol fmt node)) = getNumItems node := hall.getNumItems_eq
    rw [hn, headsPack_part hall (Nat.le_of_eq (Nat.zero_add _)),
      bodiesPack_part hall h (fun a ha => Or.inr ha) (Nat.le_of_eq (Nat.zero_add _)), hbodies, hheader]
    rfl

/-- Every byte in front of the free space and every item header comes back. -/
def Restores (pol : KeyPol) (fmt : NodeFormat) (node : NodeBlock) (nr : Nat) : Prop :=
  ∃ bytes mem', node40PackCommon pol fmt node nr = .ok bytes ∧
    (repairNodeUnpack pol node.size).run (Bytes.zero, bytes) = some (.ok (fmt, nr), mem', []) ∧
    (∀ a, a < getFreeSpaceStart node → mem' a = node.mem a) ∧
    ∀ i, i < getNumItems node → ∀ a, a < ihSize pol →
      mem' (ihAt pol node i + a) = node.mem (ihAt pol node i + a)

/-- A `node40` with one item of the byte 7, of the plugin `p`. -/
def oneByte (p : Nat) : NodeBlock where
  mem := ((((((Bytes.zero.setLe 2 2 1).setLe 2 4 453).setLe 2 6 29).setLe 4 8 0x52344653).setLe 1 28 7).setLe
    2 506 28).setLe 2 510 p
  size := 512

theorem oneByte_wf : WF .short (oneByte 6) 28 :=
  ⟨Nat.le_refl _, by decide +kernel, by decide +kernel, by decide +kernel, by decide +kernel⟩

/-- A `node40` with a `bbox40` item of one byte, a `ctail40` item with its shift and three bytes, and a `plain40` item
    of two bytes. -/
def threeKinds : NodeBlock where
  mem := (((((((((((Bytes.zero.setLe 2 2 3).setLe 2 4 387).setLe 2 6 35).setLe 4 8 0x52344653).setLe 7 28
    0x05040302010c07).setLe 2 506 28).setLe 2 510 8).setLe 2 476 29).setLe 2 480 7).setLe 2 446 33).setLe 2 450 6)
  size := 512

theorem threeKinds_wf : WF .short threeKinds 28 :=
  ⟨Nat.le_refl _, by decide +kernel, by decide +kernel, by decide +kernel, by decide +kernel⟩

/-- Its three items can be fetched. -/
theorem threeKinds_known : ∀ i < 3, (fetch .short threeKinds i).toOption.isSome = true := by decide +kernel

theorem node40Unpack_threeKinds : ∃ bytes mem', node40PackCommon .short .node40 threeKinds 23 = .ok bytes ∧
    (repairNodeUnpack .short 512).run (Bytes.zero, bytes ++ [1]) = some (.ok (.node40, 23), mem', [1]) ∧
    Unpacked .short .node40 threeKinds ⟨mem', 512⟩ := by
  obtain ⟨bytes, mem', hpack, hrun, hnode, -⟩ := @node40Unpack_pack .short .node40 threeKinds 23
    threeKinds_wf (by decide +kernel) (by decide +kernel) (by
      intro i hi
      have hn : getNumItems threeKinds = 3 := by decide +kernel
      have hsome := threeKinds_known i (hn ▸ hi)
      cases hp : fetch .short threeKinds i with
      | ok p => exact ⟨p, rfl⟩
      | error e =>
        rw [hp] at hsome
        cases hsome) (by decide)
  exact ⟨bytes, mem', hpack, hrun _ _, hnode⟩

/-- The byte of a `plain40` item does not come back. -/
theorem node40Unpack_tail : WF .short (oneByte 6) 28 ∧ ¬ Restores .short .node40 (oneByte 6) 23 := by
  refine ⟨oneByte_wf, ?_⟩
  rintro ⟨bytes, mem', hpack, hrun, hmem, -⟩
  have hzero : (match node40PackCommon .short .node40 (oneByte 6) 23 with
      | .error _ => none
      | .ok bytes => ((repairNodeUnpack .short 512).run (Bytes.zero, bytes)).map fun r => r.2.1 28) =
      some 0 := by decide +kernel
  rw [hpack] at hzero
  dsimp only at hzero
  rw [show (repairNodeUnpack .short 512).run (Bytes.zero, bytes) = _ from hrun] at hzero
  have h0 : mem' 28 = 0 := Option.some.inj hzero
  have h7 : mem' 28 = (oneByte 6).mem 28 := hmem 28 (by decide +kernel)
  rw [h0] at h7
  revert h7
  decide +kernel

end Whole

end Node40

end Reiser4
