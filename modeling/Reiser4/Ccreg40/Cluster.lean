/-
  Reading and writing a file of clusters (`ccreg40_read`, `ccreg40_write`).

  A cluster is read and written as a whole: a write that does not cover one reads what is there, copies the new
  bytes over it in a buffer and writes the buffer back up to the last byte known.  The buffer is not cleared: a write
  that begins behind the end of the file, in the cluster the file ends in, stores what the buffer held before.
  Offsets and sizes are cut to 32 bits on the way, and where a file has a size that its items do not reach, the last
  cluster there is looks like a compressed one.  A cluster that does not join the items in front of it is written behind
  the last of these, as if it belonged there.

    1. `readClust_eq`, `readLoop_eq`   reading, from a body that is in order (`Holds`);
    2. `writeClust_holds`              one cluster written;
    3. `writeLoop_holds`, `write_holds`  a write;
    4. `ccreg40_runs`                  any sequence of writes, none of them of the kinds above.
-/
import Reiser4.Tree.Flow
import Reiser4.Aal
import Reiser4.Bitmap
import Reiser4.Lib.Run

namespace Reiser4.Ccreg40

open Reiser4.Lib Reiser4.Tree

/-! ## The code -/

/-- What of the plugin set of the object is looked at: the cluster size, and whether the crypto plugin, the
    compression mode and the compression plugin are other than none. -/
structure Pset where
  clsize : Nat
  crypto : Bool
  mode : Bool
  compress : Bool

/-- The file: its size in the stat data, and its body. -/
structure CcFile where
  size : Nat
  items : List Piece

/-- `ccreg40_clstart`, of a 32-bit size: the mask has 32 bits. -/
def ccreg40Clstart (off size : Nat) : Nat := off &&& (two32 - 1 - u32 (size - 1))

/-- The size of the buffers. -/
def buffSize : Nat := 64 * 1024

section Code

variable (ps : Pset)

/-- `ccreg40_decc_cluster`; `compressed` is whether fewer bytes were found than asked for. -/
def ccreg40DeccCluster (disk : List UInt8) (compressed : Bool) : Except Errno (List UInt8) :=
  if ps.crypto then .error .einval
  else if compressed then .error .einval
  else .ok disk

/-- `ccreg40_cc_cluster`. -/
def ccreg40CcCluster (clust : List UInt8) : Except Errno (List UInt8) :=
  if ps.crypto then .error .einval
  else if ps.mode ∨ ps.compress then .error .einval
  else .ok clust

/-- `ccreg40_read_clust`; the size of the file is a 32-bit argument. -/
def ccreg40ReadClust (items : List Piece) (off count fsize : Nat) : Except Errno (List UInt8) :=
  let fsize := u32 fsize
  if fsize < off then .ok []
  else
    let clstart := ccreg40Clstart off ps.clsize
    let clsize := if fsize - clstart < ps.clsize then fsize - clstart else ps.clsize
    let disk := flowRead items clstart clsize
    if disk.length = 0 then .ok (List.replicate (min (clstart + clsize - off) count) 0)
    else do
      let clust ← ccreg40DeccCluster ps disk (decide (disk.length < clsize))
      if clust.length ≠ clsize then .error .eio
      else .ok ((clust.drop (off - clstart)).take (min (clsize - (off - clstart)) count))

/-- What the buffer of `ccreg40_write_clust` holds before the new bytes, and how much of it is the file's; `junk` is
    what it holds before anything. -/
def oldClust (items : List Piece) (junk : Nat → UInt8) (off count fsize : Nat) : Except Errno ((Nat → UInt8) × Nat) :=
  let clstart := ccreg40Clstart off ps.clsize
  let stop := min (clstart + ps.clsize) fsize
  if fsize ≤ clstart then .ok (fun i => if i < ps.clsize then 0 else junk i, 0)
  else if off ≠ clstart ∨ u64 (off + count) < stop then do
    let old ← ccreg40ReadClust ps items clstart (stop - clstart) fsize
    if old.length ≠ stop - clstart then .error .eio
    else .ok (fun i => old.getD i (junk i), old.length)
  else .ok (junk, 0)

/-- A difference in 64 bits. -/
def sub64 (a b : Nat) : Nat := u64 (a + (18446744073709551616 - u64 b))

/-- The first `n` of the new bytes are copied into the buffer. -/
def newClust (clust : Nat → UInt8) (data : List UInt8) (at_ n : Nat) : Nat → UInt8 := fun i =>
  if at_ ≤ i ∧ i < at_ + n then data.getD (i - at_) 0 else clust i

/-- The cluster is written, up to `stop`. -/
def storeClust (clust : Nat → UInt8) (clstart stop : Nat) : Run (List Piece) Errno Unit :=
  match ccreg40CcCluster ps ((List.range (stop - clstart)).map clust) with
  | .error e => Run.fail e
  | .ok disk => Run.modify fun items => flowWrite items clstart disk

/-- The new bytes are copied into the buffer, in which `done` bytes are the file's, and that is written; it hangs
    where it would copy outside of its buffers. -/
def copyClust (clust : Nat → UInt8) (done : Nat) (buff : List UInt8) (off clstart count : Nat) :
    Run (List Piece) Errno Nat :=
  if buff.length < count ∨ buffSize < off - clstart + count then Run.hang
  else do
    storeClust ps (newClust clust buff (off - clstart) count) clstart (max (clstart + done) (u64 (off + count)))
    pure count

/-- `ccreg40_write_clust`. -/
def ccreg40WriteClust (junk : Nat → UInt8) (buff : List UInt8) (off fsize : Nat) : Run (List Piece) Errno Nat :=
  ⟨fun items =>
    let clstart := ccreg40Clstart off ps.clsize
    match oldClust ps items junk off buff.length fsize with
    | .error e => some (.error e, items)
    | .ok old =>
      (copyClust ps old.1 old.2 buff off clstart
        (sub64 (min (clstart + ps.clsize) (u64 (off + buff.length))) off)).run items⟩

/-- The loop of `ccreg40_read`. -/
def readLoop (items : List Piece) (fsize : Nat) : Nat → Nat → Nat → Option (Except Errno (List UInt8))
  | 0, _, _ => none
  | fuel + 1, off, n =>
    if n = 0 then some (.ok [])
    else
      match ccreg40ReadClust ps items off n fsize with
      | .error e => some (.error e)
      | .ok read => (readLoop items fsize fuel (u64 (off + read.length)) (n - read.length)).map fun r => r.map (read ++ ·)

/-- `ccreg40_read` of `n` bytes at the position `off`. -/
def ccreg40Read (fuel : Nat) (f : CcFile) (off n : Nat) : Option (Except Errno (List UInt8)) :=
  if f.size < off then some (.ok [])
  else readLoop ps f.items f.size fuel off (min n (f.size - off))

/-- The loop of `ccreg40_write`; `junk` is what each call finds in its buffer. -/
def writeLoop (junk : Nat → Nat → UInt8) (fsize : Nat) : Nat → List UInt8 → Nat → Run (List Piece) Errno Unit
  | 0, _, _ => Run.hang
  | fuel + 1, buff, off =>
    if buff = [] then pure ()
    else do
      let res ← ccreg40WriteClust ps (junk off) buff off fsize
      writeLoop junk fsize fuel (buff.drop res) (u64 (off + res))

/-- `ccreg40_write` of some bytes at the position `off`; the byte count in the stat data is left out. -/
def ccreg40Write (junk : Nat → Nat → UInt8) (fuel off : Nat) (buff : List UInt8) : Run CcFile Errno Nat :=
  ⟨fun f =>
    match (writeLoop ps junk f.size fuel buff off).run f.items with
    | none => none
    | some (.error e, items) => some (.error e, { f with items })
    | some (.ok (), items) =>
      let off := u64 (off + buff.length)
      some (.ok buff.length, ⟨if off < f.size then f.size else f.size + (off - f.size), items⟩)⟩

end Code

/-! ## What the file is to hold -/

/-- The size and the bytes of a file; those that were never written are zeros. -/
structure Content where
  size : Nat
  byte : Nat → UInt8

/-- The empty file. -/
def Content.empty : Content := ⟨0, fun _ => 0⟩

def Content.write (c : Content) (off : Nat) (data : List UInt8) : Content :=
  ⟨max c.size (off + data.length),
    fun x => if off ≤ x ∧ x < off + data.length then data.getD (x - off) 0 else c.byte x⟩

/-- The cluster sizes there are plugins for. -/
def clusterSizes : List Nat := [4096, 8192, 16384, 32768, 65536]

/-- Without encryption and compression. -/
def plain (clsize : Nat) : Pset := ⟨clsize, false, false, false⟩

/-- **The file reads as this content**: any range, up to the size. -/
def Shows (clsize : Nat) (f : CcFile) (c : Content) : Prop :=
  f.size = c.size ∧ ∀ fuel off n, n < fuel → ccreg40Read (plain clsize) fuel f off n =
    some (.ok ((List.range (min n (c.size - off))).map fun i => c.byte (off + i)))

/-- The writes that the code is up to: the file stays below 4 GiB, it has no gap in the cluster it ends in, and the first
    cluster of the write joins the items in front of it, if there are any. -/
def WriteOk (clsize : Nat) (f : CcFile) (off n : Nat) : Prop :=
  max f.size (off + n) < two32 ∧
    (off ≤ f.size ∨ if n = 0 then clsize ∣ stopOf f.items else f.size ≤ ccreg40Clstart off clsize) ∧
    (n = 0 ∨ Joins f.items (ccreg40Clstart off clsize))

/-- A sequence of writes. -/
def ccreg40Writes (clsize : Nat) (junk : Nat → Nat → UInt8) (fuel : Nat) (ws : List (Nat × List UInt8)) :
    Run CcFile Errno Unit :=
  Run.forEach (fun w => do
    let _ ← ccreg40Write (plain clsize) junk fuel w.1 w.2
    pure ()) ws

/-- Each write is of that kind, in the file it meets. -/
def WritesOk (clsize : Nat) (junk : Nat → Nat → UInt8) (fuel : Nat) : List (Nat × List UInt8) → CcFile → Prop
  | [], _ => True
  | w :: ws, f => WriteOk clsize f w.1 w.2.length ∧
      ∀ n f', (ccreg40Write (plain clsize) junk fuel w.1 w.2).run f = some (.ok n, f') →
        WritesOk clsize junk fuel ws f'

/-! ## Clusters -/

/-- The mask of a power of two. -/
theorem clstart_pow {k : Nat} (hk : k ≤ 31) (off : Nat) : ccreg40Clstart off (2 ^ k) = off % 2 ^ 32 / 2 ^ k * 2 ^ k := by
  have hlt : 2 ^ k - 1 < 2 ^ 32 := by
    have := Nat.pow_le_pow_right (show 0 < 2 by decide) hk
    have : 2 ^ 31 < 2 ^ 32 := by decide
    omega
  have hmask : two32 - 1 - u32 (2 ^ k - 1) = 2 ^ 32 - (2 ^ k - 1 + 1) := by
    rw [show u32 (2 ^ k - 1) = 2 ^ k - 1 from Nat.mod_eq_of_lt hlt, show two32 = 2 ^ 32 from rfl]
    omega
  unfold ccreg40Clstart
  rw [hmask]
  refine Nat.eq_of_testBit_eq fun i => ?_
  rw [Nat.testBit_and, Nat.testBit_two_pow_sub_succ hlt, Nat.testBit_two_pow_sub_one, Nat.testBit_mul_two_pow,
    Nat.testBit_div_two_pow, Nat.testBit_mod_two_pow]
  by_cases hi : i < k
  · simp [hi]
  · have h1 : k ≤ i := by omega
    have h2 : i - k + k = i := by omega
    simp [hi, h1, h2, Bool.and_comm]

/-- What is known of the start of a cluster. -/
structure AtCluster (clsize off cs : Nat) : Prop where
  dvd : clsize ∣ cs
  le : cs ≤ off
  lt : off < cs + clsize
  pos : 0 < clsize
  small : clsize ≤ 65536

theorem clusterSizes_pow {clsize : Nat} (h : clsize ∈ clusterSizes) : ∃ k, 12 ≤ k ∧ k ≤ 16 ∧ clsize = 2 ^ k := by
  have hall : ∀ s ∈ clusterSizes, s = 2 ^ 12 ∨ s = 2 ^ 13 ∨ s = 2 ^ 14 ∨ s = 2 ^ 15 ∨ s = 2 ^ 16 := by decide
  rcases hall clsize h with rfl | rfl | rfl | rfl | rfl
  · exact ⟨12, by decide, by decide, rfl⟩
  · exact ⟨13, by decide, by decide, rfl⟩
  · exact ⟨14, by decide, by decide, rfl⟩
  · exact ⟨15, by decide, by decide, rfl⟩
  · exact ⟨16, by decide, by decide, rfl⟩

theorem clstart_at {clsize off : Nat} (h : clsize ∈ clusterSizes) (hoff : off < two32) :
    AtCluster clsize off (ccreg40Clstart off clsize) := by
  obtain ⟨k, hk12, hk, rfl⟩ := clusterSizes_pow h
  have hpos : 0 < 2 ^ k := Nat.two_pow_pos k
  have hsmall : 2 ^ k ≤ 2 ^ 16 := Nat.pow_le_pow_right (by decide) hk
  have hdiv := Nat.div_add_mod' off (2 ^ k)
  have hmod := Nat.mod_lt off hpos
  rw [clstart_pow (by omega), show off % 2 ^ 32 = off from Nat.mod_eq_of_lt hoff]
  exact ⟨Nat.dvd_mul_left _ _, by omega, by omega, hpos, hsmall⟩

/-- The start of a cluster is in it. -/
theorem clstart_start {clsize cs : Nat} (h : clsize ∈ clusterSizes) (hdvd : clsize ∣ cs) (hcs : cs < two32) :
    ccreg40Clstart cs clsize = cs := by
  obtain ⟨k, hk12, hk, rfl⟩ := clusterSizes_pow h
  rw [clstart_pow (by omega), show cs % 2 ^ 32 = cs from Nat.mod_eq_of_lt hcs]
  exact Nat.div_mul_cancel hdvd

/-- A multiple behind the start of a cluster is not in front of its end. -/
theorem AtCluster.dvd_le {clsize off cs x : Nat} (h : AtCluster clsize off cs) (hx : clsize ∣ x) (hlt : cs < x) :
    cs + clsize ≤ x := by
  obtain ⟨p, hp⟩ := h.dvd
  obtain ⟨q, rfl⟩ := hx
  rw [hp] at hlt ⊢
  have hpq : p < q := Nat.lt_of_mul_lt_mul_left hlt
  calc clsize * p + clsize = clsize * (p + 1) := (Nat.mul_succ _ _).symm
    _ ≤ clsize * q := Nat.mul_le_mul_left _ hpq

/-! ## Reading -/

/-- The body holds the content.  Its items reach the size, or they end at the end of a cluster. -/
structure Holds (clsize : Nat) (items : List Piece) (c : Content) : Prop where
  sorted : From 0 items
  size_lt : c.size < two32
  stop_le : stopOf items ≤ c.size
  whole : stopOf items = c.size ∨ clsize ∣ stopOf items
  byte : ∀ x, (byteAt items x).getD 0 = c.byte x

section Reading

variable {clsize : Nat} {items : List Piece} {c : Content}

theorem Holds.byte_zero (h : Holds clsize items c) {x : Nat} (hx : stopOf items ≤ x) : c.byte x = 0 := by
  rw [← h.byte, byteAt_stop hx]
  rfl

/-- **One cluster is read.** -/
theorem readClust_eq (h : Holds clsize items c) (hcl : clsize ∈ clusterSizes) {off : Nat} (hoff : off ≤ c.size) (count : Nat) :
    ccreg40ReadClust (plain clsize) items off count c.size = .ok ((List.range
      (min count (min (ccreg40Clstart off clsize + clsize) c.size - off))).map fun i => c.byte (off + i)) := by
  have hlt := h.size_lt
  have hat := clstart_at hcl (Nat.lt_of_le_of_lt hoff hlt)
  obtain ⟨cs, hcs⟩ : ∃ cs, cs = ccreg40Clstart off clsize := ⟨_, rfl⟩
  rw [← hcs] at hat ⊢
  have hle := hat.le
  have hend := hat.lt
  have hstop := h.stop_le
  unfold ccreg40ReadClust
  dsimp only
  rw [u32_of_lt hlt, if_neg (by omega), show (plain clsize).clsize = clsize from rfl, ← hcs]
  obtain ⟨len, hlen⟩ : ∃ len, len = if c.size - cs < clsize then c.size - cs else clsize := ⟨_, rfl⟩
  have hlen' : len = min clsize (c.size - cs) := by
    rw [hlen]
    split <;> omega
  rw [← hlen, flowRead_eq h.sorted]
  have hbytes : (List.range (min len (stopOf items - cs))).map (fun i => (byteAt items (cs + i)).getD 0) =
      (List.range (min len (stopOf items - cs))).map fun i => c.byte (cs + i) :=
    List.map_congr_left fun i _ => h.byte (cs + i)
  rw [hbytes, List.length_map, List.length_range]
  by_cases hnone : min len (stopOf items - cs) = 0
  · -- There is nothing of the cluster: zeros.
    rw [if_pos hnone]
    have hcount : min (cs + len - off) count = min count (min (cs + clsize) c.size - off) := by omega
    rw [hcount]
    refine congrArg Except.ok (List.ext_getElem? fun i => ?_)
    rw [List.getElem?_replicate, List.getElem?_map]
    by_cases hi : i < min count (min (cs + clsize) c.size - off)
    · have hzero : c.byte (off + i) = 0 := h.byte_zero (by omega)
      rw [if_pos hi, List.getElem?_range hi, Option.map_some, hzero]
    · rw [if_neg hi, List.getElem?_eq_none (by rw [List.length_range]; omega)]
      rfl
  · -- All of it is there.
    have hfull : min len (stopOf items - cs) = len := by
      rcases h.whole with heq | hdvd
      · omega
      · have := hat.dvd_le hdvd (by omega)
        omega
    rw [if_neg hnone, hfull]
    have hdecc : ccreg40DeccCluster (plain clsize) ((List.range len).map fun i => c.byte (cs + i))
        (decide (len < len)) = .ok ((List.range len).map fun i => c.byte (cs + i)) := by
      rw [decide_eq_false (Nat.lt_irrefl len)]
      rfl
    rw [hdecc]
    show (if ((List.range len).map fun i => c.byte (cs + i)).length ≠ len then _ else _) = _
    rw [if_neg (by simp)]
    refine congrArg Except.ok (List.ext_getElem? fun i => ?_)
    rw [List.getElem?_take, List.getElem?_drop, List.getElem?_map, List.getElem?_map]
    by_cases hi : i < min count (min (cs + clsize) c.size - off)
    · rw [if_pos (by omega), List.getElem?_range (by omega), List.getElem?_range hi, Option.map_some, Option.map_some,
        show cs + (off - cs + i) = off + i by omega]
    · rw [List.getElem?_eq_none (show (List.range _).length ≤ i by rw [List.length_range]; omega)]
      split
      · omega
      · rfl

/-- The loop reads the bytes of the content. -/
theorem readLoop_eq (h : Holds clsize items c) (hcl : clsize ∈ clusterSizes) : ∀ {fuel off n : Nat}, n < fuel →
    off + n ≤ c.size →
    readLoop (plain clsize) items c.size fuel off n = some (.ok ((List.range n).map fun i => c.byte (off + i)))
  | 0, _, _, hfuel, _ => by omega
  | fuel + 1, off, n, hfuel, hle => by
    have hlt := h.size_lt
    rw [readLoop]
    by_cases hn : n = 0
    · subst hn
      rfl
    rw [if_neg hn]
    have hat := (clstart_at hcl (show off < two32 by omega)).lt
    obtain ⟨len, hlen⟩ : ∃ len, len = min n (min (ccreg40Clstart off clsize + clsize) c.size - off) := ⟨_, rfl⟩
    have hpos : 0 < len := by omega
    have hlen_le : len ≤ n := by omega
    rw [readClust_eq h hcl (by omega), ← hlen]
    dsimp only
    have hoff : u64 (off + len) = off + len := Nat.mod_eq_of_lt (by unfold two32 at hlt; omega)
    rw [List.length_map, List.length_range, hoff, readLoop_eq h hcl (by omega) (by omega)]
    have hsplit : List.range n = List.range len ++ (List.range (n - len)).map (len + ·) := by
      rw [← List.range_add, Nat.add_sub_cancel' hlen_le]
    rw [hsplit, List.map_append, List.map_map]
    refine congrArg (fun l => some (Except.ok (_ ++ l))) (List.map_congr_left fun i _ => ?_)
    show c.byte (off + len + i) = c.byte (off + (len + i))
    rw [Nat.add_assoc]

theorem Holds.shows (h : Holds clsize items c) (hcl : clsize ∈ clusterSizes) : Shows clsize ⟨c.size, items⟩ c := by
  refine ⟨rfl, fun fuel off n hfuel => ?_⟩
  unfold ccreg40Read
  dsimp only
  by_cases hoff : c.size < off
  · rw [if_pos hoff, Nat.sub_eq_zero_of_le (Nat.le_of_lt hoff), Nat.min_zero]
    rfl
  · rw [if_neg hoff]
    exact readLoop_eq h hcl (by omega) (by omega)

end Reading

/-! ## Writing one cluster -/

section Writing

variable {clsize : Nat} {items : List Piece} {c : Content}

/-- The state of a write that has come to `off`, of a file that had the size `fsize`. -/
structure Going (clsize : Nat) (c : Content) (off fsize : Nat) : Prop where
  size : fsize = c.size ∨ (fsize ≤ c.size ∧ c.size ≤ ccreg40Clstart off clsize)
  no_gap : off ≤ c.size ∨ c.size ≤ ccreg40Clstart off clsize

/-- What the buffer holds before the new bytes: nothing of the file behind its end, the cluster as far as it goes, or
    anything where it is written over. -/
inductive OldClust (c : Content) (clsize cs off len fsize : Nat) (clust : Nat → UInt8) (done : Nat) : Prop
  | behind (size : c.size ≤ cs) (zero : ∀ i, i < clsize → clust i = 0) (done_eq : done = 0)
  | old (size : fsize = c.size) (lt : cs < fsize) (bytes : ∀ i, i < done → clust i = c.byte (cs + i))
      (done_eq : cs + done = min (cs + clsize) fsize)
  | rewritten (size : fsize = c.size) (lt : cs < fsize) (start : off = cs) (covers : min (cs + clsize) fsize ≤ off + len)
      (done_eq : done = 0)

theorem oldClust_spec (h : Holds clsize items c) (hcl : clsize ∈ clusterSizes) (junk : Nat → UInt8) {off len fsize : Nat}
    (hlen : off + len < two32) (hg : Going clsize c off fsize) : ∃ clust done,
      oldClust (plain clsize) items junk off len fsize = .ok (clust, done) ∧
        OldClust c clsize (ccreg40Clstart off clsize) off len fsize clust done := by
  have hlt := h.size_lt
  have hat := clstart_at hcl (show off < two32 by omega)
  have hsize := hg.size
  have hstart : ccreg40Clstart (ccreg40Clstart off clsize) clsize = ccreg40Clstart off clsize :=
    clstart_start hcl hat.dvd (Nat.lt_of_le_of_lt hat.le (by omega))
  unfold oldClust
  dsimp only
  rw [show (plain clsize).clsize = clsize from rfl]
  obtain ⟨cs, hcs⟩ : ∃ cs, cs = ccreg40Clstart off clsize := ⟨_, rfl⟩
  rw [← hcs] at hat hsize hstart ⊢
  by_cases hbehind : fsize ≤ cs
  · rw [if_pos hbehind]
    refine ⟨_, _, rfl, .behind ?_ (fun i hi => if_pos hi) rfl⟩
    rcases hsize with rfl | ⟨-, hle⟩
    · exact hbehind
    · exact hle
  rw [if_neg hbehind]
  have heq : fsize = c.size := by
    rcases hsize with heq | ⟨hle, hle'⟩
    · exact heq
    · omega
  by_cases hread : off ≠ cs ∨ u64 (off + len) < min (cs + clsize) fsize
  · rw [if_pos hread]
    obtain ⟨stop, hstop⟩ : ∃ stop, stop = min (cs + clsize) fsize := ⟨_, rfl⟩
    have hle := hat.le
    have hpos := hat.pos
    have hclust := readClust_eq h hcl (show cs ≤ c.size by omega) (stop - cs)
    rw [hstart, ← heq, ← hstop, Nat.min_self] at hclust
    rw [← hstop, hclust]
    refine ⟨fun i => ((List.range (stop - cs)).map fun i => c.byte (cs + i)).getD i (junk i), stop - cs, ?_,
      .old heq (by omega) (fun i hi => ?_) (by omega)⟩
    · show (if ((List.range (stop - cs)).map fun i => c.byte (cs + i)).length ≠ stop - cs then _ else _) = _
      rw [if_neg (by simp), List.length_map, List.length_range]
    · rw [List.getD_eq_getElem?_getD, List.getElem?_map, List.getElem?_range hi]
      rfl
  · rw [if_neg hread]
    have h64 : u64 (off + len) = off + len := Nat.mod_eq_of_lt (by unfold two32 at hlen; omega)
    rw [h64] at hread
    exact ⟨_, _, rfl, .rewritten heq (by omega) (by omega) (by omega) rfl⟩

/-- The part of a write that goes to the first cluster. -/
def firstPart (clsize off len : Nat) : Nat := min len (ccreg40Clstart off clsize + clsize - off)

/-- The count of the code, which subtracts in 64 bits. -/
theorem count_eq {off len cstop : Nat} (hlt : off < cstop) (hlen : off + len < two32) :
    sub64 (min cstop (off + len)) off = min len (cstop - off) := by
  have h32 : two32 = 4294967296 := rfl
  have hmin : min cstop (off + len) = off + min len (cstop - off) := by
    rcases Nat.le_total cstop (off + len) with hle | hle
    · rw [Nat.min_eq_left hle, Nat.min_eq_right (by omega)]
      omega
    · rw [Nat.min_eq_right hle, Nat.min_eq_left (by omega)]
  have hn : min len (cstop - off) ≤ len := Nat.min_le_left _ _
  have hoff : u64 off = off := Nat.mod_eq_of_lt (by omega)
  have hsub : off + min len (cstop - off) + (18446744073709551616 - off) =
      min len (cstop - off) + 18446744073709551616 := by omega
  unfold sub64
  rw [hmin, hoff, hsub]
  unfold u64
  rw [Nat.add_mod_right]
  exact Nat.mod_eq_of_lt (by omega)

/-- How far the cluster is written: as far as the file then goes, or to the end of the cluster. -/
structure Reaches (c : Content) (cs clsize off n stop : Nat) : Prop where
  new_le : off + n ≤ stop
  le_size : stop ≤ max c.size (off + n)
  whole : stop = max c.size (off + n) ∨ (stop = cs + clsize ∧ cs + clsize ≤ c.size)

theorem OldClust.reaches {cs off len fsize n : Nat} {clust : Nat → UInt8} {done : Nat}
    (h : OldClust c clsize cs off len fsize clust done) (hle : cs ≤ off) (hn : n = min len (cs + clsize - off))
    (hend : off < cs + clsize) : Reaches c cs clsize off n (max (cs + done) (off + n)) := by
  have hfirst : off + n ≤ cs + clsize := by
    have : n ≤ cs + clsize - off := hn ▸ Nat.min_le_right _ _
    omega
  cases h with
  | behind size zero done_eq =>
    subst done_eq
    have hmax : max (cs + 0) (off + n) = off + n := Nat.max_eq_right (by omega)
    have hsize : max c.size (off + n) = off + n := Nat.max_eq_right (by omega)
    rw [hmax]
    exact ⟨Nat.le_refl _, Nat.le_of_eq hsize.symm, Or.inl hsize.symm⟩
  | old size lt bytes done_eq =>
    rw [done_eq, size]
    rcases Nat.le_total (cs + clsize) c.size with hcase | hcase
    · rw [Nat.min_eq_left hcase, Nat.max_eq_left hfirst]
      exact ⟨hfirst, Nat.le_trans hcase (Nat.le_max_left _ _), Or.inr ⟨rfl, hcase⟩⟩
    · rw [Nat.min_eq_right hcase]
      exact ⟨Nat.le_max_right _ _, Nat.le_refl _, Or.inl rfl⟩
  | rewritten size lt start covers done_eq =>
    subst done_eq start
    have hmax : max (off + 0) (off + n) = off + n := Nat.max_eq_right (by omega)
    rw [hmax]
    refine ⟨Nat.le_refl _, Nat.le_max_right _ _, ?_⟩
    rw [Nat.add_sub_cancel_left] at hn
    rw [size] at covers
    rcases Nat.le_total clsize len with hcase | hcase
    · -- The whole cluster.
      rw [Nat.min_eq_right hcase] at hn
      rw [hn]
      rcases Nat.le_total (off + clsize) c.size with hsize | hsize
      · exact Or.inr ⟨rfl, hsize⟩
      · exact Or.inl (Nat.max_eq_right hsize).symm
    · rw [Nat.min_eq_left hcase] at hn
      rw [hn]
      rcases Nat.le_total (off + clsize) c.size with hsize | hsize
      · rw [Nat.min_eq_left hsize] at covers
        have heq : off + len = off + clsize := by omega
        exact Or.inr ⟨heq, hsize⟩
      · rw [Nat.min_eq_right hsize] at covers
        exact Or.inl (Nat.max_eq_right covers).symm

theorem write_byte_in {off n x : Nat} {data : List UInt8} (hn : n ≤ data.length) (hx : off ≤ x ∧ x < off + n) :
    (c.write off (data.take n)).byte x = data.getD (x - off) 0 := by
  have hlen : (data.take n).length = n := by
    rw [List.length_take]
    exact Nat.min_eq_left hn
  unfold Content.write
  dsimp only
  rw [hlen, if_pos hx, List.getD_eq_getElem?_getD, List.getD_eq_getElem?_getD, List.getElem?_take, if_pos (by omega)]

theorem write_byte_out {off n x : Nat} {data : List UInt8} (hn : n ≤ data.length) (hx : ¬(off ≤ x ∧ x < off + n)) :
    (c.write off (data.take n)).byte x = c.byte x := by
  have hlen : (data.take n).length = n := by
    rw [List.length_take]
    exact Nat.min_eq_left hn
  unfold Content.write
  dsimp only
  rw [hlen, if_neg hx]

theorem write_size {off n : Nat} {data : List UInt8} (hn : n ≤ data.length) :
    (c.write off (data.take n)).size = max c.size (off + n) := by
  unfold Content.write
  rw [List.length_take, Nat.min_eq_left hn]

/-- The buffer holds the new content, as far as it is written. -/
theorem newClust_byte (h : Holds clsize items c) {cs off len fsize n : Nat} {clust : Nat → UInt8} {done : Nat}
    {data : List UInt8} (hold : OldClust c clsize cs off len fsize clust done) (hn : n ≤ data.length) (hle : cs ≤ off)
    (hend : off < cs + clsize) (hgap : off ≤ c.size ∨ c.size ≤ cs) {i : Nat} (hi : cs + i < max (cs + done) (off + n)) :
    newClust clust data (off - cs) n i = (c.write off (data.take n)).byte (cs + i) := by
  unfold newClust
  by_cases hin : off - cs ≤ i ∧ i < off - cs + n
  · rw [if_pos hin, write_byte_in hn (by omega), show cs + i - off = i - (off - cs) by omega]
  rw [if_neg hin, write_byte_out hn (by omega)]
  cases hold with
  | behind size zero done_eq =>
    have hstop := h.stop_le
    rw [zero i (by omega), h.byte_zero (by omega)]
  | old size lt bytes done_eq =>
    refine bytes i ?_
    rcases Nat.lt_or_ge (cs + i) (cs + done) with hlt | hge
    · omega
    · -- In front of the new bytes, which begin in the file.
      have hfront : cs + i < off := by omega
      omega
  | rewritten size lt start covers done_eq => omega

/-- The items behind the write of a cluster. -/
theorem flowWrite_holds (h : Holds clsize items c) {cs off n stop : Nat} {data : List UInt8} {buf : Nat → UInt8}
    (hjoins : Joins items cs) (hn : n ≤ data.length) (hcs : clsize ∣ cs) (hle : cs ≤ off) (hr : Reaches c cs clsize off n stop) (hpos : cs < stop)
    (hlt : off + n < two32) (hbuf : ∀ i, cs + i < stop → buf i = (c.write off (data.take n)).byte (cs + i)) :
    Holds clsize (flowWrite items cs ((List.range (stop - cs)).map buf)) (c.write off (data.take n)) := by
  have hlen : ((List.range (stop - cs)).map buf).length = stop - cs := by
    rw [List.length_map, List.length_range]
  have hne : (List.range (stop - cs)).map buf ≠ [] := by
    refine List.ne_nil_of_length_pos ?_
    rw [hlen]
    omega
  have hend : cs + (stop - cs) = stop := by omega
  have hstops := stopOf_flowWrite h.sorted hne hjoins
  rw [hlen, hend] at hstops
  have hstop := h.stop_le
  constructor
  · exact h.sorted.flowWrite _ (Nat.zero_le _) fun _ => hjoins
  · rw [write_size hn]
    exact Nat.max_lt.mpr ⟨h.size_lt, hlt⟩
  · rw [write_size hn, hstops]
    exact Nat.max_le.mpr ⟨Nat.le_trans hstop (Nat.le_max_left _ _), hr.le_size⟩
  · -- The items reach the size again, or the end of this cluster, or they go on as before.
    rw [write_size hn, hstops]
    rcases hr.whole with heq | ⟨heq, hsize⟩
    · rw [heq]
      exact Or.inl (Nat.max_eq_right (Nat.le_trans hstop (Nat.le_max_left _ _)))
    have hnew := hr.new_le
    have hsame : max c.size (off + n) = c.size := Nat.max_eq_left (by omega)
    rw [hsame]
    rcases Nat.le_total (stopOf items) stop with hcase | hcase
    · rw [Nat.max_eq_right hcase, heq]
      exact Or.inr ((Nat.dvd_add_right hcs).mpr (Nat.dvd_refl _))
    · rw [Nat.max_eq_left hcase]
      exact h.whole
  · intro x
    rw [byteAt_flowWrite h.sorted _ x fun _ => hjoins, hlen, hend]
    by_cases hin : cs ≤ x ∧ x < stop
    · rw [if_pos hin, List.getElem?_map, List.getElem?_range (by omega), Option.map_some, Option.getD_some,
        hbuf _ (by omega), show cs + (x - cs) = x by omega]
    · have hnew := hr.new_le
      rw [if_neg hin, h.byte, write_byte_out hn (by omega)]

/-- Behind its new bytes the next write joins. -/
theorem flowWrite_joins (h : Holds clsize items c) {cs off n stop : Nat} {buf : Nat → UInt8} (hjoins : Joins items cs)
    (hle : cs ≤ off) (hn : 0 < n) (hstop : off + n ≤ stop) :
    Joins (flowWrite items cs ((List.range (stop - cs)).map buf)) (off + n) := by
  have hlen : ((List.range (stop - cs)).map buf).length = stop - cs := by
    rw [List.length_map, List.length_range]
  have hbyte : byteAt (flowWrite items cs ((List.range (stop - cs)).map buf)) (off + n - 1) ≠ none := by
    rw [byteAt_flowWrite h.sorted _ _ fun _ => hjoins, hlen, if_pos (by omega), List.getElem?_map,
      List.getElem?_range (by omega)]
    exact Option.some_ne_none _
  have hbehind := joins_behind hbyte
  rw [show off + n - 1 + 1 = off + n by omega] at hbehind
  exact hbehind

theorem copyClust_run {clust : Nat → UInt8} {done : Nat} {data : List UInt8} {off cs n : Nat}
    (hroom : ¬(data.length < n ∨ buffSize < off - cs + n)) (hlast : u64 (off + n) = off + n) :
    (copyClust (plain clsize) clust done data off cs n).run items = some (.ok n, flowWrite items cs
      ((List.range (max (cs + done) (off + n) - cs)).map (newClust clust data (off - cs) n))) := by
  unfold copyClust
  rw [if_neg hroom, hlast]
  rfl

theorem writeClust_eq {ps : Pset} {junk clust : Nat → UInt8} {data : List UInt8} {off fsize done : Nat}
    (hold : oldClust ps items junk off data.length fsize = .ok (clust, done)) :
    (ccreg40WriteClust ps junk data off fsize).run items =
      (copyClust ps clust done data off (ccreg40Clstart off ps.clsize)
        (sub64 (min (ccreg40Clstart off ps.clsize + ps.clsize) (u64 (off + data.length))) off)).run items := by
  unfold ccreg40WriteClust
  dsimp only
  rw [hold]

/-- **One cluster is written**: the first bytes of the write go to it. -/
theorem writeClust_holds (h : Holds clsize items c) (hcl : clsize ∈ clusterSizes) (junk : Nat → UInt8) {off fsize : Nat}
    {data : List UInt8} (hne : data ≠ []) (hlen : off + data.length < two32) (hg : Going clsize c off fsize)
    (hjoins : Joins items (ccreg40Clstart off clsize)) : ∃ items',
      (ccreg40WriteClust (plain clsize) junk data off fsize).run items =
        some (.ok (firstPart clsize off data.length), items') ∧
      Holds clsize items' (c.write off (data.take (firstPart clsize off data.length))) ∧
      Joins items' (off + firstPart clsize off data.length) := by
  have hat := clstart_at hcl (show off < two32 by omega)
  have hgap := hg.no_gap
  obtain ⟨clust, done, hold, hspec⟩ := oldClust_spec h hcl junk hlen hg
  clear hg
  unfold firstPart
  obtain ⟨cs, hcs⟩ : ∃ cs, cs = ccreg40Clstart off clsize := ⟨_, rfl⟩
  rw [← hcs] at hat hgap hspec hjoins ⊢
  have hle := hat.le
  have hend := hat.lt
  obtain ⟨n, hn⟩ : ∃ n, n = min data.length (cs + clsize - off) := ⟨_, rfl⟩
  have hn_le : n ≤ data.length := hn ▸ Nat.min_le_left _ _
  have hn_end : n ≤ cs + clsize - off := hn ▸ Nat.min_le_right _ _
  have hn_pos : 0 < n := by
    have hpos := List.length_pos_iff.mpr hne
    rw [hn]
    exact Nat.lt_min.mpr ⟨hpos, by omega⟩
  have hr := hspec.reaches hle hn hend
  have hbuf : ∀ i, cs + i < max (cs + done) (off + n) →
      newClust clust data (off - cs) n i = (c.write off (data.take n)).byte (cs + i) :=
    fun i hi => newClust_byte h hspec hn_le hle hend hgap hi
  have hnew := hr.new_le
  refine ⟨flowWrite items cs ((List.range (max (cs + done) (off + n) - cs)).map (newClust clust data (off - cs) n)), ?_,
    ?_, ?_⟩
  · -- The numbers of the code.
    have h32 : two32 = 4294967296 := rfl
    have hsum : u64 (off + data.length) = off + data.length := Nat.mod_eq_of_lt (by omega)
    have hlast : u64 (off + n) = off + n := Nat.mod_eq_of_lt (by omega)
    have hroom : ¬(data.length < n ∨ buffSize < off - cs + n) := by
      have := hat.small
      unfold buffSize
      omega
    have hrun := writeClust_eq hold
    rw [show (plain clsize).clsize = clsize from rfl, ← hcs, hsum, count_eq hend hlen, ← hn] at hrun
    rw [hrun, ← hn]
    exact copyClust_run hroom hlast
  · rw [← hn]
    exact flowWrite_holds h hjoins hn_le hat.dvd hle hr (by omega) (by omega) hbuf
  · rw [← hn]
    exact flowWrite_joins h hjoins hle hn_pos hnew

end Writing

/-! ## A write -/

section Loop

variable {clsize : Nat} {items : List Piece} {c : Content}

/-- A write is its first bytes and then the others. -/
theorem Content.write_split (c : Content) (off : Nat) (data : List UInt8) {n : Nat} (hn : n ≤ data.length) :
    (c.write off (data.take n)).write (off + n) (data.drop n) = c.write off data := by
  have htake : (data.take n).length = n := by
    rw [List.length_take]
    exact Nat.min_eq_left hn
  have hdrop : (data.drop n).length = data.length - n := List.length_drop
  have hsum : off + n + (data.length - n) = off + data.length := by omega
  unfold Content.write
  rw [htake, hdrop, hsum]
  refine congrArg₂ Content.mk ?_ (funext fun x => ?_)
  · rw [Nat.max_assoc]
    exact congrArg (max c.size) (Nat.max_eq_right (by omega))
  · dsimp only
    by_cases hrest : off + n ≤ x ∧ x < off + data.length
    · rw [if_pos hrest, if_pos (by omega), List.getD_eq_getElem?_getD, List.getD_eq_getElem?_getD, List.getElem?_drop,
        show n + (x - (off + n)) = x - off by omega]
    · rw [if_neg hrest]
      by_cases hin : off ≤ x ∧ x < off + n
      · rw [if_pos hin, if_pos (by omega), List.getD_eq_getElem?_getD, List.getD_eq_getElem?_getD, List.getElem?_take,
          if_pos (by omega)]
      · rw [if_neg hin, if_neg (by omega)]

/-- Behind the first cluster a write goes on at the start of the next. -/
theorem clstart_next {off : Nat} {data : List UInt8} (hcl : clsize ∈ clusterSizes) (hlen : off + data.length < two32)
    (hmore : firstPart clsize off data.length < data.length) :
    ccreg40Clstart (off + firstPart clsize off data.length) clsize = off + firstPart clsize off data.length := by
  have hat := clstart_at hcl (show off < two32 by omega)
  have hend := hat.lt
  have hle := hat.le
  have hfirst : firstPart clsize off data.length = ccreg40Clstart off clsize + clsize - off := by
    unfold firstPart at hmore ⊢
    exact Nat.min_eq_right (by omega)
  have hnext : off + firstPart clsize off data.length = ccreg40Clstart off clsize + clsize := by omega
  rw [hnext]
  exact clstart_start hcl ((Nat.dvd_add_right hat.dvd).mpr (Nat.dvd_refl _)) (by omega)

/-- There it can go on. -/
theorem Going.next {off fsize : Nat} {data : List UInt8} (hcl : clsize ∈ clusterSizes)
    (hlen : off + data.length < two32) (hg : Going clsize c off fsize)
    (hmore : firstPart clsize off data.length < data.length) :
    Going clsize (c.write off (data.take (firstPart clsize off data.length))) (off + firstPart clsize off data.length)
      fsize := by
  have hat := clstart_at hcl (show off < two32 by omega)
  have hend := hat.lt
  have hle := hat.le
  have hn_le : firstPart clsize off data.length ≤ data.length := Nat.le_of_lt hmore
  have hfirst : firstPart clsize off data.length = ccreg40Clstart off clsize + clsize - off := by
    unfold firstPart at hmore ⊢
    exact Nat.min_eq_right (by omega)
  have hnext : off + firstPart clsize off data.length = ccreg40Clstart off clsize + clsize := by omega
  have hstart := clstart_next hcl hlen hmore
  rw [hnext] at hstart
  constructor
  · rw [write_size hn_le, hnext, hstart]
    rcases Nat.le_total (ccreg40Clstart off clsize + clsize) c.size with hcase | hcase
    · rw [Nat.max_eq_left hcase]
      rcases hg.size with heq | ⟨-, hbehind⟩
      · exact Or.inl heq
      · have := hat.pos
        omega
    · rw [Nat.max_eq_right hcase]
      refine Or.inr ⟨?_, Nat.le_refl _⟩
      rcases hg.size with heq | ⟨hsize, -⟩
      · rw [heq]
        exact hcase
      · exact Nat.le_trans hsize hcase
  · rw [write_size hn_le]
    exact Or.inl (Nat.le_max_right _ _)

/-- **The loop writes the content.** -/
theorem writeLoop_holds (hcl : clsize ∈ clusterSizes) (junk : Nat → Nat → UInt8) {fsize : Nat} :
    ∀ {fuel off : Nat} {data : List UInt8} {items : List Piece} {c : Content}, data.length < fuel → data ≠ [] →
      off + data.length < two32 → Holds clsize items c → Going clsize c off fsize →
      Joins items (ccreg40Clstart off clsize) → ∃ items',
        (writeLoop (plain clsize) junk fsize fuel data off).run items = some (.ok (), items') ∧
          Holds clsize items' (c.write off data)
  | 0, _, _, _, _, hfuel, _, _, _, _, _ => by omega
  | fuel + 1, off, data, items, c, hfuel, hne, hlen, h, hg, hjoins => by
    have hat := clstart_at hcl (show off < two32 by omega)
    have hend := hat.lt
    have hpos := List.length_pos_iff.mpr hne
    obtain ⟨items1, hrun, h1, hjoins1⟩ := writeClust_holds h hcl (junk off) hne hlen hg hjoins
    obtain ⟨n, hn⟩ : ∃ n, n = firstPart clsize off data.length := ⟨_, rfl⟩
    have hmore : n < data.length → Going clsize (c.write off (data.take n)) (off + n) fsize := by
      rw [hn]
      exact hg.next hcl hlen
    have hn_le : n ≤ data.length := hn ▸ Nat.min_le_left _ _
    have hn_pos : 0 < n := by
      rw [hn]
      exact Nat.lt_min.mpr ⟨hpos, by omega⟩
    have hstart : n < data.length → ccreg40Clstart (off + n) clsize = off + n := by
      rw [hn]
      exact clstart_next hcl hlen
    rw [← hn] at hrun h1 hjoins1
    have hoff : u64 (off + n) = off + n := Nat.mod_eq_of_lt (by unfold two32 at hlen; omega)
    have hsplit := c.write_split off data hn_le
    rw [writeLoop, if_neg hne, Run.bind_of_ok hrun, hoff]
    by_cases hlast : data.drop n = []
    · refine ⟨items1, ?_, ?_⟩
      · cases fuel with
        | zero => omega
        | succ fuel =>
          rw [writeLoop, if_pos hlast]
          rfl
      · have hall : data.take n = data := List.take_of_length_le (List.drop_eq_nil_iff.mp hlast)
        rw [hall] at h1
        exact h1
    · have hlt : n < data.length := by
        have := List.length_pos_iff.mpr hlast
        rw [List.length_drop] at this
        omega
      have hdrop : (data.drop n).length = data.length - n := List.length_drop
      rw [← hsplit]
      refine writeLoop_holds hcl junk (by omega) hlast (by omega) h1 (hmore hlt) ?_
      rw [hstart hlt]
      exact hjoins1

/-- **A write**, of the kind the code is up to. -/
theorem write_holds (hcl : clsize ∈ clusterSizes) (junk : Nat → Nat → UInt8) {fuel off : Nat} {data : List UInt8}
    (hfuel : data.length < fuel) (h : Holds clsize items c) (hok : WriteOk clsize ⟨c.size, items⟩ off data.length) :
    ∃ items', (ccreg40Write (plain clsize) junk fuel off data).run ⟨c.size, items⟩ =
        some (.ok data.length, ⟨(c.write off data).size, items'⟩) ∧ Holds clsize items' (c.write off data) := by
  obtain ⟨hlt, hplace, hjoins⟩ := hok
  dsimp only at hlt hplace hjoins
  obtain ⟨hsize_lt, hlen⟩ := Nat.max_lt.mp hlt
  have hoff : u64 (off + data.length) = off + data.length := Nat.mod_eq_of_lt (by unfold two32 at hlen; omega)
  have hsize : (if off + data.length < c.size then c.size else c.size + (off + data.length - c.size)) =
      (c.write off data).size := by
    show _ = max c.size (off + data.length)
    split
    · next hlt' => exact (Nat.max_eq_left (Nat.le_of_lt hlt')).symm
    · next hge =>
      rw [Nat.max_eq_right (by omega)]
      omega
  obtain ⟨items', hrun, h'⟩ : ∃ items',
      (writeLoop (plain clsize) junk c.size fuel data off).run items = some (.ok (), items') ∧
        Holds clsize items' (c.write off data) := by
    by_cases hne : data = []
    · -- Nothing is written, but the size may grow.
      subst hne
      refine ⟨items, ?_, h.sorted, hlt, Nat.le_trans h.stop_le (Nat.le_max_left _ _), ?_, fun x => ?_⟩
      · cases fuel with
        | zero => cases hfuel
        | succ fuel => rfl
      · show stopOf items = max c.size off ∨ _
        rcases hplace with hle | hdvd
        · rw [Nat.max_eq_left hle]
          exact h.whole
        · exact Or.inr hdvd
      · rw [h.byte]
        exact (if_neg (by simp)).symm
    · have hlen0 : data.length ≠ 0 := fun hzero => hne (List.length_eq_zero_iff.mp hzero)
      rw [if_neg hlen0] at hplace
      exact writeLoop_holds hcl junk hfuel hne hlen h ⟨Or.inl rfl, hplace⟩ (hjoins.resolve_left hlen0)
  refine ⟨items', ?_, h'⟩
  rw [← hsize, ← hoff]
  unfold ccreg40Write
  show (match (writeLoop (plain clsize) junk c.size fuel data off).run items with
    | none => none
    | some (Except.error e, items) => some (Except.error e, CcFile.mk c.size items)
    | some (Except.ok (), items) => some (Except.ok data.length, CcFile.mk (if u64 (off + data.length) < c.size
        then c.size else c.size + (u64 (off + data.length) - c.size)) items)) = _
  rw [hrun]

end Loop

/-! ## Sequences of writes -/

/-- The content behind a sequence of writes. -/
def Content.writes (c : Content) (ws : List (Nat × List UInt8)) : Content := ws.foldl (fun c w => c.write w.1 w.2) c

theorem writes_holds {clsize : Nat} (hcl : clsize ∈ clusterSizes) (junk : Nat → Nat → UInt8) {fuel : Nat} :
    ∀ {ws : List (Nat × List UInt8)} {items : List Piece} {c : Content}, (∀ w ∈ ws, w.2.length < fuel) →
      Holds clsize items c → WritesOk clsize junk fuel ws ⟨c.size, items⟩ → ∃ items',
        (ccreg40Writes clsize junk fuel ws).run ⟨c.size, items⟩ = some (.ok (), ⟨(c.writes ws).size, items'⟩) ∧
          Holds clsize items' (c.writes ws)
  | [], items, _, _, h, _ => ⟨items, rfl, h⟩
  | w :: ws, items, c, hfuel, h, hok => by
    obtain ⟨items1, hrun, h1⟩ := write_holds hcl junk (hfuel w (List.mem_cons_self ..)) h hok.1
    obtain ⟨items', hruns, h'⟩ := writes_holds hcl junk (fun w' hw' => hfuel w' (List.mem_cons_of_mem _ hw')) h1
      (hok.2 _ _ hrun)
    refine ⟨items', ?_, h'⟩
    unfold ccreg40Writes at hruns ⊢
    rw [Run.forEach, Run.bind_of_ok (Run.bind_ok.mpr ⟨_, _, hrun, rfl⟩)]
    exact hruns

/-- **Any sequence of writes**, each of the kind the code is up to: the file reads as the last bytes written, with zeros
    where nothing was, up to the largest end of a write. -/
theorem ccreg40_runs {clsize : Nat} (hcl : clsize ∈ clusterSizes) (junk : Nat → Nat → UInt8) {fuel : Nat}
    {ws : List (Nat × List UInt8)} (hfuel : ∀ w ∈ ws, w.2.length < fuel) (hok : WritesOk clsize junk fuel ws ⟨0, []⟩) :
    ∃ f, (ccreg40Writes clsize junk fuel ws).run ⟨0, []⟩ = some (.ok (), f) ∧
      Shows clsize f (Content.empty.writes ws) := by
  have hempty : Holds clsize [] Content.empty := by
    constructor
    · trivial
    · show 0 < two32
      decide
    · exact Nat.le_refl _
    · exact Or.inl rfl
    · exact fun x => rfl
  obtain ⟨items, hrun, h⟩ := writes_holds hcl junk hfuel hempty hok
  exact ⟨_, hrun, h.shows hcl⟩

/-- Two writes that join: a byte at the start, and three more behind it. -/
theorem ccreg40_runs_two : ∃ f,
    (ccreg40Writes 4096 (fun _ _ => 0xAA) 10 [(0, [1]), (1, [2, 3, 4])]).run ⟨0, []⟩ = some (.ok (), f) ∧
      Shows 4096 f (Content.empty.writes [(0, [1]), (1, [2, 3, 4])]) := by
  have hrun : (ccreg40Write (plain 4096) (fun _ _ => 0xAA) 10 0 [1]).run ⟨0, []⟩ = some (.ok 1, ⟨1, [⟨0, [1]⟩]⟩) := by
    rfl
  refine ccreg40_runs (by decide) _ (by decide)
    ⟨⟨by decide, Or.inl (by decide), Or.inr (by decide)⟩, fun n f' h => ⟨?_, fun _ _ _ => trivial⟩⟩
  rw [hrun] at h
  obtain ⟨-, rfl⟩ := Prod.mk.inj (Option.some.inj h)
  exact ⟨by decide, Or.inl (by decide), Or.inr (by decide)⟩

/-- A byte at the start and one at offset 3: the two bytes between them are what the buffer held.  A byte at the start
    and one in the next cluster: the second one is written behind the first, and the cluster cannot be read. -/
theorem ccreg40_gap :
    (∃ f, (ccreg40Writes 4096 (fun _ _ => 0xAA) 10 [(0, [1]), (3, [2])]).run ⟨0, []⟩ = some (.ok (), f) ∧
      ccreg40Read (plain 4096) 10 f 0 4 = some (.ok [1, 0xAA, 0xAA, 2]) ∧
      ¬Shows 4096 f (Content.empty.writes [(0, [1]), (3, [2])])) ∧
    ∃ f, (ccreg40Writes 4096 (fun _ _ => 0xAA) 10 [(0, [1]), (4096, [2])]).run ⟨0, []⟩ = some (.ok (), f) ∧
      f.items = [⟨0, [1, 2]⟩] ∧ ccreg40Read (plain 4096) 10 f 0 4 = some (.error .einval) ∧
      ¬Shows 4096 f (Content.empty.writes [(0, [1]), (4096, [2])]) := by
  refine ⟨⟨⟨4, [⟨0, [1, 0xAA, 0xAA, 2]⟩]⟩, rfl, rfl, fun h => ?_⟩,
    ⟨4097, [⟨0, [1, 2]⟩]⟩, rfl, rfl, rfl, fun h => ?_⟩
  · have hread := h.2 10 0 4 (by decide)
    rw [show ccreg40Read (plain 4096) 10 ⟨4, [⟨0, [1, 0xAA, 0xAA, 2]⟩]⟩ 0 4 = some (.ok [1, 0xAA, 0xAA, 2]) from rfl] at hread
    exact absurd hread (by decide +kernel)
  · have hread := h.2 10 0 4 (by decide)
    rw [show ccreg40Read (plain 4096) 10 ⟨4097, [⟨0, [1, 2]⟩]⟩ 0 4 = some (.error .einval) from rfl] at hread
    cases hread

end Reiser4.Ccreg40
