/-
  Writing the allocator's bitmap and opening it again (`alloc40_sync`, `alloc40_open`, `alloc40_valid`).

    1. `sync_run`          `alloc40_sync` writes the block of each piece;
    2. `open_run`          `alloc40_open` gathers the pieces;
    3. `alloc40RoundTrips_iff`   when the bitmap that is opened is the one that was written.

  Where it is not, the byte count of the bitmap does not fit its 32 bits.
-/
import Reiser4.Alloc40.Alloc

namespace Reiser4.Alloc40

open Reiser4.Lib

/-! ## Pieces -/

theorem piece_eq (a : Alloc) (start : Nat) :
    a.piece start = start / blocksPerBitmap a.blksize := by
  unfold Alloc.piece Alloc.mapsize blocksPerBitmap
  rw [Nat.div_div_eq_div_mul]

/-- The bytes of the map in the piece of a bitmap block. -/
theorem mem_chunk {a : Alloc} {start j : Nat} (hroom : 0 < a.mapsize)
    (hcur : a.current start ≤ a.bitmap.size) :
    (a.current start ≤ j ∧ j < a.current start + a.chunk start) ↔
      j / a.mapsize = a.piece start ∧ j < a.bitmap.size := by
  unfold Alloc.chunk
  have hdiv : j / a.mapsize = a.piece start ↔
      a.current start ≤ j ∧ j < a.current start + a.mapsize := by
    unfold Alloc.current
    rw [Nat.div_eq_iff hroom, Nat.mul_comm]
    omega
  rw [hdiv]
  split
  · omega
  · omega

/-- The place of a byte in its piece. -/
theorem sub_current {a : Alloc} {start j : Nat} (hj : j / a.mapsize = a.piece start) :
    j - a.current start = j % a.mapsize := by
  unfold Alloc.current
  rw [← hj, Nat.mod_eq_sub_mul_div]

/-- A block of the file system has its piece in the map. -/
theorem current_lt {a : Alloc} (hs : a.bitmap.Sized) {start : Nat} (h : start < a.bitmap.total) :
    a.current start < a.bitmap.size := by
  have h1 := hs.room h
  have h2 : a.current start ≤ start / 8 := by
    unfold Alloc.current Alloc.piece
    rw [Nat.div_div_eq_div_mul, Nat.mul_comm a.mapsize 8, ← Nat.div_div_eq_div_mul, Nat.mul_comm]
    exact Nat.div_mul_le_self _ _
  omega

/-- The checksum depends on the bytes of the piece alone. -/
theorem adlerOf_congr (adler32 : List UInt8 → UInt32) {a a' : Alloc} {start : Nat}
    (hblksize : a'.blksize = a.blksize) (hsize : a'.bitmap.size = a.bitmap.size)
    (hroom : 0 < a.mapsize) (hcur : a.current start ≤ a.bitmap.size)
    (hmap : ∀ j, j / a.mapsize = a.piece start → j < a.bitmap.size →
      a'.bitmap.map j = a.bitmap.map j) :
    a'.adlerOf adler32 start = a.adlerOf adler32 start := by
  have hms : a'.mapsize = a.mapsize := by
    unfold Alloc.mapsize
    rw [hblksize]
  have hc : a'.current start = a.current start := by
    unfold Alloc.current Alloc.piece
    rw [hms]
  have hchunk : a'.chunk start = a.chunk start := by
    unfold Alloc.chunk
    rw [hms, hc, hsize]
  have hin : ∀ j, a.current start ≤ j → j < a.current start + a.chunk start →
      a'.bitmap.map j = a.bitmap.map j := by
    intro j h1 h2
    obtain ⟨h3, h4⟩ := (mem_chunk hroom hcur).mp ⟨h1, h2⟩
    exact hmap j h3 h4
  unfold Alloc.adlerOf
  rw [hms, hc, hchunk]
  have hfull : a'.bitmap.map.slice (a.current start) (a.chunk start) =
      a.bitmap.map.slice (a.current start) (a.chunk start) := by
    apply Bytes.slice_congr
    intro i hi
    exact hin _ (Nat.le_add_right _ _) (by omega)
  have hfake : ∀ fake : Bytes, fake.copy 0 a'.bitmap.map (a.current start) (a.chunk start) =
      fake.copy 0 a.bitmap.map (a.current start) (a.chunk start) := by
    intro fake
    funext i
    unfold Bytes.copy
    split
    · next hi => exact hin _ (by omega) (by omega)
    · rfl
  simp only [hfull, hfake]

/-! ## Writing -/

theorem syncBlock_congr (adler32 : List UInt8 → UInt32) {a s : Alloc}
    (hblksize : s.blksize = a.blksize) (hbitmap : s.bitmap = a.bitmap) (start : Nat) :
    syncBlock adler32 s start = syncBlock adler32 a start := by
  obtain ⟨state, blksize, device, bitmap, crc⟩ := s
  subst hblksize hbitmap
  rfl

/-- The bytes of a written bitmap block: those of its piece of the map. -/
theorem syncBlock_map {adler32 : List UInt8 → UInt32} {a : Alloc} {start j : Nat}
    (hroom : 0 < a.mapsize) (hcur : a.current start ≤ a.bitmap.size)
    (hj : j / a.mapsize = a.piece start) (hsize : j < a.bitmap.size) :
    (syncBlock adler32 a start).data (crcSize + j % a.mapsize) = a.bitmap.map j := by
  obtain ⟨h1, h2⟩ := (mem_chunk hroom hcur).mpr ⟨hj, hsize⟩
  have hsub := sub_current hj
  unfold syncBlock crcSize
  dsimp only
  rw [Bytes.setLe_out _ _ _ _ _ (by omega), Bytes.copy_in _ _ _ _ _ _ (by omega) (by omega),
    ← hsub]
  congr 1
  omega

/-- The checksum in a written bitmap block. -/
theorem syncBlock_crc (adler32 : List UInt8 → UInt32) (a : Alloc) (start : Nat) :
    (syncBlock adler32 a start).data.getLe 4 0 = a.adlerOf adler32 start := by
  unfold syncBlock
  rw [Bytes.getLe_setLe_of_lt]
  unfold Alloc.adlerOf
  dsimp only
  split
  · exact UInt32.toNat_lt _
  · exact UInt32.toNat_lt _

/-- `alloc40_sync` writes every visited block. -/
theorem sync_run {adler32 : List UInt8 → UInt32} {a : Alloc} {blks : List Nat}
    {fuel : Nat} (hs : a.bitmap.Sized) (hv : visited fuel a.blksize a.bitmap.total = some blks)
    (hlt : ∀ b ∈ blks, b < a.bitmap.total)
    (hdev : ∀ b, b < a.bitmap.total → (a.device b).isSome) :
    ∃ a', (alloc40Sync adler32 fuel).run a = some (.ok (), a') ∧
      ∀ b ∈ blks, a'.device b = some (syncBlock adler32 a b).data := by
  obtain ⟨s, hrun, -, -, -, hdata⟩ := Run.forEach_inv (f := cbSyncBitmap adler32) (l := blks)
    (fun seen s => s.blksize = a.blksize ∧ s.bitmap = a.bitmap ∧
      (∀ b, (s.device b).isSome = (a.device b).isSome) ∧
      ∀ b ∈ seen, s.device b = some (syncBlock adler32 a b).data)
    (by
      rintro seen b rest s rfl ⟨hblksize, hbitmap, hsome, hseen⟩
      have hb : b < a.bitmap.total := hlt b (by simp)
      have hcur : s.current b ≤ s.bitmap.size := by
        have hroom : s.current b < s.bitmap.size :=
          current_lt (by rw [hbitmap]; exact hs) (by rw [hbitmap]; exact hb)
        omega
      have hwrite : aalBlockWrite s.device (syncBlock adler32 s b) = some fun n =>
          if n = b then some (syncBlock adler32 a b).data else s.device n := by
        have hnr : (syncBlock adler32 s b).nr = b := rfl
        have hb' := hdev b hb
        rw [← hsome b] at hb'
        unfold aalBlockWrite
        rw [hnr, if_pos hb', syncBlock_congr adler32 hblksize hbitmap]
      refine ⟨{ s with device := fun n =>
        if n = b then some (syncBlock adler32 a b).data else s.device n }, ?_, hblksize, hbitmap,
        ?_, ?_⟩
      · unfold cbSyncBitmap
        rw [Run.get_bind, if_pos hcur, hwrite]
        rfl
      · intro n
        show (if n = b then _ else _ : Option Bytes).isSome = _
        split
        · next hn =>
          rw [hn, hdev b hb]
          rfl
        · exact hsome n
      · intro c hc
        show (if c = b then _ else _ : Option Bytes) = _
        split
        · next hcb => rw [hcb]
        · next hcb =>
          rcases List.mem_append.mp hc with hc | hc
          · exact hseen c hc
          · exact absurd (List.mem_singleton.mp hc) hcb)
    (s := a) ⟨rfl, rfl, fun b => rfl, by simp⟩
  refine ⟨s.mkclean, ?_, hdata⟩
  unfold alloc40Sync
  rw [Run.get_bind, Run.bind_of_ok (alloc40Layout_of_forEach hv hrun)]
  rfl

/-! ## Opening -/

/-- What the fetched blocks `seen` have left in the allocator. -/
structure Fetched (blksize total : Nat) (device : Device) (seen : List Nat) (s : Alloc) : Prop where
  size : s.bitmap.size = (total + 7) / 8
  total : s.bitmap.total = total
  blksize : s.blksize = blksize
  piece : ∀ b ∈ seen, ∀ d, device b = some d → s.crc (s.piece b) = d.getLe 4 0 ∧
    ∀ j, j / s.mapsize = s.piece b → j < s.bitmap.size →
      s.bitmap.map j = d (crcSize + j % s.mapsize)

/-- `cb_fetch_bitmap` on a block whose piece is not yet there. -/
theorem fetch_step {blksize total : Nat} {device : Device} {seen : List Nat} {s : Alloc} {b : Nat}
    {d : Bytes} (h : Fetched blksize total device seen s) (hdev : s.device = device)
    (hroom : 0 < s.mapsize) (hs : s.bitmap.Sized) (hb : b < total) (hd : device b = some d)
    (hnew : ∀ c ∈ seen, s.piece c ≠ s.piece b) :
    ∃ s', (cbFetchBitmap b).run s = some (.ok (), s') ∧ s'.device = device ∧
      Fetched blksize total device (seen ++ [b]) s' := by
  have hcur : s.current b ≤ s.bitmap.size := by
    have hroom : s.current b < s.bitmap.size := current_lt hs (by rw [h.total]; exact hb)
    omega
  obtain ⟨s', hs'⟩ : ∃ s' : Alloc, s' = { s with
      bitmap := { s.bitmap with
        map := s.bitmap.map.copy (s.current b) d crcSize (s.chunk b) }
      crc := fun k => if k = s.piece b then d.getLe 4 0 else s.crc k } := ⟨_, rfl⟩
  have hms : s'.mapsize = s.mapsize := by rw [hs']; rfl
  have hpiece (c : Nat) : s'.piece c = s.piece c := by rw [hs']; rfl
  have hcrc (k : Nat) : s'.crc k = if k = s.piece b then d.getLe 4 0 else s.crc k := by rw [hs']
  -- A byte of this piece comes from the block, any other stays.
  have hmap_in : ∀ j, j / s.mapsize = s.piece b → j < s.bitmap.size →
      s'.bitmap.map j = d (crcSize + j % s.mapsize) := by
    intro j hj hsize
    obtain ⟨h1, h2⟩ := (mem_chunk hroom hcur).mpr ⟨hj, hsize⟩
    rw [hs']
    show Bytes.copy _ _ _ _ _ _ = _
    rw [Bytes.copy_in _ _ _ _ _ _ h1 h2, sub_current hj, Nat.add_comm]
  have hmap_out : ∀ j, j / s.mapsize ≠ s.piece b → s'.bitmap.map j = s.bitmap.map j := by
    intro j hj
    rw [hs']
    show Bytes.copy _ _ _ _ _ _ = _
    apply Bytes.copy_out
    by_contra hno
    exact hj ((mem_chunk hroom hcur).mp (by omega)).1
  have hsz : s'.bitmap.size = s.bitmap.size := by rw [hs']
  refine ⟨s', ?_, by rw [hs']; exact hdev, ?_, ?_, ?_, ?_⟩
  · have hload : aalBlockLoad s.device b = some { nr := b, data := d } := by
      unfold aalBlockLoad
      rw [hdev, hd]
      rfl
    unfold cbFetchBitmap
    rw [Run.get_bind, hload]
    dsimp only
    rw [if_pos hcur, hs']
    rfl
  · rw [hsz]
    exact h.size
  · rw [hs']
    exact h.total
  · rw [hs']
    exact h.blksize
  · intro c hc e he
    rw [hms, hpiece, hcrc, hsz]
    rcases List.mem_append.mp hc with hc | hc
    · obtain ⟨h1, h2⟩ := h.piece c hc e he
      rw [if_neg (hnew c hc)]
      refine ⟨h1, ?_⟩
      intro j hj hlt
      rw [hmap_out j (by rw [hj]; exact hnew c hc)]
      exact h2 j hj hlt
    · rw [List.mem_singleton.mp hc] at he ⊢
      rw [hd, Option.some.injEq] at he
      rw [if_pos rfl, ← he]
      exact ⟨rfl, hmap_in⟩

/-- `alloc40_open` gathers the pieces of all visited blocks, and counts the bits. -/
theorem open_run (aal : AalBits) {fuel blksize total : Nat} {device : Device} {blks : List Nat}
    (h : BlksizeOk blksize) (hfits : (total + 7) / 8 < two32)
    (hv : visited fuel blksize total = some blks) (hlt : ∀ b ∈ blks, b < total)
    (hdev : ∀ b ∈ blks, (device b).isSome) :
    ∃ a, alloc40Open aal fuel device blksize total = some (.ok a) ∧
      a.bitmap.WF aal ∧ Fetched blksize total device blks a := by
  have hsized := (bitmapCreate_wf aal hfits).sized
  have htotal : total < 34359738368 := hsized.total_lt
  have hnodup := (visits_mem h htotal (visited_visits hv)).1
  have hroom : 0 < blksize - crcSize := Nat.sub_pos_of_lt h.room
  obtain ⟨s, hrun, hsdev, hs⟩ := Run.forEach_inv (f := cbFetchBitmap) (l := blks)
    (fun seen s => s.device = device ∧ Fetched blksize total device seen s)
    (by
      rintro seen b rest s rfl ⟨hsdev, hs⟩
      have hms : s.mapsize = blksize - crcSize := by
        unfold Alloc.mapsize
        rw [hs.blksize]
      obtain ⟨d, hd⟩ := Option.isSome_iff_exists.mp (hdev b (by simp))
      apply fetch_step hs hsdev (by omega) ⟨?_, ?_⟩ (hlt b (by simp)) hd
      · intro c hc heq
        rw [piece_eq, piece_eq, hs.blksize] at heq
        have hcb : c = b := visits_piece_inj h htotal (visited_visits hv)
          (List.mem_append_left _ hc) (by simp) heq
        rw [hcb] at hc
        exact (List.nodup_append.mp hnodup).2.2 b hc b (by simp) rfl
      · rw [hs.size, hs.total]
      · rw [hs.size]
        exact hfits)
    (s := { state := 0, blksize, device, bitmap := reiser4BitmapCreate total, crc := fun _ => 0 })
    ⟨rfl, hsized.1, rfl, rfl, by simp⟩
  have hss : s.bitmap.Sized := ⟨by rw [hs.size, hs.total], by rw [hs.size]; exact hfits⟩
  refine ⟨{ s with bitmap := { s.bitmap with marked := s.bitmap.count aal } }, ?_,
    ⟨hss, rfl⟩, ⟨hs.size, hs.total, hs.blksize, hs.piece⟩⟩
  unfold alloc40Open
  dsimp only
  rw [alloc40Layout_of_forEach hv hrun]
  dsimp only
  rw [calcMarked_spec hss]
  rfl

/-- With a byte count that does not fit its field the bitmap cannot be opened. -/
theorem open_short (aal : AalBits) {blksize total : Nat} (htotal : total < 18446744073709551616)
    (hlong : two32 ≤ (total + 7) / 8) (fuel : Nat) (device : Device) (a : Alloc) :
    alloc40Open aal fuel device blksize total ≠ some (.ok a) := by
  -- No callback changes the length of the bitmap.
  have hkeep : Run.Keeps (fun s : Alloc => s.bitmap.total = total ∧ s.bitmap.size < two32)
      (alloc40Layout fuel blksize total cbFetchBitmap) := by
    apply layoutLoop_keeps
    intro b s r s' hI hrun
    unfold cbFetchBitmap at hrun
    rw [Run.get_bind] at hrun
    split at hrun
    · cases hrun
      exact hI
    · split at hrun
      · cases hrun
        exact hI
      · cases hrun
  intro hopen
  unfold alloc40Open at hopen
  dsimp only at hopen
  split at hopen
  · cases hopen
  · cases hopen
  · next a' hrun =>
    obtain ⟨ht, hsize⟩ := hkeep _ _ _ ⟨rfl, Nat.mod_lt _ (by decide)⟩ hrun
    rw [calcMarked_none (by rw [ht]; exact htotal)] at hopen
    · cases hopen
    · rw [ht]
      unfold two32 at hsize hlong
      omega

/-! ## The round trip -/

/-- The same blocks of the file system are occupied, and the counts agree. -/
structure SameState (aal : AalBits) (total : Nat) (a a' : Alloc) : Prop where
  occupied : ∀ b, b < total → ∃ t, alloc40Occupied aal a b 1 = some t ∧
    alloc40Occupied aal a' b 1 = some t
  used : alloc40Used a' = alloc40Used a
  free : alloc40Free a' = alloc40Free a

/-- The bitmap blocks of the second device hold the same bits for the blocks of the file system; what
    is stored behind the end, and the checksums, may differ. -/
def SameBits (o : BitOrder) (blksize total : Nat) (device device' : Device) : Prop :=
  ∀ blks, Visits blksize total blks → ∀ b ∈ blks, ∃ d', device' b = some d' ∧
    ∀ d, device b = some d → ∀ i, i < total →
      i / blocksPerBitmap blksize = b / blocksPerBitmap blksize →
        o.test (fun j => d' (crcSize + j)) (i % blocksPerBitmap blksize) =
          o.test (fun j => d (crcSize + j)) (i % blocksPerBitmap blksize)

/-- After any changes to a created allocator, what is written is what is opened: from the device it
    was written to, with the right checksums, and from any device with the same bits. -/
def RoundTrips (aal : AalBits) (adler32 : List UInt8 → UInt32) (blksize total : Nat) : Prop :=
  ∀ device : Device, (∀ b, b < total → (device b).isSome) →
    ∀ (ops : List (Op aal total)) (a : Alloc),
      applyAll ops (alloc40Create device blksize total) = some a →
      ∃ enough, ∀ fuel, enough ≤ fuel → ∃ synced opened : Alloc,
        (alloc40Sync adler32 fuel).run a = some (.ok (), synced) ∧
        alloc40Open aal fuel synced.device blksize total = some (.ok opened) ∧
        SameState aal total a opened ∧
        (alloc40Valid adler32 fuel).run opened = some (.ok (), opened) ∧
        ∀ device', SameBits aal.toBitOrder blksize total synced.device device' →
          ∃ opened', alloc40Open aal fuel device' blksize total = some (.ok opened') ∧
            SameState aal total a opened'

theorem sameState_of_has {aal : AalBits} {total : Nat} {a a' : Alloc} (h : a.bitmap.WF aal)
    (h' : a'.bitmap.WF aal) (ht : a.bitmap.total = total) (ht' : a'.bitmap.total = total)
    (hhas : ∀ i, i < total → a'.bitmap.has aal i = a.bitmap.has aal i) :
    SameState aal total a a' := by
  have hmarked : a'.bitmap.marked = a.bitmap.marked := by
    rw [h.marked, h'.marked]
    unfold Bitmap.count
    rw [ht, ht']
    apply List.countP_congr
    intro i hi
    rw [hhas i (List.mem_range.mp hi)]
  refine ⟨?_, hmarked, ?_⟩
  · intro b hb
    refine ⟨a.bitmap.has aal b, testRegion_marked_one h.sized b, ?_⟩
    rw [← hhas b hb]
    exact testRegion_marked_one h'.sized b
  · unfold alloc40Free reiser4BitmapCleared
    rw [hmarked, ht, ht']

/-- A bit of a piece, as a bit of the bitmap block that holds it. -/
theorem test_piece (o : BitOrder) (d : Bytes) (blksize i : Nat) :
    o.test (fun j => d (crcSize + j)) (i % blocksPerBitmap blksize) =
      (d (crcSize + i / 8 % (blksize - crcSize))).toBitVec.getLsbD (o.pos (i % 8)) := by
  unfold BitOrder.test blocksPerBitmap
  rw [Nat.mod_mul_left_div_self, Nat.mod_mul_left_mod]

/-- When the first bitmap block is in the first piece, the bits stored are the bits opened. -/
theorem open_same {aal : AalBits} {adler32 : List UInt8 → UInt32} {fuel blksize total : Nat}
    {blks : List Nat} {a : Alloc} {device device' : Device} (h : BlksizeOk blksize)
    (hwf : a.bitmap.WF aal) (ht : a.bitmap.total = total) (hblksize : a.blksize = blksize)
    (hv : visited fuel blksize total = some blks) (hlt : ∀ b ∈ blks, b < total)
    (hfirst : alloc40Blocknr blksize < blocksPerBitmap blksize)
    (hsync : ∀ b ∈ blks, device b = some (syncBlock adler32 a b).data)
    (hsame : SameBits aal.toBitOrder blksize total device device') :
    ∃ opened, alloc40Open aal fuel device' blksize total = some (.ok opened) ∧
      opened.bitmap.WF aal ∧ Fetched blksize total device' blks opened ∧
      SameState aal total a opened := by
  have hfits : (total + 7) / 8 < two32 := by
    rw [← ht, ← hwf.sized.1]
    exact hwf.sized.2
  have htotal : total < 34359738368 := by
    rw [← ht]
    exact hwf.sized.total_lt
  have hload : ∀ b ∈ blks, (device' b).isSome := by
    intro b hb
    obtain ⟨d', hd', -⟩ := hsame blks (visited_visits hv) b hb
    rw [hd']
    rfl
  obtain ⟨opened, hopen, hwf', hf⟩ := open_run aal h hfits hv hlt hload
  refine ⟨opened, hopen, hwf', hf, sameState_of_has hwf hwf' ht hf.total ?_⟩
  intro i hi
  obtain ⟨b, hb, hpiece⟩ := visits_covers h htotal (visited_visits hv) hfirst hi
  obtain ⟨d', hd', hbits⟩ := hsame blks (visited_visits hv) b hb
  have hbit := hbits _ (hsync b hb) i hi hpiece
  have hms : a.mapsize = blksize - crcSize := by
    unfold Alloc.mapsize
    rw [hblksize]
  have hms' : opened.mapsize = blksize - crcSize := by
    unfold Alloc.mapsize
    rw [hf.blksize]
  have hbyte : i / 8 / (blksize - crcSize) = b / blocksPerBitmap blksize := by
    rw [← hpiece, Nat.div_div_eq_div_mul, Nat.mul_comm]
    rfl
  have hcur : a.current b < a.bitmap.size := current_lt hwf.sized (by rw [ht]; exact hlt b hb)
  have hopened := (hf.piece b hb d' hd').2 (i / 8) (by
    rw [hms', hbyte, piece_eq, hf.blksize]) (hwf'.sized.room (by rw [hf.total]; exact hi))
  have hstored : (syncBlock adler32 a b).data (crcSize + i / 8 % a.mapsize) = a.bitmap.map (i / 8) :=
    syncBlock_map (by rw [hms]; exact Nat.sub_pos_of_lt h.room) (Nat.le_of_lt hcur)
      (by rw [hms, hbyte, piece_eq, hblksize]) (hwf.sized.room (by rw [ht]; exact hi))
  rw [test_piece, test_piece] at hbit
  rw [hms'] at hopened
  rw [hms] at hstored
  rw [Bitmap.has_of_lt (by rw [hf.total]; exact hi), Bitmap.has_of_lt (by rw [ht]; exact hi)]
  unfold BitOrder.test
  rw [hopened, hbit, hstored]

/-- `alloc40_valid` finds the checksums that were written. -/
theorem valid_run {aal : AalBits} {adler32 : List UInt8 → UInt32} {fuel blksize total : Nat}
    {blks : List Nat} {a opened : Alloc} {device : Device} (h : BlksizeOk blksize)
    (hs : a.bitmap.Sized) (ht : a.bitmap.total = total) (hblksize : a.blksize = blksize)
    (hv : visited fuel blksize total = some blks) (hlt : ∀ b ∈ blks, b < total)
    (hsync : ∀ b ∈ blks, device b = some (syncBlock adler32 a b).data)
    (hwf' : opened.bitmap.WF aal) (hf : Fetched blksize total device blks opened) :
    (alloc40Valid adler32 fuel).run opened = some (.ok (), opened) := by
  obtain ⟨s, hrun, rfl⟩ := Run.forEach_inv (f := cbValidBlock adler32) (l := blks)
    (fun _ s => s = opened)
    (by
      rintro seen b rest s hblks rfl
      have hb : b ∈ blks := by simp [hblks]
      have hms : a.mapsize = blksize - crcSize := by
        unfold Alloc.mapsize
        rw [hblksize]
      have hms' : s.mapsize = a.mapsize := by
        rw [hms]
        unfold Alloc.mapsize
        rw [hf.blksize]
      have hroom : 0 < a.mapsize := by
        rw [hms]
        exact Nat.sub_pos_of_lt h.room
      have hpiece : s.piece b = a.piece b := by
        unfold Alloc.piece
        rw [hms']
      have hsize : s.bitmap.size = a.bitmap.size := by
        rw [hf.size, hs.1, ht]
      have hcur : a.current b ≤ a.bitmap.size :=
        Nat.le_of_lt (current_lt hs (by rw [ht]; exact hlt b hb))
      have hcur' : s.current b ≤ s.bitmap.size :=
        Nat.le_of_lt (current_lt hwf'.sized (by rw [hf.total]; exact hlt b hb))
      obtain ⟨hcrc, hmap⟩ := hf.piece b hb _ (hsync b hb)
      have hadler : s.adlerOf adler32 b = a.adlerOf adler32 b := by
        apply adlerOf_congr adler32 (hf.blksize.trans hblksize.symm) hsize hroom hcur
        intro j hj hlt
        rw [hmap j (by rw [hms', hpiece]; exact hj) (by rw [hsize]; exact hlt), hms',
          syncBlock_map hroom hcur hj hlt]
      refine ⟨s, ?_, rfl⟩
      unfold cbValidBlock
      rw [Run.get_bind, if_pos hcur', if_neg]
      · rfl
      · rw [hcrc, syncBlock_crc, hadler]
        exact fun hno => hno rfl)
    (s := opened) rfl
  unfold alloc40Valid
  rw [Run.get_bind, hf.blksize, hf.total]
  exact alloc40Layout_of_forEach hv hrun

/-- When the byte count fits, the bitmap written is the bitmap opened. -/
theorem roundTrips_of {aal : AalBits} {adler32 : List UInt8 → UInt32} {blksize total : Nat}
    {blks : List Nat} (h : BlksizeOk blksize) (hpos : 0 < total) (hv : Visits blksize total blks)
    (hlt : ∀ b ∈ blks, b < total) (hfits : (total + 7) / 8 < two32) :
    RoundTrips aal adler32 blksize total := by
  have hfirst := first_lt_of_layout h hpos (bitmapCreate_wf aal hfits).sized.total_lt hv hlt
  intro device hdev ops a hops
  have hcreate : (alloc40Create device blksize total).WF aal blksize total device :=
    ⟨rfl, rfl, rfl, bitmapCreate_wf aal hfits⟩
  have ha := applyAll_wf ops hcreate hops
  obtain ⟨enough, henough⟩ := visits_iff.mp hv
  refine ⟨enough, ?_⟩
  intro fuel hle
  have hvis : visited fuel blksize total = some blks := layoutBlocks_mono henough hle
  have hvis' : visited fuel a.blksize a.bitmap.total = some blks := by
    rw [ha.blksize, ha.total]
    exact hvis
  obtain ⟨synced, hrun, hsync⟩ := @sync_run adler32 a blks fuel ha.bitmap.sized hvis'
    (by rw [ha.total]; exact hlt) (by rw [ha.total, ha.device]; exact hdev)
  have hself : SameBits aal.toBitOrder blksize total synced.device synced.device := by
    intro blks' hv' b hb
    rw [visits_unique hv' hv] at hb
    refine ⟨_, hsync b hb, ?_⟩
    intro d hd i hi hpiece
    rw [hsync b hb, Option.some.injEq] at hd
    rw [hd]
  obtain ⟨opened, hopen, hwf', hf, hsame⟩ :=
    open_same h ha.bitmap ha.total ha.blksize hvis hlt hfirst hsync hself
  refine ⟨synced, opened, hrun, hopen, hsame, ?_, ?_⟩
  · exact valid_run h ha.bitmap.sized ha.total ha.blksize hvis hlt hsync hwf' hf
  · intro device' hdevice'
    obtain ⟨opened', hopen', -, -, hsame'⟩ :=
      open_same h ha.bitmap ha.total ha.blksize hvis hlt hfirst hsync hdevice'
    exact ⟨opened', hopen', hsame'⟩

/-- **The allocator is opened as it was written if and only if** the byte count of the bitmap fits its
    32 bits. -/
theorem alloc40RoundTrips_iff (aal : AalBits) (adler32 : List UInt8 → UInt32) (blksize total : Nat)
    (h : BlksizeOk blksize) (hpos : 0 < total) (htotal : total < 18446744073709551616)
    (hlayout : ∃ blks, Visits blksize total blks ∧ ∀ b ∈ blks, b < total) :
    RoundTrips aal adler32 blksize total ↔ (total + 7) / 8 < two32 := by
  constructor
  · intro hrt
    by_contra hlong
    obtain ⟨enough, hrun⟩ := hrt (fun _ => some Bytes.zero) (fun b hb => rfl) [] _ rfl
    obtain ⟨synced, opened, -, ho, -⟩ := hrun enough (Nat.le_refl _)
    exact open_short aal htotal (Nat.le_of_not_lt hlong) _ _ _ ho
  · intro hfits
    obtain ⟨blks, hv, hlt⟩ := hlayout
    exact roundTrips_of h hpos hv hlt hfits

/-- 4 KiB blocks, on a file system of 128 TiB: the byte count of the bitmap is truncated to 0. -/
def longTotal : Nat := 34359738368

theorem longTotal_layout : ∃ blks, Visits 4096 longTotal blks ∧ ∀ b ∈ blks, b < longTotal := by
  obtain ⟨blks, hv, -, -, hlt⟩ : VisitsExactly 4096 longTotal :=
    visitsExactly_of blksizeOk_4096 (by decide) (by decide) (by decide) (by decide)
  exact ⟨blks, hv, hlt⟩

/-- A file system of 4 KiB blocks whose bitmap fits. -/
theorem alloc40RoundTrips_40000 : RoundTrips AalBits.plain (fun _ => 1) 4096 40000 := by
  refine (alloc40RoundTrips_iff AalBits.plain (fun _ => 1) 4096 40000 blksizeOk_4096 (by decide)
    (by decide) ?_).mpr (by decide)
  obtain ⟨blks, hv, -, -, hlt⟩ : VisitsExactly 4096 40000 :=
    visitsExactly_of blksizeOk_4096 (by decide) (by decide) (by decide) (by decide)
  exact ⟨blks, hv, hlt⟩

/-- The layout stays inside the file system of 128 TiB, but what is written cannot be opened. -/
theorem alloc40RoundTrips_long : (∃ blks, Visits 4096 longTotal blks ∧ ∀ b ∈ blks, b < longTotal) ∧
    ¬RoundTrips AalBits.plain (fun _ => 1) 4096 longTotal := by
  refine ⟨longTotal_layout, ?_⟩
  intro hrt
  obtain ⟨enough, hrun⟩ := hrt (fun _ => some Bytes.zero) (fun b hb => rfl) [] _ rfl
  obtain ⟨synced, opened, -, ho, -⟩ := hrun enough (Nat.le_refl _)
  exact open_short AalBits.plain (by decide) (by decide) _ _ _ ho

end Reiser4.Alloc40
