/-
  Packing the journal (`journal40_pack` of `journal40_repair.c`).

  Pack writes the journal header and footer to a stream, and then the blocks it gets to from the newest
  committed transaction: from a transaction header to its first log record and to the header before it,
  and from a log record to its wandered blocks, each block once and only blocks of the area.  From a log
  record it does not go to the next one.  In a very long area it can get to a block that is not in its map.

    1. `packRun_dfs`          the recursion is a depth-first search along `packLinks`;
    2. `journal40Pack_emits`  so what is emitted is what can be reached;
    3. `unpack_restores`      the emitted blocks, written over any other content, are the blocks of the
       packed device;
    4. `journal40Pack_complete_iff`   pack emits what a replay reads if and only if every later log
       record is linked to from elsewhere and every block that it gets to is in its map.
-/
import Reiser4.Journal40.Layout
import Reiser4.Journal40.Replay
import Reiser4.Lib.Search

namespace Reiser4.Journal40

open Reiser4.Lib

/-- What is written to the stream: the data of the journal header or footer, or a block with its sign
    and its number. -/
inductive PackItem
  | data (d : Bytes)
  | block (b : Block)

/-- The stream and the layout bitmap. -/
structure PackState where
  stream : List PackItem
  layout : Bitmap

/-- `aal_stream_write`. -/
def aalStreamWrite (item : PackItem) : Run PackState Errno Unit :=
  Run.modify fun s => { s with stream := s.stream ++ [item] }

/-- `journal40_block_pack`. -/
def journal40BlockPack (aal : AalBits) (j : Journal) (area : Area) : Nat → Nat → Run PackState Errno Unit
  | 0, _ => Run.hang
  | fuel + 1, blk =>
    if blk < area.start ∨ blk ≥ area.len then pure ()
    else do
      let s ← Run.get
      let met ← Run.lift (reiser4BitmapTest aal s.layout blk)
      if met then pure ()
      else do
        let layout ← Run.lift (reiser4BitmapMark aal s.layout blk)
        Run.modify fun s => { s with layout }
        match aalBlockLoad j.device blk with
        | none => Run.fail .eio
        | some block => do
          aalStreamWrite (.block block)
          (if block.data.memeq 0 txhMagic then do
              journal40BlockPack aal j area fuel (getThNextBlock block.data)
              journal40BlockPack aal j area fuel (getThPrevTx block.data)
            else pure ())
          (if block.data.memeq 0 lgrMagic then
              Run.forEach (journal40BlockPack aal j area fuel)
                ((lrEntries block.data (lrCapacity j.blksize) lrHeaderSize).map Prod.fst)
            else pure ())

/-- The body of `journal40_pack`, over the layout it allocates. -/
def packBody (aal : AalBits) (j : Journal) (area : Area) (fuel : Nat) : Run PackState Errno Unit := do
  aalStreamWrite (.data j.header.data)
  aalStreamWrite (.data j.footer.data)
  journal40BlockPack aal j area fuel (getJhLastCommited j.header.data)

/-- `journal40_pack`. -/
def journal40Pack (aal : AalBits) (j : Journal) (area : Area) (fuel : Nat) : Run (List PackItem) Errno Unit :=
  ⟨fun stream => ((packBody aal j area fuel).run { stream, layout := reiser4BitmapCreate area.len }).map
    fun r => (r.1, r.2.stream)⟩

/-- The blocks of a stream are written to a device (`repair_fs_block_unpack` and `aal_block_write`). -/
def unpackBlocks : Device → List PackItem → Option Device
  | dev, [] => some dev
  | dev, .data _ :: rest => unpackBlocks dev rest
  | dev, .block b :: rest => (aalBlockWrite dev b).bind fun dev => unpackBlocks dev rest

/-- `journal40_unpack` on another copy of the file system, whose journal is `copy` but for what the
    stream holds: the stream starts with the header and the footer. -/
def journal40Unpack (copy : Journal) : List PackItem → Option Journal
  | .data header :: .data footer :: rest =>
    (unpackBlocks copy.device rest).map fun dev => { copy with
      device := dev
      header := { copy.header with data := header }
      footer := { copy.footer with data := footer } }
  | _ => none

/-! ## The recursion as a search -/

/-- The blocks pack goes to from a block. -/
def packLinks (dev : Device) (blksize blk : Nat) : List Nat :=
  match dev blk with
  | none => []
  | some d =>
    (if d.memeq 0 txhMagic then [getThNextBlock d, getThPrevTx d] else []) ++
      if d.memeq 0 lgrMagic then (lrEntries d (lrCapacity blksize) lrHeaderSize).map Prod.fst else []

/-- The block is one of the area. -/
def Area.has (area : Area) (blk : Nat) : Bool := decide (area.start ≤ blk ∧ blk < area.len)

/-- The item a block is packed as. -/
def packItem (dev : Device) (blk : Nat) : PackItem :=
  .block { nr := blk, data := (dev blk).getD Bytes.zero }

/-- Every block of the area can be read. -/
def Area.Served (area : Area) (dev : Device) : Prop := ∀ b, area.has b = true → (dev b).isSome

section Search

variable {aal : AalBits} {j : Journal} {area : Area}

/-- The state after the blocks `seen` were packed. -/
structure Packed (aal : AalBits) (area : Area) (dev : Device) (stream : List PackItem) (seen : List Nat)
    (s : PackState) : Prop where
  stream : s.stream = stream ++ seen.map (packItem dev)
  layout : Layout aal area (fun b => b ∈ seen) s.layout

/-- The run that corresponds to a search: it packs what the search visits, or leaves the map at one of these
    blocks. -/
def PackedRun (aal : AalBits) (area : Area) (dev : Device) (stream : List PackItem) :
    Option (List Nat) → Option (Except Errno Unit × PackState) → Prop
  | none, r => r = none
  | some seen, r => (∃ s, r = some (.ok (), s) ∧ Packed aal area dev stream seen s) ∨
    (r = none ∧ ∃ b ∈ seen, ¬area.Maps b)

theorem packedRun_bind {x : Run PackState Errno Unit} {f : Unit → Run PackState Errno Unit}
    {s : PackState} {stream : List PackItem} {o : Option (List Nat)} {g : List Nat → Option (List Nat)}
    (hx : PackedRun aal area j.device stream o (x.run s))
    (hf : ∀ seen s, Packed aal area j.device stream seen s →
      PackedRun aal area j.device stream (g seen) ((f ()).run s))
    (hgrows : ∀ seen seen', g seen = some seen' → ∀ b ∈ seen, b ∈ seen') :
    PackedRun aal area j.device stream (o.bind g) ((x >>= f).run s) := by
  cases o with
  | none =>
    rw [Run.run_bind, show x.run s = none from hx]
    rfl
  | some seen =>
    rcases hx with ⟨s1, hrun, hpacked⟩ | ⟨hrun, b, hb, hno⟩
    · rw [Run.bind_of_ok hrun]
      exact hf seen s1 hpacked
    · rw [Run.run_bind, hrun, Option.bind_some]
      cases hg : g seen with
      | none => rfl
      | some seen' => exact Or.inr ⟨rfl, b, hgrows seen seen' hg b hb, hno⟩

/-- The recursion packs the blocks that a depth-first search visits, in its order. -/
theorem packRun_dfs (hserved : area.Served j.device) (stream : List PackItem) (fuel : Nat) :
    ∀ (blk : Nat) (seen : List Nat) (s : PackState), Packed aal area j.device stream seen s →
      PackedRun aal area j.device stream (dfs (packLinks j.device j.blksize) area.has fuel blk seen)
        ((journal40BlockPack aal j area fuel blk).run s) := by
  induction fuel with
  | zero => exact fun _ _ _ _ => rfl
  | succ fuel ih =>
    intro blk seen s hs
    have hgrows : ∀ (roots seen seen' : List Nat), roots.foldlM (fun seen b =>
        dfs (packLinks j.device j.blksize) area.has fuel b seen) seen = some seen' → ∀ b ∈ seen, b ∈ seen' :=
      fun _ _ _ h => (explored_foldlM (fun _ _ _ => dfs_explored) h).subset
    have hall : ∀ (roots seen : List Nat) (s : PackState), Packed aal area j.device stream seen s →
        PackedRun aal area j.device stream
          (roots.foldlM (fun seen b => dfs (packLinks j.device j.blksize) area.has fuel b seen) seen)
          ((Run.forEach (journal40BlockPack aal j area fuel) roots).run s) := by
      intro roots
      induction roots with
      | nil => exact fun seen s hs => Or.inl ⟨s, rfl, hs⟩
      | cons b roots ihr =>
        intro seen s hs
        rw [Run.forEach, List.foldlM_cons]
        exact packedRun_bind (ih b seen s hs) ihr (hgrows roots)
    rw [journal40BlockPack, dfs]
    by_cases hin : area.has blk = true
    · have hrange : area.start ≤ blk ∧ blk < area.len := of_decide_eq_true hin
      rw [if_neg (show ¬(blk < area.start ∨ blk ≥ area.len) by omega), Run.get_bind]
      by_cases hmap : area.Maps blk
      · rw [hs.layout.test hrange.2 hmap, Run.bind_of_ok (Run.lift_some _ s)]
        by_cases hseen : blk ∈ seen
        · rw [if_pos ((hs.layout.has blk).mpr hseen), if_neg fun h => h.2 hseen]
          exact Or.inl ⟨s, rfl, hs⟩
        · obtain ⟨d, hd⟩ := Option.isSome_iff_exists.mp (hserved blk hin)
          obtain ⟨layout, hmark, hlayout⟩ := hs.layout.mark hrange.2 hmap
          have hlinks : packLinks j.device j.blksize blk =
              (if d.memeq 0 txhMagic then [getThNextBlock d, getThPrevTx d] else []) ++
                if d.memeq 0 lgrMagic then (lrEntries d (lrCapacity j.blksize) lrHeaderSize).map Prod.fst
                else [] := by
            unfold packLinks
            rw [hd]
          have hpacked : Packed aal area j.device stream (seen ++ [blk])
              { stream := s.stream ++ [.block { nr := blk, data := d }], layout } := by
            refine ⟨?_, hlayout.congr fun b => ?_⟩
            · rw [hs.stream, List.map_append, List.append_assoc, List.map_singleton]
              unfold packItem
              rw [hd]
              rfl
            · rw [List.mem_append, List.mem_singleton, or_comm]
          rw [if_neg fun h => hseen ((hs.layout.has blk).mp h), if_pos ⟨hin, hseen⟩, hmark,
            Run.bind_of_ok (Run.lift_some _ s), Run.modify_bind]
          unfold aalBlockLoad
          rw [hd]
          dsimp only [Option.map_some]
          unfold aalStreamWrite
          rw [Run.modify_bind, hlinks, List.foldlM_append]
          refine packedRun_bind ?_ ?_ (hgrows _)
          · by_cases hmagic : d.memeq 0 txhMagic = true
            · rw [if_pos hmagic, if_pos hmagic, List.foldlM_cons]
              refine packedRun_bind (ih _ _ _ hpacked) (fun seen' s' hs' => ?_) (hgrows _)
              rw [List.foldlM_cons]
              simp only [List.foldlM_nil, bind_pure]
              exact ih _ _ _ hs'
            · rw [if_neg hmagic, if_neg hmagic]
              exact Or.inl ⟨_, rfl, hpacked⟩
          · intro seen' s' hs'
            by_cases hmagic : d.memeq 0 lgrMagic = true
            · rw [if_pos hmagic, if_pos hmagic]
              exact hall _ _ _ hs'
            · rw [if_neg hmagic, if_neg hmagic]
              exact Or.inl ⟨s', rfl, hs'⟩
      · -- The test leaves the map.
        have hseen : blk ∉ seen := fun hmem => hmap (hs.layout.inside blk hmem)
        rw [hs.layout.test_none hrange.2 hmap, if_pos ⟨hin, hseen⟩, Run.run_bind, Run.lift_none]
        cases hg : (packLinks j.device j.blksize blk).foldlM (fun seen b =>
            dfs (packLinks j.device j.blksize) area.has fuel b seen) (seen ++ [blk]) with
        | none => rfl
        | some seen' => exact Or.inr ⟨rfl, blk, hgrows _ _ _ hg blk (by simp), hmap⟩
    · have hbounds : blk < area.start ∨ blk ≥ area.len := by
        by_contra hno
        exact hin (decide_eq_true (by omega))
      rw [if_pos hbounds, if_neg fun h => hin h.1]
      exact Or.inl ⟨s, rfl, hs⟩

/-- The block is reached from the newest committed transaction. -/
def PackReached (j : Journal) (area : Area) (b : Nat) : Prop :=
  ReachedFrom (packLinks j.device j.blksize) area.has (getJhLastCommited j.header.data) b

/-- Pack emits the header, the footer and every block it can reach, once; or one of these is not in its map. -/
theorem journal40Pack_emits (hserved : area.Served j.device) {fuel : Nat} (hfuel : area.len < fuel) :
    ∃ seen : List Nat, seen.Nodup ∧ (∀ b, b ∈ seen ↔ PackReached j area b) ∧
      ((∀ b ∈ seen, area.Maps b) ∧ (journal40Pack aal j area fuel).run [] = some (.ok (),
        .data j.header.data :: .data j.footer.data :: seen.map (packItem j.device)) ∨
      (∃ b ∈ seen, ¬area.Maps b) ∧ (journal40Pack aal j area fuel).run [] = none) := by
  have hinside : ∀ b, area.has b = true → b ∈ Finset.range area.len := by
    intro b hb
    exact Finset.mem_range.mpr (of_decide_eq_true hb).2
  have hcard : (unseen (Finset.range area.len) []).card ≤ area.len := by
    have hle := Finset.card_filter_le (Finset.range area.len) (· ∉ ([] : List Nat))
    rwa [Finset.card_range] at hle
  obtain ⟨seen, hseen⟩ : ∃ seen, dfs (packLinks j.device j.blksize) area.has fuel
      (getJhLastCommited j.header.data) [] = some seen :=
    dfs_total hinside (Nat.lt_of_le_of_lt hcard hfuel)
  obtain ⟨hnodup, hmem⟩ := mem_dfs_iff hseen
  refine ⟨seen, hnodup, hmem, ?_⟩
  obtain ⟨s0, hs0⟩ : ∃ s0 : PackState, s0 =
    ⟨[] ++ [.data j.header.data] ++ [.data j.footer.data], reiser4BitmapCreate area.len⟩ := ⟨_, rfl⟩
  have hstart : Packed aal area j.device [.data j.header.data, .data j.footer.data] [] s0 := by
    rw [hs0]
    exact ⟨rfl, Layout.created.congr fun b => ⟨False.elim, nofun⟩⟩
  have hpack := packRun_dfs hserved [.data j.header.data, .data j.footer.data] fuel
    (getJhLastCommited j.header.data) [] s0 hstart
  have hbody : (journal40Pack aal j area fuel).run [] =
      ((journal40BlockPack aal j area fuel (getJhLastCommited j.header.data)).run s0).map
        fun r => (r.1, r.2.stream) := by
    show Option.map _ ((packBody aal j area fuel).run _) = _
    unfold packBody aalStreamWrite
    rw [Run.modify_bind, Run.modify_bind, hs0]
  rw [hseen] at hpack
  rw [hbody]
  rcases hpack with ⟨s, hrun, hs⟩ | ⟨hrun, hno⟩
  · refine Or.inl ⟨hs.layout.inside, ?_⟩
    rw [hrun, Option.map_some, hs.stream]
    rfl
  · refine Or.inr ⟨hno, ?_⟩
    rw [hrun]
    rfl

end Search

/-! ## Unpacking -/

/-- Writing packed blocks brings back what the device held there. -/
theorem unpackBlocks_packed {dev : Device} : ∀ {seen : List Nat} {dev' : Device},
    (∀ b ∈ seen, (dev b).isSome) → (∀ b, (dev' b).isSome = (dev b).isSome) →
      unpackBlocks dev' (seen.map (packItem dev)) =
        some fun b => if b ∈ seen then dev b else dev' b
  | [], dev', _, _ => by
    show some dev' = _
    simp
  | b :: seen, dev', hsome, hserved => by
    obtain ⟨d, hd⟩ := Option.isSome_iff_exists.mp (hsome b (by simp))
    have hwrite : aalBlockWrite dev' { nr := b, data := (dev b).getD Bytes.zero } =
        some fun n => if n = b then dev b else dev' n := by
      unfold aalBlockWrite
      rw [if_pos (by rw [hserved b, hd]; rfl), hd]
      rfl
    show (aalBlockWrite dev' _).bind _ = _
    rw [hwrite, Option.bind_some, unpackBlocks_packed (fun c hc => hsome c (List.mem_cons_of_mem _ hc))]
    · congr 1
      funext n
      by_cases hn : n = b
      · by_cases hs : n ∈ seen <;> simp [hn]
      · by_cases hs : n ∈ seen <;> simp [hn, hs]
    · intro n
      by_cases hn : n = b
      · rw [if_pos hn, hn]
      · rw [if_neg hn, hserved n]

/-- Another copy of the file system: only the blocks of the transactions differ. -/
structure CopyOf (j copy : Journal) (txs : List Tx) : Prop where
  blksize : copy.blksize = j.blksize
  state : copy.state = j.state
  format : copy.format = j.format
  oid : copy.oid = j.oid
  header : copy.header.nr = j.header.nr
  footer : copy.footer.nr = j.footer.nr
  served : ∀ b, (copy.device b).isSome = (j.device b).isSome
  device : ∀ b, b ∉ txs.flatMap Tx.own → copy.device b = j.device b

/-- What unpacking leaves on a copy is the packed journal. -/
theorem unpack_restores {j copy : Journal} {txs : List Tx} {seen : List Nat}
    (h : CopyOf j copy txs) (hseen : ∀ b ∈ seen, (j.device b).isSome)
    (hall : ∀ b ∈ txs.flatMap Tx.own, b ∈ seen) :
    journal40Unpack copy
      (.data j.header.data :: .data j.footer.data :: seen.map (packItem j.device)) = some j := by
  have hdevice : (fun b => if b ∈ seen then j.device b else copy.device b) = j.device := by
    funext b
    by_cases hb : b ∈ seen
    · rw [if_pos hb]
    · rw [if_neg hb]
      exact h.device b fun hown => hb (hall b hown)
  show Option.map _ (unpackBlocks copy.device _) = _
  rw [unpackBlocks_packed hseen h.served, hdevice]
  obtain ⟨h1, h2, h3, h4, h5, h6, -, -⟩ := h
  obtain ⟨blksize, state, device, format, oid, header, footer⟩ := copy
  obtain ⟨hnr, hdata⟩ := header
  obtain ⟨fnr, fdata⟩ := footer
  dsimp only at h1 h2 h3 h4 h5 h6
  subst h1 h2 h3 h4 h5 h6
  rfl

/-! ## Completeness -/

/-- The number of a packed block. -/
def PackItem.nr : PackItem → Option Nat
  | .data _ => none
  | .block b => some b.nr

/-- Pack emits each block of the transactions once, and a replay on a copy with the emitted blocks is
    the replay of the packed journal. -/
def PackComplete (aal : AalBits) (j : Journal) (area : Area) (txs : List Tx) : Prop :=
  ∃ enough, ∀ fuel, enough ≤ fuel → ∃ items,
    (journal40Pack aal j area fuel).run [] = some (.ok (), items) ∧
    (∀ b ∈ txs.flatMap Tx.own, (items.filterMap PackItem.nr).count b = 1) ∧
    ∀ copy, CopyOf j copy txs → ∃ j', journal40Unpack copy items = some j' ∧
      ∀ fuel', (journal40Replay fuel').run j' = (journal40Replay fuel').run j

/-- A well-formed journal whose blocks are in the area, which the device serves. -/
structure Packable (j : Journal) (area : Area) (txs : List Tx) : Prop where
  wellFormed : WellFormed j txs
  inside : ∀ b ∈ txs.flatMap Tx.own, area.has b = true
  served : area.Served j.device

/-- Every log record behind the first one of its transaction is linked to by a block that pack gets
    to. -/
def LaterLogsLinked (j : Journal) (area : Area) (txs : List Tx) : Prop :=
  ∀ t ∈ txs, ∀ l ∈ t.logs.tail, ∃ b, PackReached j area b ∧ l.nr ∈ packLinks j.device j.blksize b

/-- A transaction header is no log record. -/
theorem lgrMagic_of_txhMagic {d : Bytes} (h : d.memeq 0 txhMagic = true) :
    d.memeq 0 lgrMagic = false := by
  unfold Bytes.memeq at h ⊢
  rw [beq_iff_eq] at h
  rw [show lgrMagic.length = txhMagic.length from rfl, h]
  decide

section Complete

variable {j : Journal} {area : Area} {txs : List Tx}

theorem packLinks_txh {d : Bytes} {nr : Nat} (hd : j.device nr = some d)
    (hm : d.memeq 0 txhMagic = true) :
    getThNextBlock d ∈ packLinks j.device j.blksize nr ∧
      getThPrevTx d ∈ packLinks j.device j.blksize nr := by
  unfold packLinks
  rw [hd]
  simp [hm]

theorem packLinks_lgr {d : Bytes} {nr : Nat} (hd : j.device nr = some d)
    (hm : d.memeq 0 lgrMagic = true) :
    ∀ p ∈ lrEntries d (lrCapacity j.blksize) lrHeaderSize,
      p.1 ∈ packLinks j.device j.blksize nr := by
  intro p hp
  unfold packLinks
  rw [hd]
  refine List.mem_append_right _ ?_
  rw [if_pos hm]
  exact List.mem_map_of_mem hp

/-- Pack goes from header to header. -/
theorem headers_reached {lastFlushed : Nat} : ∀ {ts : List Tx} {blk : Nat},
    TxChain j.device j.blksize lastFlushed blk ts → (∀ t ∈ ts, area.has t.nr = true) →
      (area.has blk = true → PackReached j area blk) → ∀ t ∈ ts, PackReached j area t.nr
  | [], _, _, _, _, t, ht => absurd ht (by simp)
  | t' :: ts, blk, ⟨_, hnr, ⟨hd, hm, _⟩, hrest⟩, hin, hblk, t, ht => by
    have hreach : PackReached j area t'.nr := by
      rw [hnr]
      exact hblk (by rw [← hnr]; exact hin t' (by simp))
    rcases List.mem_cons.mp ht with rfl | ht
    · exact hreach
    · refine headers_reached hrest (fun t ht => hin t (List.mem_cons_of_mem _ ht)) ?_ t ht
      exact fun hprev => hreach.tail (packLinks_txh hd hm).2 hprev

/-- Where the later log records are linked to, pack gets to all blocks of the transactions. -/
theorem own_reached (h : Packable j area txs) (hlinked : LaterLogsLinked j area txs) :
    ∀ b ∈ txs.flatMap Tx.own, PackReached j area b := by
  intro b hb
  obtain ⟨t, ht, hbt⟩ := List.mem_flatMap.mp hb
  have hin : ∀ c ∈ t.own, area.has c = true := fun c hc => h.inside c (List.mem_flatMap.mpr ⟨t, ht, hc⟩)
  have hheader : PackReached j area t.nr :=
    headers_reached h.wellFormed.chain
      (fun t' ht' => h.inside t'.nr (List.mem_flatMap.mpr ⟨t', List.mem_reverse.mp ht', by simp [Tx.own]⟩))
      (fun hroot => ⟨hroot, Relation.ReflTransGen.refl⟩) t (List.mem_reverse.mpr ht)
  obtain ⟨hd, hm, hlogs⟩ := h.wellFormed.chain.mem t (List.mem_reverse.mpr ht)
  have hlog : ∀ l ∈ t.logs, PackReached j area l.nr := by
    intro l hl
    have hlin : area.has l.nr = true :=
      hin l.nr (List.mem_cons_of_mem _ (List.mem_append_left _ (List.mem_map_of_mem hl)))
    cases hls : t.logs with
    | nil =>
      rw [hls] at hl
      cases hl
    | cons first rest =>
      rw [hls] at hl hlogs
      rcases List.mem_cons.mp hl with rfl | hrest
      · refine hheader.tail ?_ hlin
        rw [hlogs.2.1]
        exact (packLinks_txh hd hm).1
      · obtain ⟨c, hc, hlink⟩ := hlinked t ht l (by rw [hls]; exact hrest)
        exact hc.tail hlink hlin
  rcases List.mem_cons.mp hbt with rfl | hbt
  · exact hheader
  · rcases List.mem_append.mp hbt with hbt | hbt
    · obtain ⟨l, hl, rfl⟩ := List.mem_map.mp hbt
      exact hlog l hl
    · obtain ⟨p, hp, rfl⟩ := List.mem_map.mp hbt
      obtain ⟨l, hl, hpl⟩ := List.mem_flatMap.mp hp
      obtain ⟨d, hld, hlm, hle⟩ := hlogs.mem l hl
      refine (hlog l hl).tail (packLinks_lgr hld hlm p (by rw [← hle]; exact hpl)) ?_
      exact hin p.1 (List.mem_cons_of_mem _ (List.mem_append_right _ (List.mem_map_of_mem hp)))

/-- The newest committed block of a journal that is not empty is a header. -/
theorem newest_txh (h : WellFormed j txs) {t : Tx} (ht : t ∈ txs) :
    ∀ d, j.device (getJhLastCommited j.header.data) = some d → d.memeq 0 txhMagic = true := by
  have hchain := h.chain
  cases hts : txs.reverse with
  | nil =>
    rw [← List.mem_reverse, hts] at ht
    cases ht
  | cons newest ts =>
    rw [hts] at hchain
    obtain ⟨-, hnr, ⟨hd, hm, -⟩, -⟩ := hchain
    intro d hdev
    rw [← hnr, hd] at hdev
    cases hdev
    exact hm

theorem packedItems_nr (dev : Device) (header footer : Bytes) (seen : List Nat) :
    (.data header :: .data footer :: seen.map (packItem dev)).filterMap PackItem.nr = seen := by
  show (seen.map (packItem dev)).filterMap PackItem.nr = seen
  induction seen with
  | nil => rfl
  | cons b seen ih =>
    rw [List.map_cons, List.filterMap_cons, ih]
    rfl

/-- **Pack is complete if and only if** every later log record is linked to from elsewhere, and every block that pack
    gets to is in its map. -/
theorem journal40Pack_complete_iff (aal : AalBits) (j : Journal) (area : Area) (txs : List Tx)
    (h : Packable j area txs) : PackComplete aal j area txs ↔
      LaterLogsLinked j area txs ∧ ∀ b, PackReached j area b → area.Maps b := by
  constructor
  · rintro ⟨enough, hpack⟩
    obtain ⟨items, hrun, hcount, -⟩ := hpack (max enough (area.len + 1)) (Nat.le_max_left _ _)
    obtain ⟨seen, -, hmem, ⟨hmaps, hrun'⟩ | ⟨-, hnone⟩⟩ := @journal40Pack_emits aal j area h.served
      (max enough (area.len + 1)) (by omega)
    · refine ⟨fun t ht l hl => ?_, fun b hb => hmaps b ((hmem b).mpr hb)⟩
      rw [hrun', Option.some.injEq, Prod.mk.injEq] at hrun
      have hl' := List.mem_of_mem_tail hl
      have hcountl := hcount l.nr (List.mem_flatMap.mpr ⟨t, ht, List.mem_cons_of_mem _
        (List.mem_append_left _ (List.mem_map_of_mem hl'))⟩)
      rw [← hrun.2, packedItems_nr] at hcountl
      have hseen : l.nr ∈ seen := List.count_pos_iff.mp (by rw [hcountl]; exact Nat.one_pos)
      obtain ⟨hroot, hreach⟩ := (hmem l.nr).mp hseen
      rcases Relation.ReflTransGen.cases_tail hreach with heq | ⟨c, hc, hlink⟩
      · -- The newest committed transaction is a header.
        obtain ⟨-, -, hlogs⟩ := h.wellFormed.chain.mem t (List.mem_reverse.mpr ht)
        obtain ⟨d, hd, hlgr, -⟩ := hlogs.mem l hl'
        have htxh := newest_txh h.wellFormed ht
        rw [← heq, hd] at htxh
        rw [lgrMagic_of_txhMagic (htxh d rfl)] at hlgr
        cases hlgr
      · exact ⟨c, ⟨hroot, hc⟩, hlink.1⟩
    · rw [hnone] at hrun
      cases hrun
  · rintro ⟨hlinked, hmaps⟩
    refine ⟨area.len + 1, ?_⟩
    intro fuel hfuel
    obtain ⟨seen, hnodup, hmem, ⟨-, hrun⟩ | ⟨⟨b, hb, hno⟩, -⟩⟩ :=
      @journal40Pack_emits aal j area h.served fuel hfuel
    · have hall : ∀ b ∈ txs.flatMap Tx.own, b ∈ seen :=
        fun b hb => (hmem b).mpr (own_reached h hlinked b hb)
      refine ⟨_, hrun, ?_, ?_⟩
      · intro b hb
        rw [packedItems_nr]
        exact List.count_eq_one_of_mem hnodup (hall b hb)
      · intro copy hcopy
        refine ⟨j, unpack_restores hcopy ?_ hall, fun _ => rfl⟩
        intro b hb
        exact h.served b ((hmem b).mp hb).isInside
    · exact absurd (hmaps b ((hmem b).mp hb)) hno

/-- In an area of fewer than `2 ^ 35 - 7` blocks pack does not leave its map. -/
theorem packReached_maps (h : (area.len + 7) / 8 < two32) {b : Nat} (hb : PackReached j area b) : area.Maps b :=
  Area.maps_of_len h (of_decide_eq_true hb.isInside).2

/-- Transactions of one log record have no later ones. -/
theorem laterLogsLinked_of_single (h : ∀ t ∈ txs, t.logs.length ≤ 1) :
    LaterLogsLinked j area txs := by
  intro t ht l hl
  have hlen := List.length_pos_of_mem hl
  have := h t ht
  rw [List.length_tail] at hlen
  omega

end Complete

/-- The sample journal on a device that serves every block. -/
def servedJournal : Journal :=
  { sampleJournal with device := fun nr => some ((sampleDevice nr).getD Bytes.zero) }

theorem servedJournal_packable : Packable servedJournal ⟨16, 40⟩ sampleTxs where
  wellFormed := by
    obtain ⟨hchain, hdistinct, hown, holder⟩ := sampleJournal_wellFormed
    have hsame : ∀ nr, (sampleDevice nr).isSome = true →
        some ((sampleDevice nr).getD Bytes.zero) = sampleDevice nr := by
      intro nr hsome
      obtain ⟨d, hd⟩ := Option.isSome_iff_exists.mp hsome
      rw [hd]
      rfl
    have hblocks : ∀ t ∈ sampleTxs.reverse, (sampleDevice t.nr).isSome = true ∧
        ∀ l ∈ t.logs, (sampleDevice l.nr).isSome = true := by decide
    refine ⟨hchain.congr ?_, hdistinct, hown, holder⟩
    intro t ht
    obtain ⟨h1, h2⟩ := hblocks t ht
    exact ⟨hsame t.nr h1, fun l hl => hsame l.nr (h2 l hl)⟩
  inside := by decide
  served := fun _ _ => rfl

theorem journal40Pack_complete_sample : PackComplete AalBits.plain servedJournal ⟨16, 40⟩ sampleTxs :=
  (journal40Pack_complete_iff AalBits.plain servedJournal ⟨16, 40⟩ sampleTxs servedJournal_packable).mpr
    ⟨laterLogsLinked_of_single (by decide), fun _ => packReached_maps (by decide)⟩

/-- Transaction 20 with the log records 21 and 22. -/
def twoLogsDevice : Device
  | 20 => some (sampleTxHeader 0 21 7 8 9)
  | 21 => some (sampleLog 22 30 23)
  | 22 => some (sampleLog 20 31 24)
  | _ => some Bytes.zero

def twoLogsJournal : Journal :=
  { sampleJournal with
    device := twoLogsDevice
    header := { nr := 18, data := setJhLastCommited Bytes.zero 20 } }

def twoLogsTxs : List Tx :=
  [{ nr := 20, header := sampleTxHeader 0 21 7 8 9,
     logs := [{ nr := 21, entries := [(23, 30)] }, { nr := 22, entries := [(24, 31)] }] }]

theorem twoLogsJournal_packable : Packable twoLogsJournal ⟨16, 40⟩ twoLogsTxs where
  wellFormed := by
    refine ⟨?_, by decide, by decide, by decide⟩
    have hlast : getJfLastFlushed twoLogsJournal.footer.data = 0 := by decide +kernel
    have hfirst : getJhLastCommited twoLogsJournal.header.data = 20 := by decide +kernel
    have hprev : getThPrevTx (sampleTxHeader 0 21 7 8 9) = 0 := by decide +kernel
    have hnext : getThNextBlock (sampleTxHeader 0 21 7 8 9) = 21 := by decide +kernel
    have h21 : getLhNextBlock (sampleLog 22 30 23) = 22 := by decide +kernel
    have h22 : getLhNextBlock (sampleLog 20 31 24) = 20 := by decide +kernel
    rw [hlast, hfirst]
    refine ⟨by decide, rfl, ⟨rfl, by decide +kernel, ?_⟩, hprev⟩
    rw [hnext]
    refine ⟨by decide, rfl, _, rfl, by decide +kernel, by decide +kernel, ?_⟩
    rw [h21]
    exact ⟨by decide, rfl, _, rfl, by decide +kernel, by decide +kernel, h22⟩
  inside := by decide
  served := by
    intro b _
    show (twoLogsDevice b).isSome = true
    unfold twoLogsDevice
    split <;> rfl

/-- Pack does not get to log record 22. -/
theorem twoLogs_reached {b : Nat} (h : PackReached twoLogsJournal ⟨16, 40⟩ b) :
    b = 20 ∨ b = 21 ∨ b = 23 := by
  have hfirst : getJhLastCommited twoLogsJournal.header.data = 20 := by decide +kernel
  have h20 : packLinks twoLogsJournal.device twoLogsJournal.blksize 20 = [21, 0] := by decide +kernel
  have h21 : packLinks twoLogsJournal.device twoLogsJournal.blksize 21 = [23] := by decide +kernel
  have h23 : packLinks twoLogsJournal.device twoLogsJournal.blksize 23 = [] := by decide
  obtain ⟨-, hreach⟩ := h
  rw [hfirst] at hreach
  induction hreach with
  | refl => exact Or.inl rfl
  | tail _ hlink ih =>
    obtain ⟨hmem, hin⟩ := hlink
    rcases ih with rfl | rfl | rfl
    · rw [h20] at hmem
      simp only [List.mem_cons, List.not_mem_nil, or_false] at hmem
      rcases hmem with rfl | rfl
      · exact Or.inr (Or.inl rfl)
      · cases hin
    · rw [h21, List.mem_singleton] at hmem
      exact Or.inr (Or.inr hmem)
    · rw [h23] at hmem
      cases hmem

/-- The second log record is not packed. -/
theorem journal40Pack_misses : Packable twoLogsJournal ⟨16, 40⟩ twoLogsTxs ∧
    ¬PackComplete AalBits.plain twoLogsJournal ⟨16, 40⟩ twoLogsTxs := by
  refine ⟨twoLogsJournal_packable, ?_⟩
  rintro ⟨enough, hpack⟩
  obtain ⟨items, hrun, hcount, -⟩ := hpack (max enough 41) (Nat.le_max_left _ _)
  obtain ⟨seen, -, hmem, ⟨-, hrun'⟩ | ⟨-, hnone⟩⟩ := @journal40Pack_emits AalBits.plain _ _
    twoLogsJournal_packable.served (max enough 41) (show 40 < max enough 41 by omega)
  · rw [hrun', Option.some.injEq, Prod.mk.injEq] at hrun
    have h22 := hcount 22 (by decide)
    rw [← hrun.2, packedItems_nr] at h22
    have hseen : 22 ∈ seen := List.count_pos_iff.mp (by rw [h22]; exact Nat.one_pos)
    rcases twoLogs_reached ((hmem 22).mp hseen) with h | h | h <;> cases h
  · rw [hnone] at hrun
    cases hrun

end Reiser4.Journal40
