-- SUMMARY: When the requests on an rxe memory region are served from its pages.
import OfaKernel.Rxe.MemRegion

/-!
# The buffers of a region and its pages

The buffers are written in the order of the pages, and looked up by their number. After the last
buffer of a map both loops load the pointer of the next map: behind the last map there is none.
-/

open Function List

namespace Rxe.Mr

namespace RxeMem

variable {mem : RxeMem} {bufs garbage : Nat → Nat → PhysBuf} {m n : Nat}

theorem bufPerMap_pos (mem : RxeMem) : 0 < mem.bufPerMap := Nat.two_pow_pos _

theorem loadMap_ok (hmap : mem.map = some bufs) (hm : m < mem.numMap) :
    mem.loadMap m = .ok () := by
  unfold loadMap
  rw [hmap, if_pos ⟨rfl, hm⟩]

theorem loadMap_behind (hm : mem.numMap ≤ m) : mem.loadMap m = .error .fault := by
  unfold loadMap
  rw [if_neg fun h => absurd h.2 (Nat.not_lt.mpr hm)]

theorem bufAt_ok (hmap : mem.map = some bufs) (hm : m < mem.numMap) (hn : n < mem.bufPerMap) :
    mem.bufAt m n = .ok (bufs m n) := by
  unfold bufAt
  rw [hmap]
  exact if_pos ⟨hm, hn⟩

theorem bufAt_behind (hm : mem.numMap ≤ m) : mem.bufAt m n = .error .fault := by
  unfold bufAt
  cases mem.map with
  | none => rfl
  | some bufs => exact if_neg fun h => absurd h.1 (Nat.not_lt.mpr hm)

theorem setBuf_ok (hmap : mem.map = some bufs) (hm : m < mem.numMap) (hn : n < mem.bufPerMap)
    (b : PhysBuf) : mem.setBuf m n b =
      .ok (mem.setMap (update bufs m (update (bufs m) n b))) := by
  unfold setBuf
  rw [hmap]
  exact if_pos ⟨hm, hn⟩

@[simp] theorem setMap_setMap (mem : RxeMem) (b b' : Nat → Nat → PhysBuf) :
    (mem.setMap b).setMap b' = mem.setMap b' := rfl
@[simp] theorem setMap_map (mem : RxeMem) (b : Nat → Nat → PhysBuf) :
    (mem.setMap b).map = some b := rfl

theorem setMap_self (hmap : mem.map = some bufs) : mem.setMap bufs = mem := by
  unfold setMap
  rw [← hmap]

/-- The buffers after the first ones of them were written over what was there. -/
def written (bpm : Nat) (done : List PhysBuf) (garbage : Nat → Nat → PhysBuf) :
    Nat → Nat → PhysBuf :=
  fun m n => if n < bpm then done[m * bpm + n]?.getD (garbage m n) else garbage m n

theorem written_nil (bpm : Nat) : written bpm [] garbage = garbage := by
  funext m n
  unfold written
  split <;> rfl

/-- A buffer has one map and one place in it. -/
theorem index_inj {bpm m m' n n' : Nat} (hn : n < bpm) (hn' : n' < bpm)
    (h : m * bpm + n = m' * bpm + n') : m = m' ∧ n = n' := by
  have hpos : 0 < bpm := by omega
  have hm := congrArg (· / bpm) h
  have hr := congrArg (· % bpm) h
  simp only [Nat.mul_comm _ bpm, Nat.mul_add_div hpos, Nat.mul_add_mod, Nat.div_eq_of_lt hn,
    Nat.div_eq_of_lt hn', Nat.mod_eq_of_lt hn, Nat.mod_eq_of_lt hn', Nat.add_zero] at hm hr
  exact ⟨hm, hr⟩

/-- The next buffer is written behind those that are. -/
theorem update_written {bpm : Nat} {done : List PhysBuf} (hn : n < bpm)
    (hdone : m * bpm + n = done.length) (b : PhysBuf) :
    update (written bpm done garbage) m
        (update (written bpm done garbage m) n b) =
      written bpm (done ++ [b]) garbage := by
  funext m' n'
  by_cases hn' : n' < bpm
  · have hval : written bpm (done ++ [b]) garbage m' n' =
        (done ++ [b])[m' * bpm + n']?.getD (garbage m' n') := if_pos hn'
    rw [hval]
    by_cases hsame : m' * bpm + n' = done.length
    · obtain ⟨rfl, rfl⟩ := index_inj hn' hn (hsame.trans hdone.symm)
      rw [update_self, update_self, hsame, List.getElem?_concat_length]
      rfl
    · have hother : update (written bpm done garbage) m
          (update (written bpm done garbage m) n b) m' n' =
            written bpm done garbage m' n' := by
        by_cases hm' : m' = m
        · subst hm'
          rw [update_self, update_of_ne]
          rintro rfl
          exact hsame hdone
        · rw [update_of_ne hm']
      rw [hother, written, if_pos hn']
      rcases Nat.lt_or_gt_of_ne hsame with hlt | hgt
      · rw [List.getElem?_append_left hlt]
      · rw [List.getElem?_eq_none hgt.le,
          List.getElem?_eq_none (by simpa using Nat.succ_le_of_lt hgt)]
  · have hother : update (written bpm done garbage) m
        (update (written bpm done garbage m) n b) m' n' =
          written bpm done garbage m' n' := by
      by_cases hm' : m' = m
      · subst hm'
        rw [update_self, update_of_ne fun h : n' = n => hn' (h ▸ hn)]
      · rw [update_of_ne hm']
    rw [hother, written, written, if_neg hn', if_neg hn']

end RxeMem

/-! ## The buffers that are written -/

open Mr.RxeMem

/-- The test of a loop for a full map. -/
def FullAt (full : Nat → Bool) (bpm : Nat) : Prop := ∀ k ≤ bpm, full k = true ↔ k = bpm

variable {full : Nat → Bool} {size : Nat} {garbage : Nat → Nat → PhysBuf}

/-- The buffers of pages. -/
def bufsOf (size : Nat) (addrs : List Nat) : List PhysBuf := addrs.map fun a => ⟨a, size⟩

/-- A turn of the loop: the buffer is written, and the next one is in this map or at the start of
the next map, if there is one. -/
theorem fillBufs_cons {mem : RxeMem} {done : List PhysBuf} {m n : Nat}
    (hfull : FullAt full mem.bufPerMap) (hm : m < mem.numMap) (hn : n < mem.bufPerMap)
    (hdone : m * mem.bufPerMap + n = done.length) (a : Nat) (pages : List (Option Nat)) :
    fillBufs full size (some a :: pages) m n (mem.setMap (written mem.bufPerMap done garbage)) =
      let mem' := mem.setMap (written mem.bufPerMap (done ++ [⟨a, size⟩]) garbage)
      if n + 1 = mem.bufPerMap then
        if m + 1 < mem.numMap then fillBufs full size pages (m + 1) 0 mem' else .error .fault
      else fillBufs full size pages m (n + 1) mem' := by
  let mem' := mem.setMap (written mem.bufPerMap (done ++ [⟨a, size⟩]) garbage)
  have hset : (mem.setMap (written mem.bufPerMap done garbage)).setBuf m n ⟨a, size⟩ =
      .ok mem' := by
    rw [setBuf_ok (setMap_map mem _) hm hn, setMap_setMap, update_written hn hdone]
  rw [fillBufs, hset]
  change (if full (n + 1) = true then _ else _) = _
  by_cases hend : n + 1 = mem.bufPerMap
  · rw [if_pos ((hfull _ hn).mpr hend), if_pos hend]
    by_cases hnext : m + 1 < mem.numMap
    · have hload : mem'.loadMap (m + 1) = .ok () := loadMap_ok rfl hnext
      rw [hload, if_pos hnext]
      rfl
    · have hload : mem'.loadMap (m + 1) = .error .fault := loadMap_behind (Nat.not_lt.mp hnext)
      rw [hload, if_neg hnext]
      rfl
  · rw [if_neg fun h => hend ((hfull _ hn).mp h), if_neg hend]

theorem index_lt {bpm numMap : Nat} {m n : Nat} (hm : m < numMap) (hn : n < bpm) :
    m * bpm + n < numMap * bpm := by
  calc m * bpm + n < (m + 1) * bpm := by rw [Nat.add_mul, Nat.one_mul]; omega
    _ ≤ numMap * bpm := Nat.mul_le_mul_right _ hm

/-- The buffers are written when some buffer behind them is left. When the last one of the last
map is written, the loop loads a map that is not there. -/
theorem fillBufs_some {mem : RxeMem} {done : List PhysBuf} {m n : Nat} {addrs : List Nat}
    (hfull : FullAt full mem.bufPerMap) (hm : m < mem.numMap) (hn : n < mem.bufPerMap)
    (hdone : m * mem.bufPerMap + n = done.length)
    (hroom : done.length + addrs.length ≤ mem.numMap * mem.bufPerMap) :
    fillBufs full size (addrs.map some) m n
        (mem.setMap (written mem.bufPerMap done garbage)) =
      if done.length + addrs.length = mem.numMap * mem.bufPerMap then .error .fault
      else .ok (mem.setMap (written mem.bufPerMap (done ++ bufsOf size addrs) garbage)) := by
  induction addrs generalizing m n done with
  | nil =>
    have hlt := index_lt hm hn
    rw [hdone] at hlt
    rw [map_nil, fillBufs, bufsOf, map_nil, append_nil, length_nil,
      Nat.add_zero, if_neg (Nat.ne_of_lt hlt)]
  | cons a addrs ih =>
    have hlen : (done ++ [(⟨a, size⟩ : PhysBuf)]).length = done.length + 1 := by simp
    have hbufs : done ++ bufsOf size (a :: addrs) =
        (done ++ [(⟨a, size⟩ : PhysBuf)]) ++ bufsOf size addrs := by simp [bufsOf]
    have hcount : done.length + (a :: addrs).length =
        (done ++ [(⟨a, size⟩ : PhysBuf)]).length + addrs.length := by
      rw [hlen, length_cons]
      omega
    rw [hcount] at hroom
    rw [map_cons, fillBufs_cons hfull hm hn hdone, hbufs, hcount]
    by_cases hend : n + 1 = mem.bufPerMap
    · have hcursor : (m + 1) * mem.bufPerMap + 0 = done.length + 1 := by
        rw [Nat.add_mul, Nat.one_mul]
        omega
      rw [if_pos hend]
      by_cases hnext : m + 1 < mem.numMap
      · rw [if_pos hnext]
        exact ih hnext (bufPerMap_pos mem) (hcursor.trans hlen.symm) hroom
      · -- the buffer was the last one of all
        have hlast : m + 1 = mem.numMap := Nat.le_antisymm hm (Nat.not_lt.mp hnext)
        rw [hlast, Nat.add_zero] at hcursor
        rw [if_neg hnext, if_pos (by omega)]
    · rw [if_neg hend]
      exact ih hm (Nat.lt_of_le_of_ne hn hend) (by omega) hroom

/-- A page without an address ends the loop before it could be at the end of the maps. -/
theorem fillBufs_none {mem : RxeMem} {done : List PhysBuf} {m n : Nat}
    {pages : List (Option Nat)} (hfull : FullAt full mem.bufPerMap) (hm : m < mem.numMap)
    (hn : n < mem.bufPerMap) (hdone : m * mem.bufPerMap + n = done.length)
    (hroom : done.length + pages.length ≤ mem.numMap * mem.bufPerMap) (hnone : none ∈ pages) :
    fillBufs full size pages m n (mem.setMap (written mem.bufPerMap done garbage)) =
      .error (.errno memEnomem) := by
  induction pages generalizing m n done with
  | nil => cases hnone
  | cons page pages ih =>
    cases page with
    | none => rfl
    | some a =>
      have hrest : none ∈ pages := by simpa using hnone
      have hpos : 0 < pages.length := length_pos_of_mem hrest
      have hlen : (done ++ [(⟨a, size⟩ : PhysBuf)]).length = done.length + 1 := by simp
      rw [length_cons] at hroom
      rw [fillBufs_cons hfull hm hn hdone]
      by_cases hend : n + 1 = mem.bufPerMap
      · have hcursor : (m + 1) * mem.bufPerMap + 0 = done.length + 1 := by
          rw [Nat.add_mul, Nat.one_mul]
          omega
        have hnext : m + 1 < mem.numMap := by
          apply Nat.lt_of_mul_lt_mul_right (a := mem.bufPerMap)
          omega
        rw [if_pos hend, if_pos hnext]
        exact ih hnext (bufPerMap_pos mem) (hcursor.trans hlen.symm) (by omega) hrest
      · rw [if_neg hend]
        exact ih hm (Nat.lt_of_le_of_ne hn hend) (by omega) (by omega) hrest

/-! ## The bytes of a region -/

/-- The address of the byte `x` bytes behind the start of the first page. -/
def pageByte (pages : List Nat) (shift x : Nat) : Option Nat :=
  pages[x / 2 ^ shift]?.map (· + x % 2 ^ shift)

/-- The addresses of `length` bytes from there on. -/
def pageBytes (pages : List Nat) (shift x length : Nat) : Option (List Nat) :=
  (List.range' x length).mapM (pageByte pages shift)

namespace CopyBytes

/-- One byte between the address `a` and the place `pos` of the buffer. -/
def moveByte (st : CopyBytes) (dir : CopyDirection) (a pos : Nat) : CopyBytes :=
  match dir with
  | .toMemObj => { st with memory := update st.memory a (st.addr pos) }
  | .fromMemObj => { st with addr := update st.addr pos (st.memory a) }

/-- The bytes at the addresses, one after the other, from the place `pos` of the buffer on. -/
def transfer (st : CopyBytes) (dir : CopyDirection) : List Nat → Nat → CopyBytes
  | [], _ => st
  | a :: addrs, pos => (st.moveByte dir a pos).transfer dir addrs (pos + 1)

/-- The bytes that a transfer moves, in order. -/
def moved (st : CopyBytes) (dir : CopyDirection) (addrs : List Nat) (pos : Nat) : List UInt8 :=
  match dir with
  | .toMemObj => (List.range' pos addrs.length).map st.addr
  | .fromMemObj => addrs.map st.memory

variable {st : CopyBytes} {dir : CopyDirection}

theorem transfer_source (st : CopyBytes) (addrs : List Nat) (pos : Nat) :
    (st.transfer .toMemObj addrs pos).addr = st.addr ∧
      (st.transfer .fromMemObj addrs pos).memory = st.memory := by
  induction addrs generalizing st pos with
  | nil => exact ⟨rfl, rfl⟩
  | cons a addrs ih => exact ⟨(ih _ _).1, (ih _ _).2⟩

theorem transfer_append (st : CopyBytes) (addrs addrs' : List Nat) (pos : Nat) :
    st.transfer dir (addrs ++ addrs') pos =
      (st.transfer dir addrs pos).transfer dir addrs' (pos + addrs.length) := by
  induction addrs generalizing st pos with
  | nil => rfl
  | cons a addrs ih =>
    rw [cons_append, transfer, transfer, ih, length_cons, Nat.add_right_comm,
      Nat.add_assoc]

theorem moved_append (st : CopyBytes) (addrs addrs' : List Nat) (pos : Nat) :
    st.moved dir (addrs ++ addrs') pos =
      st.moved dir addrs pos ++
        (st.transfer dir addrs pos).moved dir addrs' (pos + addrs.length) := by
  obtain ⟨haddr, hmemory⟩ := st.transfer_source addrs pos
  cases dir with
  | toMemObj =>
    unfold moved
    rw [haddr, ← map_append, length_append, List.range'_append_1]
  | fromMemObj =>
    unfold moved
    rw [hmemory, map_append]

/-- A range of cells is copied by its first one and then the others. -/
theorem copy_succ {α : Type} (src dst : Nat → α) (lo pos n : Nat) :
    (fun a => if lo ≤ a ∧ a < lo + (n + 1) then src (pos + (a - lo)) else dst a) =
      fun a => if lo + 1 ≤ a ∧ a < lo + 1 + n then src (pos + 1 + (a - (lo + 1)))
        else update dst lo (src pos) a := by
  funext a
  by_cases ha : a = lo
  · subst ha
    rw [if_pos ⟨Nat.le_refl _, by omega⟩, if_neg (by omega), update_self, Nat.sub_self,
      Nat.add_zero]
  · rw [update_of_ne ha]
    by_cases hin : lo ≤ a ∧ a < lo + (n + 1)
    · rw [if_pos hin, if_pos (by omega)]
      congr 1
      omega
    · rw [if_neg hin, if_neg (by omega)]

/-- `memcpy` moves a run of bytes. -/
theorem memcpy_eq_transfer (st : CopyBytes) (va pos bytes : Nat) :
    st.memcpy dir va pos bytes = st.transfer dir (List.range' va bytes) pos := by
  induction bytes generalizing st va pos with
  | zero =>
    have hnone : ∀ lo k : Nat, ¬(lo ≤ k ∧ k < lo + 0) := by omega
    cases dir
    all_goals simp only [memcpy, hnone, if_false, List.range'_zero, transfer]
  | succ bytes ih =>
    rw [List.range'_succ, transfer, ← ih]
    cases dir
    all_goals
      unfold memcpy moveByte
      dsimp only
      congr 1
      exact copy_succ _ _ _ _ _

/-- After `memcpy` the destination holds the bytes that were moved. -/
theorem dest_memcpy (st : CopyBytes) (va pos bytes : Nat) :
    (st.memcpy dir va pos bytes).dest dir va pos bytes =
      st.moved dir (List.range' va bytes) pos := by
  cases dir with
  | toMemObj =>
    unfold dest moved memcpy
    rw [length_range', List.range'_eq_map_range, map_map]
    apply map_congr_left
    intro k hk
    have hlt : k < bytes := mem_range.mp hk
    dsimp only [Function.comp]
    rw [if_pos (by omega), Nat.add_sub_cancel_left]
  | fromMemObj =>
    unfold dest moved memcpy
    dsimp only
    rw [List.range'_eq_map_range, map_map]
    apply map_congr_left
    intro k hk
    have hlt : k < bytes := mem_range.mp hk
    dsimp only [Function.comp]
    rw [if_pos (by omega), Nat.add_sub_cancel_left]

end CopyBytes

theorem pageBytes_page {pages : List Nat} {shift a j offset bytes : Nat}
    (hpage : pages[j]? = some a) (hin : offset + bytes ≤ 2 ^ shift) :
    pageBytes pages shift (j * 2 ^ shift + offset) bytes =
      some (List.range' (a + offset) bytes) := by
  induction bytes generalizing offset with
  | zero => rfl
  | succ bytes ih =>
    have hpos : 0 < 2 ^ shift := Nat.two_pow_pos shift
    have hdiv : (j * 2 ^ shift + offset) / 2 ^ shift = j := by
      rw [Nat.mul_comm, Nat.mul_add_div hpos, Nat.div_eq_of_lt (by omega), Nat.add_zero]
    have hmod : (j * 2 ^ shift + offset) % 2 ^ shift = offset := by
      rw [Nat.mul_comm, Nat.mul_add_mod, Nat.mod_eq_of_lt (by omega)]
    have hbyte : pageByte pages shift (j * 2 ^ shift + offset) = some (a + offset) := by
      unfold pageByte
      rw [hdiv, hpage, hmod]
      rfl
    have hrest := @ih (offset + 1) (by omega)
    unfold pageBytes at hrest ⊢
    rw [List.range'_succ, mapM_cons, hbyte, Nat.add_assoc, hrest, List.range'_succ,
      Nat.add_assoc]
    rfl

theorem pageBytes_add (pages : List Nat) (shift x n k : Nat) {as bs : List Nat}
    (hn : pageBytes pages shift x n = some as) (hk : pageBytes pages shift (x + n) k = some bs) :
    pageBytes pages shift x (n + k) = some (as ++ bs) := by
  unfold pageBytes at hn hk ⊢
  rw [← List.range'_append_1, mapM_append, hn, hk]
  rfl

theorem le_of_pageBytes {pages : List Nat} {shift x length : Nat} {as : List Nat}
    (h : pageBytes pages shift x length = some as) (hpos : 0 < length) :
    x + length ≤ pages.length * 2 ^ shift := by
  obtain ⟨k, rfl⟩ := Nat.exists_eq_succ_of_ne_zero (Nat.ne_of_gt hpos)
  unfold pageBytes at h
  rw [Nat.succ_eq_add_one, List.range'_concat, mapM_append] at h
  cases hlast : pageByte pages shift (x + 1 * k) with
  | none =>
    rw [mapM_cons, hlast] at h
    cases hfirst : (List.range' x k).mapM (pageByte pages shift) with
    | none =>
      rw [hfirst] at h
      cases h
    | some bs =>
      rw [hfirst] at h
      cases h
  | some a =>
    unfold pageByte at hlast
    rw [Option.map_eq_some_iff] at hlast
    obtain ⟨b, hb, -⟩ := hlast
    have hlt : (x + 1 * k) / 2 ^ shift < pages.length := (List.getElem?_eq_some_iff.mp hb).1
    rw [Nat.div_lt_iff_lt_mul (Nat.two_pow_pos shift)] at hlt
    omega

/-! ## The region that was set up -/

/-- The region is valid, and its buffers are those of the pages, with one behind them. -/
structure RxeMem.Holds (mem : RxeMem) (pages : List Nat) (garbage : Nat → Nat → PhysBuf) :
    Prop where
  state : mem.state = .valid
  type : mem.type = .mr
  map : mem.map =
    some (written mem.bufPerMap (bufsOf (2 ^ mem.pageShift) pages) garbage)
  room : pages.length < mem.numMap * mem.bufPerMap
  numMap_lt : mem.numMap < 2 ^ 31
  pageShift_le : mem.pageShift ≤ 30
  mapMask : mem.mapMask = mem.bufPerMap - 1
  pageMask : mem.pageMask = 2 ^ mem.pageShift - 1

/-- How far behind the start of the first page an iova is. -/
def RxeMem.position (mem : RxeMem) (iova : UInt64) : Nat := (iova - mem.iova).toNat + mem.offset

namespace RxeMem.Holds

variable {mem : RxeMem} {pages : List Nat} {garbage : Nat → Nat → PhysBuf} {m n : Nat}
variable {crc32 : Crc32} {dir : CopyDirection}

theorem map_lt (h : mem.Holds pages garbage) (hpage : m * mem.bufPerMap + n ≤ pages.length) :
    m < mem.numMap := by
  apply Nat.lt_of_mul_lt_mul_right (a := mem.bufPerMap)
  calc m * mem.bufPerMap ≤ m * mem.bufPerMap + n := Nat.le_add_right _ _
    _ < mem.numMap * mem.bufPerMap := hpage.trans_lt h.room

theorem bufAt_page (h : mem.Holds pages garbage) (hn : n < mem.bufPerMap) {a : Nat}
    (hpage : pages[m * mem.bufPerMap + n]? = some a) :
    mem.bufAt m n = .ok ⟨a, 2 ^ mem.pageShift⟩ := by
  have hlt : m * mem.bufPerMap + n < pages.length := (List.getElem?_eq_some_iff.mp hpage).1
  have hbuf : written mem.bufPerMap (bufsOf (2 ^ mem.pageShift) pages) garbage m n =
      ⟨a, 2 ^ mem.pageShift⟩ := by
    unfold written bufsOf
    rw [if_pos hn, List.getElem?_map, hpage]
    rfl
  rw [bufAt_ok h.map (h.map_lt hlt.le) hn, hbuf]

/-- The number of bytes of a turn, as the `int` it is computed in. -/
theorem bytes_eq (h : mem.Holds pages garbage) {offset length : Nat}
    (hoff : offset ≤ 2 ^ mem.pageShift) :
    min (I32.wrap ((((2 ^ mem.pageShift : Nat) : Int) - offset) % 2 ^ 64)) (length : Int) =
      (min (2 ^ mem.pageShift - offset) length : Nat) := by
  have hle : 2 ^ mem.pageShift ≤ 2 ^ 30 := Nat.pow_le_pow_right (by decide) h.pageShift_le
  have hval : (((2 ^ mem.pageShift : Nat) : Int) - offset) % 2 ^ 64 =
      ((2 ^ mem.pageShift - offset : Nat) : Int) := by omega
  rw [hval, I32.wrap_of_range (by omega) (by omega)]
  omega

/-- A turn of the copy: the rest of the page, or of the bytes, is moved. -/
theorem memCopyLoop_turn (h : mem.Holds pages garbage) (left : Nat) {offset length pos a : Nat}
    {st : CopyBytes} {crc : Option UInt32} (hn : n < mem.bufPerMap)
    (hoff : offset ≤ 2 ^ mem.pageShift) (hpos : length ≠ 0)
    (hpage : pages[m * mem.bufPerMap + n]? = some a) :
    let bytes := min (2 ^ mem.pageShift - offset) length
    let as := List.range' (a + offset) bytes
    let st' := st.transfer dir as pos
    let crc' := crc.map fun c => crc32.update c (st.moved dir as pos)
    memCopyLoop crc32 mem dir (left + 1) m n offset length pos (st, crc) =
      if n + 1 = mem.bufPerMap then
        memCopyLoop crc32 mem dir left (m + 1) 0 0 (length - bytes) (pos + bytes) (st', crc')
      else
        memCopyLoop crc32 mem dir left m (n + 1) 0 (length - bytes) (pos + bytes) (st', crc') := by
  intro bytes as st' crc'
  have hlt : m * mem.bufPerMap + n < pages.length := (List.getElem?_eq_some_iff.mp hpage).1
  have hst : st.memcpy dir (a + offset) pos bytes = st' := st.memcpy_eq_transfer _ _ _
  have hcrc : (crc.map fun c =>
      crc32.update c ((st.memcpy dir (a + offset) pos bytes).dest dir (a + offset) pos bytes)) =
        crc' := by
    simp only [CopyBytes.dest_memcpy]
    rfl
  rw [memCopyLoop, if_neg hpos, h.bufAt_page hn hpage]
  simp only [bind, Except.bind, h.bytes_eq hoff, Int.toNat_natCast]
  rw [if_neg (by omega)]
  rw [hcrc, hst]
  by_cases hend : n + 1 = mem.bufPerMap
  · have hnext : m + 1 < mem.numMap := by
      apply h.map_lt (n := 0)
      rw [Nat.add_mul, Nat.one_mul]
      omega
    rw [if_pos hend, if_pos hend, loadMap_ok h.map hnext]
  · rw [if_neg hend, if_neg hend]

/-- The loop moves the bytes of the pages from the cursor on, and their checksum is carried on. -/
theorem memCopyLoop_spec (h : mem.Holds pages garbage) {left offset length pos : Nat}
    {st : CopyBytes} {crc : Option UInt32} (hn : n < mem.bufPerMap)
    (hoff : offset ≤ 2 ^ mem.pageShift)
    (hin : (m * mem.bufPerMap + n) * 2 ^ mem.pageShift + offset + length ≤
      pages.length * 2 ^ mem.pageShift)
    (hleft : pages.length ≤ m * mem.bufPerMap + n + left) :
    ∃ as, pageBytes pages mem.pageShift
        ((m * mem.bufPerMap + n) * 2 ^ mem.pageShift + offset) length = some as ∧
      memCopyLoop crc32 mem dir left m n offset length pos (st, crc) =
        .ok (st.transfer dir as pos,
          crc.map fun c => crc32.update c (st.moved dir as pos)) := by
  have hdone : ∀ st : CopyBytes, ∀ crc : Option UInt32, ∀ pos : Nat,
      (crc.map fun c => crc32.update c (st.moved dir [] pos)) = crc := by
    intro st crc pos
    have hnil : st.moved dir [] pos = [] := by cases dir <;> rfl
    simp [hnil, crc32.update_nil]
  induction left generalizing m n offset length pos st crc with
  | zero =>
    have hzero : length = 0 := by
      have hle := Nat.mul_le_mul_right (2 ^ mem.pageShift) hleft
      rw [Nat.add_zero] at hle
      omega
    subst hzero
    refine ⟨[], rfl, ?_⟩
    rw [memCopyLoop, if_pos rfl, hdone]
    rfl
  | succ left ih =>
    by_cases hzero : length = 0
    · subst hzero
      refine ⟨[], rfl, ?_⟩
      rw [memCopyLoop, if_pos rfl, hdone]
      rfl
    · have hlt : m * mem.bufPerMap + n < pages.length :=
        Nat.lt_of_mul_lt_mul_right (Nat.lt_of_lt_of_le
          (Nat.lt_add_of_pos_right (Nat.pos_of_ne_zero hzero))
          ((Nat.add_le_add_right (Nat.le_add_right _ offset) length).trans hin))
      obtain ⟨a, hpage⟩ : ∃ a, pages[m * mem.bufPerMap + n]? = some a :=
        ⟨_, List.getElem?_eq_getElem hlt⟩
      rw [h.memCopyLoop_turn left hn hoff hzero hpage]
      -- the bytes of this page
      have hchunk := @pageBytes_page pages mem.pageShift a (m * mem.bufPerMap + n) offset
        (min (2 ^ mem.pageShift - offset) length) hpage
        (by rw [Nat.add_comm]; exact Nat.add_le_of_le_sub hoff (Nat.min_le_left _ _))
      generalize hbytes : min (2 ^ mem.pageShift - offset) length = bytes at hchunk ⊢
      -- the bytes behind it, from the next cursor on
      have hnext : ∀ m' n', n' < mem.bufPerMap →
          m' * mem.bufPerMap + n' = m * mem.bufPerMap + n + 1 →
          ∃ as, pageBytes pages mem.pageShift
              ((m * mem.bufPerMap + n) * 2 ^ mem.pageShift + offset) length = some as ∧
            memCopyLoop crc32 mem dir left m' n' 0 (length - bytes) (pos + bytes)
              (st.transfer dir (List.range' (a + offset) bytes) pos,
                crc.map fun c => crc32.update c
                  (st.moved dir (List.range' (a + offset) bytes) pos)) =
              .ok (st.transfer dir as pos,
                crc.map fun c => crc32.update c (st.moved dir as pos)) := by
        intro m' n' hn' hj
        have hrest : (m * mem.bufPerMap + n + 1) * 2 ^ mem.pageShift + 0 + (length - bytes) ≤
            pages.length * 2 ^ mem.pageShift := by
          have hpages := Nat.mul_le_mul_right (2 ^ mem.pageShift) (Nat.succ_le_of_lt hlt)
          rw [Nat.succ_eq_add_one] at hpages
          rw [Nat.add_mul, Nat.one_mul] at hpages ⊢
          omega
        obtain ⟨as, has, hloop⟩ := @ih m' n' 0 (length - bytes) (pos + bytes)
          (st.transfer dir (List.range' (a + offset) bytes) pos)
          (crc.map fun c => crc32.update c
            (st.moved dir (List.range' (a + offset) bytes) pos))
          hn' (Nat.zero_le _) (by rw [hj]; exact hrest) (by omega)
        have hall : pageBytes pages mem.pageShift
            ((m * mem.bufPerMap + n) * 2 ^ mem.pageShift + offset) length =
              some (List.range' (a + offset) bytes ++ as) := by
          have hlen : length = bytes + (length - bytes) := by omega
          rw [hlen]
          apply pageBytes_add _ _ _ _ _ hchunk
          by_cases hend : length - bytes = 0
          · rw [hend] at has ⊢
            exact has
          · rw [hj, Nat.add_mul, Nat.one_mul, Nat.add_zero] at has
            rw [Nat.add_assoc, show offset + bytes = 2 ^ mem.pageShift by omega]
            exact has
        refine ⟨_, hall, hloop.trans ?_⟩
        rw [CopyBytes.transfer_append, CopyBytes.moved_append, length_range', Option.map_map]
        simp only [Function.comp_def, crc32.update_append]
      by_cases hend : n + 1 = mem.bufPerMap
      · rw [if_pos hend]
        exact hnext (m + 1) 0 (bufPerMap_pos mem) (by rw [Nat.add_mul, Nat.one_mul]; omega)
      · rw [if_neg hend]
        exact hnext m (n + 1) (Nat.lt_of_le_of_ne hn hend) rfl

/-- With pages of one byte, the walk ends at the buffer of the page. -/
theorem lookupWalk_spec (h : mem.Holds pages garbage) (hshift : mem.pageShift = 0) {left x : Nat}
    (hn : n < mem.bufPerMap) (hx : m * mem.bufPerMap + n ≤ x) (hlt : x < pages.length)
    (hleft : x < m * mem.bufPerMap + n + left) :
    lookupWalk mem left m n (x - (m * mem.bufPerMap + n)) =
      .ok (x / mem.bufPerMap, x % mem.bufPerMap, 0) := by
  induction left generalizing m n with
  | zero => omega
  | succ left ih =>
    obtain ⟨a, hpage⟩ : ∃ a, pages[m * mem.bufPerMap + n]? = some a :=
      ⟨_, List.getElem?_eq_getElem (hx.trans_lt hlt)⟩
    rw [lookupWalk, h.bufAt_page hn hpage, hshift]
    simp only [bind, Except.bind, Nat.pow_zero]
    by_cases hhere : m * mem.bufPerMap + n = x
    · rw [if_neg (by omega), ← hhere, Nat.mul_comm, Nat.mul_add_div (bufPerMap_pos mem),
        Nat.mul_add_mod, Nat.div_eq_of_lt hn, Nat.mod_eq_of_lt hn, Nat.sub_self]
      rfl
    · rw [if_pos (by omega), Nat.sub_sub]
      by_cases hend : n + 1 = mem.bufPerMap
      · have hcursor : m * mem.bufPerMap + n + 1 = (m + 1) * mem.bufPerMap + 0 := by
          rw [Nat.add_mul, Nat.one_mul]
          omega
        rw [if_pos hend, hcursor]
        exact ih (bufPerMap_pos mem) (by omega) (by omega)
      · rw [if_neg hend, Nat.add_assoc (m * mem.bufPerMap)]
        exact ih (Nat.lt_of_le_of_ne hn hend) (by omega) (by omega)

/-- With larger pages, the indices are the digits of the position. -/
theorem lookupIova_shift (h : mem.Holds pages garbage) (hshift : mem.pageShift ≠ 0)
    {iova : UInt64} (hpos : mem.position iova < 2 ^ 64) :
    lookupIova mem iova =
      .ok (mem.position iova / 2 ^ mem.pageShift / mem.bufPerMap % 2 ^ 32,
        mem.position iova / 2 ^ mem.pageShift % mem.bufPerMap,
        mem.position iova % 2 ^ mem.pageShift) := by
  unfold lookupIova
  rw [if_pos hshift, h.mapMask, h.pageMask]
  change Except.ok ((mem.position iova % 2 ^ 64) >>> _ >>> _ % _,
    (mem.position iova % 2 ^ 64) >>> _ &&& _, mem.position iova % 2 ^ 64 &&& _) = _
  simp only [Nat.mod_eq_of_lt hpos, Nat.shiftRight_eq_div_pow, bufPerMap,
    Nat.and_two_pow_sub_one_eq_mod]

/-- A position in the pages is looked up as the place of its page and the offset in it. -/
theorem lookupIova_page (h : mem.Holds pages garbage) {iova : UInt64}
    (hpos : mem.position iova < 2 ^ 64)
    (hin : mem.position iova / 2 ^ mem.pageShift < pages.length) :
    lookupIova mem iova =
      .ok (mem.position iova / 2 ^ mem.pageShift / mem.bufPerMap,
        mem.position iova / 2 ^ mem.pageShift % mem.bufPerMap,
        mem.position iova % 2 ^ mem.pageShift) := by
  by_cases hshift : mem.pageShift = 0
  · have hwalk := @lookupWalk_spec mem pages garbage 0 0 h hshift (mem.numMap * mem.bufPerMap)
      (mem.position iova) (bufPerMap_pos mem) (by omega)
      (by simpa [hshift] using hin) (by have hroom := h.room; simp [hshift] at hin; omega)
    unfold lookupIova
    rw [if_neg (not_not.mpr hshift), hshift, Nat.pow_zero, Nat.div_one, Nat.mod_one]
    change lookupWalk mem _ 0 0 (mem.position iova % 2 ^ 64) = _
    rw [Nat.mod_eq_of_lt hpos]
    simpa using hwalk
  · have hm : mem.position iova / 2 ^ mem.pageShift / mem.bufPerMap < mem.numMap := by
      apply h.map_lt (n := 0)
      have hle := Nat.div_mul_le_self (mem.position iova / 2 ^ mem.pageShift) mem.bufPerMap
      omega
    have hlt := h.numMap_lt
    rw [h.lookupIova_shift hshift hpos, Nat.mod_eq_of_lt (by omega)]

theorem rxeMemCopy_spec (h : mem.Holds pages garbage) {iova : UInt64} {length : Nat}
    (hpos : mem.position iova < 2 ^ 64) (hrange : memCheckRange mem iova length = 0)
    (hin : length = 0 ∨
      mem.position iova + length ≤ pages.length * 2 ^ mem.pageShift)
    (st : CopyBytes) (crcp : Option UInt32) :
    ∃ as, pageBytes pages mem.pageShift (mem.position iova) length = some as ∧
      rxeMemCopy crc32 mem iova length dir st crcp =
        .ok (st.transfer dir as 0, crcp.map fun c => crc32.update c (st.moved dir as 0)) := by
  by_cases hzero : length = 0
  · subst hzero
    have hnil : st.moved dir [] 0 = [] := by cases dir <;> rfl
    refine ⟨[], rfl, ?_⟩
    simp only [rxeMemCopy, if_true, hnil, crc32.update_nil, Option.map_id']
    rfl
  · have hend := hin.resolve_left hzero
    have hpage : mem.position iova / 2 ^ mem.pageShift < pages.length := by
      rw [Nat.div_lt_iff_lt_mul (Nat.two_pow_pos _)]
      omega
    have hcursor : mem.position iova / 2 ^ mem.pageShift / mem.bufPerMap * mem.bufPerMap +
        mem.position iova / 2 ^ mem.pageShift % mem.bufPerMap =
          mem.position iova / 2 ^ mem.pageShift := Nat.div_add_mod' _ _
    have hplace : mem.position iova / 2 ^ mem.pageShift * 2 ^ mem.pageShift +
        mem.position iova % 2 ^ mem.pageShift = mem.position iova := Nat.div_add_mod' _ _
    have hmap := h.map_lt (m := mem.position iova / 2 ^ mem.pageShift / mem.bufPerMap)
      (n := mem.position iova / 2 ^ mem.pageShift % mem.bufPerMap) (by rw [hcursor]; exact hpage.le)
    obtain ⟨as, has, hloop⟩ := @memCopyLoop_spec mem pages garbage
      (mem.position iova / 2 ^ mem.pageShift / mem.bufPerMap)
      (mem.position iova / 2 ^ mem.pageShift % mem.bufPerMap) crc32 dir h
      (mem.numMap * mem.bufPerMap) (mem.position iova % 2 ^ mem.pageShift) length 0 st crcp
      (Nat.mod_lt _ (bufPerMap_pos mem)) (Nat.mod_lt _ (Nat.two_pow_pos _)).le
      (by rw [hcursor, hplace]; exact hend) (by have hroom := h.room; omega)
    rw [hcursor, hplace] at has
    refine ⟨as, has, ?_⟩
    have hdma : mem.type ≠ .dma := by rw [h.type]; decide
    unfold rxeMemCopy
    rw [if_neg hzero, if_neg hdma, if_neg (not_not.mpr hrange), h.lookupIova_page hpos hpage]
    simp only [bind, Except.bind, loadMap_ok h.map hmap]
    exact hloop

end RxeMem.Holds

end Rxe.Mr
