import PacketBuffering.Ram.Memory

/-!
# Narrow bursts of the AXI memory

The size of a beat is not read: the word address goes up by one in every beat.

* `IncrReq`: an aligned incrementing burst of a size up to a word; `IncrReq.word`: the word of a beat by
  its size; `IncrReq.Fits`: the bursts for which that is the word the memory takes.
* `AxiRam.Addressed`: every beat of a run is stored to, or loaded from, the word of its byte address.
* **`AxiRam.addressed_iff`**: the runs in which this is so.
-/

namespace PacketBuffering

variable {R : RamParams}

/-! ## Requests with a size -/

variable (R) in
/-- **An incrementing burst** of beats of `2 ^ size` bytes, from an address aligned to that. -/
structure IncrReq extends BurstReq R where
  size : ℕ
  size_le : size ≤ 2
  aligned : 2 ^ size ∣ addr.toNat

namespace IncrReq

variable (r : IncrReq R)

/-- The number of beats. -/
def beats : ℕ := r.len.toNat + 1

/-- The word that contains the first byte of beat `i`, modulo the size of the memory. -/
def word (i : ℕ) : BitVec R.wordBits := BitVec.ofNat _ ((r.addr.toNat + i * 2 ^ r.size) / 4)

/-- The words of the beats. -/
def words : List (BitVec R.wordBits) := (List.range r.beats).map r.word

/-- The first `n` beats are in consecutive words. -/
def Fits (n : ℕ) : Prop :=
  r.size = 2 ∨ n ≤ 1 ∨ n = 2 ∧ r.addr.toNat % 4 + 2 ^ r.size = 4

instance (n : ℕ) : Decidable (r.Fits n) := inferInstanceAs (Decidable (_ ∨ _))

theorem ofNat_succ_ne (k : ℕ) : BitVec.ofNat R.wordBits (k + 1) ≠ BitVec.ofNat R.wordBits k := by
  intro h
  have hbits : 0 < R.wordBits := Nat.sub_pos_of_lt R.two_lt_memAddrBits
  rw [BitVec.ofNat_add, add_eq_left, ← BitVec.toNat_inj, BitVec.toNat_ofNat,
    Nat.mod_eq_of_lt (Nat.one_lt_two_pow hbits.ne')] at h
  simp at h

variable {r}

theorem two_pow_size (hsize : r.size ≠ 2) :
    2 ^ r.size = 1 ∨ 2 ^ r.size = 2 ∧ r.addr.toNat % 2 = 0 := by
  have hle := r.size_le
  obtain h | h : r.size = 0 ∨ r.size = 1 := by omega
  · exact .inl (by rw [h, pow_zero])
  · have haligned := r.aligned
    rw [h, pow_one] at haligned
    exact .inr ⟨by rw [h, pow_one], Nat.mod_eq_zero_of_dvd haligned⟩

theorem beatAddr_one (hsize : r.size ≠ 2) :
    r.beatAddr 1 = r.word 1 ↔ r.addr.toNat % 4 + 2 ^ r.size = 4 := by
  have hpow := two_pow_size hsize
  rw [BurstReq.beatAddr, word, Nat.one_mul]
  constructor
  · intro h
    by_contra hne
    have hsame : (r.addr.toNat + 2 ^ r.size) / 4 = r.addr.toNat / 4 := by omega
    rw [hsame] at h
    exact ofNat_succ_ne _ h
  · intro h
    congr 1
    omega

theorem beatAddr_two_ne (hsize : r.size ≠ 2) (h : r.addr.toNat % 4 + 2 ^ r.size = 4) :
    r.beatAddr 2 ≠ r.word 2 := by
  have hpow := two_pow_size hsize
  have hword : (r.addr.toNat + 2 * 2 ^ r.size) / 4 = r.addr.toNat / 4 + 1 := by omega
  rw [BurstReq.beatAddr, word, hword]
  exact ofNat_succ_ne _

/-- **The words of the first `n` beats.** -/
theorem beatAddr_eq_word_iff (n : ℕ) : (∀ i < n, r.beatAddr i = r.word i) ↔ r.Fits n := by
  have hzero : r.beatAddr 0 = r.word 0 := by simp [BurstReq.beatAddr, word]
  by_cases hsize : r.size = 2
  · refine iff_of_true (fun i _ => ?_) (.inl hsize)
    rw [BurstReq.beatAddr, word, hsize]
    congr 1
    omega
  · constructor
    · intro h
      refine .inr ?_
      by_contra hne
      rw [not_or, not_and, not_le] at hne
      have hone := (beatAddr_one hsize).mp (h 1 hne.1)
      exact beatAddr_two_ne hsize hone (h 2 (by omega))
    · intro h i hi
      obtain rfl | hpos : i = 0 ∨ 0 < i := i.eq_zero_or_pos
      · exact hzero
      · obtain h | h | ⟨rfl, hend⟩ := h
        · exact absurd h hsize
        · omega
        · obtain rfl : i = 1 := by omega
          exact (beatAddr_one hsize).mpr hend

end IncrReq

/-! ## Runs -/

variable (R) in
/-- The inputs of one cycle, of a master that asks for incrementing bursts only. -/
structure IncrIn where
  awvalid : Bool
  aw : IncrReq R
  wvalid : Bool
  w : WBeat
  bready : Bool
  arvalid : Bool
  ar : IncrReq R
  rready : Bool

/-- What the memory reads of them. -/
def IncrIn.toRamIn (i : IncrIn R) : RamIn R where
  awvalid := i.awvalid
  aw := i.aw.toBurstReq
  wvalid := i.wvalid
  w := i.w
  bready := i.bready
  arvalid := i.arvalid
  ar := i.ar.toBurstReq
  rready := i.rready

namespace AxiRam

variable (m : LaneMem R.wordBits) (es : List (IncrIn R))

/-- One cycle under such inputs. -/
def incrStep (s : AxiRam R) (i : IncrIn R) : AxiRam R := s.step i.toRamIn

/-- The write requests of a run, with their sizes. -/
def incrAws : List (IncrReq R) :=
  log incrStep (fun s i => if s.wr.awFire i.toRamIn then [i.aw] else []) (reset m) es

/-- The read requests of a run, with their sizes. -/
def incrArs : List (IncrReq R) :=
  log incrStep (fun s i => if s.rd.arFire i.toRamIn then [i.ar] else []) (reset m) es

/-- **The beats are addressed by their sizes**: the stores and the loads of the run, in order, are at the
words of the beats that are asked for. -/
def Addressed : Prop :=
  (storeLog m (es.map IncrIn.toRamIn)).map Store.addr <+: (incrAws m es).flatMap IncrReq.words ∧
    (loadLog m (es.map IncrIn.toRamIn)).map (fun l => l.1.addr) <+:
      (incrArs m es).flatMap IncrReq.words

theorem log_incrStep {ο : Type*} (obs : AxiRam R → RamIn R → List ο) (s : AxiRam R) :
    log incrStep (fun s i => obs s i.toRamIn) s es = log step obs s (es.map IncrIn.toRamIn) := by
  induction es generalizing s with
  | nil => rfl
  | cons i es ih => rw [log_cons, ih, List.map_cons, log_cons]; rfl

theorem map_incrAws : (incrAws m es).map IncrReq.toBurstReq = awLog m (es.map IncrIn.toRamIn) := by
  rw [awLog, ← log_incrStep, incrAws, ← log_map]
  congr 1
  funext s i
  unfold RamWriter.aws
  split_ifs <;> rfl

theorem map_incrArs : (incrArs m es).map IncrReq.toBurstReq = arLog m (es.map IncrIn.toRamIn) := by
  rw [arLog, ← log_incrStep, incrArs, ← log_map]
  congr 1
  funext s i
  unfold RamReader.ars
  split_ifs <;> rfl

theorem map_addr_slots (rs : List (IncrReq R)) :
    ((rs.map IncrReq.toBurstReq).flatMap BurstReq.slots).map Slot.addr =
      rs.flatMap fun r => (List.range r.beats).map r.beatAddr := by
  rw [List.flatMap_map, List.map_flatMap]
  refine List.flatMap_congr fun r _ => ?_
  rw [BurstReq.slots, List.map_map]
  rfl

theorem map_addr_storeLog (es : List (RamIn R)) :
    (storeLog m es).map Store.addr = (takenLog m es).map Slot.addr := by
  have hfst : (Function.uncurry fun (l : Slot R) (w : WBeat) => (l.place w).addr) =
      Slot.addr ∘ Prod.fst := rfl
  rw [storeLog_eq, List.map_zipWith, ← List.map_uncurry_zip_eq_zipWith, hfst, ← List.map_map,
    List.map_fst_zip (length_takenLog m es).le]

/-- Beats at the words of the memory are at the words that are asked for iff every burst fits. -/
theorem isPrefix_words_iff {rs : List (IncrReq R)} {bs : List (BitVec R.wordBits)}
    (h : bs <+: rs.flatMap fun r => (List.range r.beats).map r.beatAddr) :
    bs <+: rs.flatMap IncrReq.words ↔ ∀ p ∈ shares IncrReq.beats rs bs.length, p.1.Fits p.2 := by
  have htaken : ∀ r : IncrReq R, ((List.range r.beats).map r.beatAddr).length = r.beats := by simp
  have hasked : ∀ r : IncrReq R, r.words.length = r.beats := by simp [IncrReq.words]
  refine (isPrefix_flatMap_iff htaken hasked h).trans (forall₂_congr fun p hp => ?_)
  have hle := snd_le_of_mem_shares hp
  rw [← IncrReq.beatAddr_eq_word_iff, ← List.map_take, IncrReq.words, ← List.map_take,
    List.take_range, min_eq_left hle, List.map_inj_left]
  simp

/-- **Narrow bursts**: in a run with framed write beats every beat is addressed by its size iff of each
burst with beats of less than a word at most one beat has come, or two with a word boundary between
them. -/
theorem addressed_iff
    (h : Framed (awLog m (es.map IncrIn.toRamIn)) (wLog m (es.map IncrIn.toRamIn))) :
    Addressed m es ↔
      (∀ p ∈ shares IncrReq.beats (incrAws m es) (wLog m (es.map IncrIn.toRamIn)).length,
        p.1.Fits p.2) ∧
      ∀ p ∈ shares IncrReq.beats (incrArs m es) (loadLog m (es.map IncrIn.toRamIn)).length,
        p.1.Fits p.2 := by
  have htaken := takenLog_append (markedRun_of_framed h)
  have hloaded := loadLog_append m (es.map IncrIn.toRamIn)
  have hstores : (storeLog m (es.map IncrIn.toRamIn)).map Store.addr <+:
      (incrAws m es).flatMap fun r => (List.range r.beats).map r.beatAddr := by
    rw [map_addr_storeLog, ← map_addr_slots, map_incrAws, ← htaken]
    exact (List.prefix_append _ _).map _
  have hloads : (loadLog m (es.map IncrIn.toRamIn)).map (fun l => l.1.addr) <+:
      (incrArs m es).flatMap fun r => (List.range r.beats).map r.beatAddr := by
    rw [← map_addr_slots, map_incrArs, ← hloaded, List.map_append, List.map_map]
    exact List.prefix_append _ _
  rw [Addressed, isPrefix_words_iff hstores, isPrefix_words_iff hloads, List.length_map,
    List.length_map, storeLog_eq, List.length_zipWith, length_takenLog, min_self]

/-- A burst of `len + 1` bytes. -/
def bytes (addr : BitVec 32) (len : BitVec 8) : IncrReq .default :=
  ⟨⟨0, addr, len⟩, 0, Nat.zero_le 2, Nat.one_dvd _⟩

/-- No request, responses accepted. -/
def incrIdle : IncrIn .default :=
  ⟨false, bytes 0 0, false, ⟨0, 0, false⟩, true, false, bytes 0 0, true⟩

/-- Two bytes are written from `addr`, under the strobes of their lanes, and read back. -/
def bytesRun (addr : BitVec 32) (strb strb' : BitVec 4) : List (IncrIn .default) :=
  [{ incrIdle with awvalid := true, aw := bytes addr 1 },
    { incrIdle with wvalid := true, w := ⟨0x41414141, strb, false⟩ },
    { incrIdle with wvalid := true, w := ⟨0x42424242, strb', true⟩ },
    incrIdle,
    { incrIdle with arvalid := true, ar := bytes addr 1 },
    incrIdle,
    incrIdle]

/-- The bytes at 3 and 4 are addressed by their size. -/
theorem addressed_boundary :
    Addressed (fun _ _ => 0) (bytesRun 3 0b1000 0b0001) := by
  have hframed : Framed (awLog (fun _ _ => 0) ((bytesRun 3 0b1000 0b0001).map IncrIn.toRamIn))
      (wLog (fun _ _ => 0) ((bytesRun 3 0b1000 0b0001).map IncrIn.toRamIn)) :=
    ⟨[⟨0, 3, 1⟩], List.prefix_refl _, by decide⟩
  exact (addressed_iff _ _ hframed).mpr (by decide)

/-- The byte of address 1 is stored to the second word, and read from there. -/
theorem second_byte_misplaced :
    let es := bytesRun 0 0b0001 0b0010
    Framed (awLog (fun _ _ => 0) (es.map IncrIn.toRamIn))
        (wLog (fun _ _ => 0) (es.map IncrIn.toRamIn)) ∧
      (storeLog (fun _ _ => 0) (es.map IncrIn.toRamIn)).map Store.addr = [0, 1] ∧
      (incrAws (fun _ _ => 0) es).flatMap IncrReq.words = [0, 0] ∧
      ¬ Addressed (fun _ _ => 0) es := by
  refine ⟨⟨[⟨0, 0, 1⟩], List.prefix_refl _, by decide⟩, by decide, by decide, ?_⟩
  unfold Addressed
  decide

end AxiRam

end PacketBuffering
