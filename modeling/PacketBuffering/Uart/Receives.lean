import PacketBuffering.Lib.Drain
import PacketBuffering.Uart.Core

/-!
# What the UART receives

The bytes of the receiver on their way through the receive FIFO to reads of `RBR`. Such a read shows the
oldest byte, and takes one off the FIFO a cycle later.

* `UartCore.reads`, `unread`: the bytes read, and those that wait.
* `UartCore.Lossless`: the cycles that lose no byte.
* **`uart_core_receives_iff`**: the bytes received are read in their order, if and only if no byte comes
  before the first read is answered, none into the full FIFO, and none in the cycle of a read that finds
  the FIFO empty.
-/

namespace PacketBuffering

namespace UartCore

open InternalFifo

variable {a : ℕ} (s : UartCore a) (i : UartCoreIn)

/-! ## Reads -/

/-- A read of `RBR` is decoded. -/
def ReadsRbr : Prop :=
  s.uart.rd.state = .idle ∧ i.axi.arvalid = true ∧ uartOffset i.axi.ar.addr = UartOffset.rbr ∧
    s.uart.wr.uartDlab = false

instance : Decidable (s.ReadsRbr i) := inferInstanceAs (Decidable (_ ∧ _))

/-- The byte in the answer to a read of `RBR` that finds one. -/
def reads : List (BitVec 8) :=
  if s.ReadsRbr i ∧ s.rxFifo.load = true then [(s.clock i).uart.rd.rdata.setWidth 8] else []

/-- The bytes in the FIFO that have not been read; the one read last stays there for a cycle. -/
def unread : List (BitVec 8) := if s.uart.rd.rxFifoPull then s.rxFifo.words.tail else s.rxFifo.words

/-- **A cycle that loses no byte.** -/
def Lossless : Prop :=
  s.rx.core.rxValid = true → s.uart.rd.rxFifoReset = false ∧
    (s.rxFifo.full = false ∨ s.uart.rd.rxFifoPull = true) ∧ (s.ReadsRbr i → s.rxFifo.load = true)

/-- The registers of the receive side between cycles. -/
structure ReadInv (s : UartCore a) : Prop where
  holds : RingHolds s.rxFifo s.rxFifo.words
  pull : s.uart.rd.rxFifoPull = true → s.uart.rd.state = .ack
  rst : s.uart.rd.rxFifoReset = true → s.rxFifo.words = []
  boot : s.uart.rd.state = .reset ∨ s.uart.rd.state = .config → s.uart.rd.rxFifoReset = true

variable {s i}

/-- **A cycle of the read machine.** -/
theorem rd_cases (s : UartCore a) (i : UartCoreIn) :
    ((s.uart.rd.state = .reset ∨ s.uart.rd.state = .config) ∧ (s.clock i).uart.rd.rxFifoReset = true ∧
      ((s.clock i).uart.rd.rxFifoPull = true → s.uart.rd.rxFifoPull = true)) ∨
    (s.uart.rd.state = .ack ∧ (s.clock i).uart.rd.state = .idle ∧
      (s.clock i).uart.rd.rxFifoReset = false ∧ (s.clock i).uart.rd.rxFifoPull = false) ∨
    (s.uart.rd.state = .idle ∧ ¬ s.ReadsRbr i ∧
      (s.clock i).uart.rd.rxFifoReset = s.uart.rd.rxFifoReset ∧
      (s.clock i).uart.rd.rxFifoPull = s.uart.rd.rxFifoPull ∧
      ((s.clock i).uart.rd.state = .idle ∨ (s.clock i).uart.rd.state = .ack)) ∨
    (s.ReadsRbr i ∧ (s.clock i).uart.rd.rxFifoReset = s.uart.rd.rxFifoReset ∧
      (s.clock i).uart.rd.rxFifoPull = true ∧ (s.clock i).uart.rd.state = .ack ∧
      (s.clock i).uart.rd.rdata = s.rxFifo.dataO.setWidth 32) := by
  have hrd : (s.clock i).uart.rd = { s.uart.rd.next (s.uart.readIn i.axi s.status) with
      syncRden := s.uart.rd.syncRdenNext (s.uart.readIn i.axi s.status) } := rfl
  rw [hrd]
  unfold UartReader.next
  cases hstate : s.uart.rd.state with
  | reset => exact .inl ⟨.inl rfl, rfl, fun h => absurd h Bool.false_ne_true⟩
  | config => exact .inl ⟨.inr rfl, rfl, id⟩
  | ack => exact .inr (.inl ⟨rfl, rfl, rfl, rfl⟩)
  | idle =>
    cases hvalid : i.axi.arvalid with
    | false =>
      have hnot : ¬ s.ReadsRbr i := fun h => absurd (hvalid.symm.trans h.2.1) Bool.false_ne_true
      have hin : (s.uart.readIn i.axi s.status).arvalid = false := hvalid
      rw [if_neg (by rw [hin]; exact Bool.false_ne_true)]
      exact .inr (.inr (.inl ⟨rfl, hnot, rfl, rfl, .inl rfl⟩))
    | true =>
      have hin : (s.uart.readIn i.axi s.status).arvalid = true := hvalid
      rw [if_pos hin]
      by_cases hrbr : s.ReadsRbr i
      · have haddr : uartOffset (s.uart.readIn i.axi s.status).ar.addr = UartOffset.rbr := hrbr.2.2.1
        have hdlab : (s.uart.readIn i.axi s.status).dlab = false := hrbr.2.2.2
        refine .inr (.inr (.inr ⟨hrbr, ?_⟩))
        rw [UartReader.decode, if_pos haddr, if_pos (by rw [hdlab]; rfl)]
        exact ⟨rfl, rfl, rfl, rfl⟩
      · refine .inr (.inr (.inl ⟨rfl, hrbr, ?_⟩))
        unfold UartReader.decode
        by_cases haddr : uartOffset (s.uart.readIn i.axi s.status).ar.addr = UartOffset.rbr
        · have hdlab : (s.uart.readIn i.axi s.status).dlab = true := by
            cases hd : (s.uart.readIn i.axi s.status).dlab with
            | false => exact absurd ⟨hstate, hvalid, haddr, hd⟩ hrbr
            | true => rfl
          rw [if_pos haddr, if_neg (by rw [hdlab]; exact Bool.false_ne_true)]
          exact ⟨rfl, rfl, .inr rfl⟩
        · rw [if_neg haddr]
          split_ifs <;> exact ⟨rfl, rfl, .inr rfl⟩

namespace ReadInv

theorem reset (txMem rxMem : BitVec a → BitVec 8) : ReadInv (reset txMem rxMem) where
  holds := by
    show RingHolds (InternalFifo.reset rxMem) (InternalFifo.reset rxMem).words
    rw [words_eq (holds_reset rxMem)]
    exact holds_reset rxMem
  pull := fun h => absurd h Bool.false_ne_true
  rst := fun _ => words_eq (holds_reset rxMem)
  boot := fun _ => rfl

variable (h : s.ReadInv)
include h

theorem words_clock : (s.clock i).rxFifo.words = queueStep (2 ^ a) s.rxFifo.words s.rxFifoIn :=
  (ringHolds_clock h.holds s.rxFifoIn).2

theorem clock : (s.clock i).ReadInv := by
  have hempty : s.uart.rd.rxFifoReset = true → (s.clock i).rxFifo.words = [] := by
    intro hrst
    rw [h.words_clock, queueStep, rxFifoIn, hrst]
    rfl
  refine ⟨(ringHolds_clock h.holds s.rxFifoIn).1, ?_, ?_, ?_⟩
  · intro hpull
    rcases rd_cases s i with ⟨hstate, -, hp⟩ | ⟨-, -, -, hp⟩ | ⟨hstate, -, -, hp, -⟩ | ⟨-, -, -, hack, -⟩
    · rcases hstate with hstate | hstate <;> exact absurd (hstate.symm.trans (h.pull (hp hpull))) (by decide)
    · exact absurd (hp.symm.trans hpull) Bool.false_ne_true
    · exact absurd (hstate.symm.trans (h.pull (hp ▸ hpull))) (by decide)
    · exact hack
  · intro hrst
    rcases rd_cases s i with ⟨hstate, -, -⟩ | ⟨-, -, hr, -⟩ | ⟨-, -, hr, -⟩ | ⟨-, hr, -⟩
    · exact hempty (h.boot hstate)
    · exact absurd (hr.symm.trans hrst) Bool.false_ne_true
    · exact hempty (hr ▸ hrst)
    · exact hempty (hr ▸ hrst)
  · intro hboot
    rcases rd_cases s i with ⟨-, hr, -⟩ | ⟨-, hidle, -⟩ | ⟨-, -, -, -, hidle⟩ | ⟨-, -, -, hack, -⟩
    · exact hr
    · simp [hidle] at hboot
    · rcases hidle with hidle | hidle <;> simp [hidle] at hboot
    · simp [hack] at hboot

theorem pull_clock : (s.clock i).uart.rd.rxFifoPull = decide (s.ReadsRbr i) := by
  have hpull : s.uart.rd.state ≠ .ack → s.uart.rd.rxFifoPull = false := by
    intro hack
    by_contra hpull
    exact hack (h.pull (Bool.eq_true_of_not_eq_false hpull))
  rcases rd_cases s i with ⟨hstate, -, hp⟩ | ⟨hstate, -, -, hp⟩ | ⟨hstate, hr, -, hp, -⟩ | ⟨hr, -, hp, -⟩
  · have hnot : ¬ s.ReadsRbr i := fun hr => by
      rcases hstate with hstate | hstate <;> exact absurd (hstate.symm.trans hr.1) (by decide)
    have hoff : s.uart.rd.rxFifoPull = false := hpull (by rcases hstate with hs | hs <;> simp [hs])
    rw [decide_eq_false hnot]
    by_contra hne
    exact absurd (hoff.symm.trans (hp (Bool.eq_true_of_not_eq_false hne))) Bool.false_ne_true
  · have hnot : ¬ s.ReadsRbr i := fun hr => absurd (hstate.symm.trans hr.1) (by decide)
    rw [hp, decide_eq_false hnot]
  · rw [hp, decide_eq_false hr, hpull (by simp [hstate])]
  · rw [hp, decide_eq_true hr]

theorem unread_clock : (s.clock i).unread =
    if s.ReadsRbr i then (s.clock i).rxFifo.words.tail else (s.clock i).rxFifo.words := by
  unfold unread
  rw [h.pull_clock]
  simp only [decide_eq_true_eq]

theorem reads_eq : s.reads i = if s.ReadsRbr i then s.rxFifo.words.take 1 else [] := by
  unfold reads
  by_cases hr : s.ReadsRbr i
  · obtain ⟨hstate, -⟩ | ⟨hstate, -⟩ | ⟨-, hnot, -⟩ | ⟨-, -, -, -, hdata⟩ := rd_cases s i
    · rcases hstate with hstate | hstate <;> exact absurd (hstate.symm.trans hr.1) (by decide)
    · exact absurd (hstate.symm.trans hr.1) (by decide)
    · exact absurd hr hnot
    · have hbyte : (s.rxFifo.dataO.setWidth 32).setWidth 8 = s.rxFifo.dataO := by
        rw [BitVec.setWidth_setWidth_of_le _ (by omega), BitVec.setWidth_eq]
      rw [hdata, hbyte, load_eq h.holds, dataO_eq h.holds]
      cases s.rxFifo.words with
      | nil => simp
      | cons x q => simp [hr]
  · simp [hr]

theorem pull_of_readsRbr (hr : s.ReadsRbr i) : s.uart.rd.rxFifoPull = false := by
  by_contra hpull
  exact absurd (hr.1.symm.trans (h.pull (Bool.eq_true_of_not_eq_false hpull))) (by decide)

/-- **A cycle without a loss**: the byte read is the oldest one, and the byte that comes is behind the
others. -/
theorem pass (hok : s.Lossless i) :
    s.reads i ++ (s.clock i).unread = s.unread ++ s.results i := by
  rw [h.reads_eq, h.unread_clock, h.words_clock]
  unfold unread results RxCore.results queueStep rxFifoIn
  cases hvalid : s.rx.core.rxValid with
  | false =>
    cases hrst : s.uart.rd.rxFifoReset with
    | true => simp [h.rst hrst]
    | false =>
      by_cases hr : s.ReadsRbr i
      · cases s.rxFifo.words <;> simp [hr, h.pull_of_readsRbr hr]
      · cases hpull : s.uart.rd.rxFifoPull <;> simp [hr]
  | true =>
    obtain ⟨hrst, hroom, hload⟩ := hok hvalid
    cases hpull : s.uart.rd.rxFifoPull with
    | true =>
      have hr : ¬ s.ReadsRbr i := fun hr => absurd (hpull.symm.trans (h.pull_of_readsRbr hr)) (by decide)
      simp [hr, hrst]
    | false =>
      have hfull : s.rxFifo.words.length ≠ 2 ^ a := by
        have := hroom.resolve_right (by simp [hpull])
        rw [full_eq h.holds] at this
        exact of_decide_eq_false this
      by_cases hr : s.ReadsRbr i
      · have hsome := hload hr
        rw [load_eq h.holds] at hsome
        cases hq : s.rxFifo.words with
        | nil => simp [hq] at hsome
        | cons x q =>
          rw [hq, List.length_cons] at hfull
          simp [hr, hrst, hfull]
      · simp [hr, hrst, hfull]

/-- **Any other cycle** loses a byte: it does not get into the FIFO, or the read that came too early takes
it off, or it takes the place of another one. -/
theorem loss (hbad : ¬ s.Lossless i) :
    (s.reads i).length + (s.clock i).unread.length < s.unread.length + (s.results i).length := by
  have hvalid : s.rx.core.rxValid = true := by
    by_contra hvalid
    exact hbad fun h => absurd h hvalid
  rw [h.reads_eq, h.unread_clock, h.words_clock]
  unfold unread results RxCore.results queueStep rxFifoIn
  cases hrst : s.uart.rd.rxFifoReset with
  | true => simp [hvalid, h.rst hrst]
  | false =>
    have hload : s.uart.rd.rxFifoPull = true ∨ s.rxFifo.full = false →
        s.ReadsRbr i ∧ s.rxFifo.words = [] := by
      intro hroom
      by_contra hnot
      refine hbad fun _ => ⟨hrst, hroom.symm, fun hr => ?_⟩
      rw [load_eq h.holds]
      cases hq : s.rxFifo.words with
      | nil => exact absurd ⟨hr, hq⟩ hnot
      | cons x q => rfl
    cases hpull : s.uart.rd.rxFifoPull with
    | true =>
      have hr := (hload (.inl hpull)).1
      exact absurd (hpull.symm.trans (h.pull_of_readsRbr hr)) (by decide)
    | false =>
      by_cases hfull : s.rxFifo.words.length = 2 ^ a
      · have hpos := Nat.two_pow_pos a
        by_cases hr : s.ReadsRbr i
        · simp [hr, hvalid, hfull]
          omega
        · simp [hr, hvalid, hfull]
      · obtain ⟨hr, hnil⟩ := hload (.inr (by rw [full_eq h.holds, decide_eq_false hfull]))
        have hpos := Nat.two_pow_pos a
        have hroom : ¬ 0 = 2 ^ a := by omega
        simp [hr, hvalid, hnil, hroom]

end ReadInv

end UartCore

open UartCore in
/-- **What the UART receives**, in every run from reset, whatever comes on the line and is read and written:
the bytes read from `RBR`, with those that wait in the FIFO, are the bytes that the receiver shows, in
their order, if and only if no cycle loses one. That happens to the bytes that come before the first read
is answered, to those that come into the full FIFO, and to one that comes in the very cycle in which a
read finds the FIFO empty. -/
theorem uart_core_receives_iff {a : ℕ} (txMem rxMem : BitVec a → BitVec 8) (is : List UartCoreIn) :
    log clock reads (reset txMem rxMem) is ++ (run clock (reset txMem rxMem) is).unread =
        log clock results (reset txMem rxMem) is ↔
      Along clock Lossless (reset txMem rxMem) is := by
  have hinv := UartCore.ReadInv.reset txMem rxMem
  have hempty : (reset txMem rxMem).unread = [] := by
    rw [unread, if_neg (by exact Bool.false_ne_true)]
    exact hinv.rst rfl
  have hlaw : log clock reads (reset txMem rxMem) is ++ (run clock (reset txMem rxMem) is).unread =
      (reset txMem rxMem).unread ++ log clock results (reset txMem rxMem) is ↔
        Along clock Lossless (reset txMem rxMem) is :=
    log_buffer_iff UartCore.ReadInv unread (fun _ _ h => UartCore.ReadInv.clock h)
      (fun _ _ h hok => UartCore.ReadInv.pass h hok) (fun _ _ h hbad => UartCore.ReadInv.loss h hbad) hinv is
  rwa [hempty, List.nil_append] at hlaw

end PacketBuffering
