import DotMatrix.Proofs.Requests

/-!
# Interrupt service

Pending interrupts are served one after the other, the lowest bit first. A handler that returns at
once gives everything back: `Path.service` is the dispatch and the return of one source, and the
path through all pending sources is put together from it.
-/

namespace DotMatrix

namespace Interrupt

/-- The sources whose bits are set, in the order of their priority. -/
def sources (bits : UInt8) : List Interrupt :=
  all.filter fun i => Byte.bit bits i.index

theorem mem_sources_iff {bits : UInt8} {i : Interrupt} :
    i ∈ sources bits ↔ Byte.bit bits i.index = true := by
  rw [sources, List.mem_filter]
  exact and_iff_right (by cases i <;> decide)

theorem sources_pairwise (bits : UInt8) : (sources bits).Pairwise fun i j => i.index < j.index := by
  have hAll : all.Pairwise fun i j => i.index < j.index := by decide
  exact hAll.filter _

theorem highestPriority?_eq_head? (bits : UInt8) :
    highestPriority? bits = (sources bits).head? :=
  List.head?_filter.symm

theorem sources_and_not {bits : UInt8} {i : Interrupt} {rest : List Interrupt}
    (h : sources bits = i :: rest) : sources (bits &&& ~~~i.mask) = rest := by
  have hPairwise := sources_pairwise bits
  rw [h, List.pairwise_cons] at hPairwise
  have hOthers : sources (bits &&& ~~~i.mask) = (sources bits).filter fun j => decide (j ≠ i) := by
    rw [sources, sources, List.filter_filter]
    apply List.filter_congr
    intro j _
    rw [Byte.bit_and_not, bit_mask, Bool.and_comm]
    simp only [index_inj, ne_eq, decide_not]
  have hRest : ∀ j ∈ rest, decide (j ≠ i) = true := by
    intro j hj
    have hLater := hPairwise.1 j hj
    exact decide_eq_true fun hSame => by rw [hSame] at hLater; exact Nat.lt_irrefl _ hLater
  rw [hOthers, h, List.filter_cons_of_neg (by simp), List.filter_eq_self.mpr hRest]

theorem sources_eq_nil_iff {bits : UInt8} : sources bits = [] ↔ bits &&& 0x1F = 0 := by
  rw [← highestPriority?_eq_none_iff, highestPriority?_eq_head?, List.head?_eq_none_iff]

end Interrupt

namespace Core

section

variable {M : Type} [Memory M]

/-- Steps of a core whose memory nothing else changes, with the work and the cost of each. -/
inductive Path : Core M → List (Work × Nat) → Core M → Prop where
  | nil (s : Core M) : Path s [] s
  | cons {s s₁ s₂ : Core M} {w : Work} {n : Nat} {rest : List (Work × Nat)} :
      s.work = .ok w → s.step = (.ok n, s₁) → Path s₁ rest s₂ → Path s ((w, n) :: rest) s₂

theorem Path.append {s s₁ s₂ : Core M} {first rest : List (Work × Nat)} (h : Path s first s₁)
    (hRest : Path s₁ rest s₂) : Path s (first ++ rest) s₂ := by
  induction h with
  | nil => exact hRest
  | cons hWork hStep _ ih => exact .cons hWork hStep (ih hRest)

theorem work_dispatch {s : Core M} {i : Interrupt} (hIme : s.cpu.interrupts.ime = true)
    (hFirst : Interrupt.highestPriority? (Memory.pending s.memory) = some i) :
    s.work = .ok (.dispatch i) := by
  have hPending : Memory.pending s.memory ≠ 0 := by
    intro hNone
    rw [hNone] at hFirst
    cases hFirst
  have hSome : s.dispatchable? = some i := by rw [dispatchable?, if_pos hIme, hFirst]
  rw [work, hSome, beq_false_of_ne hPending, Bool.and_false]
  rfl

theorem work_of_awake {s : Core M}
    (hAwake : s.cpu.activity = .running ∨ Memory.pending s.memory ≠ 0)
    (hIme : s.cpu.interrupts.ime = false) :
    s.work = (Memory.fetch s.memory s.cpu.regs.pc).map .execute := by
  have hIdle : ¬ s.Asleep := fun hAsleep => hAwake.elim hAsleep.1 fun hSome => hSome hAsleep.2
  rw [work, if_neg (mt idles_iff.mp hIdle), dispatchable?, hIme]
  rfl

theorem work_execute {s : Core M} {i : Instruction}
    (hAwake : s.cpu.activity = .running ∨ Memory.pending s.memory ≠ 0)
    (hIme : s.cpu.interrupts.ime = false) (hFetch : Memory.fetch s.memory s.cpu.regs.pc = .ok i) :
    s.work = .ok (.execute i) := by
  rw [work_of_awake hAwake hIme, hFetch]
  rfl

end

/-- The core as a handler is entered. The request is taken back, and the program counter lies below
the stack pointer, low byte first. -/
def handling (s : Core Bus) (i : Interrupt) : Core Bus where
  cpu :=
    { regs := { s.cpu.regs with pc := i.vector, sp := s.cpu.regs.sp - 2 }
      interrupts := ⟨false, false⟩
      activity := .running }
  memory :=
    ((s.memory.write Address.interruptFlags (s.read Address.interruptFlags &&& ~~~i.mask)).write
      (s.cpu.regs.sp - 1) (Word.high s.cpu.regs.pc)).write (s.cpu.regs.sp - 2)
      (Word.low s.cpu.regs.pc)

theorem perform_dispatch (s : Core Bus) (i : Interrupt) :
    s.perform (.dispatch i) = (5, s.handling i) := by
  rw [perform, wake_eq]
  rfl

theorem fetch_return {s : Core Bus} {a : UInt16} (h : s.read a = 0xD9) :
    Memory.fetch s.memory a = .ok .retEnable := by
  have hByte : Memory.read s.memory a = 0xD9 := h
  rw [Memory.fetch, Instruction.decodeAt_eq_ok_iff, hByte]
  rfl

theorem perform_return (s : Core Bus) :
    s.perform (.execute .retEnable) = (4,
      { cpu :=
          { regs := { s.cpu.regs with pc := s.top, sp := s.cpu.regs.sp + 2 }
            interrupts := ⟨true, false⟩
            activity := .running }
        memory := s.memory }) := by
  obtain ⟨⟨regs, ⟨ime, scheduled⟩, activity⟩, memory⟩ := s
  rw [perform, wake_eq]
  cases scheduled <;> rfl

end Core

/-- A byte outside the cartridge that takes what is stored to it, changes nothing besides, and has
no say in what is pending. -/
structure Address.IsStackRam (a : UInt16) : Prop where
  rom : 0x8000 ≤ a
  divider : a ≠ 0xFF04
  flags : a ≠ 0xFF0F
  status : a ≠ 0xFF41
  dma : a ≠ 0xFF46
  enable : a ≠ 0xFFFF

theorem Address.IsStackRam.ne_vector {a : UInt16} (h : Address.IsStackRam a) (i : Interrupt) :
    i.vector ≠ a := by
  rintro rfl
  exact absurd h.rom (by cases i <;> decide)

namespace Core

variable {s s₁ s₂ : Core Bus} {i : Interrupt} {bits more : UInt8}

theorem stack_bytes_ne (sp : UInt16) : sp - 2 ≠ sp - 1 := by
  intro hSame
  have := congrArg UInt16.toNat hSame
  simp only [UInt16.toNat_sub, UInt16.reduceToNat] at this
  omega

theorem memory_handling (hHigh : Address.IsStackRam (s.cpu.regs.sp - 1))
    (hLow : Address.IsStackRam (s.cpu.regs.sp - 2)) (i : Interrupt) :
    (s.handling i).memory =
      { s.memory with
        store :=
          ((s.memory.store.set Address.interruptFlags
              (s.read Address.interruptFlags &&& ~~~i.mask)).set
            (s.cpu.regs.sp - 1) (Word.high s.cpu.regs.pc)).set
            (s.cpu.regs.sp - 2) (Word.low s.cpu.regs.pc) } := by
  have hPlain (b : Bus) {x : UInt16} (h : Address.IsStackRam x) (v : UInt8) :
      b.write x v = { b with store := b.store.set x v } :=
    b.write_plain v (UInt16.not_lt.mpr h.rom) h.divider h.status h.dma
  have hFlags (v : UInt8) : s.memory.write Address.interruptFlags v =
      { s.memory with store := s.memory.store.set Address.interruptFlags v } :=
    s.memory.write_plain v (by decide) (by decide) (by decide) (by decide)
  rw [handling, hPlain _ hLow, hPlain _ hHigh, hFlags]

theorem read_handling (hHigh : Address.IsStackRam (s.cpu.regs.sp - 1))
    (hLow : Address.IsStackRam (s.cpu.regs.sp - 2)) (i : Interrupt) (a : UInt16) :
    (s.handling i).read a =
      if s.cpu.regs.sp - 2 = a then Word.low s.cpu.regs.pc
      else if s.cpu.regs.sp - 1 = a then Word.high s.cpu.regs.pc
      else if Address.interruptFlags = a then s.read a &&& ~~~i.mask
      else s.read a := by
  change (s.handling i).memory.store.get a = _
  rw [memory_handling hHigh hLow]
  simp only [Store.get_set]
  split
  next => rfl
  next =>
    split
    next => rfl
    next =>
      split
      next hSame => rw [hSame]
      next => rfl

/-- What serving interrupts leaves behind where each handler returns at once. -/
structure Served (s s₁ : Core Bus) (bits : UInt8) : Prop where
  cpu : s₁.cpu = { s.cpu with interrupts := ⟨true, false⟩, activity := .running }
  flags : s₁.read 0xFF0F = s.read 0xFF0F &&& ~~~bits
  high : s₁.read (s.cpu.regs.sp - 1) = Word.high s.cpu.regs.pc
  low : s₁.read (s.cpu.regs.sp - 2) = Word.low s.cpu.regs.pc
  others : ∀ a, a ≠ 0xFF0F → a ≠ s.cpu.regs.sp - 1 → a ≠ s.cpu.regs.sp - 2 → s₁.read a = s.read a
  dividerReset : s₁.memory.dividerReset = s.memory.dividerReset

theorem Served.trans (h : Served s s₁ bits) (hNext : Served s₁ s₂ more) :
    Served s s₂ (bits ||| more) := by
  obtain ⟨hCpu, hFlags, hHigh, hLow, hOthers, hReset⟩ := h
  obtain ⟨hCpu₂, hFlags₂, hHigh₂, hLow₂, hOthers₂, hReset₂⟩ := hNext
  rw [hCpu] at hCpu₂ hHigh₂ hLow₂ hOthers₂
  refine ⟨hCpu₂, ?_, hHigh₂, hLow₂, ?_, hReset₂.trans hReset⟩
  · rw [hFlags₂, hFlags]
    apply Byte.eq_of_bit_eq
    intro k _
    simp only [Byte.bit_and_not, Byte.bit_or, Bool.not_or, Bool.and_assoc]
  · intro a hNotFlags hNotHigh hNotLow
    exact (hOthers₂ a hNotFlags hNotHigh hNotLow).trans (hOthers a hNotFlags hNotHigh hNotLow)

theorem Served.read_vector (h : Served s s₁ bits)
    (hHigh : Address.IsStackRam (s.cpu.regs.sp - 1))
    (hLow : Address.IsStackRam (s.cpu.regs.sp - 2)) (j : Interrupt) :
    s₁.read j.vector = s.read j.vector :=
  h.others _ (by cases j <;> decide) (hHigh.ne_vector j) (hLow.ne_vector j)

theorem Served.pending (h : Served s s₁ bits) (hHigh : Address.IsStackRam (s.cpu.regs.sp - 1))
    (hLow : Address.IsStackRam (s.cpu.regs.sp - 2)) :
    Memory.pending s₁.memory = Memory.pending s.memory &&& ~~~bits := by
  have hFlags : Memory.read s₁.memory Address.interruptFlags =
      Memory.read s.memory Address.interruptFlags &&& ~~~bits := h.flags
  have hEnable : Memory.read s₁.memory Address.interruptEnable =
      Memory.read s.memory Address.interruptEnable :=
    h.others _ (by decide) hHigh.enable.symm hLow.enable.symm
  rw [Memory.pending, Memory.pending, hFlags, hEnable]
  apply Byte.eq_of_bit_eq
  intro k _
  simp only [Byte.bit_and]
  cases Byte.bit (~~~bits) k <;> simp

/-- A dispatch and the return from its handler. -/
def service (i : Interrupt) : List (Work × Nat) :=
  [(.dispatch i, 5), (.execute .retEnable, 4)]

@[simp] theorem length_service (i : Interrupt) : (service i).length = 2 := rfl

theorem top_handling (hHigh : Address.IsStackRam (s.cpu.regs.sp - 1))
    (hLow : Address.IsStackRam (s.cpu.regs.sp - 2)) (i : Interrupt) :
    (s.handling i).top = s.cpu.regs.pc := by
  have hAbove : s.cpu.regs.sp - 2 + 1 = s.cpu.regs.sp - 1 := by
    apply UInt16.toNat_inj.mp
    simp only [UInt16.toNat_sub, UInt16.toNat_add, UInt16.reduceToNat]
    omega
  have hTop : (s.handling i).top = Word.ofBytes ((s.handling i).read (s.cpu.regs.sp - 2 + 1))
      ((s.handling i).read (s.cpu.regs.sp - 2)) := rfl
  rw [hTop, hAbove, read_handling hHigh hLow, read_handling hHigh hLow, if_pos rfl,
    if_neg (stack_bytes_ne _), if_pos rfl, Word.ofBytes_high_low]

theorem step_return (hRunning : s.cpu.activity = .running) (hIme : s.cpu.interrupts.ime = false)
    (hReturn : s.read s.cpu.regs.pc = 0xD9) :
    s.work = .ok (.execute .retEnable) ∧ s.step = (.ok 4,
      { cpu :=
          { regs := { s.cpu.regs with pc := s.top, sp := s.cpu.regs.sp + 2 }
            interrupts := ⟨true, false⟩
            activity := .running }
        memory := s.memory }) := by
  have hWork := work_execute (.inl hRunning) hIme (fetch_return hReturn)
  exact ⟨hWork, step_eq_ok_iff.mpr ⟨_, hWork, s.perform_return⟩⟩

theorem exists_path_service (hIme : s.cpu.interrupts.ime = true)
    (hHigh : Address.IsStackRam (s.cpu.regs.sp - 1))
    (hLow : Address.IsStackRam (s.cpu.regs.sp - 2))
    (hFirst : Interrupt.highestPriority? (Memory.pending s.memory) = some i)
    (hReturn : s.read i.vector = 0xD9) :
    ∃ s₁, Path s (service i) s₁ ∧ Served s s₁ i.mask := by
  have hRead := read_handling hHigh hLow i
  have hWork := work_dispatch hIme hFirst
  have hDispatch : s.step = (.ok 5, s.handling i) :=
    step_eq_ok_iff.mpr ⟨_, hWork, s.perform_dispatch i⟩
  have hVector : (s.handling i).read i.vector = 0xD9 := by
    have hFlags : Address.interruptFlags ≠ i.vector := by cases i <;> decide
    rw [hRead, if_neg (hLow.ne_vector i).symm, if_neg (hHigh.ne_vector i).symm, if_neg hFlags,
      hReturn]
  obtain ⟨hBack, hReturned⟩ := step_return (s := s.handling i) rfl rfl hVector
  refine ⟨_, .cons hWork hDispatch (.cons hBack hReturned (.nil _)), ?_, ?_, ?_, ?_, ?_, ?_⟩
  · rw [top_handling hHigh hLow]
    have hRestored : (s.handling i).cpu.regs.sp + 2 = s.cpu.regs.sp := UInt16.sub_add_cancel _ _
    rw [hRestored]
    rfl
  · exact (hRead 0xFF0F).trans
      (by rw [if_neg hLow.flags, if_neg hHigh.flags, if_pos (by decide)])
  · exact (hRead _).trans (by rw [if_neg (stack_bytes_ne _), if_pos rfl])
  · exact (hRead _).trans (if_pos rfl)
  · intro a hNotFlags hNotHigh hNotLow
    have hNot : Address.interruptFlags ≠ a := Ne.symm hNotFlags
    exact (hRead a).trans (by rw [if_neg hNotLow.symm, if_neg hNotHigh.symm, if_neg hNot])
  · change (s.handling i).memory.dividerReset = _
    rw [memory_handling hHigh hLow]

theorem mask_or_pending_and_not (hFirst : Interrupt.highestPriority? bits = some i) :
    i.mask ||| (bits &&& ~~~i.mask) = bits := by
  have hSet := Interrupt.bit_of_highestPriority? hFirst
  apply Byte.eq_of_bit_eq
  intro k _
  rw [Byte.bit_or, Byte.bit_and_not, Interrupt.bit_mask]
  by_cases hSame : k = i.index
  · rw [hSame, hSet]
    simp
  · rw [decide_eq_false hSame]
    simp

/-- The induction is on the sources that are pending: serving the first of them leaves the others,
their vectors and the registers as they were. -/
theorem exists_path_services {order : List Interrupt} (hIme : s.cpu.interrupts.ime = true)
    (hHigh : Address.IsStackRam (s.cpu.regs.sp - 1))
    (hLow : Address.IsStackRam (s.cpu.regs.sp - 2))
    (hOrder : Interrupt.sources (Memory.pending s.memory) = order)
    (hReturn : ∀ i ∈ order, s.read i.vector = 0xD9) :
    ∃ s₁, Path s (order.flatMap service) s₁ ∧
      (Memory.pending s.memory = 0 ∧ s₁ = s ∨
        Memory.pending s.memory ≠ 0 ∧ Served s s₁ (Memory.pending s.memory)) := by
  induction order generalizing s with
  | nil =>
    have hNone := Interrupt.sources_eq_nil_iff.mp hOrder
    rw [Memory.pending_and_mask] at hNone
    exact ⟨s, .nil s, .inl ⟨hNone, rfl⟩⟩
  | cons i rest ih =>
    have hFirst : Interrupt.highestPriority? (Memory.pending s.memory) = some i := by
      rw [Interrupt.highestPriority?_eq_head?, hOrder, List.head?_cons]
    have hSome : Memory.pending s.memory ≠ 0 := by
      intro hNone
      rw [hNone] at hFirst
      cases hFirst
    obtain ⟨hNow, hLater⟩ := List.forall_mem_cons.mp hReturn
    obtain ⟨s₁, hPath, hServed⟩ := exists_path_service hIme hHigh hLow hFirst hNow
    have hLeft := hServed.pending hHigh hLow
    have hAll := mask_or_pending_and_not hFirst
    rw [← hLeft] at hAll
    have hSp : s₁.cpu.regs.sp = s.cpu.regs.sp := by rw [hServed.cpu]
    obtain ⟨s₂, hRest, hDone⟩ := ih (s := s₁) (by rw [hServed.cpu]) (by rwa [hSp]) (by rwa [hSp])
      (by rw [hLeft, Interrupt.sources_and_not hOrder])
      (fun j hj => by rw [hServed.read_vector hHigh hLow, hLater j hj])
    refine ⟨s₂, hPath.append hRest, .inr ⟨hSome, ?_⟩⟩
    rw [← hAll]
    rcases hDone with ⟨hNone, rfl⟩ | ⟨-, hMore⟩
    · rwa [hNone, UInt8.or_zero]
    · exact hServed.trans hMore

/-- A halted core that is woken by two interrupts at once, and whose handlers return at once. -/
def twiceInterrupted : Core Bus where
  cpu := { Cpu.powerOn with interrupts := ⟨true, false⟩, activity := .halted }
  memory :=
    { Bus.empty with
      store :=
        (((Store.zero.set 0x40 0xD9).set 0x50 0xD9).set Address.interruptFlags 0xE5).set
          Address.interruptEnable 0x05 }

/-- Where every handler returns at once, the pending interrupts are dispatched one after the other
in the order of their bits, and in the end nothing has changed but the requests and the two bytes
below the stack pointer. -/
theorem service_transparent (hIme : s.cpu.interrupts.ime = true)
    (hHigh : Address.IsStackRam (s.cpu.regs.sp - 1))
    (hLow : Address.IsStackRam (s.cpu.regs.sp - 2))
    (hReturn : ∀ i : Interrupt, Byte.bit (Memory.pending s.memory) i.index = true →
      s.read i.vector = 0xD9) :
    ∃ (order : List Interrupt) (s₁ : Core Bus),
      (∀ i, i ∈ order ↔ Byte.bit (Memory.pending s.memory) i.index = true) ∧
      order.Pairwise (fun i j => i.index < j.index) ∧
      Path s (order.flatMap service) s₁ ∧
      (order.flatMap service).length = 2 * order.length ∧
      (Memory.pending s.memory = 0 → s₁ = s) ∧
      (Memory.pending s.memory ≠ 0 → Served s s₁ (Memory.pending s.memory)) := by
  obtain ⟨s₁, hPath, hDone⟩ := exists_path_services hIme hHigh hLow rfl fun i hi =>
    hReturn i (Interrupt.mem_sources_iff.mp hi)
  refine ⟨_, s₁, fun i => Interrupt.mem_sources_iff, Interrupt.sources_pairwise _, hPath, ?_, ?_,
    ?_⟩
  · simp [List.length_flatMap, List.map_const', Nat.mul_comm]
  · intro hNone
    exact hDone.elim And.right fun hSome => absurd hNone hSome.1
  · intro hSome
    exact hDone.elim (fun hNone => absurd hNone.1 hSome) And.right

theorem service_transparent_twiceInterrupted :
    ∃ (order : List Interrupt) (s₁ : Core Bus),
      .vblank ∈ order ∧ .lcd ∉ order ∧ .timer ∈ order ∧
        Path twiceInterrupted (order.flatMap service) s₁ ∧ Served twiceInterrupted s₁ 5 := by
  have hRead (a : UInt16) : twiceInterrupted.read a =
      if Address.interruptEnable = a then 0x05
      else if Address.interruptFlags = a then 0xE5
      else if 0x50 = a then 0xD9 else if 0x40 = a then 0xD9 else 0 := by
    change twiceInterrupted.memory.store.get a = _
    simp only [twiceInterrupted, Store.get_set, Store.get_zero]
  have hPending : Memory.pending twiceInterrupted.memory = 5 := by
    change twiceInterrupted.read _ &&& twiceInterrupted.read _ &&& 0x1F = 5
    rw [hRead, hRead]
    decide
  have hReturn (i : Interrupt) (hSet : Byte.bit 5 i.index = true) :
      twiceInterrupted.read i.vector = 0xD9 := by
    rw [hRead]
    revert hSet
    cases i <;> decide
  have hServices := service_transparent (s := twiceInterrupted) rfl
    ⟨by decide, by decide, by decide, by decide, by decide, by decide⟩
    ⟨by decide, by decide, by decide, by decide, by decide, by decide⟩ (by rwa [hPending])
  rw [hPending] at hServices
  obtain ⟨order, s₁, hOrder, -, hPath, -, -, hServed⟩ := hServices
  refine ⟨order, s₁, ?_, ?_, ?_, hPath, hServed (by decide)⟩
  · exact (hOrder .vblank).mpr (by decide)
  · exact mt (hOrder .lcd).mp (by decide)
  · exact (hOrder .timer).mpr (by decide)

end Core
end DotMatrix
