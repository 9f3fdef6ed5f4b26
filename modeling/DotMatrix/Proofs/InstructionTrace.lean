import Mathlib.Data.List.DropRight
import DotMatrix.Proofs.Telling

/-!
# The instruction trace

A watched machine is told of an instruction before the processor decides what its step does, and the
trail takes the address of a step that began running. So neither follows what is executed: a
processor that wakes and executes in one step is missed, and a running one that dispatches is told
of an instruction that it has not executed yet. The laws here say what is told and recorded, and
when that is what was executed.
-/

namespace DotMatrix.Machine

section

variable {α : Type}

/-- What the steps from `m` on contribute, in order. -/
def collect (f : Machine Bus → Option α) (m : Machine Bus) : Nat → List α
  | 0 => []
  | n + 1 => collect f m n ++ (f (m.afterTicks n)).toList

theorem collect_eq_iff {f g : Machine Bus → Option α} {m : Machine Bus} {n : Nat} :
    (∀ k ≤ n, collect f m k = collect g m k) ↔
      ∀ k < n, f (m.afterTicks k) = g (m.afterTicks k) := by
  constructor
  · intro h k hk
    have hNext := h (k + 1) hk
    rw [collect, collect, h k (Nat.le_of_lt hk)] at hNext
    have hSame := congrArg List.head? (List.append_cancel_left hNext)
    rwa [Option.head?_toList, Option.head?_toList] at hSame
  · intro h k hk
    induction k with
    | zero => rfl
    | succ k ih => rw [collect, collect, ih (Nat.le_of_succ_le hk), h k hk]

theorem collect_map {β : Type} (f : Machine Bus → Option α) (g : α → β) (m : Machine Bus)
    (n : Nat) : collect (fun m => (f m).map g) m n = (collect f m n).map g := by
  induction n with
  | zero => rfl
  | succ n ih =>
    rw [collect, collect, ih, List.map_append]
    cases f (m.afterTicks n) <;> rfl

end

variable {m : Machine Bus} {image : List UInt8} {options : Options} {w : Work}

theorem told_afterTicks (m : Machine Bus) (n : Nat) :
    (m.observe.afterTicks n).core.memory.told = collect announced? m n := by
  induction n with
  | zero => rfl
  | succ n ih =>
    rw [afterTicks_succ, told_tick, ih, collect, ← afterTicks_observe,
      announced?_map hom_memory]

/-- The instruction that the next step executes, with its address. -/
def executed? (m : Machine Bus) : Option (UInt16 × Instruction) :=
  match m.core.work with
  | .ok (.execute i) => some (m.core.cpu.regs.pc, i)
  | _ => none

/-- The address that the next step adds to the trail. -/
def recorded? (m : Machine Bus) : Option UInt16 :=
  match m.core.work with
  | .ok _ => if m.core.cpu.activity == .running then some m.core.cpu.regs.pc else none
  | .error _ => none

theorem trail_tick (m : Machine Bus) :
    m.tick.2.trail =
      match m.recorded? with
      | some pc => m.trail.push pc
      | none => m.trail := by
  change m.step.2.trail = _
  unfold recorded?
  cases hWork : m.core.work with
  | error e => rw [step_of_work_error hWork]
  | ok w =>
    rw [step_of_work hWork]
    change (m.stepped (m.core.perform w).2).trail = _
    unfold stepped
    dsimp only
    split <;> rfl

/-- The trail holds the latest of the recorded addresses. -/
theorem newestFirst_afterTicks (hTrail : m.trail = .empty) (n : Nat) :
    (m.afterTicks n).trail.newestFirst =
      (collect recorded? m n).reverse.take Trail.capacity := by
  induction n with
  | zero =>
    change m.trail.newestFirst = _
    rw [hTrail]
    rfl
  | succ n ih =>
    rw [afterTicks_succ, trail_tick, collect, List.reverse_append]
    cases (m.afterTicks n).recorded? with
    | none => exact ih
    | some pc =>
      dsimp only
      rw [Trail.newestFirst_push, ih]
      simp [Trail.capacity, List.take_take]

theorem toList_afterTicks_observe (hTrail : m.trail = .empty) (n : Nat) :
    (m.observe.afterTicks n).trail.toList = (collect recorded? m n).rtake Trail.capacity := by
  have hSame : (m.observe.afterTicks n).trail = (m.afterTicks n).trail := by
    rw [← afterTicks_observe]
    rfl
  rw [hSame, Trail.toList, newestFirst_afterTicks hTrail, List.rtake_eq_reverse_take_reverse]

theorem announced?_of_running (hTrace : m.options.traceInstructions = true)
    (hRunning : m.core.cpu.activity = .running) :
    m.announced? = (Memory.fetch m.core.memory m.core.cpu.regs.pc).toOption.map
      fun i => (m.core.cpu.regs.pc, i) := by
  rw [announced?, hRunning, hTrace, if_pos (by rfl)]
  cases Memory.fetch m.core.memory m.core.cpu.regs.pc <;> rfl

theorem announced?_of_suspended (h : m.core.cpu.activity ≠ .running) : m.announced? = none := by
  rw [announced?, beq_false_of_ne h]
  rfl

theorem recorded?_of_suspended (h : m.core.cpu.activity ≠ .running) : m.recorded? = none := by
  unfold recorded?
  rw [beq_false_of_ne h]
  cases m.core.work <;> rfl

/-- What is told is what is executed, except where a suspended processor executes and where a
running one dispatches in front of an instruction. -/
theorem announced?_eq_executed?_iff (hTrace : m.options.traceInstructions = true) :
    m.announced? = m.executed? ↔
      (∀ i, m.core.work = .ok (.execute i) → m.core.cpu.activity = .running) ∧
        ∀ j, m.core.work = .ok (.dispatch j) → m.core.cpu.activity = .running →
          ∃ e, Memory.fetch m.core.memory m.core.cpu.regs.pc = .error e := by
  unfold executed?
  by_cases hRunning : m.core.cpu.activity = .running
  · rw [announced?_of_running hTrace hRunning]
    cases hWork : m.core.work with
    | error e =>
      rw [Core.fetch_of_work_error hWork]
      exact iff_of_true rfl ⟨fun i h => (nomatch h), fun j h => (nomatch h)⟩
    | ok w =>
      rcases Core.work_cases hWork with ⟨hAsleep, -⟩ | ⟨-, j, -, rfl⟩ | ⟨-, -, i, hFetch, rfl⟩
      · exact absurd hRunning hAsleep.1
      · cases hFetch : Memory.fetch m.core.memory m.core.cpu.regs.pc with
        | ok i =>
          refine iff_of_false (fun h => nomatch h) fun h => ?_
          obtain ⟨e, hError⟩ := h.2 j rfl hRunning
          cases hError
        | error e =>
          exact iff_of_true rfl ⟨fun i h => (nomatch h), fun j _ _ => ⟨e, rfl⟩⟩
      · rw [hFetch]
        exact iff_of_true rfl ⟨fun i _ => hRunning, fun j h => (nomatch h)⟩
  · rw [announced?_of_suspended hRunning]
    cases hWork : m.core.work with
    | error e => exact iff_of_true rfl ⟨fun i h => (nomatch h), fun j h => (nomatch h)⟩
    | ok w =>
      cases w with
      | execute i => exact iff_of_false (fun h => nomatch h) fun h => hRunning (h.1 i rfl)
      | idle => exact iff_of_true rfl ⟨fun i h => (nomatch h), fun j h => (nomatch h)⟩
      | dispatch j =>
        exact iff_of_true rfl ⟨fun i h => (nomatch h), fun j _ h => absurd h hRunning⟩

/-- The next step executes exactly if the processor is running. -/
def ExecutesIffRunning (m : Machine Bus) : Prop :=
  ∀ w, m.core.work = .ok w → (m.core.cpu.activity = .running ↔ ∃ i, w = .execute i)

theorem ExecutesIffRunning.announced?_eq (h : m.ExecutesIffRunning)
    (hTrace : m.options.traceInstructions = true) : m.announced? = m.executed? := by
  rw [announced?_eq_executed?_iff hTrace]
  constructor
  · intro i hWork
    exact (h _ hWork).mpr ⟨i, rfl⟩
  · intro j hWork hRunning
    obtain ⟨i, hExecute⟩ := (h _ hWork).mp hRunning
    cases hExecute

theorem ExecutesIffRunning.recorded?_eq (h : m.ExecutesIffRunning) :
    m.recorded? = m.executed?.map Prod.fst := by
  unfold executed?
  cases hWork : m.core.work with
  | error e =>
    unfold recorded?
    rw [hWork]
    rfl
  | ok w =>
    by_cases hRunning : m.core.cpu.activity = .running
    · obtain ⟨i, rfl⟩ := (h w hWork).mp hRunning
      unfold recorded?
      rw [hWork, hRunning]
      rfl
    · rw [recorded?_of_suspended hRunning]
      cases w with
      | execute i => exact absurd ((h _ hWork).mpr ⟨i, rfl⟩) hRunning
      | idle => rfl
      | dispatch j => rfl

theorem options_afterTicks (m : Machine Bus) (n : Nat) : (m.afterTicks n).options = m.options := by
  induction n with
  | zero => rfl
  | succ n ih =>
    rw [afterTicks_succ, ← ih]
    rcases (m.afterTicks n).tick_cases with ⟨core, c, -, hTick⟩ | ⟨e, -, hTick⟩
    · rw [hTick]
      rfl
    · rw [hTick]

theorem collect_announced? {n : Nat} (hTrace : m.options.traceInstructions = true)
    (h : ∀ k < n, (m.afterTicks k).ExecutesIffRunning) :
    collect announced? m n = collect executed? m n := by
  refine collect_eq_iff.mpr (fun k hk => (h k hk).announced?_eq ?_) n (Nat.le_refl n)
  rw [options_afterTicks]
  exact hTrace

theorem collect_recorded? {n : Nat} (h : ∀ k < n, (m.afterTicks k).ExecutesIffRunning) :
    collect recorded? m n = (collect executed? m n).map Prod.fst := by
  rw [← collect_map]
  exact collect_eq_iff.mpr (fun k hk => (h k hk).recorded?_eq) n (Nat.le_refl n)

/-- Nothing is recorded yet. -/
theorem ofImage_fresh (hImage : ofImage image options = .ok m) :
    m.options = options ∧ m.trail = .empty := by
  obtain ⟨c, -, rfl⟩ := ofImage_eq_ok hImage
  exact ⟨rfl, rfl⟩

/-- Enables and requests interrupts, and halts. -/
def wakingCode : List UInt8 :=
  [0x08, 0xFF, 0xFF, 0x08, 0x0F, 0xFF, 0x76, 0x00]

theorem executed?_of_work {i : Instruction} (h : m.core.work = .ok (.execute i)) :
    m.executed? = some (m.core.cpu.regs.pc, i) := by
  rw [executed?, h]

theorem executesIffRunning_of_work {i : Instruction} (h : m.core.work = .ok (.execute i))
    (hRunning : m.core.cpu.activity = .running) : m.ExecutesIffRunning := by
  intro w hWork
  cases h.symm.trans hWork
  exact iff_of_true hRunning ⟨i, rfl⟩

/-- The processor of the waking program in front of the instruction at `pc`. -/
def wakingCpu (pc : UInt16) (activity : Activity) : Cpu :=
  { Cpu.powerOn with regs := { Registers.powerOn with pc := pc }, activity := activity }

/-- The four steps of the waking program. -/
structure WakingRun (m m₁ m₂ m₃ : Machine Bus) : Prop where
  cpu : m.core.cpu = wakingCpu 0x100 .running
  work : m.core.work = .ok (.execute (.storeSP 0xFFFF))
  tick : m.tick.2 = m₁
  cpu₁ : m₁.core.cpu = wakingCpu 0x103 .running
  work₁ : m₁.core.work = .ok (.execute (.storeSP 0xFF0F))
  tick₁ : m₁.tick.2 = m₂
  cpu₂ : m₂.core.cpu = wakingCpu 0x106 .running
  work₂ : m₂.core.work = .ok (.execute .halt)
  tick₂ : m₂.tick.2 = m₃
  cpu₃ : m₃.core.cpu = wakingCpu 0x107 .halted
  work₃ : m₃.core.work = .ok (.execute .nop)

/-- The low byte of the stack pointer goes into both interrupt registers, so a request is pending
when the processor halts, whatever the devices add to it. -/
theorem exists_wakingRun (options : Options) :
    ∃ m m₁ m₂ m₃, ofImage (programmed wakingCode) options = .ok m ∧ WakingRun m m₁ m₂ m₃ := by
  have hImage : ofImage (programmed wakingCode) options = .ok (programOf wakingCode options) :=
    ofImage_programmed (by decide) (by decide +kernel)
  have hStart := Reachable.powerOn hImage
  let low := Word.low 0xFFFE
  let high := Word.high 0xFFFE
  obtain ⟨m₁, hWork, hStep, h₁, hCpu₁, hBytes₁, -⟩ :=
    hStart.step_code (.storeSP 0xFFFF) (wakingCpu 0x100 .running) (wakingCpu 0x103 .running)
      (fun b => (b.write 0xFFFF low).write 0 high) rfl rfl rfl (by decide)
      (Instruction.decodeAt_eq_ok_iff.mpr (by decide +kernel)) fun b => rfl
  obtain ⟨m₂, hWork₁, hStep₁, h₂, hCpu₂, hBytes₂, hFlags₂⟩ :=
    h₁.step_code (.storeSP 0xFF0F) (wakingCpu 0x103 .running) (wakingCpu 0x106 .running)
      (fun b => (b.write 0xFF0F low).write 0xFF10 high) hCpu₁ rfl rfl (by decide)
      (Instruction.decodeAt_eq_ok_iff.mpr (by decide +kernel)) fun b => rfl
  obtain ⟨m₃, hWork₂, hStep₂, h₃, hCpu₃, hBytes₃, hFlags₃⟩ :=
    h₂.step_code .halt (wakingCpu 0x106 .running) (wakingCpu 0x107 .halted) id hCpu₂ rfl rfl
      (by decide) (Instruction.decodeAt_eq_ok_iff.mpr (by decide +kernel)) fun b => rfl
  have hEnabled : m₁.core.read Address.interruptEnable = low := by
    rw [hBytes₁ _ (by decide)]
    change ((Bus.write _ 0xFFFF _).write 0 _).store.get 0xFFFF = _
    rw [Bus.get_write_of_ne _ _ (by decide) (by decide), Bus.get_write_self _ _ (by decide)
      (by decide) (by decide) (by decide)]
  have hKept : m₂.core.read Address.interruptEnable = m₁.core.read Address.interruptEnable := by
    rw [hBytes₂ _ (by decide)]
    change ((Bus.write _ 0xFF0F _).write 0xFF10 _).store.get 0xFFFF = _
    rw [Bus.get_write_of_ne _ _ (by decide) (by decide), Bus.get_write_of_ne _ _ (by decide)
      (by decide)]
    rfl
  have hRequested : Byte.bit (m₃.core.read Address.interruptFlags) 1 = true := by
    apply hFlags₃
    apply hFlags₂
    change Byte.bit (((Bus.write _ 0xFF0F _).write 0xFF10 _).store.get 0xFF0F) 1 = true
    rw [Bus.get_write_of_ne _ _ (by decide) (by decide), Bus.get_write_self _ _ (by decide)
      (by decide) (by decide) (by decide)]
    decide
  have hPending : Memory.pending m₃.core.memory ≠ 0 := by
    have hStill := (hBytes₃ Address.interruptEnable (by decide)).trans (hKept.trans hEnabled)
    refine pending_ne_zero (j := .lcd) hRequested ?_
    change Byte.bit (m₃.core.read Address.interruptEnable) 1 = true
    rw [hStill]
    decide
  have hWork₃ : m₃.core.work = .ok (.execute .nop) := by
    refine Core.work_execute (.inr hPending) (by rw [hCpu₃]; rfl) ?_
    rw [hCpu₃]
    exact h₃.fetch_code (by decide) (Instruction.decodeAt_eq_ok_iff.mpr (by decide +kernel))
  exact ⟨_, m₁, m₂, m₃, hImage, rfl, hWork, congrArg Prod.snd hStep, hCpu₁, hWork₁,
    congrArg Prod.snd hStep₁, hCpu₂, hWork₂, congrArg Prod.snd hStep₂, hCpu₃, hWork₃⟩

theorem WakingRun.executes {m₁ m₂ m₃ : Machine Bus} (h : WakingRun m m₁ m₂ m₃) :
    (∀ k < 3, (m.afterTicks k).ExecutesIffRunning) ∧
      collect executed? m 3 =
        [(0x100, .storeSP 0xFFFF), (0x103, .storeSP 0xFF0F), (0x106, .halt)] ∧
      (m.afterTicks 3).core.cpu.activity ≠ .running ∧
      (m.afterTicks 3).executed? = some (0x107, .nop) := by
  have hStart : m.afterTicks 0 = m := rfl
  have hTicks₁ : m.afterTicks 1 = m₁ := h.tick
  have hTicks₂ : m.afterTicks 2 = m₂ := by rw [afterTicks_succ, hTicks₁, h.tick₁]
  have hTicks₃ : m.afterTicks 3 = m₃ := by rw [afterTicks_succ, hTicks₂, h.tick₂]
  have hPlain := executesIffRunning_of_work h.work (by rw [h.cpu]; rfl)
  have hPlain₁ := executesIffRunning_of_work h.work₁ (by rw [h.cpu₁]; rfl)
  have hPlain₂ := executesIffRunning_of_work h.work₂ (by rw [h.cpu₂]; rfl)
  refine ⟨?_, ?_, ?_, ?_⟩
  · intro k hk
    match k, hk with
    | 0, _ => exact hPlain
    | 1, _ => rwa [hTicks₁]
    | 2, _ => rwa [hTicks₂]
  · simp only [collect, hStart, hTicks₁, hTicks₂, executed?_of_work h.work,
      executed?_of_work h.work₁, executed?_of_work h.work₂, h.cpu, h.cpu₁, h.cpu₂]
    rfl
  · rw [hTicks₃, h.cpu₃]
    decide
  · rw [hTicks₃, executed?_of_work h.work₃, h.cpu₃]
    rfl

/-- What is told and what is recorded, at every moment of every run. What is executed is told
exactly if no suspended processor executes and no running one dispatches in front of an instruction.
Both the trace and the trail are right where every step executes exactly if it begins running. -/
theorem instruction_trace (hImage : ofImage image options = .ok m)
    (hTrace : options.traceInstructions = true) (calls : List Call) :
    ∃ n, m.observe.afterCalls calls = m.observe.afterTicks n ∧
      (∀ k ≤ n,
        (m.observe.afterTicks k).core.memory.lines = (collect announced? m k).map Event.lineOf ∧
        (m.observe.afterTicks k).trail.toList = (collect recorded? m k).rtake 32) ∧
      ((∀ k ≤ n, (m.observe.afterTicks k).core.memory.told = collect executed? m k) ↔
        ∀ k < n,
          (∀ i, (m.afterTicks k).core.work = .ok (.execute i) →
            (m.afterTicks k).core.cpu.activity = .running) ∧
          ∀ j, (m.afterTicks k).core.work = .ok (.dispatch j) →
            (m.afterTicks k).core.cpu.activity = .running →
              ∃ e, Memory.fetch (m.afterTicks k).core.memory (m.afterTicks k).core.cpu.regs.pc =
                .error e) ∧
      ((∀ k < n, (m.afterTicks k).ExecutesIffRunning) → ∀ k ≤ n,
        (m.observe.afterTicks k).core.memory.lines = (collect executed? m k).map Event.lineOf ∧
        (m.observe.afterTicks k).trail.toList =
          ((collect executed? m k).map Prod.fst).rtake 32) := by
  obtain ⟨rfl, hTrail⟩ := ofImage_fresh hImage
  have hLines (k : Nat) : (m.observe.afterTicks k).core.memory.lines =
      (collect announced? m k).map Event.lineOf := by
    rw [Observed.lines_eq, told_afterTicks]
  have hRecorded (k : Nat) : (m.observe.afterTicks k).trail.toList =
      (collect recorded? m k).rtake 32 :=
    toList_afterTicks_observe hTrail k
  obtain ⟨n, hTicks⟩ := m.observe.exists_afterCalls calls
  refine ⟨n, hTicks, fun k _ => ⟨hLines k, hRecorded k⟩, ?_, ?_⟩
  · simp only [told_afterTicks]
    rw [collect_eq_iff]
    refine forall₂_congr fun k _ => announced?_eq_executed?_iff ?_
    rw [options_afterTicks]
    exact hTrace
  · intro hPlain k hk
    have hUpTo : ∀ j < k, (m.afterTicks j).ExecutesIffRunning :=
      fun j hj => hPlain j (Nat.lt_of_lt_of_le hj hk)
    rw [hLines, hRecorded, collect_announced? hTrace hUpTo, collect_recorded? hUpTo]
    exact ⟨rfl, rfl⟩

theorem instruction_trace_waking :
    ∃ m n, ofImage (programmed wakingCode) ⟨true, true⟩ = .ok m ∧
      m.observe.afterCalls (List.replicate 3 .step) = m.observe.afterTicks n ∧
      (m.observe.afterTicks n).core.memory.lines = (collect announced? m n).map Event.lineOf := by
  obtain ⟨m, -, -, -, hImage, -⟩ := exists_wakingRun ⟨true, true⟩
  obtain ⟨n, hTicks, hTold, -⟩ := instruction_trace hImage rfl (List.replicate 3 .step)
  exact ⟨m, n, hImage, hTicks, (hTold n (Nat.le_refl n)).1⟩

/-- The fourth step wakes the processor and executes an instruction that is neither told of nor
recorded. -/
theorem executes_untold :
    ∃ m, ofImage (programmed wakingCode) ⟨true, true⟩ = .ok m ∧
      collect executed? m 4 =
        [(0x100, .storeSP 0xFFFF), (0x103, .storeSP 0xFF0F), (0x106, .halt), (0x107, .nop)] ∧
      (m.observe.afterCalls (List.replicate 4 .step)).core.memory.told =
        [(0x100, .storeSP 0xFFFF), (0x103, .storeSP 0xFF0F), (0x106, .halt)] ∧
      (m.observe.afterCalls (List.replicate 4 .step)).trail.toList = [0x100, 0x103, 0x106] := by
  obtain ⟨m, m₁, m₂, m₃, hImage, hRun⟩ := exists_wakingRun ⟨true, true⟩
  obtain ⟨hPlain, hExecuted, hAsleep, hWoken⟩ := hRun.executes
  obtain ⟨hOptions, hTrail⟩ := ofImage_fresh hImage
  have hTicks := m.observe.afterCalls_steps 4
  have hTold : collect announced? m 4 = collect executed? m 3 := by
    rw [collect, announced?_of_suspended hAsleep, collect_announced? (by rw [hOptions]) hPlain]
    exact List.append_nil _
  have hRecorded : collect recorded? m 4 = (collect executed? m 3).map Prod.fst := by
    rw [collect, recorded?_of_suspended hAsleep, collect_recorded? hPlain]
    exact List.append_nil _
  refine ⟨m, hImage, ?_, ?_, ?_⟩
  · rw [collect, hExecuted, hWoken]
    rfl
  · rw [hTicks, told_afterTicks, hTold, hExecuted]
  · rw [hTicks, toList_afterTicks_observe hTrail, hRecorded, hExecuted]
    rfl

end DotMatrix.Machine
