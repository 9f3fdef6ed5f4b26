import DotMatrix.Proofs.CoreWork

/-!
# The interrupt master enable

An enable that an instruction schedules takes effect behind the next instruction. `ime_perform` and
`scheduled_perform` are the law of one step. `Run.ime_iff` reads the master enable off the work that
was done since the start, which tells when an interrupt may be dispatched at all.
-/

namespace DotMatrix

theorem InterruptControl.eq_disabled {c : InterruptControl} (hIme : c.ime = false)
    (hScheduled : c.scheduled = false) : c = ⟨false, false⟩ := by
  cases c
  cases hIme
  cases hScheduled
  rfl

namespace Core

section

variable {M : Type}

/-- The part of the processor that decides what it does next. -/
def control (s : Core M) : InterruptControl × Activity :=
  (s.cpu.interrupts, s.cpu.activity)

@[simp] theorem control_movePointer (s : Core M) (p : Pointer) :
    (s.movePointer p).control = s.control := by
  cases p <;> rfl

theorem interrupts_prepare (s : Core M) (i : Instruction) :
    (s.prepare i).cpu.interrupts = { s.cpu.interrupts with scheduled := false } := rfl

theorem interrupts_finish (s : Core M) (enable : Bool) :
    (s.finish enable).cpu.interrupts =
      ⟨s.cpu.interrupts.ime || enable, s.cpu.interrupts.scheduled⟩ := by
  cases enable with
  | false => rw [Bool.or_false]; rfl
  | true => rw [Bool.or_true]; rfl

end

variable {M : Type} [Memory M] {s s' : Core M} {c c₀ : Cpu} {works : List Work} {w : Work} {n : Nat}

@[simp] theorem control_writeOperand (s : Core M) (o : Operand) (v : UInt8) :
    (s.writeOperand o v).control = s.control := by
  cases o <;> rfl

@[simp] theorem interrupts_wake (s : Core M) : s.wake.cpu.interrupts = s.cpu.interrupts := by
  unfold wake
  split <;> rfl

theorem control_execute (s : Core M) (i : Instruction) :
    (s.execute i).control =
      (match i with
        | .di => s.cpu.interrupts.disable
        | .ei => s.cpu.interrupts.schedule
        | .retEnable => { s.cpu.interrupts with ime := true }
        | _ => s.cpu.interrupts,
      match i with
        | .halt => .halted
        | .stop _ => .stopped
        | _ => s.cpu.activity) := by
  cases i
  case load dest source => exact control_writeOperand ..
  case loadByte dest n => exact control_writeOperand ..
  case loadA source => exact control_movePointer s source
  case storeA dest => exact control_movePointer s dest
  case inc o => exact control_writeOperand ..
  case dec o => exact control_writeOperand ..
  case shift op o => exact control_writeOperand ..
  case bit op index o =>
    cases op with
    | test => rfl
    | reset => exact control_writeOperand ..
    | set => exact control_writeOperand ..
  case jumpBy condition offset => exact apply_guarded control s condition rfl
  case jump condition address => exact apply_guarded control s condition rfl
  case call condition address => exact apply_guarded control s condition rfl
  case ret condition => exact apply_guarded control s condition rfl
  all_goals rfl

theorem interrupts_execute (s : Core M) (i : Instruction) :
    (s.execute i).cpu.interrupts =
      match i with
      | .di => s.cpu.interrupts.disable
      | .ei => s.cpu.interrupts.schedule
      | .retEnable => { s.cpu.interrupts with ime := true }
      | _ => s.cpu.interrupts :=
  congrArg Prod.fst (s.control_execute i)

theorem activity_execute (s : Core M) (i : Instruction) :
    (s.execute i).cpu.activity =
      match i with
      | .halt => .halted
      | .stop _ => .stopped
      | _ => s.cpu.activity :=
  congrArg Prod.snd (s.control_execute i)

/-- The master enable behind a step. `delayed` tells whether an enable was scheduled before it. -/
def imeAfter (delayed ime : Bool) : Work → Bool
  | .idle => ime
  | .dispatch _ => false
  | .execute .di => false
  | .execute .retEnable => true
  | .execute _ => ime || delayed

theorem ime_perform (s : Core M) (w : Work) :
    (s.perform w).2.cpu.interrupts.ime =
      imeAfter s.cpu.interrupts.scheduled s.cpu.interrupts.ime w := by
  cases w with
  | idle => rfl
  | dispatch i => exact congrArg InterruptControl.ime (interrupts_wake _)
  | execute i =>
    simp only [perform, run_eq, interrupts_finish, interrupts_execute, interrupts_prepare,
      interrupts_wake]
    by_cases hDisable : i = .di
    · rw [hDisable]
      simp [imeAfter, InterruptControl.disable]
    · rw [bne_iff_ne.mpr hDisable, Bool.and_true]
      cases i
      case di => exact absurd rfl hDisable
      all_goals rfl

theorem scheduled_perform (s : Core M) (w : Work) :
    (s.perform w).2.cpu.interrupts.scheduled = true ↔
      w = .execute .ei ∨ (w = .idle ∧ s.cpu.interrupts.scheduled = true) := by
  cases w with
  | idle => simp [perform]
  | dispatch i => simp [perform, enterHandler_eq, setInterrupts]
  | execute i =>
    simp only [perform, run_eq, interrupts_finish, interrupts_execute, interrupts_prepare]
    cases i <;> simp [InterruptControl.disable, InterruptControl.schedule]

/-- What a run keeps of the processor, given the last work that was done. -/
structure Follows (c : Cpu) (previous : Option Work) : Prop where
  scheduled_iff : c.interrupts.scheduled = true ↔ previous = some (.execute .ei)
  running : c.interrupts.scheduled = true → c.activity = .running

theorem activity_wake (s : Core M) : s.wake.cpu.activity = .running := by
  unfold wake
  split
  next h => exact h
  next => rfl

theorem activity_enable (s : Core M) : (s.perform (.execute .ei)).2.cpu.activity = .running := by
  have hFinish (t : Core M) (enable : Bool) : (t.finish enable).cpu.activity = t.cpu.activity := by
    cases enable <;> rfl
  exact (hFinish _ _).trans s.activity_wake

theorem Follows.perform {previous : Option Work} (h : Follows s.cpu previous)
    (hWork : s.work = .ok w) : Follows (s.perform w).2.cpu (some w) := by
  have hScheduled : (s.perform w).2.cpu.interrupts.scheduled = true ↔ w = .execute .ei := by
    rw [scheduled_perform]
    constructor
    · rintro (hEnable | ⟨hIdle, hScheduled⟩)
      · exact hEnable
      · have hRunning := h.running hScheduled
        rcases work_cases hWork with ⟨hAsleep, -⟩ | ⟨-, i, -, rfl⟩ | ⟨-, -, i, -, rfl⟩
        · exact absurd hRunning hAsleep.1
        · cases hIdle
        · cases hIdle
    · exact .inl
  refine ⟨hScheduled.trans (by rw [Option.some_inj]), fun hEnabled => ?_⟩
  rw [hScheduled.mp hEnabled]
  exact s.activity_enable

theorem Run.follows (h : Run M c₀ works c) (hStart : c₀.interrupts.scheduled = false) :
    Follows c works.getLast? := by
  induction h with
  | nil =>
    constructor
    · simp [hStart]
    · simp [hStart]
  | snoc hRun hWork hStep ih =>
    have hNext := ih.perform hWork
    rw [perform_of_step hWork hStep] at hNext
    rwa [List.getLast?_concat]

/-- The work that keeps interrupts from being dispatched from then on. -/
def closes : Work → Bool
  | .dispatch _ => true
  | .execute .di => true
  | _ => false

/-- The work behind which interrupts may be dispatched: a return that enables them, or an enable and
the instruction behind it, and whatever does not disable them after that. -/
inductive Opened : List Work → Prop where
  | ret {works : List Work} : Opened (works ++ [.execute .retEnable])
  | enable {works : List Work} {i : Instruction} :
      i ≠ .di → Opened (works ++ [.execute .ei, .execute i])
  | keep {works : List Work} {w : Work} : Opened works → closes w = false → Opened (works ++ [w])

theorem imeAfter_eq_true_iff {delayed ime : Bool} :
    imeAfter delayed ime w = true ↔
      w = .execute .retEnable ∨ (delayed = true ∧ ∃ i, i ≠ .di ∧ w = .execute i) ∨
        (ime = true ∧ closes w = false) := by
  cases w with
  | idle => simp [imeAfter, closes]
  | dispatch i => simp [imeAfter, closes]
  | execute i => cases i <;> simp [imeAfter, closes, or_comm]

theorem opened_snoc_iff :
    Opened (works ++ [w]) ↔
      w = .execute .retEnable ∨
        (works.getLast? = some (.execute .ei) ∧ ∃ i, i ≠ .di ∧ w = .execute i) ∨
        (Opened works ∧ closes w = false) := by
  constructor
  · generalize hAll : works ++ [w] = all
    rintro (_ | ⟨hDisable⟩ | ⟨hOpened, hCloses⟩)
    case ret before =>
      obtain ⟨-, hLast⟩ := List.append_inj' hAll rfl
      cases hLast
      exact .inl rfl
    case enable before i =>
      have hSplit : works ++ [w] = (before ++ [.execute .ei]) ++ [.execute i] := by
        rw [hAll, List.append_assoc]
        rfl
      obtain ⟨hBefore, hLast⟩ := List.append_inj' hSplit rfl
      cases hLast
      rw [hBefore, List.getLast?_concat]
      exact .inr (.inl ⟨rfl, i, hDisable, rfl⟩)
    case keep before v =>
      obtain ⟨hBefore, hLast⟩ := List.append_inj' hAll rfl
      cases hLast
      rw [hBefore]
      exact .inr (.inr ⟨hOpened, hCloses⟩)
  · rintro (rfl | ⟨hLast, i, hDisable, rfl⟩ | ⟨hOpened, hCloses⟩)
    · exact .ret
    · obtain ⟨before, rfl⟩ := List.getLast?_eq_some_iff.mp hLast
      rw [List.append_assoc]
      exact .enable hDisable
    · exact .keep hOpened hCloses

theorem not_opened_nil : ¬ Opened [] := by
  generalize hAll : ([] : List Work) = all
  rintro (_ | _ | _)
  all_goals simp at hAll

theorem Run.ime_iff (h : Run M c₀ works c) (hStart : c₀.interrupts = ⟨false, false⟩) :
    c.interrupts.ime = true ↔ Opened works := by
  induction h with
  | nil => simp [hStart, not_opened_nil]
  | @snoc works w n s s' hRun hWork hStep ih =>
    have hFollows := hRun.follows (by rw [hStart])
    have hIme := s.ime_perform w
    rw [perform_of_step hWork hStep] at hIme
    rw [hIme, imeAfter_eq_true_iff, opened_snoc_iff, hFollows.scheduled_iff, ih]

/-- The processor executes what follows an enable that opens the window, whatever the memory holds
by then. -/
theorem execute_behind_enable {m : M} {v : Work} (hIme : c.interrupts.ime = false)
    (hRunning : c.activity = .running) (hNext : (⟨c, m⟩ : Core M).work = .ok v) :
    ∃ i, v = .execute i := by
  rcases work_cases hNext with ⟨hAsleep, -⟩ | ⟨-, i, hSome, -⟩ | ⟨-, -, i, -, hExecute⟩
  · exact absurd hRunning hAsleep.1
  · rw [dispatchable?, hIme] at hSome
    cases hSome
  · exact ⟨i, hExecute⟩

theorem fetch_enable {m : M} {pc : UInt16} (h : Memory.read m pc = 0xFB) :
    Memory.fetch m pc = .ok .ei := by
  rw [Memory.fetch, Instruction.decodeAt_eq_ok_iff, h]
  rfl

theorem work_enable (hRunning : s.cpu.activity = .running) (hIme : s.cpu.interrupts.ime = false)
    (hByte : s.read s.cpu.regs.pc = 0xFB) : s.work = .ok (.execute .ei) := by
  rw [work, dispatchable?, hRunning, hIme, fetch_enable hByte]
  rfl

/-- Two enables in a row, while an interrupt waits to be dispatched. -/
def repeatedEnable : Core Store where
  cpu := Cpu.powerOn
  memory :=
    (((Store.zero.set 0x100 0xFB).set 0x101 0xFB).set Address.interruptFlags 1).set
      Address.interruptEnable 1

/-- Behind the first of them. -/
def enableOnce : Core Store where
  cpu := { Cpu.powerOn with regs.pc := 0x101, interrupts.scheduled := true }
  memory := repeatedEnable.memory

/-- Behind both of them. -/
def enableTwice : Core Store where
  cpu := { Cpu.powerOn with regs.pc := 0x102, interrupts := ⟨true, true⟩ }
  memory := repeatedEnable.memory

theorem work_repeatedEnable : repeatedEnable.work = .ok (.execute .ei) := by
  have hByte : repeatedEnable.memory.get 0x100 = 0xFB := by
    simp only [repeatedEnable, Store.get_set]
    decide
  exact work_enable rfl rfl hByte

theorem work_enableOnce : enableOnce.work = .ok (.execute .ei) := by
  have hByte : repeatedEnable.memory.get 0x101 = 0xFB := by
    simp only [repeatedEnable, Store.get_set]
    decide
  exact work_enable rfl rfl hByte

theorem work_enableTwice : enableTwice.work = .ok (.dispatch .vblank) := by
  have hPending : Memory.pending repeatedEnable.memory = 1 := by
    simp only [repeatedEnable, Memory.pending, Memory.read, Store.get_set]
    decide +kernel
  have hSome : enableTwice.dispatchable? = some .vblank := by
    simp only [dispatchable?, enableTwice, if_pos, hPending]
    rfl
  rw [work, hSome]
  rfl

theorem step_repeatedEnable : repeatedEnable.step = (.ok 1, enableOnce) :=
  step_eq_ok_iff.mpr ⟨_, work_repeatedEnable, rfl⟩

theorem step_enableOnce : enableOnce.step = (.ok 1, enableTwice) :=
  step_eq_ok_iff.mpr ⟨_, work_enableOnce, rfl⟩

/-- What every step of a run does to the master enable. An enable is scheduled only right behind the
instruction that schedules it, and no interrupt comes between that instruction and the next one,
unless interrupts were enabled or about to be. Interrupts that were disabled at the start are
dispatched only behind work that opens the way for them. -/
theorem Run.step_enable (hStart : c₀.interrupts.scheduled = false) (hRun : Run M c₀ works s.cpu)
    (hStep : s.step = (.ok n, s')) :
    ∃ w, s.work = .ok w ∧ Run M c₀ (works ++ [w]) s'.cpu ∧
      (s'.cpu.interrupts.scheduled = true ↔ w = .execute .ei) ∧
      s'.cpu.interrupts.ime =
        imeAfter (works.getLast? == some (.execute .ei)) s.cpu.interrupts.ime w ∧
      (s'.cpu.interrupts.scheduled = true → s'.cpu.activity = .running) ∧
      (s.cpu.interrupts = ⟨false, false⟩ → w = .execute .ei →
        s'.cpu.interrupts.ime = false ∧
          ∀ (m : M) (v : Work), (⟨s'.cpu, m⟩ : Core M).work = .ok v → ∃ i, v = .execute i) ∧
      (works.getLast? = some (.execute .ei) → w = .execute .di →
        s'.cpu.interrupts = ⟨false, false⟩) ∧
      (c₀.interrupts.ime = false →
        (s'.cpu.interrupts.ime = true ↔ Opened (works ++ [w])) ∧
          ∀ i, w = .dispatch i → Opened works) := by
  obtain ⟨w, hWork, hPerform⟩ := step_eq_ok_iff.mp hStep
  have hNext := hRun.snoc hWork hStep
  have hFollows := hRun.follows hStart
  have hFollowsNext := hNext.follows hStart
  rw [List.getLast?_concat] at hFollowsNext
  have hScheduled : s.cpu.interrupts.scheduled = (works.getLast? == some (.execute .ei)) := by
    rw [Bool.eq_iff_iff, hFollows.scheduled_iff, beq_iff_eq]
  have hScheduledNext : s'.cpu.interrupts.scheduled = true ↔ w = .execute .ei := by
    rw [hFollowsNext.scheduled_iff, Option.some_inj]
  have hIme := s.ime_perform w
  rw [hPerform] at hIme
  refine ⟨w, hWork, hNext, hScheduledNext, hScheduled ▸ hIme, hFollowsNext.running, ?_, ?_, ?_⟩
  · rintro hClear rfl
    have hImeNext : s'.cpu.interrupts.ime = false := by
      rw [hIme, hClear]
      rfl
    refine ⟨hImeNext, fun m v => ?_⟩
    exact execute_behind_enable hImeNext (hFollowsNext.running (hScheduledNext.mpr rfl))
  · rintro - rfl
    exact InterruptControl.eq_disabled hIme (by simpa using hScheduledNext)
  · intro hClear
    have hBoth := InterruptControl.eq_disabled hClear hStart
    refine ⟨hNext.ime_iff hBoth, ?_⟩
    rintro i rfl
    exact (hRun.ime_iff hBoth).mp (dispatchable_of_work hWork).1

/-- The second enable is not protected, since the first one takes effect behind it. -/
theorem dispatch_behind_repeated_enable :
    repeatedEnable.cpu.activity = .running ∧ repeatedEnable.cpu.interrupts = ⟨false, false⟩ ∧
    ∃ s₁ s₂ s₃ : Core Store,
      (repeatedEnable.work = .ok (.execute .ei) ∧ repeatedEnable.step = (.ok 1, s₁)) ∧
      (s₁.cpu.interrupts.ime = false ∧ s₁.work = .ok (.execute .ei) ∧ s₁.step = (.ok 1, s₂)) ∧
      (s₂.work = .ok (.dispatch .vblank) ∧ s₂.step = (.ok 5, s₃)) :=
  ⟨rfl, rfl, enableOnce, enableTwice, _, ⟨work_repeatedEnable, step_repeatedEnable⟩,
    ⟨rfl, work_enableOnce, step_enableOnce⟩,
    work_enableTwice, step_eq_ok_iff.mpr ⟨_, work_enableTwice, rfl⟩⟩

theorem Run.step_enable_twice :
    Cpu.powerOn.interrupts.scheduled = false ∧
      Run Store Cpu.powerOn ([] ++ [.execute .ei]) enableOnce.cpu ∧
      enableOnce.step = (.ok 1, enableTwice) ∧
      ∃ w, enableOnce.work = .ok w ∧
        (enableTwice.cpu.interrupts.scheduled = true ↔ w = .execute .ei) ∧
        enableTwice.cpu.interrupts.ime = imeAfter true false w := by
  have hRun : Run Store Cpu.powerOn ([] ++ [.execute .ei]) enableOnce.cpu :=
    Run.nil.snoc work_repeatedEnable step_repeatedEnable
  obtain ⟨w, hWork, -, hScheduled, hIme, -⟩ := Run.step_enable rfl hRun step_enableOnce
  exact ⟨rfl, hRun, step_enableOnce, w, hWork, hScheduled, hIme⟩

end Core
end DotMatrix
