import DotMatrix.Proofs.CoreStep

/-!
# The work of a step

What a step does is decided before anything changes: it idles, it dispatches an interrupt, or it
executes the instruction at the program counter. A run keeps the work of its steps in order. The
devices share the memory with the processor, so a run leaves open what the memory is at each step.
-/

namespace DotMatrix

inductive Work where
  | idle
  | dispatch (i : Interrupt)
  | execute (i : Instruction)
deriving DecidableEq

namespace Core

theorem apply_guarded {M α : Type} (g : Core M → α) (s : Core M) (condition : Option Condition)
    {f : Core M → Core M} (h : g (f s) = g s) : g (s.guarded condition f) = g s := by
  unfold guarded
  split
  next => exact h
  next => rfl

variable {M : Type} [Memory M] {s s' : Core M} {w : Work} {n : Nat}

/-- What the next step does, if it does not meet an undefined op code. -/
def work (s : Core M) : Except DecodeError Work :=
  if s.cpu.activity != .running && Memory.pending s.memory == 0 then .ok .idle
  else
    match s.dispatchable? with
    | some i => .ok (.dispatch i)
    | none => (Memory.fetch s.memory s.cpu.regs.pc).map .execute

/-- The cost of the work, and the core behind it. -/
def perform (s : Core M) : Work → Nat × Core M
  | .idle => (1, s)
  | .dispatch i => (dispatchCycles, (s.enterHandler i).wake)
  | .execute i => (i.cycles s.cpu.regs.f, s.wake.run i)

theorem step_eq (s : Core M) :
    s.step =
      match s.work with
      | .ok w => (.ok (s.perform w).1, (s.perform w).2)
      | .error e => (.error { e with registers := some s.cpu.regs }, s) := by
  unfold step work
  split
  next => rfl
  next =>
    cases s.dispatchable? with
    | some i => rfl
    | none => cases Memory.fetch s.memory s.cpu.regs.pc <;> rfl

/-- A step succeeds exactly if there is work for it, and then it does that work. -/
theorem step_eq_ok_iff : s.step = (.ok n, s') ↔ ∃ w, s.work = .ok w ∧ s.perform w = (n, s') := by
  rw [step_eq]
  cases s.work with
  | ok w => simp [Prod.ext_iff]
  | error e => simp

theorem perform_of_step (hWork : s.work = .ok w) (hStep : s.step = (.ok n, s')) :
    s.perform w = (n, s') := by
  obtain ⟨v, hWork', hPerform⟩ := step_eq_ok_iff.mp hStep
  cases hWork.symm.trans hWork'
  exact hPerform

theorem work_cases (h : s.work = .ok w) :
    (s.Asleep ∧ w = .idle) ∨
    (¬ s.Asleep ∧ ∃ i, s.dispatchable? = some i ∧ w = .dispatch i) ∨
    (¬ s.Asleep ∧ s.dispatchable? = none ∧
      ∃ i, Memory.fetch s.memory s.cpu.regs.pc = .ok i ∧ w = .execute i) := by
  unfold work at h
  split at h
  next hIdle =>
    cases h
    exact .inl ⟨idles_iff.mp hIdle, rfl⟩
  next hIdle =>
    have hAwake : ¬ s.Asleep := mt idles_iff.mpr hIdle
    split at h
    next i hSome =>
      cases h
      exact .inr (.inl ⟨hAwake, i, hSome, rfl⟩)
    next hNone =>
      cases hFetch : Memory.fetch s.memory s.cpu.regs.pc with
      | error e =>
        rw [hFetch] at h
        cases h
      | ok i =>
        rw [hFetch] at h
        cases h
        exact .inr (.inr ⟨hAwake, hNone, i, rfl, rfl⟩)

theorem fetch_of_work_error {e : DecodeError} (h : s.work = .error e) :
    Memory.fetch s.memory s.cpu.regs.pc = .error e := by
  unfold work at h
  split at h
  next => cases h
  next =>
    split at h
    next => cases h
    next =>
      cases hFetch : Memory.fetch s.memory s.cpu.regs.pc with
      | ok i =>
        rw [hFetch] at h
        cases h
      | error e' =>
        rw [hFetch] at h
        cases h
        rfl

theorem dispatchable_of_work {i : Interrupt} (h : s.work = .ok (.dispatch i)) :
    s.cpu.interrupts.ime = true ∧
      Interrupt.highestPriority? (Memory.pending s.memory) = some i := by
  rcases work_cases h with ⟨-, hIdle⟩ | ⟨-, j, hSome, hDispatch⟩ | ⟨-, -, j, -, hExecute⟩
  · cases hIdle
  · cases hDispatch
    unfold dispatchable? at hSome
    split at hSome
    next hIme => exact ⟨hIme, hSome⟩
    next => cases hSome
  · cases hExecute

/-- Steps that succeed, with the work of each of them. -/
inductive Run (M : Type) [Memory M] (c₀ : Cpu) : List Work → Cpu → Prop where
  | nil : Run M c₀ [] c₀
  | snoc {works : List Work} {w : Work} {n : Nat} {s s' : Core M} :
      Run M c₀ works s.cpu → s.work = .ok w → s.step = (.ok n, s') →
        Run M c₀ (works ++ [w]) s'.cpu

end Core
end DotMatrix
