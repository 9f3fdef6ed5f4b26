import DotMatrix.Proofs.Frames

/-!
# Calls

A machine is driven by steps and frames in any order. A frame is some ticks, so every list of calls
is some ticks too, and what each tick keeps is kept by the calls.
-/

namespace DotMatrix.Machine

inductive Call where
  | step | nextFrame
deriving DecidableEq

section

variable {M : Type} [OnBus M]

/-- A step returns its cost, a frame returns nothing. -/
def call (m : Machine M) : Call → Except DecodeError (Option Nat) × Machine M
  | .step => (m.step.1.map some, m.step.2)
  | .nextFrame => (m.nextFrame.1.map fun _ => none, m.nextFrame.2)

def afterCalls (m : Machine M) : List Call → Machine M
  | [] => m
  | c :: calls => (m.call c).2.afterCalls calls

/-- The machine after some ticks, failing ones included. -/
def afterTicks (m : Machine M) : Nat → Machine M
  | 0 => m
  | n + 1 => m.tick.2.afterTicks n

theorem afterTicks_add (m : Machine M) (n k : Nat) :
    m.afterTicks (n + k) = (m.afterTicks n).afterTicks k := by
  induction n generalizing m with
  | zero => rw [Nat.zero_add]; rfl
  | succ n ih => rw [Nat.succ_add]; exact ih m.tick.2

theorem afterTicks_succ (m : Machine M) (n : Nat) :
    m.afterTicks (n + 1) = (m.afterTicks n).tick.2 :=
  m.afterTicks_add n 1

theorem afterCalls_steps (m : Machine M) (n : Nat) :
    m.afterCalls (List.replicate n .step) = m.afterTicks n := by
  induction n generalizing m with
  | zero => rfl
  | succ n ih => exact ih m.tick.2

theorem exists_ticksToVBlank (m : Machine M) (n : Nat) :
    ∃ k, (m.ticksToVBlank n).2 = m.afterTicks k := by
  induction n generalizing m with
  | zero => exact ⟨0, rfl⟩
  | succ n ih =>
    rw [ticksToVBlank]
    split
    next e m₁ hTick => exact ⟨1, by rw [afterTicks, hTick]; rfl⟩
    next t m₁ hTick =>
      split
      next => exact ⟨1, by rw [afterTicks, hTick]; rfl⟩
      next =>
        obtain ⟨k, hLoop⟩ := ih m₁
        exact ⟨k + 1, by rw [hLoop, afterTicks, hTick]⟩

theorem exists_afterCalls (m : Machine M) (calls : List Call) :
    ∃ n, m.afterCalls calls = m.afterTicks n := by
  induction calls generalizing m with
  | nil => exact ⟨0, rfl⟩
  | cons c calls ih =>
    obtain ⟨n, hRest⟩ := ih (m.call c).2
    cases c with
    | step => exact ⟨n + 1, hRest⟩
    | nextFrame =>
      obtain ⟨k, hFrame⟩ := m.exists_ticksToVBlank m.display.cyclesToVBlank
      refine ⟨k + n, ?_⟩
      rw [afterTicks_add, ← hFrame]
      exact hRest

end

variable {m : Machine Bus} {image : List UInt8} {options : Options}

theorem Reachable.afterTicks (h : Reachable image options m) (n : Nat) :
    Reachable image options (m.afterTicks n) := by
  induction n generalizing m with
  | zero => exact h
  | succ n ih => exact ih h.step

end DotMatrix.Machine
