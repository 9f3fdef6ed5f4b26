/-!
# Trails

A trail remembers the last 32 addresses that were pushed onto it. It is kept as two stretches, so
that a push moves nothing: `newestFirst_push` says that this makes no difference.
-/

namespace DotMatrix

structure Trail where
  /-- The latest addresses, newest first. -/
  newer : List UInt16
  /-- The stretch before them, newest first. -/
  older : List UInt16
  size : Nat
  size_eq : newer.length = size

namespace Trail

def capacity : Nat := 32

def empty : Trail :=
  ⟨[], [], 0, rfl⟩

def push (t : Trail) (a : UInt16) : Trail :=
  if t.size < capacity then
    ⟨a :: t.newer, t.older, t.size + 1, by simp [t.size_eq]⟩
  else ⟨[a], t.newer, 1, rfl⟩

def newestFirst (t : Trail) : List UInt16 :=
  (t.newer ++ t.older).take capacity

def toList (t : Trail) : List UInt16 :=
  t.newestFirst.reverse

theorem newestFirst_push (t : Trail) (a : UInt16) :
    (t.push a).newestFirst = (a :: t.newestFirst).take capacity := by
  unfold push newestFirst
  split
  next h =>
    simp [capacity, List.take_take]
  next h =>
    have hlen : capacity ≤ t.newer.length := by
      rw [t.size_eq]
      omega
    rw [List.take_append_of_le_length hlen]
    simp [capacity, List.take_take]

end Trail
end DotMatrix
