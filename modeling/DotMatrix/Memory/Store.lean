/-!
# The store of 65536 bytes

The address space is 256 pages of 256 bytes. Only the laws at the end of this module are used
elsewhere: a read sees the last byte stored at its address, and two stores with equal reads are
equal.
-/

namespace DotMatrix

abbrev Page := Vector UInt8 256

def Page.blank : Page :=
  Vector.replicate 256 0

structure Store where
  pages : Vector Page 256

namespace Store

theorem page_lt (a : UInt16) : a.toNat / 256 < 256 := by
  have := a.toNat_lt
  omega

theorem offset_lt (a : UInt16) : a.toNat % 256 < 256 :=
  Nat.mod_lt _ (by decide)

def zero : Store :=
  ⟨Vector.replicate 256 Page.blank⟩

def get (s : Store) (a : UInt16) : UInt8 :=
  have := page_lt a
  have := offset_lt a
  s.pages[a.toNat / 256][a.toNat % 256]

/-- The page is taken out of the store while it is changed, so that it is changed in place. -/
def set (s : Store) (a : UInt16) (v : UInt8) : Store :=
  have hp := page_lt a
  have ho := offset_lt a
  let page := s.pages[a.toNat / 256]
  let rest := s.pages.set (a.toNat / 256) Page.blank hp
  ⟨rest.set (a.toNat / 256) (page.set (a.toNat % 256) v ho) hp⟩

/-- The bytes are stored upwards from `a`, wrapping past the last address. -/
def load (s : Store) (a : UInt16) : List UInt8 → Store
  | [] => s
  | b :: bs => (s.set a b).load (a + 1) bs

@[simp] theorem get_zero (a : UInt16) : zero.get a = 0 := by
  simp [zero, get, Page.blank]

@[simp] theorem get_set_self (s : Store) (a : UInt16) (v : UInt8) : (s.set a v).get a = v := by
  simp [get, set]

theorem get_set_of_ne (s : Store) {a b : UInt16} (v : UInt8) (h : a ≠ b) :
    (s.set a v).get b = s.get b := by
  have hne : a.toNat ≠ b.toNat := fun e => h (UInt16.toNat_inj.mp e)
  simp only [get, set, Vector.set_set]
  by_cases hp : a.toNat / 256 = b.toNat / 256
  · have ho : a.toNat % 256 ≠ b.toNat % 256 := by omega
    simp [hp, Vector.getElem_set_ne _ _ ho]
  · simp [Vector.getElem_set_ne _ _ hp]

theorem get_set (s : Store) (a b : UInt16) (v : UInt8) :
    (s.set a v).get b = if a = b then v else s.get b := by
  split
  next h => rw [h, get_set_self]
  next h => exact get_set_of_ne s v h

theorem ext_get {s t : Store} (h : ∀ a, s.get a = t.get a) : s = t := by
  obtain ⟨p⟩ := s
  obtain ⟨q⟩ := t
  congr
  apply Vector.ext
  intro i hi
  apply Vector.ext
  intro j hj
  have := h (UInt16.ofNat (256 * i + j))
  have e : (UInt16.ofNat (256 * i + j)).toNat = 256 * i + j := by
    simp
    omega
  simp only [get, e] at this
  have hdiv : (256 * i + j) / 256 = i := by omega
  have hmod : (256 * i + j) % 256 = j := by omega
  simpa only [hdiv, hmod] using this

theorem get_load (s : Store) (a b : UInt16) (bytes : List UInt8)
    (h : a.toNat + bytes.length ≤ 65536) :
    (s.load a bytes).get b =
      if a.toNat ≤ b.toNat ∧ b.toNat < a.toNat + bytes.length
      then bytes.getD (b.toNat - a.toNat) 0 else s.get b := by
  have hb := b.toNat_lt
  induction bytes generalizing s a with
  | nil => rw [if_neg (by simp), load]
  | cons x bytes ih =>
    rw [List.length_cons] at h
    have hSucc : (a + 1).toNat = (a.toNat + 1) % 65536 := UInt16.toNat_add a 1
    rw [load, ih _ _ (by omega), hSucc, List.length_cons]
    rcases Nat.lt_trichotomy a.toNat b.toNat with hLt | hSame | hGt
    · have hNe : a ≠ b := mt (congrArg UInt16.toNat) (by omega)
      have hIndex : b.toNat - a.toNat = b.toNat - (a.toNat + 1) + 1 := by omega
      have hIff : a.toNat + 1 ≤ b.toNat ∧ b.toNat < a.toNat + 1 + bytes.length ↔
          a.toNat ≤ b.toNat ∧ b.toNat < a.toNat + (bytes.length + 1) := by omega
      rw [Nat.mod_eq_of_lt (by omega), get_set_of_ne _ _ hNe, hIndex, List.getD_cons_succ]
      simp only [hIff]
    · obtain rfl := UInt16.toNat_inj.mp hSame
      rw [if_neg (by omega), if_pos (by omega), get_set_self, Nat.sub_self]
      rfl
    · have hNe : a ≠ b := mt (congrArg UInt16.toNat) (by omega)
      rw [if_neg (by omega), if_neg (by omega), get_set_of_ne _ _ hNe]

end Store
end DotMatrix
