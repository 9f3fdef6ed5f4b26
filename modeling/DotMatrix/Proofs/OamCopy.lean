import DotMatrix.Proofs.CoreStores

/-!
# The copy into the object attribute memory

A write to the DMA register copies upwards and in place. It still copies every byte as it was
before: the object attribute memory begins either where the page begins, or so far from it that no
byte of the page is overwritten before it is read.
-/

namespace DotMatrix

theorem Address.toNat_sub_succ {a start : UInt16} (h : start ≠ a) :
    (a - (start + 1)).toNat + 1 = (a - start).toNat := by
  have hNe : start.toNat ≠ a.toNat := mt UInt16.toNat_inj.mp h
  have hSucc : (start + 1).toNat = (start.toNat + 1) % 65536 := UInt16.toNat_add start 1
  have hStart := start.toNat_lt
  have hLt := a.toNat_lt
  rw [UInt16.toNat_sub, UInt16.toNat_sub, hSucc]
  omega

namespace Store

theorem set_eq_self {s : Store} {a : UInt16} {v : UInt8} (h : s.get a = v) : s.set a v = s := by
  refine ext_get fun x => ?_
  rw [get_set]
  split
  next ha => rw [← ha, h]
  next => rfl

theorem copyUp_self (s : Store) (a : UInt16) (n : Nat) : s.copyUp a a n = s := by
  induction n generalizing a with
  | zero => rfl
  | succ n ih => rw [copyUp, set_eq_self rfl, ih]

/-- An upward copy is the copy of a snapshot if its destination begins at none of the bytes that are
to be read. Both addresses may wrap. -/
theorem get_copyUp (s : Store) {source dest : UInt16} {n : Nat}
    (hApart : n ≤ (dest - source).toNat) (a : UInt16) :
    (s.copyUp source dest n).get a =
      if (a - dest).toNat < n then s.get (source + (a - dest)) else s.get a := by
  induction n generalizing s source dest with
  | zero => rfl
  | succ n ih =>
    have hShift : dest + 1 - (source + 1) = dest - source := by grind
    rw [copyUp, ih _ (by rw [hShift]; omega)]
    by_cases ha : dest = a
    · subst ha
      have hBehind : dest - (dest + 1) = 65535 := by grind
      have hRound : ¬ (dest - (dest + 1)).toNat < n := by
        have hLt := (dest - source).toNat_lt
        rw [hBehind]
        change ¬ 65535 < n
        omega
      rw [if_neg hRound, get_set_self, UInt16.sub_self, UInt16.add_zero]
      exact (if_pos n.succ_pos).symm
    · have hAhead := Address.toNat_sub_succ ha
      have hFrom : source + 1 + (a - (dest + 1)) = source + (a - dest) := by grind
      have hLater : (a - (dest + 1)).toNat < n ↔ (a - dest).toNat < n + 1 := by omega
      simp only [hLater, hFrom]
      split
      next hIn =>
        have hUnread : dest ≠ source + (a - dest) := by
          intro h
          have hSame : dest - source = a - dest := by grind
          rw [hSame] at hApart
          omega
        exact get_set_of_ne _ _ hUnread
      next => exact get_set_of_ne _ _ ha

/-- A copy between two stretches that share no byte is done after the first time. -/
theorem copyUp_copyUp (s : Store) {source dest : UInt16} {n : Nat}
    (hApart : n ≤ (dest - source).toNat) (hBehind : n ≤ (source - dest).toNat) :
    (s.copyUp source dest n).copyUp source dest n = s.copyUp source dest n := by
  refine ext_get fun a => ?_
  rw [get_copyUp _ hApart]
  split
  next hIn =>
    have hOutside : ¬ (source + (a - dest) - dest).toNat < n := by
      have hSum : source + (a - dest) - dest = (source - dest) + (a - dest) := by grind
      have hTurn : (source - dest).toNat + (dest - source).toNat = 65536 := by
        have hSource := source.toNat_lt
        have hDest := dest.toNat_lt
        rw [UInt16.toNat_sub] at hApart hBehind ⊢
        rw [UInt16.toNat_sub]
        omega
      rw [hSum, UInt16.toNat_add]
      omega
    rw [get_copyUp _ hApart, if_neg hOutside, get_copyUp _ hApart, if_pos hIn]
  next => rfl

end Store

namespace Bus

theorem write_oamDma (b : Bus) (v : UInt8) :
    b.write Address.oamDma v =
      { b with store := (b.store.set Address.oamDma v).copyUp (dmaSource v) Address.oam oamSize } :=
  rfl

theorem dividerReset_write_oamDma (b : Bus) (v : UInt8) :
    (b.write Address.oamDma v).dividerReset = b.dividerReset := by
  rw [write_oamDma]

theorem reportsRomWrites_write_oamDma (b : Bus) (v : UInt8) :
    (b.write Address.oamDma v).reportsRomWrites = b.reportsRomWrites := by
  rw [write_oamDma]

theorem toNat_dmaSource (v : UInt8) : (dmaSource v).toNat = 256 * v.toNat := by
  rw [dmaSource, Word.toNat_ofBytes, Nat.mul_comm]
  rfl

/-- Pages begin 256 bytes apart, and the copy is shorter. -/
theorem oam_apart {v : UInt8} (h : Address.oam ≠ dmaSource v) :
    oamSize ≤ (Address.oam - dmaSource v).toNat ∧ oamSize ≤ (dmaSource v - Address.oam).toNat := by
  have hNe : 65024 ≠ 256 * v.toNat := by
    intro hPage
    rw [← toNat_dmaSource] at hPage
    exact h (UInt16.toNat_inj.mp hPage)
  have hByte := v.toNat_lt
  have hOam : Address.oam.toNat = 65024 := rfl
  rw [UInt16.toNat_sub, UInt16.toNat_sub, toNat_dmaSource, hOam, oamSize]
  omega

theorem get_write_oamDma (b : Bus) (v : UInt8) (a : UInt16) :
    (b.write Address.oamDma v).store.get a =
      if (a - Address.oam).toNat < oamSize then
        (b.store.set Address.oamDma v).get (dmaSource v + (a - Address.oam))
      else (b.store.set Address.oamDma v).get a := by
  rw [write_oamDma]
  by_cases h : Address.oam = dmaSource v
  · have hBack : dmaSource v + (a - Address.oam) = a := by grind
    rw [hBack, ← h, Store.copyUp_self, ite_self]
  · exact Store.get_copyUp _ (oam_apart h).1 a

theorem write_oamDma_twice (b : Bus) (v : UInt8) :
    (b.write Address.oamDma v).write Address.oamDma v = b.write Address.oamDma v := by
  have hSame : (b.write Address.oamDma v).store.set Address.oamDma v =
      (b.write Address.oamDma v).store := by
    refine Store.set_eq_self ?_
    rw [get_write_oamDma, if_neg (by decide), Store.get_set_self]
  rw [(b.write Address.oamDma v).write_oamDma, hSame, write_oamDma]
  by_cases h : Address.oam = dmaSource v
  · rw [← h, Store.copyUp_self, Store.copyUp_self]
  · obtain ⟨hApart, hBehind⟩ := oam_apart h
    rw [Store.copyUp_copyUp _ hApart hBehind]

/-- A write of a page to the DMA register leaves the page there and copies it as it was, with the
register itself already written, and makes no other change. A second write of the same page makes
none at all. -/
theorem oam_snapshot (b : Bus) (page : UInt8) :
    let before := b.store.set Address.oamDma page
    let after := b.write Address.oamDma page
    after.store.get Address.oamDma = page ∧
      (∀ i < oamSize, 256 * page.toNat + i < 65536 ∧
        after.store.get (Address.oam + UInt16.ofNat i) =
          before.get (UInt16.ofNat (256 * page.toNat + i))) ∧
      (∀ a, a ≠ Address.oamDma → a.toNat < 0xFE00 ∨ 0xFEA0 ≤ a.toNat →
        after.store.get a = b.store.get a) ∧
      after.dividerReset = b.dividerReset ∧ after.reportsRomWrites = b.reportsRomWrites ∧
      after.write Address.oamDma page = after := by
  intro before after
  refine ⟨?_, ?_, ?_, b.dividerReset_write_oamDma page, b.reportsRomWrites_write_oamDma page,
    b.write_oamDma_twice page⟩
  · exact (b.get_write_oamDma page _).trans (Store.get_set_self _ _ _)
  · intro i hi
    have hPage := page.toNat_lt
    have hLt : i < 160 := hi
    have hBack : Address.oam + UInt16.ofNat i - Address.oam = UInt16.ofNat i := by grind
    have hWord : i < UInt16.size := Nat.lt_trans hLt (by decide)
    have hIndex : (UInt16.ofNat i).toNat = i := UInt16.toNat_ofNat_of_lt' hWord
    have hFrom : dmaSource page + UInt16.ofNat i = UInt16.ofNat (256 * page.toNat + i) := by
      rw [UInt16.ofNat_add, ← toNat_dmaSource, UInt16.ofNat_toNat]
    refine ⟨by omega, ?_⟩
    rw [b.get_write_oamDma, hBack, hIndex, if_pos hi, hFrom]
  · intro a ha hOutside
    exact b.get_write_of_ne page ha.symm hOutside

/-- The page of the device registers holds the DMA register itself, which is copied with its new
byte. -/
theorem oam_snapshot_of_registers :
    let b : Bus := { Bus.empty with store := Store.zero.set Address.lcdYCompare 0x90 }
    let after := b.write Address.oamDma 0xFF
    after.store.get 0xFE45 = 0x90 ∧ after.store.get 0xFE46 = 0xFF ∧
      after.store.get Address.lcdYCompare = 0x90 := by
  intro b after
  obtain ⟨-, hCopied, hKept, -⟩ := oam_snapshot b 0xFF
  have hCompare : b.store.get Address.lcdYCompare = 0x90 := Store.get_set_self _ _ _
  have hBefore : (b.store.set Address.oamDma 0xFF).get Address.lcdYCompare = 0x90 :=
    (Store.get_set_of_ne _ _ (by decide)).trans hCompare
  refine ⟨?_, ?_, ?_⟩
  · exact (hCopied 0x45 (by decide)).2.trans hBefore
  · exact (hCopied 0x46 (by decide)).2.trans (Store.get_set_self _ _ _)
  · exact (hKept Address.lcdYCompare (by decide) (by decide)).trans hCompare

end Bus
end DotMatrix
