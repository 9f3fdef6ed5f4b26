import Mathlib.Algebra.BigOperators.Intervals
import Mathlib.Algebra.Ring.Int.Defs
import DotMatrix.Cartridge

/-!
# Which images are accepted

An image is rejected if it is too small, or else if the byte of the checksum is not the one that
the bytes before it call for. The checksum sees every change of a single byte that it covers, and
nothing outside the header has a say.
-/

namespace DotMatrix

namespace Header

/-- The sum of the bytes that the checksum covers. -/
def coveredSum (image : List UInt8) : Int :=
  ∑ i ∈ Finset.Icc 0x134 0x14C, ((image.getD i 0).toNat : Int)

theorem toNat_foldl_checksum (bytes : List UInt8) (start : UInt8) :
    ((bytes.foldl (fun sum b => sum - b - 1) start).toNat : Int) =
      (start.toNat - (bytes.map fun b => (b.toNat : Int)).sum - bytes.length) % 256 := by
  induction bytes generalizing start with
  | nil =>
    have hByte := start.toNat_lt
    simp only [List.foldl_nil, List.map_nil, List.sum_nil, List.length_nil]
    omega
  | cons b bytes ih =>
    have hByte := b.toNat_lt
    have hStart := start.toNat_lt
    have hNext : (start - b - 1).toNat = (start.toNat + 511 - b.toNat) % 256 := by
      simp only [UInt8.toNat_sub, UInt8.toNat_one]
      omega
    rw [List.foldl_cons, ih, hNext, List.map_cons, List.sum_cons, List.length_cons]
    push_cast
    omega

/-- The sum over a field is the sum over its addresses. -/
theorem sum_field (image : List UInt8) (start size : Nat) (h : start + size ≤ image.length) :
    (((image.drop start).take size).map fun b => (b.toNat : Int)).sum =
      ∑ i ∈ Finset.Ico start (start + size), ((image.getD i 0).toNat : Int) := by
  induction size with
  | zero => simp
  | succ size ih =>
    have hIndex : start + size < image.length := by omega
    rw [List.take_add_one, List.getElem?_drop, List.getElem?_eq_getElem hIndex, Option.toList_some,
      List.map_append, List.sum_append, ih (by omega), ← Nat.add_assoc,
      Finset.sum_Ico_succ_top (by omega), List.getD_eq_getElem?_getD,
      List.getElem?_eq_getElem hIndex]
    simp

theorem toNat_checksumOf {image : List UInt8} (h : checksumAt ≤ image.length) :
    ((checksumOf image).toNat : Int) = (-25 - coveredSum image) % 256 := by
  have hSum := sum_field image titleStart (checksumAt - titleStart) h
  have hLength : ((image.drop titleStart).take (checksumAt - titleStart)).length = 25 := by
    have hHeader : 0x14D ≤ image.length := h
    rw [List.length_take, List.length_drop, titleStart, checksumAt]
    omega
  have hRange : Finset.Ico titleStart (titleStart + (checksumAt - titleStart)) =
      Finset.Icc 0x134 0x14C := rfl
  rw [hRange] at hSum
  rw [checksumOf, toNat_foldl_checksum, hSum, hLength, coveredSum]
  simp only [UInt8.toNat_zero]
  omega

theorem getD_set (image : List UInt8) {i : Nat} (hi : i < image.length) (v : UInt8) (j : Nat) :
    (image.set i v).getD j 0 = if i = j then v else image.getD j 0 := by
  rw [List.getD_eq_getElem?_getD, List.getElem?_set, List.getD_eq_getElem?_getD]
  split
  next => rfl
  next => rfl

/-- Of all the bytes only the changed one counts. -/
theorem coveredSum_set (image : List UInt8) {i : Nat} (v : UInt8) (hi : i < image.length)
    (hFirst : 0x134 ≤ i) (hLast : i ≤ 0x14C) :
    coveredSum (image.set i v) = coveredSum image + v.toNat - (image.getD i 0).toNat := by
  have hDifference : coveredSum (image.set i v) - coveredSum image =
      v.toNat - (image.getD i 0).toNat := by
    rw [coveredSum, coveredSum, ← Finset.sum_sub_distrib,
      Finset.sum_eq_single_of_mem i (Finset.mem_Icc.mpr ⟨hFirst, hLast⟩)]
    · rw [getD_set image hi, if_pos rfl]
    · intro j _ hj
      rw [getD_set image hi, if_neg hj.symm, sub_self]
  omega

theorem coveredSum_set_checksum (image : List UInt8) (v : UInt8) (h : 0x14D < image.length) :
    coveredSum (image.set 0x14D v) = coveredSum image := by
  apply Finset.sum_congr rfl
  intro j hj
  have hBefore := (Finset.mem_Icc.mp hj).2
  rw [getD_set image h, if_neg (by omega)]

section

variable {image other : List UInt8}

theorem field_congr {start size : Nat} (h₁ : start + size ≤ image.length)
    (h₂ : start + size ≤ other.length)
    (hSame : ∀ i, start ≤ i → i < start + size → other.getD i 0 = image.getD i 0) :
    (other.drop start).take size = (image.drop start).take size := by
  apply List.ext_getElem
  · simp only [List.length_take, List.length_drop]
    omega
  · intro k hk hk'
    simp only [List.length_take, List.length_drop] at hk
    have hByte := hSame (start + k) (by omega) (by omega)
    rw [List.getD_eq_getElem?_getD, List.getD_eq_getElem?_getD,
      List.getElem?_eq_getElem (by omega), List.getElem?_eq_getElem (by omega)] at hByte
    rw [List.getElem_take, List.getElem_take, List.getElem_drop, List.getElem_drop]
    exact hByte

theorem ofImage_congr (h₁ : 0x14E ≤ image.length) (h₂ : 0x14E ≤ other.length)
    (hSame : ∀ i, 0x134 ≤ i → i ≤ 0x14D → other.getD i 0 = image.getD i 0) :
    ofImage other = ofImage image := by
  have hTitle : (other.drop titleStart).take titleSize = (image.drop titleStart).take titleSize :=
    field_congr (Nat.le_trans (by decide) h₁) (Nat.le_trans (by decide) h₂) fun i hFirst hLast => by
      rw [titleStart, titleSize] at hLast
      exact hSame i hFirst (by omega)
  have hChecksum : other.getD checksumAt 0 = image.getD checksumAt 0 :=
    hSame 0x14D (by decide) (by decide)
  rw [ofImage, ofImage, titleOf, titleOf, hTitle, hSame 0x143 (by decide) (by decide),
    hSame 0x146 (by decide) (by decide), hSame 0x147 (by decide) (by decide), hChecksum]

theorem coveredSum_congr (hSame : ∀ i, 0x134 ≤ i → i ≤ 0x14D → other.getD i 0 = image.getD i 0) :
    coveredSum other = coveredSum image := by
  apply Finset.sum_congr rfl
  intro i hi
  obtain ⟨hFirst, hLast⟩ := Finset.mem_Icc.mp hi
  rw [hSame i hFirst (by omega)]

end

end Header

namespace Cartridge

variable {image : List UInt8} {c : Cartridge}

/-- The byte of the checksum is the one that the covered bytes call for. -/
def ChecksumHolds (image : List UInt8) : Prop :=
  ((image.getD 0x14D 0).toNat : Int) = (-25 - Header.coveredSum image) % 256

theorem eq_checksumOf_iff (h : 0x8000 ≤ image.length) (v : UInt8) :
    v = Header.checksumOf image ↔ (v.toNat : Int) = (-25 - Header.coveredSum image) % 256 := by
  rw [← Header.toNat_checksumOf (Nat.le_trans (by decide) h), Int.natCast_inj, UInt8.toNat_inj]

theorem checksumHolds_iff (h : 0x8000 ≤ image.length) :
    ChecksumHolds image ↔ (Header.ofImage image).checksum = Header.checksumOf image :=
  (eq_checksumOf_iff h _).symm

theorem ofImage_of_small (h : image.length < 0x8000) :
    ofImage image = .error (.tooSmall image.length) := if_pos h

theorem ofImage_of_holds (h : 0x8000 ≤ image.length) (hHolds : ChecksumHolds image) :
    ofImage image = .ok ⟨Header.ofImage image, image⟩ := by
  have hEqual := (checksumHolds_iff h).mp hHolds
  exact (if_neg (Nat.not_lt.mpr h)).trans (if_pos hEqual)

theorem ofImage_of_not_holds (h : 0x8000 ≤ image.length) (hNot : ¬ ChecksumHolds image) :
    ofImage image = .error (.checksumMismatch (image.getD 0x14D 0) (Header.checksumOf image)) := by
  have hDiffer := mt (checksumHolds_iff h).mpr hNot
  exact (if_neg (Nat.not_lt.mpr h)).trans (if_neg hDiffer)

/-- What becomes of an image. -/
theorem ofImage_cases (image : List UInt8) :
    (image.length < 0x8000 ∧ ofImage image = .error (.tooSmall image.length)) ∨
    (0x8000 ≤ image.length ∧ ¬ ChecksumHolds image ∧ ofImage image =
      .error (.checksumMismatch (image.getD 0x14D 0) (Header.checksumOf image))) ∨
    (0x8000 ≤ image.length ∧ ChecksumHolds image ∧
      ofImage image = .ok ⟨Header.ofImage image, image⟩) := by
  rcases Nat.lt_or_ge image.length 0x8000 with hSmall | hLarge
  · exact .inl ⟨hSmall, ofImage_of_small hSmall⟩
  · by_cases hHolds : ChecksumHolds image
    · exact .inr (.inr ⟨hLarge, hHolds, ofImage_of_holds hLarge hHolds⟩)
    · exact .inr (.inl ⟨hLarge, hHolds, ofImage_of_not_holds hLarge hHolds⟩)

theorem ofImage_eq_tooSmall_iff {size : Nat} :
    ofImage image = .error (.tooSmall size) ↔ image.length < 0x8000 ∧ size = image.length := by
  rcases ofImage_cases image with ⟨hSmall, hResult⟩ | ⟨hLarge, -, hResult⟩ | ⟨hLarge, -, hResult⟩
  · rw [hResult]
    constructor
    · rintro ⟨⟩
      exact ⟨hSmall, rfl⟩
    · rintro ⟨-, rfl⟩
      rfl
  · rw [hResult]
    exact iff_of_false nofun fun h => absurd h.1 (Nat.not_lt.mpr hLarge)
  · rw [hResult]
    exact iff_of_false nofun fun h => absurd h.1 (Nat.not_lt.mpr hLarge)

theorem ofImage_eq_checksumMismatch_iff {stored computed : UInt8} :
    ofImage image = .error (.checksumMismatch stored computed) ↔
      0x8000 ≤ image.length ∧ stored = image.getD 0x14D 0 ∧
        (computed.toNat : Int) = (-25 - Header.coveredSum image) % 256 ∧ stored ≠ computed := by
  rcases ofImage_cases image with ⟨hSmall, hResult⟩ | ⟨hLarge, hNot, hResult⟩ |
    ⟨hLarge, hHolds, hResult⟩
  · rw [hResult]
    exact iff_of_false nofun fun h => absurd h.1 (Nat.not_le.mpr hSmall)
  · have hDiffer := mt (checksumHolds_iff hLarge).mpr hNot
    rw [hResult, ← eq_checksumOf_iff hLarge]
    constructor
    · rintro ⟨⟩
      exact ⟨hLarge, rfl, rfl, hDiffer⟩
    · rintro ⟨-, rfl, rfl, -⟩
      rfl
  · rw [hResult, ← eq_checksumOf_iff hLarge]
    refine iff_of_false nofun ?_
    rintro ⟨-, rfl, rfl, hDiffer⟩
    exact hDiffer ((checksumHolds_iff hLarge).mp hHolds)

theorem ofImage_eq_ok_iff :
    ofImage image = .ok c ↔
      0x8000 ≤ image.length ∧ ChecksumHolds image ∧ c = ⟨Header.ofImage image, image⟩ := by
  rcases ofImage_cases image with ⟨hSmall, hResult⟩ | ⟨hLarge, hNot, hResult⟩ |
    ⟨hLarge, hHolds, hResult⟩
  · rw [hResult]
    exact iff_of_false nofun fun h => absurd h.1 (Nat.not_le.mpr hSmall)
  · rw [hResult]
    exact iff_of_false nofun fun h => hNot h.2.1
  · rw [hResult]
    constructor
    · rintro ⟨⟩
      exact ⟨hLarge, hHolds, rfl⟩
    · rintro ⟨-, -, rfl⟩
      rfl

/-- A header that is right is wrong with any one of its checked bytes changed. -/
theorem not_checksumHolds_set (h : 0x8000 ≤ image.length) (hHolds : ChecksumHolds image) {i : Nat}
    {v : UInt8} (hFirst : 0x134 ≤ i) (hLast : i ≤ 0x14D) (hChanged : v ≠ image.getD i 0) :
    ¬ ChecksumHolds (image.set i v) := by
  have hByte := v.toNat_lt
  have hOld := (image.getD i 0).toNat_lt
  have hNe : v.toNat ≠ (image.getD i 0).toNat := mt UInt8.toNat_inj.mp hChanged
  unfold ChecksumHolds at hHolds ⊢
  rw [Header.getD_set image (by omega)]
  rcases Nat.lt_or_ge i 0x14D with hCovered | hStored
  · rw [if_neg (by omega), Header.coveredSum_set image v (by omega) hFirst (by omega), hHolds]
    omega
  · obtain rfl : i = 0x14D := by omega
    rw [if_pos rfl, Header.coveredSum_set_checksum image v (by omega), ← hHolds]
    omega

theorem ofImage_congr {other : List UInt8} (h : ofImage image = .ok c)
    (hLarge : 0x8000 ≤ other.length)
    (hSame : ∀ i, 0x134 ≤ i → i ≤ 0x14D → other.getD i 0 = image.getD i 0) :
    ofImage other = .ok ⟨c.header, other⟩ := by
  obtain ⟨hImage, hHolds, rfl⟩ := ofImage_eq_ok_iff.mp h
  have hHeader := Header.ofImage_congr (Nat.le_trans (by decide) hImage)
    (Nat.le_trans (by decide) hLarge) hSame
  have hStill : ChecksumHolds other := by
    unfold ChecksumHolds at hHolds ⊢
    rw [hSame 0x14D (by decide) (by decide), Header.coveredSum_congr hSame]
    exact hHolds
  rw [ofImage_of_holds hLarge hStill, hHeader]

/-- An image is too small, or has the wrong checksum, or is accepted as a whole. Any change of one
byte from the title to the checksum is noticed; what lies outside of these bytes does not matter to
an image that is large enough. -/
theorem validation (image : List UInt8) :
    (∀ size, ofImage image = .error (.tooSmall size) ↔
      image.length < 32768 ∧ size = image.length) ∧
    (∀ stored computed, ofImage image = .error (.checksumMismatch stored computed) ↔
      32768 ≤ image.length ∧ stored = image.getD 0x14D 0 ∧
        (computed.toNat : Int) = (-25 - Header.coveredSum image) % 256 ∧ stored ≠ computed) ∧
    (∀ c, ofImage image = .ok c ↔
      32768 ≤ image.length ∧
        ((image.getD 0x14D 0).toNat : Int) = (-25 - Header.coveredSum image) % 256 ∧
        c = ⟨Header.ofImage image, image⟩) ∧
    ∀ c, ofImage image = .ok c →
      (∀ i v, 0x134 ≤ i → i ≤ 0x14D → v ≠ image.getD i 0 →
        ∃ stored computed,
          ofImage (image.set i v) = .error (.checksumMismatch stored computed)) ∧
      ∀ other : List UInt8, 32768 ≤ other.length →
        (∀ i, 0x134 ≤ i → i ≤ 0x14D → other.getD i 0 = image.getD i 0) →
        ofImage other = .ok ⟨c.header, other⟩ := by
  refine ⟨fun size => ofImage_eq_tooSmall_iff,
    fun stored computed => ofImage_eq_checksumMismatch_iff, fun c => ofImage_eq_ok_iff, ?_⟩
  intro c hAccepted
  refine ⟨?_, fun other hOther hSame => ofImage_congr hAccepted hOther hSame⟩
  intro i v hFirst hLast hChanged
  obtain ⟨hLarge, hHolds, -⟩ := ofImage_eq_ok_iff.mp hAccepted
  have hNot := not_checksumHolds_set hLarge hHolds hFirst hLast hChanged
  exact ⟨_, _, ofImage_of_not_holds (by rwa [List.length_set]) hNot⟩

end Cartridge
end DotMatrix
