import DotMatrix.Proofs.MachineRuns

/-!
# The title in the header

A title is kept in a buffer of fifteen bytes, and the field that it is read from has fifteen bytes
as well. Since a byte beyond ASCII is replaced, every byte of the field takes a single byte of the
buffer. So the title always fits, and no byte behind the zero that ends it has a say in it.
`ofImage?` reads with that buffer and with checked indices; it is `Header.ofImage` on every image
that holds a header.
-/

namespace DotMatrix

/-- Appends characters to a text in a buffer of `capacity` bytes, as long as they fit. -/
def appendWithin? (capacity : Nat) (text : String) : List Char → Option String
  | [] => some text
  | c :: rest =>
    if text.utf8ByteSize + c.utf8Size ≤ capacity then appendWithin? capacity (text.push c) rest
    else none

theorem utf8ByteSize_cons (c : Char) (cs : List Char) :
    (String.ofList (c :: cs)).utf8ByteSize = c.utf8Size + (String.ofList cs).utf8ByteSize := by
  rw [String.ofList_cons, String.utf8ByteSize_append, String.utf8ByteSize_singleton]

theorem utf8ByteSize_of_ascii {cs : List Char} (h : ∀ c ∈ cs, c.toNat < 128) :
    (String.ofList cs).utf8ByteSize = cs.length := by
  induction cs with
  | nil => rfl
  | cons c cs ih =>
    obtain ⟨hFirst, hRest⟩ := List.forall_mem_cons.mp h
    have hSize : c.utf8Size = 1 :=
      Char.utf8Size_eq_one_iff.mpr (UInt32.le_iff_toNat_le.mpr (Nat.le_of_lt_succ hFirst))
    rw [utf8ByteSize_cons, ih hRest, hSize, List.length_cons, Nat.add_comm]

/-- Only the size of the whole text decides whether the buffer overflows. -/
theorem appendWithin?_eq {capacity : Nat} {text : String} (h : text.utf8ByteSize ≤ capacity)
    (cs : List Char) :
    appendWithin? capacity text cs =
      if text.utf8ByteSize + (String.ofList cs).utf8ByteSize ≤ capacity
      then some (text ++ String.ofList cs) else none := by
  induction cs generalizing text with
  | nil =>
    rw [appendWithin?, String.ofList_nil, String.append_empty]
    exact (if_pos h).symm
  | cons c cs ih =>
    have hSize := String.utf8ByteSize_push (s := text) (c := c)
    rw [appendWithin?, utf8ByteSize_cons, ← Nat.add_assoc, ← hSize]
    by_cases hFits : (text.push c).utf8ByteSize ≤ capacity
    · rw [if_pos hFits, ih hFits, String.push_eq_append, String.ofList_cons, String.append_assoc]
    · rw [if_neg hFits, if_neg (by omega)]

namespace Header

/-- The bytes of a range of indices, which must lie within the image. -/
def slice? (image : List UInt8) (start size : Nat) : Option (List UInt8) :=
  if start + size ≤ image.length then some ((image.drop start).take size) else none

/-- The most bytes that a title may take. -/
def titleCapacity : Nat := 15

/-- Reads the header, where an index may be out of bounds and the title may overflow. -/
def ofImage? (image : List UInt8) : Option Header := do
  let field ← slice? image titleStart titleSize
  let title ← appendWithin? titleCapacity "" ((field.takeWhile (· != 0)).map titleChar)
  let cgb : UInt8 ← image[0x143]?
  let sgb : UInt8 ← image[0x146]?
  let cartridgeType ← image[0x147]?
  let checksum ← image[checksumAt]?
  some
    { title
      cgb := cgb == 0x80 || cgb == 0xC0
      sgb := sgb == 0x03
      cartridgeType
      checksum }

/-- The title of `n` characters that an image shows: ASCII up to the first zero byte of the field,
a question mark for any other byte. -/
structure IsTitle (image : List UInt8) (n : Nat) (title : String) : Prop where
  length_le : n ≤ 15
  before : ∀ i < n, image.getD (0x134 + i) 0 ≠ 0
  zero : n < 15 → image.getD (0x134 + n) 0 = 0
  length : title.toList.length = n
  ascii : ∀ i < n, image.getD (0x134 + i) 0 < 0x80 →
    (title.toList[i]?).map Char.toNat = some (image.getD (0x134 + i) 0).toNat
  other : ∀ i < n, 0x80 ≤ image.getD (0x134 + i) 0 → title.toList[i]? = some '?'

theorem toNat_titleChar {b : UInt8} (h : b < 0x80) : (titleChar b).toNat = b.toNat := by
  revert h
  refine Byte.of_fin (P := fun b => b < 0x80 → (titleChar b).toNat = b.toNat) ?_ b
  decide +kernel

theorem titleChar_of_not_lt {b : UInt8} (h : ¬ b < 0x80) : titleChar b = '?' :=
  if_neg h

theorem titleChar_lt (b : UInt8) : (titleChar b).toNat < 128 := by
  by_cases hAscii : b < 0x80
  · rw [toNat_titleChar hAscii]
    exact UInt8.lt_iff_toNat_lt.mp hAscii
  · rw [titleChar_of_not_lt hAscii]
    decide

theorem titleChar_ne_nul {b : UInt8} (h : b ≠ 0) : titleChar b ≠ '\x00' := by
  by_cases hAscii : b < 0x80
  · intro hNul
    have hZero := toNat_titleChar hAscii
    rw [hNul] at hZero
    exact h (UInt8.toNat_inj.mp hZero.symm)
  · rw [titleChar_of_not_lt hAscii]
    decide

section

variable {image other : List UInt8} {n m : Nat} {title text : String}

theorem getElem?_eq_getD (h : 0x150 ≤ image.length) {i : Nat} (hi : i < 0x150) :
    image[i]? = some (image.getD i 0) := by
  rw [List.getD_eq_getElem?_getD, List.getElem?_eq_getElem (by omega)]
  rfl

theorem isTitle_titleOf (h : 0x150 ≤ image.length) : ∃ n, IsTitle image n (titleOf image) := by
  let field := (image.drop titleStart).take titleSize
  have hLength : field.length = 15 := by
    rw [List.length_take, List.length_drop, titleStart, titleSize]
    omega
  have hByte {i : Nat} (hi : i < 15) : field[i]? = some (image.getD (0x134 + i) 0) := by
    have hField : field[i]? = image[0x134 + i]? := by
      rw [List.getElem?_take, List.getElem?_drop]
      exact if_pos hi
    rw [hField, getElem?_eq_getD h (by omega)]
  let n := field.findIdx (fun b => !(b != 0))
  have hLe : n ≤ 15 := hLength ▸ List.findIdx_le_length
  have hTitle : (titleOf image).toList = (field.take n).map titleChar := by
    rw [titleOf, String.toList_ofList, List.takeWhile_eq_take_findIdx_not]
  have hChar {i : Nat} (hi : i < n) :
      (titleOf image).toList[i]? = some (titleChar (image.getD (0x134 + i) 0)) := by
    rw [hTitle, List.getElem?_map, List.getElem?_take, if_pos hi, hByte (by omega)]
    rfl
  refine ⟨n, hLe, ?_, ?_, ?_, ?_, ?_⟩
  · intro i hi hZero
    have hNot := List.not_of_lt_findIdx hi
    have hEntry := hByte (Nat.lt_of_lt_of_le hi hLe)
    rw [List.getElem?_eq_getElem (by omega), hZero] at hEntry
    rw [Option.some.inj hEntry] at hNot
    exact absurd hNot (by decide)
  · intro hn
    have hInside : n < field.length := by omega
    have hFound := List.findIdx_getElem (w := hInside)
    have hEntry := hByte hn
    rw [List.getElem?_eq_getElem hInside] at hEntry
    rw [Option.some.inj hEntry] at hFound
    simpa using hFound
  · rw [hTitle, List.length_map, List.length_take, hLength]
    exact Nat.min_eq_left hLe
  · intro i hi hAscii
    rw [hChar hi, Option.map_some, toNat_titleChar hAscii]
  · intro i hi hOther
    rw [hChar hi, titleChar_of_not_lt (UInt8.not_lt.mpr hOther)]

theorem IsTitle.getElem? (h : IsTitle image n title) {i : Nat} (hi : i < n) :
    title.toList[i]? = some (titleChar (image.getD (0x134 + i) 0)) := by
  by_cases hAscii : image.getD (0x134 + i) 0 < 0x80
  · obtain ⟨c, hEntry, hCode⟩ := Option.map_eq_some_iff.mp (h.ascii i hi hAscii)
    rw [← toNat_titleChar hAscii] at hCode
    rw [hEntry, Char.toNat_inj.mp hCode]
  · rw [h.other i hi (UInt8.not_lt.mp hAscii), titleChar_of_not_lt hAscii]

theorem IsTitle.toList_eq (h : IsTitle image n title) :
    title.toList = (List.range n).map fun i => titleChar (image.getD (0x134 + i) 0) := by
  apply List.ext_getElem?
  intro i
  rcases Nat.lt_or_ge i n with hi | hi
  · rw [h.getElem? hi, List.getElem?_map, List.getElem?_range hi, Option.map_some]
  · rw [List.getElem?_eq_none (by rw [h.length]; exact hi), List.getElem?_eq_none]
    rwa [List.length_map, List.length_range]

theorem IsTitle.length_eq (h : IsTitle image n title) (h' : IsTitle image m text) : n = m := by
  rcases Nat.lt_trichotomy n m with hLt | hSame | hGt
  · exact absurd (h.zero (Nat.lt_of_lt_of_le hLt h'.length_le)) (h'.before n hLt)
  · exact hSame
  · exact absurd (h'.zero (Nat.lt_of_lt_of_le hGt h.length_le)) (h.before m hGt)

/-- An image shows one title only. -/
theorem IsTitle.unique (h : IsTitle image n title) (h' : IsTitle image m text) : title = text := by
  obtain rfl := h.length_eq h'
  exact String.toList_inj.mp (h.toList_eq.trans h'.toList_eq.symm)

/-- A title says nothing about the bytes behind the zero that ends it. -/
theorem IsTitle.congr (h : IsTitle image n title)
    (hSame : ∀ i ≤ n, i < 15 → other.getD (0x134 + i) 0 = image.getD (0x134 + i) 0) :
    IsTitle other n title := by
  have hBefore {i : Nat} (hi : i < n) : other.getD (0x134 + i) 0 = image.getD (0x134 + i) 0 :=
    hSame i (Nat.le_of_lt hi) (Nat.lt_of_lt_of_le hi h.length_le)
  constructor
  · exact h.length_le
  · intro i hi
    rw [hBefore hi]
    exact h.before i hi
  · intro hn
    rw [hSame n (Nat.le_refl n) hn]
    exact h.zero hn
  · exact h.length
  · intro i hi
    rw [hBefore hi]
    exact h.ascii i hi
  · intro i hi
    rw [hBefore hi]
    exact h.other i hi

theorem IsTitle.utf8ByteSize_eq (h : IsTitle image n title) : title.utf8ByteSize = n := by
  have hAscii : ∀ c ∈ title.toList, c.toNat < 128 := by
    rw [h.toList_eq]
    intro c hc
    obtain ⟨i, -, rfl⟩ := List.mem_map.mp hc
    exact titleChar_lt _
  have hSize := utf8ByteSize_of_ascii hAscii
  rw [String.ofList_toList] at hSize
  exact hSize.trans h.length

theorem IsTitle.nul_not_mem (h : IsTitle image n title) : '\x00' ∉ title.toList := by
  rw [h.toList_eq]
  intro hNul
  obtain ⟨i, hi, hChar⟩ := List.mem_map.mp hNul
  exact titleChar_ne_nul (h.before i (List.mem_range.mp hi)) hChar

theorem ofImage?_eq (h : 0x150 ≤ image.length) : ofImage? image = some (ofImage image) := by
  obtain ⟨n, hTitle⟩ := isTitle_titleOf h
  have hFits : appendWithin? titleCapacity ""
      ((((image.drop titleStart).take titleSize).takeWhile (· != 0)).map titleChar) =
        some (titleOf image) := by
    have hSize : (titleOf image).utf8ByteSize ≤ titleCapacity := by
      rw [hTitle.utf8ByteSize_eq]
      exact hTitle.length_le
    rw [appendWithin?_eq (Nat.zero_le _), if_pos, String.empty_append]
    · rfl
    · rwa [String.utf8ByteSize_empty, Nat.zero_add]
  have hSlice : slice? image titleStart titleSize =
      some ((image.drop titleStart).take titleSize) :=
    if_pos (Nat.le_trans (by decide) h)
  rw [ofImage?, hSlice, Option.bind_eq_bind, Option.bind_some, hFits, checksumAt,
    getElem?_eq_getD h (by decide), getElem?_eq_getD h (by decide),
    getElem?_eq_getD h (by decide), getElem?_eq_getD h (by decide)]
  rfl

/-- Every image with a header is read without a failure, as `ofImage` reads it, and a machine keeps
what was read. The title fits, has no zero byte and is the same in every image with the same bytes
up to the first zero byte of the field. -/
theorem title_fits (h : 0x150 ≤ image.length) :
    ofImage? image = some (ofImage image) ∧
      (∀ options m, Machine.ofImage image options = .ok m → m.header = ofImage image) ∧
      ∃ n, IsTitle image n (ofImage image).title ∧ (ofImage image).title.utf8ByteSize = n ∧
        '\x00' ∉ (ofImage image).title.toList ∧
        ∀ other : List UInt8, 0x150 ≤ other.length →
          (∀ i ≤ n, i < 15 → other.getD (0x134 + i) 0 = image.getD (0x134 + i) 0) →
          ofImage? other = some (ofImage other) ∧
            (ofImage other).title = (ofImage image).title := by
  obtain ⟨n, hTitle⟩ := isTitle_titleOf h
  refine ⟨ofImage?_eq h, fun options m => Machine.header_of_ofImage, n, hTitle,
    hTitle.utf8ByteSize_eq, hTitle.nul_not_mem, ?_⟩
  intro other hOther hSame
  obtain ⟨m, hShown⟩ := isTitle_titleOf hOther
  exact ⟨ofImage?_eq hOther, hShown.unique (hTitle.congr hSame)⟩

end

/-- A header with a title of three bytes, the last of them beyond ASCII, and another byte behind the
zero. -/
def namedImage : List UInt8 :=
  List.replicate 0x134 0 ++ [0x47, 0x4F, 0xFF, 0x00, 0x21] ++ List.replicate 0x17 0

theorem isTitle_namedImage : IsTitle namedImage 3 "GO?" := by
  constructor
  all_goals decide +kernel

theorem title_fits_namedImage :
    0x150 ≤ namedImage.length ∧ ofImage? namedImage = some (ofImage namedImage) ∧
      (ofImage namedImage).title = "GO?" ∧
      (ofImage (namedImage.set 0x138 0x80)).title = "GO?" := by
  have hSize : 0x150 ≤ namedImage.length := by decide +kernel
  obtain ⟨hRead, -, n, hTitle, -, -, hOnly⟩ := title_fits hSize
  have hText : (ofImage namedImage).title = "GO?" := hTitle.unique isTitle_namedImage
  obtain rfl : n = 3 := hTitle.length_eq isTitle_namedImage
  have hOther : ∀ i ≤ 3, i < 15 →
      (namedImage.set 0x138 0x80).getD (0x134 + i) 0 = namedImage.getD (0x134 + i) 0 := by
    decide +kernel
  exact ⟨hSize, hRead, hText, (hOnly _ (by decide +kernel) hOther).2.trans hText⟩

end Header
end DotMatrix
