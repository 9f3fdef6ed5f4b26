import DotMatrix.Proofs.FlatMemory

/-!
# The discipline of the stack

The stack grows downwards from where the stack pointer was at the start. As long as it stays on
plain addresses, what lies from the stack pointer upwards are the words that were put down and not
yet taken, the last one first. `Stacked` says this of one moment; putting a word down and taking one
keep it, whether it is an operand or the address to return to.
-/

namespace DotMatrix

/-- The `n` addresses below an address. They may wrap. -/
def Address.below (sp : UInt16) (n : Nat) : List UInt16 :=
  (List.range n).map fun k => sp - UInt16.ofNat (k + 1)

theorem Address.mem_below_iff {sp a : UInt16} {n : Nat} :
    a ∈ below sp n ↔ ∃ k < n, sp - UInt16.ofNat (k + 1) = a := by
  simp only [below, List.mem_map, List.mem_range]

/-- There is room for `n` words below an address: all their bytes are plain. -/
def Address.HasRoom (sp : UInt16) (n : Nat) : Prop :=
  ∀ a ∈ below sp (2 * n), IsPlain a

instance (sp : UInt16) (n : Nat) : Decidable (Address.HasRoom sp n) :=
  List.decidableBAll Address.IsPlain (Address.below sp (2 * n))

/-- Room all the way round would take in the cartridge. -/
theorem Address.HasRoom.lt {sp : UInt16} {n : Nat} (h : HasRoom sp n) : 2 * n < 65536 := by
  refine Nat.lt_of_not_le fun hAll => ?_
  have hZero : (0 : UInt16) ∈ below sp (2 * n) := by
    refine mem_below_iff.mpr ⟨(sp - 1).toNat, Nat.lt_of_lt_of_le (sp - 1).toNat_lt hAll, ?_⟩
    rw [UInt16.ofNat_add, UInt16.ofNat_toNat]
    grind
  exact absurd (h 0 hZero).1 (by decide)

/-- The words lie in the store from the address upwards, low byte first. -/
def Store.Holds (s : Store) : UInt16 → List UInt16 → Prop
  | _, [] => True
  | a, w :: ws => s.get a = Word.low w ∧ s.get (a + 1) = Word.high w ∧ s.Holds (a + 2) ws

theorem Store.Holds.set {s : Store} {a x : UInt16} {ws : List UInt16} (h : s.Holds a ws)
    (hAhead : 2 * ws.length ≤ (x - a).toNat) (v : UInt8) : (s.set x v).Holds a ws := by
  induction ws generalizing a with
  | nil => trivial
  | cons w ws ih =>
    obtain ⟨hLow, hHigh, hRest⟩ := h
    rw [List.length_cons] at hAhead
    have hNe {k : UInt16} (hk : k.toNat < 2) : x ≠ a + k := by
      rintro rfl
      have hBack : a + k - a = k := by grind
      rw [hBack] at hAhead
      omega
    have hFirst : x ≠ a := UInt16.add_zero a ▸ hNe (k := 0) (by decide)
    have hBehind : 2 * ws.length ≤ (x - (a + 2)).toNat := by
      have hX := x.toNat_lt
      have hA := a.toNat_lt
      have hTwo : (a + 2).toNat = (a.toNat + 2) % 65536 := UInt16.toNat_add a 2
      rw [UInt16.toNat_sub] at hAhead ⊢
      omega
    refine ⟨?_, ?_, ih hRest hBehind⟩
    · rw [get_set_of_ne _ _ hFirst, hLow]
    · rw [get_set_of_ne _ _ (hNe (by decide)), hHigh]

theorem Store.Holds.push {s : Store} {a : UInt16} {ws : List UInt16} (h : s.Holds a ws)
    (hFits : 2 * ws.length + 2 ≤ 65536) (w : UInt16) :
    ((s.set (a - 1) (Word.high w)).set (a - 2) (Word.low w)).Holds (a - 2) (w :: ws) := by
  have hUp : a - 2 + 1 = a - 1 := by grind
  have hBack : a - 2 + 2 = a := UInt16.sub_add_cancel _ _
  have hNe : a - 2 ≠ a - 1 := by grind
  have hHigh : a - 1 - a = 65535 := by grind
  have hLow : a - 2 - a = 65534 := by grind
  have hFar : 2 * ws.length ≤ (65534 : UInt16).toNat := Nat.le_of_add_le_add_right hFits
  refine ⟨get_set_self _ _ _, ?_, ?_⟩
  · rw [hUp, get_set_of_ne _ _ hNe, get_set_self]
  · rw [hBack]
    refine (h.set ?_ _).set ?_ _
    · rw [hHigh]
      exact Nat.le_succ_of_le hFar
    · rw [hLow]
      exact hFar

/-- Nothing but the given bytes differs. -/
structure Bus.SameOutside (b c : Bus) (changed : List UInt16) : Prop where
  bytes : ∀ a ∉ changed, c.store.get a = b.store.get a
  dividerReset : c.dividerReset = b.dividerReset
  reportsRomWrites : c.reportsRomWrites = b.reportsRomWrites

namespace Instruction

/-- An instruction that puts down where to return to. -/
inductive IsCall (f : Flags) : Instruction → Prop where
  | call {condition : Option Condition} {address : UInt16} :
      Condition.allows condition f = true → IsCall f (.call condition address)
  | restart {vector : Fin 8} : IsCall f (.restart vector)

inductive IsReturn (f : Flags) : Instruction → Prop where
  | ret {condition : Option Condition} :
      Condition.allows condition f = true → IsReturn f (.ret condition)
  | retEnable : IsReturn f .retEnable

end Instruction

theorem Registers.setPair_getPair (r : Registers) (pair : StackPair) :
    r.setPair pair (r.getPair pair) = r := by
  cases pair <;> simp only [getPair, setPair, af, bc, de, hl, setAF, setBC, setDE, setHL,
    Word.high_ofBytes, Word.low_ofBytes, Flags.ofByte_toByte]

namespace Core

variable {start s t : Core Bus} {n : Nat} {w : UInt16} {ws : List UInt16}

/-- Words were put down since the start and not taken yet. The last one is the first of the list. -/
structure Stacked (start : Core Bus) (n : Nat) (s : Core Bus) (ws : List UInt16) : Prop where
  sp : s.cpu.regs.sp = start.cpu.regs.sp - UInt16.ofNat (2 * ws.length)
  held : s.memory.store.Holds s.cpu.regs.sp ws
  same : start.memory.SameOutside s.memory (Address.below start.cpu.regs.sp (2 * n))

theorem Stacked.nil (s : Core Bus) (n : Nat) : Stacked s n s [] where
  sp := (UInt16.sub_zero _).symm
  held := trivial
  same := ⟨fun _ _ => rfl, rfl, rfl⟩

theorem Stacked.congr (h : Stacked start n s ws) (hSp : t.cpu.regs.sp = s.cpu.regs.sp)
    (hMemory : t.memory = s.memory) : Stacked start n t ws where
  sp := hSp.trans h.sp
  held := by
    rw [hSp, hMemory]
    exact h.held
  same := hMemory ▸ h.same

theorem memory_push_of_isPlain (s : Core Bus) (w : UInt16)
    (hHigh : Address.IsPlain (s.cpu.regs.sp - 1)) (hLow : Address.IsPlain (s.cpu.regs.sp - 2)) :
    (s.push w).memory = { s.memory with
      store := (s.memory.store.set (s.cpu.regs.sp - 1) (Word.high w)).set (s.cpu.regs.sp - 2)
        (Word.low w) } := by
  have hPlain : ∀ p ∈ s.storesPushed w, Address.IsPlain p.1 := by
    simp only [storesPushed, List.forall_mem_cons]
    exact ⟨hHigh, hLow, fun _ h => absurd h List.not_mem_nil⟩
  rw [memory_push, Bus.writeAll_of_isPlain _ hPlain]
  rfl

theorem Stacked.push (h : Stacked start n s ws) (hFits : ws.length < n)
    (hRoom : Address.HasRoom start.cpu.regs.sp n) (w : UInt16) :
    Stacked start n (s.push w) (w :: ws) := by
  obtain ⟨hSp, hHeld, hBytes, hReset, hReports⟩ := h
  have hLt := hRoom.lt
  have hHigh : s.cpu.regs.sp - 1 ∈ Address.below start.cpu.regs.sp (2 * n) := by
    refine Address.mem_below_iff.mpr ⟨2 * ws.length, by omega, ?_⟩
    rw [hSp, UInt16.ofNat_add]
    grind
  have hLow : s.cpu.regs.sp - 2 ∈ Address.below start.cpu.regs.sp (2 * n) := by
    refine Address.mem_below_iff.mpr ⟨2 * ws.length + 1, by omega, ?_⟩
    rw [hSp, UInt16.ofNat_add, UInt16.ofNat_add]
    grind
  have hMemory := s.memory_push_of_isPlain w (hRoom _ hHigh) (hRoom _ hLow)
  refine ⟨?_, ?_, ?_, ?_, ?_⟩
  · change s.cpu.regs.sp - 2 = _
    rw [hSp, List.length_cons, Nat.mul_add, UInt16.ofNat_add]
    grind
  · rw [hMemory]
    exact hHeld.push (by omega) w
  · intro a ha
    have hNotHigh : s.cpu.regs.sp - 1 ≠ a := fun h => ha (h ▸ hHigh)
    have hNotLow : s.cpu.regs.sp - 2 ≠ a := fun h => ha (h ▸ hLow)
    rw [hMemory, Store.get_set_of_ne _ _ hNotLow, Store.get_set_of_ne _ _ hNotHigh, hBytes a ha]
  · rw [hMemory, hReset]
  · rw [hMemory, hReports]

theorem Stacked.pop (h : Stacked start n s (w :: ws)) :
    s.top = w ∧ Stacked start n s.drop ws := by
  obtain ⟨hSp, ⟨hLow, hHigh, hRest⟩, hSame⟩ := h
  refine ⟨?_, ?_, hRest, hSame⟩
  · change Word.ofBytes (s.memory.store.get (s.cpu.regs.sp + 1)) (s.memory.store.get s.cpu.regs.sp)
      = w
    rw [hLow, hHigh, Word.ofBytes_high_low]
  · change s.cpu.regs.sp + 2 = _
    rw [hSp, List.length_cons, Nat.mul_add, UInt16.ofNat_add]
    grind

section

variable {M : Type} [Memory M]

def pushAll (s : Core M) (ws : List UInt16) : Core M :=
  ws.foldl push s

def popAll (s : Core M) : Nat → List UInt16 × Core M
  | 0 => ([], s)
  | n + 1 => (s.top :: (s.drop.popAll n).1, (s.drop.popAll n).2)

theorem cpu_pushAll (s : Core M) (ws : List UInt16) :
    (s.pushAll ws).cpu = { s.cpu with regs.sp := (s.pushAll ws).cpu.regs.sp } := by
  induction ws generalizing s with
  | nil => rfl
  | cons w ws ih => exact ih (s.push w)

theorem cpu_popAll (s : Core M) (n : Nat) :
    (s.popAll n).2.cpu = { s.cpu with regs.sp := (s.popAll n).2.cpu.regs.sp } := by
  induction n generalizing s with
  | zero => rfl
  | succ n ih => exact ih s.drop

/-- Executes calls, each of them where the program counter is said to be. -/
def callAll (s : Core M) (calls : List (UInt16 × Instruction)) : Core M :=
  calls.foldl (fun s c => (s.setPC c.1).execute c.2) s

/-- Executes returns, and tells where each of them leads. -/
def returnAll (s : Core M) : List Instruction → List UInt16 × Core M
  | [] => ([], s)
  | i :: rest =>
    ((s.execute i).cpu.regs.pc :: ((s.execute i).returnAll rest).1,
      ((s.execute i).returnAll rest).2)

theorem execute_call {s : Core M} {i : Instruction} (h : i.IsCall s.cpu.regs.f) :
    ∃ address, s.execute i = s.call address := by
  cases h with
  | call hAllows => exact ⟨_, if_pos hAllows⟩
  | restart => exact ⟨_, rfl⟩

theorem callAll_cons {s : Core M} {c : UInt16 × Instruction} (h : c.2.IsCall s.cpu.regs.f)
    (calls : List (UInt16 × Instruction)) :
    ∃ address, s.callAll (c :: calls) = ((s.setPC c.1).call address).callAll calls := by
  obtain ⟨address, hCall⟩ := execute_call (s := s.setPC c.1) h
  exact ⟨address, congrArg (callAll · calls) hCall⟩

theorem execute_return {s : Core M} {i : Instruction} (h : i.IsReturn s.cpu.regs.f) :
    s.execute i = s.ret.setInterrupts
      { s.cpu.interrupts with ime := s.cpu.interrupts.ime || i == .retEnable } := by
  cases h with
  | @ret condition hAllows =>
    have hRet : s.execute (.ret condition) = s.ret := if_pos hAllows
    rw [hRet, beq_false_of_ne Instruction.noConfusion, Bool.or_false]
    rfl
  | retEnable =>
    rw [beq_self_eq_true, Bool.or_true]
    rfl

theorem cpu_callAll {s : Core M} {calls : List (UInt16 × Instruction)}
    (hCalls : ∀ c ∈ calls, c.2.IsCall s.cpu.regs.f) :
    (s.callAll calls).cpu =
      { s.cpu with
        regs.sp := (s.callAll calls).cpu.regs.sp
        regs.pc := (s.callAll calls).cpu.regs.pc } := by
  induction calls generalizing s with
  | nil => rfl
  | cons c calls ih =>
    obtain ⟨hFirst, hRest⟩ := List.forall_mem_cons.mp hCalls
    obtain ⟨address, hCall⟩ := callAll_cons hFirst calls
    rw [hCall]
    exact ih hRest

theorem cpu_returnAll {s : Core M} {returns : List Instruction}
    (hReturns : ∀ i ∈ returns, i.IsReturn s.cpu.regs.f) :
    (s.returnAll returns).2.cpu =
      { s.cpu with
        regs.sp := (s.returnAll returns).2.cpu.regs.sp
        regs.pc := (s.returnAll returns).2.cpu.regs.pc
        interrupts.ime := s.cpu.interrupts.ime || returns.any (· == .retEnable) } := by
  induction returns generalizing s with
  | nil => rw [List.any_nil, Bool.or_false]; rfl
  | cons i returns ih =>
    obtain ⟨hFirst, hRest⟩ := List.forall_mem_cons.mp hReturns
    have hReturn := execute_return hFirst
    have hNext := ih (s := s.execute i) (by rw [hReturn]; exact hRest)
    have hLeft : (s.returnAll (i :: returns)).2 = ((s.execute i).returnAll returns).2 := rfl
    rw [List.any_cons, ← Bool.or_assoc, hLeft, hNext, hReturn]
    rfl

end

theorem Stacked.pushAll {more : List UInt16} (h : Stacked start n s ws)
    (hFits : more.length + ws.length ≤ n) (hRoom : Address.HasRoom start.cpu.regs.sp n) :
    Stacked start n (s.pushAll more) (more.reverse ++ ws) := by
  induction more generalizing s ws with
  | nil => exact h
  | cons w more ih =>
    rw [List.length_cons] at hFits
    have hNext := ih (h.push (by omega) hRoom w) (by rw [List.length_cons]; omega)
    rw [List.reverse_cons, List.append_assoc]
    exact hNext

theorem Stacked.popAll (h : Stacked start n s ws) :
    (s.popAll ws.length).1 = ws ∧ Stacked start n (s.popAll ws.length).2 [] := by
  induction ws generalizing s with
  | nil => exact ⟨rfl, h⟩
  | cons w ws ih =>
    obtain ⟨hTop, hDropped⟩ := h.pop
    obtain ⟨hRest, hEmpty⟩ := ih hDropped
    refine ⟨?_, hEmpty⟩
    change s.top :: (s.drop.popAll ws.length).1 = _
    rw [hTop, hRest]

theorem Stacked.callAll {calls : List (UInt16 × Instruction)} (h : Stacked start n s ws)
    (hFits : calls.length + ws.length ≤ n) (hRoom : Address.HasRoom start.cpu.regs.sp n)
    (hCalls : ∀ c ∈ calls, c.2.IsCall s.cpu.regs.f) :
    Stacked start n (s.callAll calls) ((calls.map Prod.fst).reverse ++ ws) := by
  induction calls generalizing s ws with
  | nil => exact h
  | cons c calls ih =>
    rw [List.length_cons] at hFits
    obtain ⟨hFirst, hRest⟩ := List.forall_mem_cons.mp hCalls
    obtain ⟨address, hCall⟩ := callAll_cons hFirst calls
    have hMoved : Stacked start n (s.setPC c.1) ws := h.congr rfl rfl
    have hCalled : Stacked start n ((s.setPC c.1).call address) (c.1 :: ws) :=
      (hMoved.push (by omega) hRoom c.1).congr rfl rfl
    have hNext := ih hCalled (by rw [List.length_cons]; omega) hRest
    rw [hCall, List.map_cons, List.reverse_cons, List.append_assoc]
    exact hNext

theorem Stacked.returnAll {returns : List Instruction} (h : Stacked start n s ws)
    (hLength : returns.length = ws.length) (hReturns : ∀ i ∈ returns, i.IsReturn s.cpu.regs.f) :
    (s.returnAll returns).1 = ws ∧ Stacked start n (s.returnAll returns).2 [] := by
  induction returns generalizing s ws with
  | nil =>
    obtain rfl := List.length_eq_zero_iff.mp hLength.symm
    exact ⟨rfl, h⟩
  | cons i returns ih =>
    obtain ⟨w, ws, rfl⟩ := List.exists_cons_of_length_eq_add_one hLength.symm
    obtain ⟨hFirst, hRest⟩ := List.forall_mem_cons.mp hReturns
    obtain ⟨hTop, hDropped⟩ := h.pop
    have hReturn := execute_return hFirst
    have hReturned : Stacked start n (s.execute i) ws := by
      rw [hReturn]
      exact hDropped.congr rfl rfl
    obtain ⟨hFrom, hEmpty⟩ := ih hReturned (Nat.succ.inj hLength) (by rw [hReturn]; exact hRest)
    refine ⟨?_, hEmpty⟩
    change (s.execute i).cpu.regs.pc :: ((s.execute i).returnAll returns).1 = _
    rw [hFrom, hReturn, ← hTop]
    rfl

theorem Stacked.sp_of_nil (h : Stacked start n s []) : s.cpu.regs.sp = start.cpu.regs.sp :=
  h.sp.trans (UInt16.sub_zero _)

/-- Where there is room on plain addresses, words are taken in the reverse of the order in which
they were put down; returns lead to where the calls were executed, the innermost first; and a pair
is popped as it was pushed. All of them leave the processor as it was, but for the program counter
and the interrupts that returns enable, and no byte differs but those that were taken up. -/
theorem stack_discipline (s : Core Bus) :
    (∀ words : List UInt16, Address.HasRoom s.cpu.regs.sp words.length →
      let popped := (s.pushAll words).popAll words.length
      popped.1 = words.reverse ∧ popped.2.cpu = s.cpu ∧
        s.memory.SameOutside popped.2.memory
          (Address.below s.cpu.regs.sp (2 * words.length))) ∧
    (∀ (calls : List (UInt16 × Instruction)) (returns : List Instruction),
      Address.HasRoom s.cpu.regs.sp calls.length → returns.length = calls.length →
      (∀ c ∈ calls, c.2.IsCall s.cpu.regs.f) → (∀ i ∈ returns, i.IsReturn s.cpu.regs.f) →
      let returned := (s.callAll calls).returnAll returns
      returned.1 = (calls.map Prod.fst).reverse ∧
        returned.2.cpu =
          { s.cpu with
            regs.pc := returned.2.cpu.regs.pc
            interrupts.ime := s.cpu.interrupts.ime || returns.any (· == .retEnable) } ∧
        s.memory.SameOutside returned.2.memory
          (Address.below s.cpu.regs.sp (2 * calls.length))) ∧
    ∀ pair : StackPair, Address.HasRoom s.cpu.regs.sp 1 →
      let restored := (s.execute (.push pair)).execute (.pop pair)
      restored.cpu = s.cpu ∧
        s.memory.SameOutside restored.memory (Address.below s.cpu.regs.sp 2) := by
  refine ⟨?_, ?_, ?_⟩
  · intro words hRoom popped
    have hPushed := (Stacked.nil s words.length).pushAll (Nat.le_refl _) hRoom
    rw [List.append_nil] at hPushed
    obtain ⟨hWords, hEmpty⟩ := hPushed.popAll
    rw [List.length_reverse] at hWords hEmpty
    refine ⟨hWords, ?_, hEmpty.same⟩
    have hCpu := (s.pushAll words).cpu_popAll words.length
    rw [hEmpty.sp_of_nil, s.cpu_pushAll words] at hCpu
    exact hCpu
  · intro calls returns hRoom hLength hCalls hReturns returned
    have hCalled := (Stacked.nil s calls.length).callAll (Nat.le_refl _) hRoom hCalls
    rw [List.append_nil] at hCalled
    have hCpuCalled := cpu_callAll hCalls
    have hReturnsLater : ∀ i ∈ returns, i.IsReturn (s.callAll calls).cpu.regs.f := by
      rw [hCpuCalled]
      exact hReturns
    obtain ⟨hBack, hEmpty⟩ := hCalled.returnAll
      (by rw [hLength, List.length_reverse, List.length_map]) hReturnsLater
    refine ⟨hBack, ?_, hEmpty.same⟩
    have hCpu := cpu_returnAll hReturnsLater
    rw [hEmpty.sp_of_nil, hCpuCalled] at hCpu
    exact hCpu
  · intro pair hRoom restored
    have hPushed := (Stacked.nil s 1).push Nat.one_pos hRoom (s.cpu.regs.getPair pair)
    obtain ⟨hTop, hEmpty⟩ := hPushed.pop
    refine ⟨?_, hEmpty.same⟩
    let dropped := (s.push (s.cpu.regs.getPair pair)).drop
    have hDropped : dropped.cpu = s.cpu := by
      change { s.cpu with regs.sp := s.cpu.regs.sp - 2 + 2 } = s.cpu
      rw [UInt16.sub_add_cancel]
    have hRestored : restored.cpu = { dropped.cpu with
        regs := dropped.cpu.regs.setPair pair (s.push (s.cpu.regs.getPair pair)).top } := rfl
    rw [hRestored, hTop, hDropped, Registers.setPair_getPair]

/-- The stack pointer at zero: the stack begins at the last address. -/
def stackAtEnd : Core Bus where
  cpu := { Cpu.powerOn with regs := { Registers.powerOn with sp := 0 } }
  memory := Bus.empty

theorem stack_discipline_stackAtEnd :
    ((stackAtEnd.pushAll [0x1234, 0xABCD]).popAll 2).1 = [0xABCD, 0x1234] ∧
      ((stackAtEnd.callAll [(0x0153, .call (some .notZero) 0x2000), (0x2001, .restart 7)]).returnAll
        [.ret none, .retEnable]).1 = [0x2001, 0x0153] ∧
      ((stackAtEnd.execute (.push .af)).execute (.pop .af)).cpu = stackAtEnd.cpu := by
  obtain ⟨hWords, hCalls, hPair⟩ := stack_discipline stackAtEnd
  refine ⟨?_, ?_, ?_⟩
  · exact (hWords [0x1234, 0xABCD] (by decide +kernel)).1
  · refine (hCalls [(0x0153, .call (some .notZero) 0x2000), (0x2001, .restart 7)]
      [.ret none, .retEnable] (by decide +kernel) rfl ?_ ?_).1
    · simp only [List.forall_mem_cons]
      exact ⟨.call rfl, .restart, fun _ h => absurd h List.not_mem_nil⟩
    · simp only [List.forall_mem_cons]
      exact ⟨.ret rfl, .retEnable, fun _ h => absurd h List.not_mem_nil⟩
  · exact (hPair .af (by decide +kernel)).1

end Core
end DotMatrix
