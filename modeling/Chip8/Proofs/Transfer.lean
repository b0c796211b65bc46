import Chip8.Proofs.Footprint.Cells

/-!
# Registers to memory and back

Registers that are stored at the index are there for a later load to find, whatever happens to the
registers meanwhile, and registers that are loaded and stored again where they came from leave
memory as it was. Both are read off from what memory holds (`Memory.Holds`): a write makes it hold
the bytes, a load takes up the bytes it holds, and writing bytes that it holds already changes
nothing. Decimal digits that are stored are loaded in the same way, so the number that they make is
the byte they were taken from.
-/

namespace Chip8

namespace Memory

/-- Memory holds some bytes from a place on. -/
def Holds (memory : Memory) (start : Nat) (bytes : List UInt8) : Prop :=
  ∀ place byte, bytes[place]? = some byte → memory.bytes[start + place]? = some byte

/-- Bytes that are written inside memory are held by it. -/
theorem holds_overwrite (memory : Memory) {start : Nat} {bytes : List UInt8}
    (inside : start + bytes.length ≤ 4096) :
    Holds ⟨overwrite start bytes memory.bytes⟩ start bytes := by
  intro place byte found
  obtain ⟨low, -⟩ := List.getElem?_eq_some_iff.mp found
  have bound : start + place < 4096 := by omega
  rw [Vector.getElem?_eq_getElem bound, getElem_overwrite _ _ _ _ bound, if_pos (by omega),
    Nat.add_sub_cancel_left, found]
  rfl

/-- Writing bytes that memory holds already leaves it as it was. -/
theorem overwrite_of_holds {memory : Memory} {start : Nat} {bytes : List UInt8}
    (holds : memory.Holds start bytes) : overwrite start bytes memory.bytes = memory.bytes := by
  apply Vector.ext
  intro address inside
  rw [getElem_overwrite _ _ _ _ inside]
  split
  case isTrue above =>
    cases found : bytes[address - start]? with
    | none => rfl
    | some byte =>
      have held := holds _ byte found
      rw [Nat.add_sub_cancel' above, Vector.getElem?_eq_getElem inside] at held
      exact (Option.some.inj held).symm
  case isFalse => rfl

end Memory

namespace Machine

/-- The bytes of the registers up to a given one. -/
def upTo (machine : Machine) (last : Register) : List UInt8 :=
  machine.registers.toList.take (last + 1)

/-- There is one more of them than the number of the last. -/
@[simp] theorem length_upTo (machine : Machine) (last : Register) :
    (machine.upTo last).length = last + 1 := by
  rw [upTo, List.length_take, Vector.length_toList]
  omega

/-- Each of them is at the place of its register. -/
theorem getElem?_upTo (machine : Machine) {x last : Register} (low : x ≤ last) :
    (machine.upTo last)[x.val]? = some (machine.register x) := by
  have below : x.val < last + 1 := Nat.lt_succ_of_le low
  rw [upTo, List.getElem?_take_of_lt below, List.getElem?_eq_getElem (by simp)]
  rfl

/-- A store that stays in memory leaves the registers at the index, and moves on. -/
theorem perform_storeRegisters (machine : Machine) (inputs : Inputs) {last : Register}
    (inside : machine.index.toNat + last + 1 ≤ 4096) :
    machine.perform inputs (.storeRegisters last) = .ok { machine.advance with
      memory := ⟨overwrite machine.index.toNat (machine.upTo last) machine.memory.bytes⟩ } := by
  have fits : machine.index.toNat + (machine.upTo last).length ≤ 4096 := by
    rw [length_upTo]
    exact inside
  exact map_eq_ok_iff.mpr ⟨_, machine.memory.write_of_inside fits, rfl⟩

/-- Decimal digits that stay in memory are left at the index. -/
theorem perform_storeDecimal (machine : Machine) (inputs : Inputs) (x : Register)
    (inside : machine.index.toNat + 3 ≤ 4096) :
    machine.perform inputs (.storeDecimal x) = .ok { machine.advance with
      memory := ⟨overwrite machine.index.toNat (decimalDigits (machine.register x))
        machine.memory.bytes⟩ } :=
  map_eq_ok_iff.mpr ⟨_, machine.memory.write_of_inside inside, rfl⟩

/-- What a load takes up: the bytes that memory holds at the index go to the registers up to the
last, the other registers keep theirs, memory stays as it is, and the index moves past the bytes. -/
structure Loads (machine : Machine) (last : Register) (bytes : List UInt8) (next : Machine) :
    Prop where
  taken : ∀ x ≤ last, bytes[x.val]? = some (next.register x)
  kept : ∀ x, last < x → next.register x = machine.register x
  index : next.index.toNat = machine.index.toNat + last + 1
  memory : next.memory = machine.memory

/-- A load is performed where memory holds as many bytes as it asks for, and takes those up. -/
theorem exists_loads (machine : Machine) (inputs : Inputs) {last : Register} {bytes : List UInt8}
    (inside : machine.index.toNat + last + 1 ≤ 4096) (count : bytes.length = last + 1)
    (holds : machine.memory.Holds machine.index.toNat bytes) :
    ∃ next, machine.perform inputs (.loadRegisters last) = .ok next ∧
      machine.Loads last bytes next := by
  have range : machine.index.toNat + (last + 1) ≤ 4096 := inside
  have read := machine.memory.read_of_inside range
  refine ⟨_, map_eq_ok_iff.mpr ⟨_, read, rfl⟩, ?_, ?_, ?_, rfl⟩
  · intro x low
    have below : x.val < last + 1 := Nat.lt_succ_of_le low
    have found := List.getElem?_eq_getElem (l := bytes) (i := x.val) (by omega)
    have held := holds _ _ found
    rw [Vector.getElem?_eq_getElem (by omega), Option.some.injEq] at held
    show _ = some (withFirst _ _)[x.val]
    rw [found, withFirst, Vector.getElem_ofFn, Vector.getElem?_eq_getElem below,
      Memory.getElem_range, held]
    rfl
  · intro x above
    exact getElem_withFirst_of_le _ _ above
  · show (machine.index + UInt16.ofNat (last + 1)).toNat = _
    rw [UInt16.toNat_add, UInt16.toNat_ofNat']
    omega

/-- The digits of a byte are decimal, and make up its number. -/
theorem decimalDigits_eq (byte : UInt8) : ∃ hundreds tens ones : UInt8,
    decimalDigits byte = [hundreds, tens, ones] ∧
      hundreds.toNat ≤ 9 ∧ tens.toNat ≤ 9 ∧ ones.toNat ≤ 9 ∧
      100 * hundreds.toNat + 10 * tens.toNat + ones.toNat = byte.toNat := by
  have bound := byte.toNat_lt
  have hundreds : (byte / 100).toNat = byte.toNat / 100 := UInt8.toNat_div byte 100
  have tens : (byte / 10 % 10).toNat = byte.toNat / 10 % 10 := UInt8.toNat_mod (byte / 10) 10
  have ones : (byte % 10).toNat = byte.toNat % 10 := UInt8.toNat_mod byte 10
  refine ⟨byte / 100, byte / 10 % 10, byte % 10, rfl, ?_⟩
  rw [hundreds, tens, ones]
  omega

/-- Registers that are stored are loaded again, whatever becomes of the registers meanwhile. -/
theorem load_of_store (machine : Machine) (inputs again : Inputs) {last : Register}
    (inside : machine.index.toNat + last + 1 ≤ 4096) :
    ∃ stored, machine.perform inputs (.storeRegisters last) = .ok stored ∧
      stored.index = machine.index ∧
      ∀ changed : Machine, changed.index = stored.index → changed.memory = stored.memory →
        ∃ loaded, changed.perform again (.loadRegisters last) = .ok loaded ∧
          (∀ x ≤ last, loaded.register x = machine.register x) ∧
          (∀ x, last < x → loaded.register x = changed.register x) ∧
          loaded.index.toNat = machine.index.toNat + last + 1 ∧
          ∀ address : Address, address < machine.index.toNat ∨
              machine.index.toNat + last + 1 ≤ address →
            loaded.memory.bytes.get address = machine.memory.bytes.get address := by
  have performed := machine.perform_storeRegisters inputs inside
  refine ⟨_, performed, rfl, ?_⟩
  intro changed index memory
  have index : changed.index = machine.index := index
  have fits : machine.index.toNat + (machine.upTo last).length ≤ 4096 := by
    rw [length_upTo]
    exact inside
  have holds : changed.memory.Holds changed.index.toNat (machine.upTo last) := by
    rw [memory, index]
    exact machine.memory.holds_overwrite fits
  obtain ⟨loaded, taken, loads⟩ :=
    changed.exists_loads again (index ▸ inside) (machine.length_upTo last) holds
  refine ⟨loaded, taken, ?_, loads.kept, index ▸ loads.index, ?_⟩
  · intro x low
    exact Option.some.inj ((loads.taken x low).symm.trans (machine.getElem?_upTo low))
  · intro address apart
    rw [loads.memory, memory]
    refine (byte_of_perform performed ?_).symm
    rintro ⟨above, below⟩
    omega

/-- Registers that are loaded and stored again where they came from leave memory as it was. -/
theorem store_of_load (machine : Machine) (inputs again : Inputs) {last : Register}
    (inside : machine.index.toNat + last + 1 ≤ 4096) :
    ∃ loaded, machine.perform inputs (.loadRegisters last) = .ok loaded ∧
      ∀ changed : Machine, changed.index = machine.index →
        changed.registers = loaded.registers → changed.memory = loaded.memory →
        ∃ stored, changed.perform again (.storeRegisters last) = .ok stored ∧
          stored.memory = machine.memory := by
  have range : machine.memory.Holds machine.index.toNat
      (machine.memory.range machine.index.toNat (last + 1) inside).toList := by
    intro place byte found
    obtain ⟨low, rfl⟩ := List.getElem?_eq_some_iff.mp found
    rw [Vector.length_toList] at low
    rw [Vector.getElem_toList, Memory.getElem_range, Vector.getElem?_eq_getElem]
  obtain ⟨loaded, taken, loads⟩ :=
    machine.exists_loads inputs inside (Vector.length_toList) range
  refine ⟨loaded, taken, ?_⟩
  intro changed index registers memory
  refine ⟨_, changed.perform_storeRegisters again (index ▸ inside), ?_⟩
  have holds : changed.memory.Holds changed.index.toNat (changed.upTo last) := by
    rw [memory, loads.memory, index]
    intro place byte found
    obtain ⟨low, -⟩ := List.getElem?_eq_some_iff.mp found
    rw [length_upTo] at low
    have upTo := changed.getElem?_upTo (x := ⟨place, by omega⟩) (Nat.le_of_lt_succ low)
    have same : changed.register ⟨place, by omega⟩ = loaded.register ⟨place, by omega⟩ :=
      congrArg (fun cells : Vector UInt8 16 => cells[place]) registers
    refine range place byte ?_
    rw [loads.taken ⟨place, by omega⟩ (Nat.le_of_lt_succ low), ← same, ← upTo, found]
  show Memory.mk (overwrite _ _ _) = _
  rw [Memory.overwrite_of_holds holds, memory, loads.memory]

/-- The decimal digits of a register, once they are loaded, make up the number it held. -/
theorem load_of_storeDecimal (machine : Machine) (inputs again : Inputs) (x : Register)
    (inside : machine.index.toNat + 3 ≤ 4096) :
    ∃ stored loaded, machine.perform inputs (.storeDecimal x) = .ok stored ∧
      stored.perform again (.loadRegisters 2) = .ok loaded ∧
      (loaded.register 0).toNat ≤ 9 ∧ (loaded.register 1).toNat ≤ 9 ∧
      (loaded.register 2).toNat ≤ 9 ∧
      100 * (loaded.register 0).toNat + 10 * (loaded.register 1).toNat +
        (loaded.register 2).toNat = (machine.register x).toNat ∧
      loaded.index.toNat = machine.index.toNat + 3 := by
  obtain ⟨hundreds, tens, ones, digits, number⟩ := decimalDigits_eq (machine.register x)
  have performed := machine.perform_storeDecimal inputs x inside
  rw [digits] at performed
  have fits : machine.index.toNat + [hundreds, tens, ones].length ≤ 4096 := inside
  have holds := machine.memory.holds_overwrite fits
  have three : machine.index.toNat + (2 : Register) + 1 ≤ 4096 := inside
  obtain ⟨loaded, taken, loads⟩ := exists_loads { machine.advance with
    memory := ⟨overwrite machine.index.toNat [hundreds, tens, ones] machine.memory.bytes⟩ }
    again three rfl holds
  have first : hundreds = loaded.register 0 := Option.some.inj (loads.taken 0 (by decide))
  have second : tens = loaded.register 1 := Option.some.inj (loads.taken 1 (by decide))
  have third : ones = loaded.register 2 := Option.some.inj (loads.taken 2 (by decide))
  rw [first, second, third] at number
  obtain ⟨low, middle, high, sum⟩ := number
  exact ⟨_, loaded, performed, taken, low, middle, high, sum, loads.index⟩

/-- Stores and loads of registers are inverse to each other wherever their bytes are in memory.
Registers that are stored come back with a load at the same index, whatever the registers hold by
then; the load leaves those above the last alone and moves the index past the bytes, and memory
elsewhere is as it was before the store. Registers that are loaded and then stored at the index they
were loaded from leave memory as it was. And three digits that are stored and loaded are decimal and
make up the byte they were taken from. A transfer from the end of a word takes the program counter
around it and is not performed by checked sums, which perform all others alike
(`Interpreter.perform_flat_eq_ok_iff`). -/
theorem transfers_invert (machine : Machine) (inputs again : Inputs) :
    (∀ last : Register, machine.index.toNat + last + 1 ≤ 4096 →
      (∃ stored, machine.perform inputs (.storeRegisters last) = .ok stored ∧
        stored.index = machine.index ∧
        ∀ changed : Machine, changed.index = stored.index → changed.memory = stored.memory →
          ∃ loaded, changed.perform again (.loadRegisters last) = .ok loaded ∧
            (∀ x ≤ last, loaded.register x = machine.register x) ∧
            (∀ x, last < x → loaded.register x = changed.register x) ∧
            loaded.index.toNat = machine.index.toNat + last + 1 ∧
            ∀ address : Address, address < machine.index.toNat ∨
                machine.index.toNat + last + 1 ≤ address →
              loaded.memory.bytes.get address = machine.memory.bytes.get address) ∧
      ∃ loaded, machine.perform inputs (.loadRegisters last) = .ok loaded ∧
        ∀ changed : Machine, changed.index = machine.index →
          changed.registers = loaded.registers → changed.memory = loaded.memory →
          ∃ stored, changed.perform again (.storeRegisters last) = .ok stored ∧
            stored.memory = machine.memory) ∧
    (machine.index.toNat + 3 ≤ 4096 → ∀ x,
      ∃ stored loaded, machine.perform inputs (.storeDecimal x) = .ok stored ∧
        stored.perform again (.loadRegisters 2) = .ok loaded ∧
        (loaded.register 0).toNat ≤ 9 ∧ (loaded.register 1).toNat ≤ 9 ∧
        (loaded.register 2).toNat ≤ 9 ∧
        100 * (loaded.register 0).toNat + 10 * (loaded.register 1).toNat +
          (loaded.register 2).toNat = (machine.register x).toNat ∧
        loaded.index.toNat = machine.index.toNat + 3) := by
  refine ⟨fun last inside => ⟨?_, ?_⟩, fun inside x => ?_⟩
  · exact machine.load_of_store inputs again inside
  · exact machine.store_of_load inputs again inside
  · exact machine.load_of_storeDecimal inputs again x inside

/-- A machine with its index so near the end of memory that the registers just fit. -/
def brimful : Machine :=
  { initial with registers := Vector.replicate 16 0xFE, index := 0xFF0 }

/-- All its registers are stored there and loaded again after they were cleared, and so are the
digits of one of them. -/
theorem transfers_invert_brimful :
    brimful.index.toNat + flag + 1 ≤ 4096 ∧ brimful.index.toNat + 3 ≤ 4096 ∧
      (∃ stored loaded,
        brimful.perform ⟨.released, .clip, 0⟩ (.storeRegisters flag) = .ok stored ∧
        { stored with registers := Vector.replicate 16 0 }.perform ⟨.released, .clip, 0⟩
          (.loadRegisters flag) = .ok loaded ∧
        loaded.register offset = 0xFE ∧ loaded.index.toNat = 0x1000) ∧
      ∃ stored loaded,
        brimful.perform ⟨.released, .clip, 0⟩ (.storeDecimal flag) = .ok stored ∧
        stored.perform ⟨.released, .clip, 0⟩ (.loadRegisters 2) = .ok loaded ∧
        100 * (loaded.register 0).toNat + 10 * (loaded.register 1).toNat +
          (loaded.register 2).toNat = 254 := by
  have inside : brimful.index.toNat + flag + 1 ≤ 4096 := by decide
  have three : brimful.index.toNat + 3 ≤ 4096 := by decide
  obtain ⟨transfers, decimal⟩ :=
    brimful.transfers_invert ⟨.released, .clip, 0⟩ ⟨.released, .clip, 0⟩
  obtain ⟨⟨stored, performed, -, restores⟩, -⟩ := transfers flag inside
  obtain ⟨loaded, taken, same, -, index, -⟩ :=
    restores { stored with registers := Vector.replicate 16 0 } rfl rfl
  obtain ⟨digits, number, written, read, -, -, -, sum, -⟩ := decimal three flag
  refine ⟨inside, three, ⟨stored, loaded, performed, taken, ?_, index⟩,
    digits, number, written, read, sum⟩
  exact same offset (by decide)

end Machine

end Chip8
