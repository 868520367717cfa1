import Chip8.Instruction.Effect
import Chip8.Proofs.Instruction.Words

/-!
# Transfers between registers and memory

The first registers go to the place at the index and come back from there, up to the last byte of
memory. What is stored can be loaded and what is loaded can be stored again, and neither changes
anything; where the dialect moves the index, it moves just behind the transfer, so that the next one
continues it. The digits of a number are stored so that they can be loaded as numbers.
-/

namespace Chip8

namespace State

variable {s : State} {x : Reg}

theorem getElem?_take_toList (s : State) {n : Nat} (k : Reg) (first : k.val < n) :
    (s.v.toList.take n)[k.val]? = some (s.reg k) := by
  rw [List.getElem?_take_of_lt first, List.getElem?_eq_getElem (by simp)]
  simp [reg, Cells.get]

theorem length_take_toList (s : State) (x : Reg) : (s.v.toList.take (x + 1)).length = x + 1 := by
  rw [List.length_take, Vector.length_toList]
  omega

theorem reg_loadFirst (bytes : List UInt8) (s : State) (k : Reg) :
    (s.loadFirst bytes).reg k = bytes[k.val]?.getD (s.reg k) := by
  simp [loadFirst, reg, Cells.get]

/-- Registers loaded with what they hold do not change. -/
theorem v_loadFirst_take (s : State) (n : Nat) : (s.loadFirst (s.v.toList.take n)).v = s.v := by
  refine Cells.ext_get fun k => ?_
  change (s.loadFirst (s.v.toList.take n)).reg k = s.reg k
  rw [reg_loadFirst]
  by_cases first : k.val < n
  · rw [getElem?_take_toList s k first, Option.getD_some]
  · rw [List.getElem?_eq_none (by rw [List.length_take]; omega), Option.getD_none]

/-- The first registers are what was loaded into them. -/
theorem take_loadFirst {bytes : List UInt8} {n : Nat} (length : bytes.length = n) (few : n ≤ 16)
    (s : State) : (s.loadFirst bytes).v.toList.take n = bytes := by
  refine List.ext_getElem (by simp [length, few]) fun k hk hk' => ?_
  simp [loadFirst, List.getElem_take, hk']

theorem toNat_i_passIndex (d : Dialect) {n : Nat} (fits : s.i.toNat + n ≤ 4096) :
    (s.passIndex d n).i.toNat = if d.advancesIndex then s.i.toNat + n else s.i.toNat := by
  have small : n.toUInt16.toNat = n := Nat.mod_eq_of_lt (by omega)
  cases advances : d.advancesIndex
  · simp [passIndex, advances]
  · simp only [passIndex, advances, if_true, UInt16.toNat_add, small]
    omega

end State

section Digits

variable (b : UInt8)

theorem decimalDigits_le : b / 100 ≤ 9 ∧ b / 10 % 10 ≤ 9 ∧ b % 10 ≤ 9 := by
  have hb := b.toNat_lt
  simp only [UInt8.le_iff_toNat_le, UInt8.toNat_div, UInt8.toNat_mod, UInt8.reduceToNat]
  omega

theorem sum_decimalDigits :
    100 * (b / 100).toNat + 10 * (b / 10 % 10).toNat + (b % 10).toNat = b.toNat := by
  have hb := b.toNat_lt
  simp only [UInt8.toNat_div, UInt8.toNat_mod, UInt8.reduceToNat]
  omega

end Digits

namespace Instruction
open Opcode

variable {d : Dialect} {w : WordStream} {s t : State} {x y : Reg}

theorem memory_storeRegisters :
    ((storeRegisters x).apply d w s).memory =
      s.memory.write s.i.toNat (s.v.toList.take (x + 1)) := rfl

theorem v_storeRegisters : ((storeRegisters x).apply d w s).v = s.v := rfl

theorem i_loadRegisters :
    ((loadRegisters x).apply d w s).i = ((storeRegisters x).apply d w s).i := by
  rw [apply, apply, State.passIndex, State.passIndex]
  rfl

theorem reg_loadRegisters (k : Reg) :
    ((loadRegisters x).apply d w s).reg k =
      if k.val < x + 1 then s.memory.byte (s.i.toNat + k) else s.reg k := by
  have loaded : ((loadRegisters x).apply d w s).reg k = (s.loadFirst (s.atIndex (x + 1))).reg k := by
    rw [apply, State.passIndex, State.loadFirst, State.next]
    rfl
  rw [loaded, State.reg_loadFirst, State.getElem?_atIndex]
  split <;> rfl

theorem byte_storeRegisters_of_apart {a : Nat} (apart : a < s.i.toNat ∨ s.i.toNat + x < a) :
    ((storeRegisters x).apply d w s).memory.byte a = s.memory.byte a := by
  rw [memory_storeRegisters]
  refine Memory.byte_write_of_apart _ ?_
  rw [State.length_take_toList]
  omega

section Fits

variable (fits : s.i.toNat + (x + 1) ≤ 4096)
include fits

theorem execute_storeRegisters (d : Dialect) (w : WordStream) :
    (decode (ofDigits 0xF x 5 5)).execute d w s = .ok ((storeRegisters x).apply d w s) := by
  have row : decode (ofDigits 0xF x 5 5) = storeRegisters x :=
    decode_transfer x (Nibble.ofNat 5) (Nibble.ofNat 5)
  rw [row]
  exact execute_eq_ok_iff.mpr ⟨if_pos (.inr fits), rfl⟩

theorem execute_loadRegisters (d : Dialect) (w : WordStream) :
    (decode (ofDigits 0xF x 6 5)).execute d w s = .ok ((loadRegisters x).apply d w s) := by
  have row : decode (ofDigits 0xF x 6 5) = loadRegisters x :=
    decode_transfer x (Nibble.ofNat 6) (Nibble.ofNat 5)
  rw [row]
  exact execute_eq_ok_iff.mpr ⟨if_pos (.inr fits), rfl⟩

theorem byte_storeRegisters {k : Reg} (first : k.val ≤ x.val) :
    ((storeRegisters x).apply d w s).memory.byte (s.i.toNat + k) = s.reg k := by
  rw [memory_storeRegisters, Memory.byte_write _ _ _ (by omega), if_pos (Nat.le_add_right ..),
    Nat.add_sub_cancel_left, State.getElem?_take_toList s k (by omega), Option.getD_some]

/-- What was stored comes back from where it was stored. -/
theorem load_storeRegisters :
    ((loadRegisters x).apply d w { (storeRegisters x).apply d w s with i := s.i }).v = s.v := by
  have inside : s.i.toNat + (s.v.toList.take (x + 1)).length ≤ 4096 := by
    rwa [State.length_take_toList]
  have stored := Memory.read_write s.memory inside
  rw [State.length_take_toList] at stored
  refine Eq.trans ?_ (s.v_loadFirst_take (x + 1))
  rw [← stored]
  rfl

theorem toNat_i_storeRegisters :
    ((storeRegisters x).apply d w s).i.toNat =
      if d.advancesIndex then s.i.toNat + (x + 1) else s.i.toNat :=
  State.toNat_i_passIndex d fits

end Fits

theorem memory_loadRegisters : ((loadRegisters x).apply d w s).memory = s.memory := by
  rw [apply, State.passIndex, State.loadFirst, State.next]

/-- What was loaded is there already when it is stored. -/
theorem store_loadRegisters :
    ((storeRegisters x).apply d w { (loadRegisters x).apply d w s with i := s.i }).memory =
      s.memory := by
  have loaded : ((loadRegisters x).apply d w s).v.toList.take (x + 1) = s.atIndex (x + 1) :=
    State.take_loadFirst (Memory.length_read ..) x.isLt s
  rw [memory_storeRegisters]
  dsimp only
  rw [memory_loadRegisters, loaded]
  exact s.memory.write_read s.i.toNat (x + 1)

/-- Where the index moves on, what is stored next is stored next to what was stored first. -/
theorem store_storeRegisters (advances : d.advancesIndex = true)
    (fits : s.i.toNat + (x + 1) + (y + 1) ≤ 4096) :
    ((storeRegisters y).apply d w ((storeRegisters x).apply d w s)).memory.read s.i.toNat
        (x + 1 + (y + 1)) =
      s.v.toList.take (x + 1) ++ s.v.toList.take (y + 1) := by
  have length : (s.v.toList.take (x + 1) ++ s.v.toList.take (y + 1)).length = x + 1 + (y + 1) := by
    rw [List.length_append, State.length_take_toList, State.length_take_toList]
  have index : ((storeRegisters x).apply d w s).i.toNat = s.i.toNat + (x + 1) := by
    rw [toNat_i_storeRegisters (by omega), if_pos advances]
  have both : ((storeRegisters y).apply d w ((storeRegisters x).apply d w s)).memory =
      s.memory.write s.i.toNat (s.v.toList.take (x + 1) ++ s.v.toList.take (y + 1)) := by
    rw [Memory.write_append, State.length_take_toList, memory_storeRegisters, index]
    rfl
  rw [both, ← length]
  exact Memory.read_write s.memory (by omega)

theorem execute_storeDigits (fits : s.i.toNat + 3 ≤ 4096) (d : Dialect) (w : WordStream) :
    (decode (ofDigits 0xF x 3 3)).execute d w s = .ok ((storeDigits x).apply d w s) := by
  have row : decode (ofDigits 0xF x 3 3) = storeDigits x :=
    decode_transfer x (Nibble.ofNat 3) (Nibble.ofNat 3)
  rw [row]
  exact execute_eq_ok_iff.mpr ⟨if_pos (.inr fits), rfl⟩

theorem byte_storeDigits_of_apart {a : Nat} (apart : a < s.i.toNat ∨ s.i.toNat + 3 ≤ a) :
    ((storeDigits x).apply d w s).memory.byte a = s.memory.byte a :=
  s.memory.byte_write_of_apart apart

theorem byte_storeDigits (fits : s.i.toNat + 3 ≤ 4096) {k : Nat} (digit : k < 3) :
    ((storeDigits x).apply d w s).memory.byte (s.i.toNat + k) =
      (decimalDigits (s.reg x))[k]?.getD 0 := by
  have digits : k < (decimalDigits (s.reg x)).length := digit
  change (s.memory.write s.i.toNat (decimalDigits (s.reg x))).byte (s.i.toNat + k) = _
  rw [Memory.byte_write _ _ _ (by omega), if_pos (Nat.le_add_right ..), Nat.add_sub_cancel_left,
    List.getElem?_eq_getElem digits]
  rfl

theorem reg_load_storeDigits (fits : s.i.toNat + 3 ≤ 4096) {k : Nat} (digit : k < 3) :
    ((loadRegisters (Nibble.ofNat 2)).apply d w ((storeDigits x).apply d w s)).reg
      (Nibble.ofNat k) = (decimalDigits (s.reg x))[k]?.getD 0 := by
  have place : (Nibble.ofNat k).val = k := Nat.mod_eq_of_lt (by omega)
  have first : k < (Nibble.ofNat 2).val + 1 := digit
  rw [reg_loadRegisters, place, if_pos first]
  exact byte_storeDigits fits digit

/-- Registers that are stored are at the index and nowhere else, and loading them again changes none;
registers that are loaded come from the index and no others change, and storing them again changes no
byte. Where the dialect moves the index behind a transfer the next one continues it. Stored digits
are loaded as the decimal digits of the number. -/
theorem transfers_round_trip (d : Dialect) (w : WordStream) (s : State) (x : Reg) :
    let run (x m n : Nat) := (decode (ofDigits 0xF x m n)).execute d w
    let i := s.i.toNat
    (i + x + 1 ≤ 4096 → ∃ stored loaded, run x 5 5 s = .ok stored ∧ run x 6 5 s = .ok loaded ∧
      (∀ k, k ≤ x → stored.memory.byte (i + k) = s.reg k) ∧
      (∀ a, a < i ∨ i + x < a → stored.memory.byte a = s.memory.byte a) ∧
      stored.v = s.v ∧
      (∃ back, run x 6 5 { stored with i := s.i } = .ok back ∧ back.v = s.v) ∧
      (∀ k, k ≤ x → loaded.reg k = s.memory.byte (i + k)) ∧
      (∀ z, x < z → loaded.reg z = s.reg z) ∧
      (∃ back, run x 5 5 { loaded with i := s.i } = .ok back ∧ back.memory = s.memory ∧
        back.v = loaded.v) ∧
      (stored.i.toNat = if d.advancesIndex then i + x + 1 else i) ∧ loaded.i = stored.i ∧
      (d.advancesIndex = true → ∀ y : Reg, i + x + y + 2 ≤ 4096 →
        ∃ both, run y 5 5 stored = .ok both ∧
          both.memory.read i (x + y + 2) =
            s.v.toList.take (x + 1) ++ s.v.toList.take (y + 1))) ∧
    (i + 3 ≤ 4096 → ∃ stored loaded, run x 3 3 s = .ok stored ∧ run 2 6 5 stored = .ok loaded ∧
      (∀ a, a < i ∨ i + 3 ≤ a → stored.memory.byte a = s.memory.byte a) ∧ stored.i = s.i ∧
      let v (k : Nat) := (loaded.reg (Nibble.ofNat k)).toNat
      v 0 ≤ 9 ∧ v 1 ≤ 9 ∧ v 2 ≤ 9 ∧ 100 * v 0 + 10 * v 1 + v 2 = (s.reg x).toNat) := by
  intro run i
  have store (x : Reg) {t : State} (fits : t.i.toNat + (x + 1) ≤ 4096) :
      run x 5 5 t = .ok ((storeRegisters x).apply d w t) := execute_storeRegisters fits d w
  have load (x : Reg) {t : State} (fits : t.i.toNat + (x + 1) ≤ 4096) :
      run x 6 5 t = .ok ((loadRegisters x).apply d w t) := execute_loadRegisters fits d w
  refine ⟨fun fits => ?_, fun fits => ?_⟩
  · refine ⟨_, _, store x fits, load x fits, fun k first => byte_storeRegisters fits first,
      fun a apart => byte_storeRegisters_of_apart apart, v_storeRegisters,
      ⟨_, load x fits, load_storeRegisters fits⟩, fun k first => ?_, fun z behind => ?_,
      ⟨_, store x fits, store_loadRegisters, v_storeRegisters⟩, toNat_i_storeRegisters fits,
      i_loadRegisters, fun advances y more => ?_⟩
    · rw [reg_loadRegisters, if_pos (Nat.lt_succ_of_le first)]
    · rw [reg_loadRegisters, if_neg (Nat.not_lt.mpr (Nat.succ_le_of_lt behind))]
    · have index := toNat_i_storeRegisters (d := d) (w := w) fits
      rw [if_pos advances] at index
      have length : x.val + y.val + 2 = x + 1 + (y + 1) := by omega
      refine ⟨_, store y (by omega), ?_⟩
      rw [length]
      exact store_storeRegisters advances (by omega)
  · refine ⟨_, _, execute_storeDigits fits d w, load (Nibble.ofNat 2) fits,
      fun a apart => byte_storeDigits_of_apart apart, rfl, ?_⟩
    obtain ⟨h0, h1, h2⟩ := decimalDigits_le (s.reg x)
    dsimp only
    rw [reg_load_storeDigits fits (by decide), reg_load_storeDigits fits (by decide),
      reg_load_storeDigits fits (by decide)]
    exact ⟨h0, h1, h2, sum_decimalDigits (s.reg x)⟩

/-- The index is five bytes before the end of memory. -/
def nearTop : State :=
  { State.powerOn with
    v := ((State.powerOn.v.put (Nibble.ofNat 0) 1).put (Nibble.ofNat 1) 2).put (Nibble.ofNat 2) 254
    i := 4091 }

/-- Two registers and then three fill memory to its end; one of them has the digits 2, 5 and 4. -/
theorem transfers_round_trip_nearTop :
    let advancing : Dialect := ⟨false, true, false⟩
    (nearTop.i.toNat + 1 + 1 ≤ 4096 ∧ nearTop.i.toNat + 1 + 2 + 2 ≤ 4096 ∧ ∃ stored both,
      (decode 0xF155).execute advancing (.ofList []) nearTop = .ok stored ∧
      (decode 0xF255).execute advancing (.ofList []) stored = .ok both ∧
      both.memory.read 4091 5 = [1, 2, 1, 2, 254]) ∧
    nearTop.i.toNat + 3 ≤ 4096 ∧ ∃ stored loaded,
      (decode 0xF233).execute advancing (.ofList []) nearTop = .ok stored ∧
      (decode 0xF265).execute advancing (.ofList []) stored = .ok loaded ∧
      (loaded.reg (Nibble.ofNat 0)).toNat = 2 ∧ (loaded.reg (Nibble.ofNat 1)).toNat = 5 ∧
      (loaded.reg (Nibble.ofNat 2)).toNat = 4 := by
  intro advancing
  have ⟨fits, fits', digits⟩ : nearTop.i.toNat + 1 + 1 ≤ 4096 ∧
      nearTop.i.toNat + 1 + 2 + 2 ≤ 4096 ∧ nearTop.i.toNat + 3 ≤ 4096 := by
    decide
  obtain ⟨stored, -, store, -, -, -, -, -, -, -, -, -, -, next⟩ :=
    (transfers_round_trip advancing (.ofList []) nearTop (Nibble.ofNat 1)).1 fits
  obtain ⟨both, store', filled⟩ := next rfl (Nibble.ofNat 2) fits'
  obtain ⟨written, loaded, write, load, -, -, h0, h1, h2, sum⟩ :=
    (transfers_round_trip advancing (.ofList []) nearTop (Nibble.ofNat 2)).2 digits
  have held : nearTop.v.toList.take 2 ++ nearTop.v.toList.take 3 = [1, 2, 1, 2, 254] := by
    decide +kernel
  have value : (nearTop.reg (Nibble.ofNat 2)).toNat = 254 := by decide
  dsimp only at h0 h1 h2 sum
  exact ⟨⟨fits, fits', stored, both, store, store', filled.trans held⟩, digits, written, loaded,
    write, load, by omega, by omega, by omega⟩

end Instruction
end Chip8
