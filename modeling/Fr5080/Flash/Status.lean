import Fr5080.Embedded.Poll
import Fr5080.Embedded.Word

/-!
# Fr5080.Flash.Status

The loops that wait for a write of the status register: `flash_write_status`
(`flash.c` of `fr5080_basic_xip`) and `flash_wait_wip_clear`
(`driver_flash.c` of the user project).

The first one reads the register into `status_L` and then tests `status[0]`,
the byte that it wrote.  So its end does not depend on the flash:
`flash_write_status_waits_iff`.
-/

namespace Fr5080

open Embedded

/-- What a flash shows after a write of its status register: write-in-progress is set for the
first `busyPolls` reads of the register, and then the two busy bits are clear. -/
structure WritingFlash where
  register : Nat → UInt8
  busyPolls : Nat
  busy : ∀ i < busyPolls, register i &&& 0x01 = 0x01
  ready : ∀ i, busyPolls ≤ i → register i &&& 0x03 = 0

/-- The commands before the loop. -/
inductive StatusCmd
  | writeEnable
  | writeStatus (bytes : List UInt8)
  | writeDisable
deriving DecidableEq, Repr

/-- What a call did: its commands, and what its polls read. -/
structure StatusCall where
  cmds : List StatusCmd
  polls : List UInt8
deriving DecidableEq, Repr

/-- `flash_write_status`, if it returns within `fuel` polls. -/
def flashWriteStatus (fuel : Nat) (flash : WritingFlash) (statusEntity : UInt16) :
    Option StatusCall :=
  let status := bytes16 statusEntity
  (poll (fun _statusL => status.headD 0 &&& 0x03 == 0) fuel flash.register).map fun polls =>
    ⟨[.writeEnable, .writeStatus status, .writeDisable], polls⟩

/-- `flash_wait_wip_clear`: the polls, if it returns within `fuel` of them. -/
def flashWaitWipClear (fuel : Nat) (flash : WritingFlash) : Option (List UInt8) :=
  poll (fun status => status &&& 0x01 == 0) fuel flash.register

variable {flash : WritingFlash}

/-- While a write is in progress, not both bits are clear. -/
theorem busy_of_wip {v : UInt8} (h : v &&& 0x01 = 0x01) : v &&& 0x03 ≠ 0 := by
  intro hclear
  have hone : v &&& 0x01 = v &&& 0x03 &&& 0x01 := by
    rw [UInt8.and_assoc]
    rfl
  rw [hone, hclear] at h
  exact absurd h (by decide)

theorem ready_wip {v : UInt8} (h : v &&& 0x03 = 0) : v &&& 0x01 = 0 := by
  have hone : v &&& 0x01 = v &&& 0x03 &&& 0x01 := by
    rw [UInt8.and_assoc]
    rfl
  rw [hone, h]
  rfl

/-- `flash_wait_wip_clear` returns, after exactly the polls that find the flash busy and one
that does not. -/
theorem flashWaitWipClear_eq_some_iff {fuel : Nat} {polls : List UInt8} :
    flashWaitWipClear fuel flash = some polls ↔
      flash.busyPolls < fuel ∧ polls = (List.range (flash.busyPolls + 1)).map flash.register := by
  rw [flashWaitWipClear, poll_eq_some_iff]
  have hready : ∀ i, (flash.register i &&& 0x01 == 0) = decide (flash.busyPolls ≤ i) := by
    intro i
    by_cases hi : flash.busyPolls ≤ i
    · simp [hi, ready_wip (flash.ready i hi)]
    · simp [hi, flash.busy i (Nat.lt_of_not_le hi)]
  simp only [hready, decide_eq_true_eq, decide_eq_false_iff_not, Nat.not_le]
  constructor
  · rintro ⟨n, hn, hle, hbefore, rfl⟩
    obtain rfl : n = flash.busyPolls := by
      refine Nat.le_antisymm (Nat.not_lt.mp fun hlt => ?_) hle
      exact Nat.lt_irrefl _ (hbefore _ hlt)
    exact ⟨hn, rfl⟩
  · rintro ⟨hfuel, rfl⟩
    exact ⟨_, hfuel, Nat.le_refl _, fun i hi => hi, rfl⟩

/-- Whether `flash_write_status` returns depends on the value written only. -/
theorem exists_flashWriteStatus_iff {statusEntity : UInt16} :
    (∃ fuel, (flashWriteStatus fuel flash statusEntity).isSome = true) ↔
      statusEntity.toUInt8 &&& 0x03 = 0 := by
  simp only [flashWriteStatus, Option.isSome_map, exists_poll_iff]
  exact ⟨fun ⟨_, hexit⟩ => eq_of_beq hexit, fun hclear => ⟨0, beq_iff_eq.mpr hclear⟩⟩

/-- If it returns, it does after one poll. -/
theorem polls_flashWriteStatus {fuel : Nat} {statusEntity : UInt16} {call : StatusCall}
    (h : flashWriteStatus fuel flash statusEntity = some call) :
    call.polls = [flash.register 0] := by
  obtain ⟨polls, hpolls, rfl⟩ := Option.map_eq_some_iff.mp h
  obtain ⟨n, _, hlast, hbefore, rfl⟩ := poll_eq_some_iff.mp hpolls
  cases n with
  | zero => rfl
  | succ n => exact absurd (hlast.symm.trans (hbefore 0 (Nat.succ_pos n))) (by decide)

/-- `flash_write_status` returns, and not before a poll has read clear busy bits. -/
structure WaitsForFlash (flash : WritingFlash) (statusEntity : UInt16) : Prop where
  terminates : ∃ fuel, (flashWriteStatus fuel flash statusEntity).isSome = true
  ready : ∀ fuel call, flashWriteStatus fuel flash statusEntity = some call →
    ∃ v ∈ call.polls, v &&& 0x03 = 0

/-- **The wait**: it is one exactly when the two lowest bits of the value written are clear and
the flash is ready at the first poll. -/
theorem flash_write_status_waits_iff (flash : WritingFlash) (statusEntity : UInt16) :
    WaitsForFlash flash statusEntity ↔
      statusEntity.toUInt8 &&& 0x03 = 0 ∧ flash.busyPolls = 0 := by
  constructor
  · rintro ⟨hreturns, hready⟩
    refine ⟨exists_flashWriteStatus_iff.mp hreturns, Nat.eq_zero_of_not_pos fun hpos => ?_⟩
    obtain ⟨fuel, hsome⟩ := hreturns
    obtain ⟨call, hcall⟩ := Option.isSome_iff_exists.mp hsome
    obtain ⟨v, hv, hzero⟩ := hready fuel call hcall
    rw [polls_flashWriteStatus hcall, List.mem_singleton] at hv
    exact busy_of_wip (flash.busy 0 hpos) (hv ▸ hzero)
  · rintro ⟨hclear, hbusy⟩
    refine ⟨exists_flashWriteStatus_iff.mpr hclear, fun fuel call hcall => ?_⟩
    refine ⟨flash.register 0, ?_, flash.ready 0 (Nat.le_of_eq hbusy)⟩
    rw [polls_flashWriteStatus hcall]
    exact List.mem_singleton_self _

/-- A flash that is busy for the first two polls. -/
def twoPolls : WritingFlash where
  register i := if i < 2 then 0x03 else 0
  busyPolls := 2
  busy i hi := by
    rw [if_pos hi]
    rfl
  ready i hi := by simp [Nat.not_lt.mpr hi]

/-- It is left busy after one poll when block protection is written, and waited for without end
when the lowest bit is. -/
theorem flash_write_status_does_not_wait :
    ¬ WaitsForFlash twoPolls 0x7C ∧
      flashWriteStatus 1 twoPolls 0x7C =
        some ⟨[.writeEnable, .writeStatus [0x7C, 0], .writeDisable], [0x03]⟩ ∧
      ∀ fuel, flashWriteStatus fuel twoPolls 0x01 = none := by
  refine ⟨fun h => ?_, by decide, fun fuel => ?_⟩
  · obtain ⟨v, hv, hzero⟩ := h.ready 1 _ rfl
    rw [List.mem_singleton.mp hv] at hzero
    exact absurd hzero (by decide)
  · refine Option.not_isSome_iff_eq_none.mp fun hsome => ?_
    exact absurd (exists_flashWriteStatus_iff.mp ⟨fuel, hsome⟩) (by decide)

end Fr5080
