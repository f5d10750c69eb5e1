import Fr5080.Lcd.Bus
import Mathlib.Algebra.Ring.Int.Defs

/-!
# Fr5080.Lcd.Gc9c01

The driver of the GC9C01 display (`lcd_gc9c01.c`) and the function that flushes
an area of the GUI to it (`disp_flush` of `lv_port_disp.c`).

`lcd_gc9c01_display` cuts off bursts of `0x400` bytes as long as there are
`0x400+0x16`, so that the last burst is never shorter than 22 bytes:
`disp_flush_sends_all`.
-/

namespace Fr5080

open Embedded

/-- `lcd_gc9c01_set_windows`. -/
def lcdGc9c01SetWindows (xS yS xE yE : UInt16) : List PanelEvent := lcdWindow xS yS xE yE

/-- The rounds of `for(uint16_t i=0; i<length; i++)`: the counter cannot reach more than
`0xFFFF`. -/
def rounds16 (length : Int) : Option Nat := if length ≤ 0xFFFF then some length.toNat else none

/-- `while(length >= (0x400+0x16))` and `if(length)` of `lcd_gc9c01_display`: the bursts, if the
loops end. -/
def lcdGc9c01Display (mem : Nat → UInt8) (data : Nat) (length : Int) :
    Option (List (List UInt8)) :=
  if 0x400 + 0x16 ≤ length then
    (lcdGc9c01Display mem (data + 0x400) (length - 0x400)).map (slice mem data 0x400 :: ·)
  else if length ≠ 0 then (rounds16 length).map fun n => [slice mem data n]
  else some []
termination_by length.toNat
decreasing_by omega

/-- `lv_area_t`. -/
structure LvArea where
  x1 : Int16
  y1 : Int16
  x2 : Int16
  y2 : Int16
deriving DecidableEq, Repr

/-- What a flush does: the window, and the bursts. -/
structure Flush where
  window : List PanelEvent
  bursts : List (List UInt8)

/-- What the display gets. -/
def Flush.events (f : Flush) : List PanelEvent := f.window ++ f.bursts.flatMap lcdBurst

/-- `disp_flush`. -/
def dispFlush (mem : Nat → UInt8) (area : LvArea) (colorP : Nat) : Option Flush :=
  let width := UInt16.ofInt (area.x2.toInt - area.x1.toInt + 1)
  let hight := UInt16.ofInt (area.y2.toInt - area.y1.toInt + 1)
  let len := width.toUInt32 * hight.toUInt32 * 2
  (lcdGc9c01Display mem colorP len.toBitVec.toInt).map fun bursts =>
    ⟨lcdGc9c01SetWindows (UInt16.ofInt area.x1.toInt) (UInt16.ofInt area.y1.toInt)
      (UInt16.ofInt (area.x2.toInt - 0)) (UInt16.ofInt (area.y2.toInt - 0)), bursts⟩

/-- Bursts of these bytes, none empty, none too long for the display, and none too short unless
all are. -/
structure SentInBursts (bursts : List (List UInt8)) (bytes : List UInt8) : Prop where
  all : bursts.flatten = bytes
  nonempty : ∀ b ∈ bursts, b ≠ []
  atMost : ∀ b ∈ bursts, b.length ≤ 0x415
  atLeast : 22 ≤ bytes.length → ∀ b ∈ bursts, 22 ≤ b.length

variable {mem : Nat → UInt8}

/-- One burst that is not too long. -/
theorem sentInBursts_singleton {bytes : List UInt8} (hne : bytes ≠ [])
    (hle : bytes.length ≤ 0x415) : SentInBursts [bytes] bytes := by
  constructor
  · exact List.flatten_singleton
  · intro b hb
    rwa [List.mem_singleton.mp hb]
  · intro b hb
    rwa [List.mem_singleton.mp hb]
  · intro hlong b hb
    rwa [List.mem_singleton.mp hb]

/-- A burst of `0x400` bytes before others of 22 bytes at least. -/
theorem SentInBursts.cons {burst bytes : List UInt8} {bursts : List (List UInt8)}
    (hburst : burst.length = 0x400) (hlong : 22 ≤ bytes.length)
    (h : SentInBursts bursts bytes) : SentInBursts (burst :: bursts) (burst ++ bytes) := by
  constructor
  · rw [List.flatten_cons, h.all]
  · refine List.forall_mem_cons.mpr ⟨fun hnil => ?_, h.nonempty⟩
    rw [hnil] at hburst
    exact absurd hburst (by decide)
  · exact List.forall_mem_cons.mpr ⟨by omega, h.atMost⟩
  · exact fun _ => List.forall_mem_cons.mpr ⟨by omega, h.atLeast hlong⟩

/-- The display function ends, and sends its bytes. -/
theorem lcdGc9c01Display_sends (data n : Nat) :
    ∃ bursts, lcdGc9c01Display mem data n = some bursts ∧
      SentInBursts bursts (slice mem data n) := by
  induction n using Nat.strongRecOn generalizing data with
  | ind n ih =>
      rw [lcdGc9c01Display]
      split
      · next hle =>
          obtain ⟨m, rfl⟩ := Nat.exists_eq_add_of_le (by omega : 0x400 ≤ n)
          obtain ⟨bursts, hbursts, hsent⟩ := ih m (by omega) (data + 0x400)
          have hsub : ((0x400 + m : Nat) : Int) - 0x400 = m := by omega
          rw [hsub, hbursts, slice_add]
          refine ⟨_, rfl, hsent.cons (length_slice _ _ _) ?_⟩
          rw [length_slice]
          omega
      · next hlt =>
          split
          · next hne =>
              have hrounds : rounds16 (n : Int) = some n := if_pos (by omega)
              rw [hrounds]
              refine ⟨_, rfl, sentInBursts_singleton (fun hnil => hne ?_) ?_⟩
              · have hlen := congrArg List.length hnil
                rw [length_slice] at hlen
                exact Int.natCast_eq_zero.mpr hlen
              · rw [length_slice]
                omega
          · next hzero =>
              have hn : n = 0 := by omega
              subst hn
              refine ⟨[], rfl, rfl, ?_, ?_, ?_⟩ <;> simp

/-- An area on the screen. -/
structure LvArea.OnScreen (area : LvArea) : Prop where
  left : 0 ≤ area.x1.toInt
  columns : area.x1.toInt ≤ area.x2.toInt
  right : area.x2.toInt < 360
  top : 0 ≤ area.y1.toInt
  rows : area.y1.toInt ≤ area.y2.toInt
  bottom : area.y2.toInt < 360

/-- The bytes of its pixels. -/
def LvArea.size (area : LvArea) : Nat :=
  (2 * (area.x2.toInt - area.x1.toInt + 1) * (area.y2.toInt - area.y1.toInt + 1)).toNat

/-- The area has been flushed: the window is the area, the picture its pixels, and the bursts
are neither too long nor too short. -/
structure Flushed (mem : Nat → UInt8) (area : LvArea) (colorP : Nat) (f : Flush) : Prop where
  window : ∀ p : Panel, (p.receive f.window).Writing
    (area.x1.toInt.toNat, area.x2.toInt.toNat) (area.y1.toInt.toNat, area.y2.toInt.toNat) []
  picture : ∀ p : Panel, (p.receive f.events).Writing
    (area.x1.toInt.toNat, area.x2.toInt.toNat) (area.y1.toInt.toNat, area.y2.toInt.toNat)
      (slice mem colorP area.size)
  bursts : SentInBursts f.bursts (slice mem colorP area.size)

theorem toNat_ofInt16 {x : Int} (h : 0 ≤ x) (hlt : x < 2 ^ 16) :
    (UInt16.ofInt x).toNat = x.toNat := by
  rw [UInt16.ofInt, UInt16.toNat_ofNat']
  omega

/-- The length that is computed with 16-bit sides. -/
theorem toInt_flushLength {area : LvArea} (h : area.OnScreen) :
    ((UInt16.ofInt (area.x2.toInt - area.x1.toInt + 1)).toUInt32 *
      (UInt16.ofInt (area.y2.toInt - area.y1.toInt + 1)).toUInt32 * 2).toBitVec.toInt =
        area.size := by
  obtain ⟨hleft, hcolumns, hright, htop, hrows, hbottom⟩ := h
  obtain ⟨w, hw⟩ := Int.eq_ofNat_of_zero_le (by omega : 0 ≤ area.x2.toInt - area.x1.toInt + 1)
  obtain ⟨n, hn⟩ := Int.eq_ofNat_of_zero_le (by omega : 0 ≤ area.y2.toInt - area.y1.toInt + 1)
  have hbound : w * n ≤ 360 * 360 := Nat.mul_le_mul (by omega) (by omega)
  have hsize : area.size = 2 * (w * n) := by
    rw [LvArea.size, hw, hn, Nat.mul_assoc 2 w n |>.symm]
    exact Int.toNat_natCast _
  have hlen : ((UInt16.ofInt w).toUInt32 * (UInt16.ofInt n).toUInt32 * 2).toNat =
      2 * (w * n) := by
    rw [UInt32.toNat_mul, UInt32.toNat_mul, UInt16.toNat_toUInt32, UInt16.toNat_toUInt32,
      toNat_ofInt16 (by omega) (by omega), toNat_ofInt16 (by omega) (by omega), Nat.mod_mul_mod]
    show w * n * 2 % 2 ^ 32 = _
    omega
  rw [hw, hn, hsize, BitVec.toInt_eq_toNat_of_lt, UInt32.toNat_toBitVec, hlen]
  rw [UInt32.toNat_toBitVec, hlen]
  omega

/-- **Flushing**: every area on the screen is flushed, from every colour buffer. -/
theorem disp_flush_sends_all {area : LvArea} (mem : Nat → UInt8) (colorP : Nat)
    (h : area.OnScreen) :
    ∃ f, dispFlush mem area colorP = some f ∧ Flushed mem area colorP f := by
  obtain ⟨hleft, hcolumns, hright, htop, hrows, hbottom⟩ := id h
  obtain ⟨bursts, hbursts, hsent⟩ := @lcdGc9c01Display_sends mem colorP area.size
  have hwindow : ∀ p : Panel, (p.receive (lcdGc9c01SetWindows (UInt16.ofInt area.x1.toInt)
      (UInt16.ofInt area.y1.toInt) (UInt16.ofInt (area.x2.toInt - 0))
      (UInt16.ofInt (area.y2.toInt - 0)))).Writing
        (area.x1.toInt.toNat, area.x2.toInt.toNat) (area.y1.toInt.toNat, area.y2.toInt.toNat)
          [] := by
    intro p
    have hopen := writing_lcdWindow p (UInt16.ofInt area.x1.toInt) (UInt16.ofInt area.y1.toInt)
      (UInt16.ofInt (area.x2.toInt - 0)) (UInt16.ofInt (area.y2.toInt - 0))
    simpa (disch := omega) only [lcdGc9c01SetWindows, toNat_ofInt16, Int.sub_zero] using hopen
  refine ⟨_, by rw [dispFlush, toInt_flushLength h, hbursts]; rfl, hwindow, fun p => ?_, hsent⟩
  rw [Flush.events, Panel.receive_append, ← hsent.all]
  exact writing_bursts (hwindow p) bursts

/-- The whole screen. -/
theorem disp_flush_sends_all_screen :
    ∃ f, dispFlush (fun a => UInt8.ofNat a) ⟨0, 0, 359, 359⟩ 0 = some f ∧
      Flushed (fun a => UInt8.ofNat a) ⟨0, 0, 359, 359⟩ 0 f :=
  disp_flush_sends_all _ 0 ⟨by decide, by decide, by decide, by decide, by decide, by decide⟩

end Fr5080
