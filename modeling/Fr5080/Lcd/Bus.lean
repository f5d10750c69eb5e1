import Fr5080.Embedded.Mem
import Fr5080.Embedded.Panel
import Mathlib.Data.List.Flatten

/-!
# Fr5080.Lcd.Bus

What the display drivers have in common: the frames of a QSPI display, the
coordinates of a window, and a buffer filled with one colour.
-/

namespace Fr5080

open Embedded

/-! ## frames -/

/-- A frame of a QSPI display: opcode `0x02`, the address `00 cmd 00`, and the parameters. -/
def lcdFrame (cmd : UInt8) (param : List UInt8) : List PanelEvent := [.command cmd, .data param]

/-- A burst to the window at `0x20003c00`: the first byte opens a frame with the address
`00 3c 00`.  Without a byte there is no frame. -/
def lcdBurst : List UInt8 → List PanelEvent
  | [] => []
  | b :: bytes => [.command 0x3C, .data (b :: bytes)]

/-- Bursts go on with the picture. -/
theorem writing_bursts {p : Panel} {columns rows : Nat × Nat} {picture : List UInt8}
    (h : p.Writing columns rows picture) (bursts : List (List UInt8)) :
    (p.receive (bursts.flatMap lcdBurst)).Writing columns rows (picture ++ bursts.flatten) := by
  induction bursts generalizing p picture with
  | nil => simpa using h
  | cons burst bursts ih =>
      rw [List.flatMap_cons, Panel.receive_append, List.flatten_cons, ← List.append_assoc]
      refine ih ?_
      cases burst with
      | nil => simpa [lcdBurst] using h
      | cons b bytes => exact h.goOn (b :: bytes)

/-! ## windows -/

/-- `axis[0] = s>>8; axis[1] = s&0xff; axis[2] = e>>8; axis[3] = e&0xff;` -/
def lcdAxis (s e : UInt16) : List UInt8 :=
  [(s >>> 8).toUInt8, (s &&& 0xFF).toUInt8, (e >>> 8).toUInt8, (e &&& 0xFF).toUInt8]

/-- A coordinate from its two bytes. -/
theorem toNat_axisBytes (v : UInt16) :
    (v >>> 8).toUInt8.toNat * 256 + (v &&& 0xFF).toUInt8.toNat = v.toNat := by
  have hlt := v.toNat_lt
  have hhigh : (v >>> 8).toUInt8.toNat = v.toNat / 256 % 256 := by
    simp [Nat.shiftRight_eq_div_pow]
  have hlow : (v &&& 0xFF).toUInt8.toNat = v.toNat % 256 := by
    have hmask : (v &&& 0xFF).toNat = v.toNat % 256 := Nat.and_two_pow_sub_one_eq_mod v.toNat 8
    rw [UInt16.toNat_toUInt8, hmask, Nat.mod_mod]
  rw [hhigh, hlow]
  omega

theorem addressRange_lcdAxis (s e : UInt16) :
    addressRange (lcdAxis s e) = some (s.toNat, e.toNat) := by
  simp only [lcdAxis, addressRange, toNat_axisBytes]

/-- The frames that open a window, and the command to write it. -/
def lcdWindow (xS yS xE yE : UInt16) : List PanelEvent :=
  lcdFrame 0x2A (lcdAxis xS xE) ++ lcdFrame 0x2B (lcdAxis yS yE) ++ lcdFrame 0x2C []

/-- The window is opened. -/
theorem writing_lcdWindow (p : Panel) (xS yS xE yE : UInt16) :
    (p.receive (lcdWindow xS yS xE yE)).Writing (xS.toNat, xE.toNat) (yS.toNat, yE.toNat) [] :=
  (p.writing_window (addressRange_lcdAxis xS xE) (addressRange_lcdAxis yS yE)).data []

/-! ## one colour -/

/-- `color>>8` and `color&0xff`. -/
def colorBytes (color : UInt16) : List UInt8 := [(color >>> 8).toUInt8, (color &&& 0xFF).toUInt8]

/-- `n` pixels of one colour. -/
def solid (n : Nat) (color : UInt16) : List UInt8 := (List.replicate n (colorBytes color)).flatten

/-- `for(i = 0; i < n; i++)`: the colour is stored at `buf[2*i]` and `buf[2*i+1]`. -/
def fillColor (n : Nat) (color : UInt16) (buf : Nat) (mem : Nat → UInt8) : Nat → UInt8 :=
  (List.range n).foldl (fun m i => store m (buf + 2 * i) (colorBytes color)) mem

@[simp] theorem length_solid (n : Nat) (color : UInt16) : (solid n color).length = 2 * n := by
  simp [solid, colorBytes, Nat.mul_comm]

theorem solid_add (n m : Nat) (color : UInt16) :
    solid (n + m) color = solid n color ++ solid m color := by
  rw [solid, List.replicate_add, List.flatten_append]
  rfl

/-- The loop fills the buffer. -/
theorem fillColor_eq (n : Nat) (color : UInt16) (buf : Nat) (mem : Nat → UInt8) :
    fillColor n color buf mem = store mem buf (solid n color) := by
  induction n with
  | zero => simp [fillColor, solid]
  | succ n ih =>
      have hone : solid 1 color = colorBytes color := by simp [solid]
      rw [fillColor, List.range_succ, List.foldl_append, ← fillColor, ih, solid_add, hone,
        ← store_store_append, length_solid]
      rfl

/-- The front of a filled buffer. -/
theorem slice_fillColor {n k : Nat} (h : k ≤ n) (color : UInt16) (buf : Nat)
    (mem : Nat → UInt8) : slice (fillColor n color buf mem) buf (2 * k) = solid k color := by
  obtain ⟨d, rfl⟩ := Nat.exists_eq_add_of_le h
  have hself := slice_store_self mem buf (solid (k + d) color)
  rw [← fillColor_eq, length_solid, Nat.mul_add, slice_add, solid_add] at hself
  exact (List.append_inj hself (by simp)).1

end Fr5080
