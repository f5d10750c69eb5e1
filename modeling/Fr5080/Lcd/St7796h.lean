import Fr5080.Lcd.Bus

/-!
# Fr5080.Lcd.St7796h

The driver of the ST7796h display (`lcm_ST7796h.c`).

`LCD_QSPI_WRITE` leaves the first byte of its buffer to the controller as the
opcode and the second as the address, and stores the others to the window of the
bus; the controller sends opcode and address with the first of these stores.  A
picture is sent in pieces of 200 bytes.  A pixel has two bytes, so `length -= 2`
never wraps, but a last piece of one pixel has no byte left to store, and that
pixel is not sent: `st7796h_sends_all_iff`.
-/

namespace Fr5080

open Embedded

/-- A write of the QSPI controller: opcode, one address byte, and data. -/
structure QspiWrite where
  opcode : UInt8
  address : UInt8
  data : List UInt8
deriving DecidableEq, Repr

/-- A STIG command: opcode and address are on the wire in any case. -/
def QspiWrite.stig (w : QspiWrite) : List UInt8 := w.opcode :: w.address :: w.data

/-- Stores to the window of the bus: the first one starts the transfer, which opcode and address
open.  Without a store nothing is on the wire. -/
def QspiWrite.wire (w : QspiWrite) : List UInt8 :=
  if w.data = [] then [] else w.opcode :: w.address :: w.data

/-- `LCDSPI_WRITE`, a STIG command. -/
def lcdspiWrite (buf : List UInt8) : QspiWrite := ⟨buf.getD 0 0, buf.getD 1 0, buf.drop 2⟩

/-- `LCD_QSPI_WRITE`: `length -= 2` on a `uint32_t`, and a store for each byte that is left. -/
def lcdQspiWrite (mem : Nat → UInt8) (buffer : Nat) (length : UInt32) : QspiWrite :=
  ⟨mem buffer, mem (buffer + 1), slice mem (buffer + 2) (length - 2).toNat⟩

/-- `lcm_set_windows`: the display shows row `y` at `y+20`. -/
def lcmSetWindows (xS yS xE yE : UInt16) : List PanelEvent :=
  [.command 0x2A, .data (lcdspiWrite (lcdAxis xS xE)).stig,
    .command 0x2B, .data (lcdspiWrite (lcdAxis (yS + 20) (yE + 20))).stig, .command 0x2C]

/-- What a drawing function does: the window, and the calls of `LCD_QSPI_WRITE` with their
lengths. -/
structure St7796hDrawing where
  window : List PanelEvent
  calls : List (UInt32 × QspiWrite)

/-- What the display gets. -/
def St7796hDrawing.events (d : St7796hDrawing) : List PanelEvent :=
  d.window ++ d.calls.map fun c => .data c.2.wire

/-- `FILL_SIZE`. -/
def fillSize : UInt32 := 200

section

variable (mem : Nat → UInt8)

/-- `while(len >= (FILL_SIZE))`, and what follows it; the buffer moves on by `stride`. -/
def st7796hLoop (stride buffer : Nat) (len : UInt32) : List (UInt32 × QspiWrite) :=
  if fillSize ≤ len then
    (fillSize, lcdQspiWrite mem buffer fillSize) ::
      st7796hLoop stride (buffer + stride) (len - fillSize)
  else if len ≠ 0 then [(len, lcdQspiWrite mem buffer len)] else []
termination_by len.toNat
decreasing_by
  next hle =>
    have hle' : 200 ≤ len.toNat := UInt32.le_iff_toNat_le.mp hle
    rw [UInt32.toNat_sub_of_le _ _ hle]
    show len.toNat - 200 < len.toNat
    omega

/-- `st7796h_draw`. -/
def st7796hDraw (x y width height : UInt16) (buffer : Nat) : St7796hDrawing :=
  let len := width.toUInt32 * height.toUInt32 * 2
  ⟨lcmSetWindows x y (x + width - 1) (y + height - 1), st7796hLoop mem fillSize.toNat buffer len⟩

/-- `st7796h_draw_solid_rect`; `buf` is the address of its static buffer. -/
def st7796hDrawSolidRect (x y width height color : UInt16) (buf : Nat) : St7796hDrawing :=
  let len := width.toUInt32 * height.toUInt32 * 2
  let mem := store mem buf (List.replicate fillSize.toNat 0)
  let mem := fillColor (fillSize.toNat / 2) color buf mem
  ⟨lcmSetWindows x y (x + width - 1) (y + height - 1), st7796hLoop mem 0 buf len⟩

end

/-- The bytes on the wire are these, and every call has an opcode and an address. -/
structure AllSent (calls : List (UInt32 × QspiWrite)) (bytes : List UInt8) : Prop where
  wire : calls.flatMap (·.2.wire) = bytes
  long : ∀ c ∈ calls, 2 ≤ c.1.toNat

variable {mem : Nat → UInt8}

/-- The opcode and the address are the first two bytes of the buffer, if a third one follows. -/
theorem wire_lcdQspiWrite {length : UInt32} (h : 2 < length.toNat) (buffer : Nat) :
    (lcdQspiWrite mem buffer length).wire = slice mem buffer length.toNat := by
  have hsub : (length - 2).toNat = length.toNat - 2 :=
    UInt32.toNat_sub_of_le _ _ (UInt32.le_iff_toNat_le.mpr (Nat.le_of_lt h))
  have hdata : (lcdQspiWrite mem buffer length).data ≠ [] := by
    refine List.ne_nil_of_length_pos ?_
    rw [lcdQspiWrite, length_slice, hsub]
    omega
  have hsplit := slice_add mem buffer 2 (length.toNat - 2)
  rw [Nat.add_sub_cancel' (Nat.le_of_lt h)] at hsplit
  rw [hsplit, ← hsub, QspiWrite.wire, if_neg hdata]
  rfl

/-- With two bytes there is no store. -/
theorem wire_lcdQspiWrite_two (mem : Nat → UInt8) (buffer : Nat) :
    (lcdQspiWrite mem buffer 2).wire = [] :=
  if_pos rfl

/-- The pixels that are sent of `n`: a last piece of one pixel is not. -/
def sentPixels (n : Nat) : Nat := if n % 100 = 1 then n - 1 else n

@[simp] theorem sentPixels_add (n : Nat) : sentPixels (100 + n) = 100 + sentPixels n := by
  simp only [sentPixels, Nat.add_mod_left]
  split <;> omega

theorem sentPixels_eq_iff {n : Nat} : sentPixels n = n ↔ n % 100 ≠ 1 := by
  rw [sentPixels]
  split <;> omega

/-- One pixel that is left is not sent, more of them are. -/
theorem wire_lastPiece {len : UInt32} {n : Nat} (hlen : len.toNat = 2 * n) (hpos : 0 < n)
    (hlt : n < 100) (buffer : Nat) :
    (lcdQspiWrite mem buffer len).wire = slice mem buffer (2 * sentPixels n) := by
  rcases Nat.eq_or_lt_of_le hpos with hone | hmore
  · have htwo : len = 2 := UInt32.toNat_inj.mp (by rw [hlen, ← hone]; rfl)
    rw [htwo, wire_lcdQspiWrite_two, ← hone]
    rfl
  · have hsent : sentPixels n = n := sentPixels_eq_iff.mpr (by omega)
    rw [hsent, ← hlen]
    exact wire_lcdQspiWrite (by omega) buffer

/-- The loop sends `sentPixels n` pixels, piece `k` and those behind it, if 100 pixels are a piece
and the others, and fewer are one piece. -/
theorem wire_st7796hLoop {stride buffer : Nat} (pixels : Nat → Nat → List UInt8)
    (hpiece : ∀ k n, pixels k (100 + n) =
      slice mem (buffer + stride * k) 200 ++ pixels (k + 1) n)
    (hlast : ∀ k n, n < 100 → pixels k n = slice mem (buffer + stride * k) (2 * n))
    {len : UInt32} {n : Nat} (k : Nat) (hlen : len.toNat = 2 * n) :
    (st7796hLoop mem stride (buffer + stride * k) len).flatMap (·.2.wire) =
      pixels k (sentPixels n) := by
  induction n using Nat.strongRecOn generalizing k len with
  | ind n ih =>
      rw [st7796hLoop]
      split
      · next hle =>
          have hle' : 200 ≤ len.toNat := UInt32.le_iff_toNat_le.mp hle
          have hsub : (len - fillSize).toNat = len.toNat - 200 :=
            UInt32.toNat_sub_of_le _ _ hle
          obtain ⟨m, rfl⟩ := Nat.exists_eq_add_of_le (by omega : 100 ≤ n)
          have hrest := @ih m (by omega) (len - fillSize) (k + 1) (by omega)
          rw [Nat.mul_succ, ← Nat.add_assoc] at hrest
          rw [List.flatMap_cons, hrest, sentPixels_add, hpiece, wire_lcdQspiWrite (by decide)]
          rfl
      · next hlt =>
          have hlt' : len.toNat < 200 :=
            Nat.not_le.mp fun hle => hlt (UInt32.le_iff_toNat_le.mpr hle)
          have hsent : sentPixels n < 100 := by
            rw [sentPixels]
            split <;> omega
          rw [hlast k _ hsent]
          split
          · next hne =>
              have hpos : len.toNat ≠ 0 := fun heq => hne (UInt32.toNat_inj.mp heq)
              rw [List.flatMap_singleton, wire_lastPiece hlen (by omega) (by omega)]
          · next hzero =>
              have hnone : n = 0 := by
                have hzero' : len.toNat = 0 := congrArg UInt32.toNat (not_not.mp hzero)
                omega
              rw [hnone]
              rfl

/-- Every call of the loop has an opcode and an address. -/
theorem long_st7796hLoop {len : UInt32} {n : Nat} (stride buffer : Nat)
    (hlen : len.toNat = 2 * n) : ∀ c ∈ st7796hLoop mem stride buffer len, 2 ≤ c.1.toNat := by
  induction n using Nat.strongRecOn generalizing buffer len with
  | ind n ih =>
      intro c hc
      rw [st7796hLoop] at hc
      split at hc
      · next hle =>
          have hle' : 200 ≤ len.toNat := UInt32.le_iff_toNat_le.mp hle
          have hsub : (len - fillSize).toNat = len.toNat - 200 :=
            UInt32.toNat_sub_of_le _ _ hle
          rcases List.mem_cons.mp hc with rfl | hc
          · show 2 ≤ fillSize.toNat
            decide
          · exact @ih (n - 100) (by omega) (len - fillSize) _ (by omega) c hc
      · split at hc
        · next hne =>
            have hpos : len.toNat ≠ 0 := fun heq => hne (UInt32.toNat_inj.mp heq)
            rw [List.mem_singleton.mp hc]
            show 2 ≤ len.toNat
            omega
        · exact absurd hc List.not_mem_nil

/-- The loop sends all of its pixels exactly if the last piece is not one pixel alone. -/
theorem allSent_st7796hLoop_iff {stride buffer : Nat} (pixels : Nat → Nat → List UInt8)
    (hpiece : ∀ k n, pixels k (100 + n) =
      slice mem (buffer + stride * k) 200 ++ pixels (k + 1) n)
    (hlast : ∀ k n, n < 100 → pixels k n = slice mem (buffer + stride * k) (2 * n))
    (hlength : ∀ n, (pixels 0 n).length = 2 * n)
    {len : UInt32} {n : Nat} (hlen : len.toNat = 2 * n) :
    AllSent (st7796hLoop mem stride buffer len) (pixels 0 n) ↔ n % 100 ≠ 1 := by
  have hwire := wire_st7796hLoop pixels hpiece hlast 0 hlen
  rw [Nat.mul_zero, Nat.add_zero] at hwire
  rw [← sentPixels_eq_iff]
  constructor
  · intro h
    have hsame : 2 * sentPixels n = 2 * n := by
      rw [← hlength, ← hlength, ← hwire, h.wire]
    omega
  · intro h
    rw [h] at hwire
    exact ⟨hwire, long_st7796hLoop _ _ hlen⟩

/-- A picture whose bytes are all sent is in its window, 20 rows further down. -/
theorem AllSent.writing {xS yS xE yE : UInt16} {calls : List (UInt32 × QspiWrite)}
    {bytes : List UInt8} (h : AllSent calls bytes) (p : Panel) :
    (p.receive (St7796hDrawing.mk (lcmSetWindows xS yS xE yE) calls).events).Writing
      (xS.toNat, xE.toNat) ((yS + 20).toNat, (yE + 20).toNat) bytes := by
  have hwindow := p.writing_window (addressRange_lcdAxis xS xE)
    (addressRange_lcdAxis (yS + 20) (yE + 20))
  have hall := hwindow.datas (calls.map (·.2.wire))
  rw [List.nil_append, List.map_map, ← List.flatMap_def, h.wire] at hall
  rw [St7796hDrawing.events, Panel.receive_append]
  exact hall

/-- **All pixels**: the calls of both drawing functions send the pixels in order, each call with
two bytes at least, exactly if the last piece is not one pixel alone. -/
theorem st7796h_sends_all_iff {width height : UInt16} (x y color : UInt16) (buffer : Nat)
    (mem : Nat → UInt8) (hsize : width.toNat * height.toNat * 2 < 2 ^ 31) :
    (AllSent (st7796hDraw mem x y width height buffer).calls
        (slice mem buffer (width.toNat * height.toNat * 2)) ∧
      AllSent (st7796hDrawSolidRect mem x y width height color buffer).calls
        (solid (width.toNat * height.toNat) color)) ↔
      width.toNat * height.toNat % 100 ≠ 1 := by
  have hlen : (width.toUInt32 * height.toUInt32 * 2).toNat =
      2 * (width.toNat * height.toNat) := by
    rw [UInt32.toNat_mul, UInt32.toNat_mul, UInt16.toNat_toUInt32, UInt16.toNat_toUInt32,
      Nat.mod_mul_mod]
    show width.toNat * height.toNat * 2 % 2 ^ 32 = _
    omega
  have hdraw : AllSent (st7796hDraw mem x y width height buffer).calls
      (slice mem buffer (width.toNat * height.toNat * 2)) ↔
      width.toNat * height.toNat % 100 ≠ 1 := by
    rw [Nat.mul_comm _ 2]
    refine allSent_st7796hLoop_iff (fun k n => slice mem (buffer + fillSize.toNat * k) (2 * n))
      ?_ ?_ ?_ hlen
    · intro k n
      rw [Nat.mul_add, Nat.mul_succ fillSize.toNat, ← Nat.add_assoc]
      exact slice_add mem _ 200 (2 * n)
    · exact fun k n _ => rfl
    · exact fun n => length_slice mem _ _
  have hsolid : AllSent (st7796hDrawSolidRect mem x y width height color buffer).calls
      (solid (width.toNat * height.toNat) color) ↔ width.toNat * height.toNat % 100 ≠ 1 := by
    refine allSent_st7796hLoop_iff (fun _ n => solid n color) ?_ ?_ ?_ hlen
    · intro k n
      rw [Nat.zero_mul, Nat.add_zero, solid_add]
      exact congrArg (· ++ _) (slice_fillColor (Nat.le_refl _) color buffer _).symm
    · intro k n hn
      rw [Nat.zero_mul, Nat.add_zero]
      exact (slice_fillColor (Nat.le_of_lt hn) color buffer _).symm
    · exact fun n => length_solid n color
  rw [hdraw, hsolid, and_self_iff]

/-- Three rows of 34 pixels, which are a piece of 100 pixels and one of two. -/
theorem st7796h_sends_all_iff_rows :
    AllSent (st7796hDraw (fun a => UInt8.ofNat a) 0 0 34 3 0x100).calls
        (slice (fun a => UInt8.ofNat a) 0x100 204) ∧
      AllSent (st7796hDrawSolidRect (fun a => UInt8.ofNat a) 0 0 34 3 0xF800 0x100).calls
        (solid 102 0xF800) :=
  (@st7796h_sends_all_iff 34 3 0 0 0xF800 0x100 _ (by decide)).mpr (by decide)

/-- A picture of one pixel: `LCD_QSPI_WRITE` is called with two bytes and stores none, and nothing
is on the wire. -/
theorem single_pixel_lost :
    (st7796hDraw (fun _ => 0xFF) 0 0 1 1 0x100).calls = [(2, ⟨0xFF, 0xFF, []⟩)] ∧
      ¬ AllSent (st7796hDraw (fun _ => 0xFF) 0 0 1 1 0x100).calls
        (slice (fun _ => 0xFF) 0x100 (1 * 1 * 2)) := by
  have hcalls : (st7796hDraw (fun _ => 0xFF) 0 0 1 1 0x100).calls = [(2, ⟨0xFF, 0xFF, []⟩)] := by
    rw [st7796hDraw, st7796hLoop]
    rfl
  refine ⟨hcalls, fun h => ?_⟩
  have hwire := h.wire
  rw [hcalls] at hwire
  exact absurd hwire (by decide)

end Fr5080
