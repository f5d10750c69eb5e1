import Fr5080.Embedded.Word
import Fr5080.Lcd.Bus

/-!
# Fr5080.Lcd.Rm69330

The driver of the RM69330 display (`lcd_rm69330/lcd.c`).

`lcd_display` sends the unaligned head of the image byte by byte and the rest
by words.  The length of the head is taken as `data - align_data`, and the
words start at `align_data` again, in front of the image:
`lcd_display_sends_image_iff`.

`rm69330_draw_solid_rect` gives `width-1` and `height-1` as the end of the
window, and sends 256 bytes for each 1024 that it counts.
-/

namespace Fr5080

open Embedded

/-! ## the image -/

section

variable (mem : Nat → UInt8)

/-- Behind the loop: the words that are left, and the bytes behind them.  `length>>2` is an
`int`, compared with a `uint32_t`. -/
def lcdDisplayTail (buffer : Nat) (length : Int) : List (List UInt8) :=
  let words := (UInt32.ofInt (length >>> (2 : Nat))).toNat
  let rest := (UInt32.ofInt length &&& 0x03).toNat
  slice mem buffer (4 * words) ::
    if rest ≠ 0 then [slice mem (buffer + 4 * words) rest] else []

/-- `while(length >= SINGLE_TRANS_SIZE)`, and what follows it. -/
def lcdDisplayLoop (buffer : Nat) (length : Int) : List (List UInt8) :=
  if 0x100 ≤ length then
    slice mem buffer 0x100 :: lcdDisplayLoop (buffer + 0x100) (length - 0x100)
  else lcdDisplayTail mem buffer length
termination_by length.toNat
decreasing_by omega

/-- `lcd_display`: the bytes of each burst. -/
def lcdDisplay (data : UInt32) (length : Int) : List (List UInt8) :=
  let alignData := data &&& ~~~0x03
  if alignData ≠ data then
    let singleLength := (data - alignData).toUInt8
    slice mem data.toNat singleLength.toNat ::
      lcdDisplayLoop mem alignData.toNat (length - singleLength.toNat)
  else lcdDisplayLoop mem alignData.toNat length

/-- When the image is sent: its start is a word address; or it has at least the bytes of the
head, and repeats in the memory with a period of twice that many bytes. -/
def ImageSent (data : UInt32) (length : Nat) : Prop :=
  data.toNat % 4 = 0 ∨
    data.toNat % 4 ≤ length ∧
      ∀ i < length, data.toNat % 4 ≤ i →
        mem (data.toNat - data.toNat % 4 + (i - data.toNat % 4)) = mem (data.toNat + i)

end

variable {mem : Nat → UInt8}

theorem toNat_alignData (data : UInt32) :
    (data &&& ~~~0x03).toNat = data.toNat - data.toNat % 4 := by
  have hmask := toNat_and_highMask (by decide : ∀ i (hi : i < 32),
    (~~~0x03 : UInt32).toBitVec[i] = decide (2 ≤ i)) data
  rw [hmask]
  omega

theorem toNat_and_three (v : UInt32) : (v &&& 0x03).toNat = v.toNat % 4 := by
  rw [UInt32.toNat_and]
  exact Nat.and_two_pow_sub_one_eq_mod v.toNat 2

/-- `single_length`. -/
theorem toNat_singleLength (data : UInt32) :
    (data - (data &&& ~~~0x03)).toUInt8.toNat = data.toNat % 4 := by
  have hle : data &&& ~~~0x03 ≤ data := by
    rw [UInt32.le_iff_toNat_le, toNat_alignData]
    exact Nat.sub_le _ _
  rw [UInt32.toNat_toUInt8, UInt32.toNat_sub_of_le _ _ hle, toNat_alignData]
  omega

theorem alignData_eq_iff (data : UInt32) : data &&& ~~~0x03 = data ↔ data.toNat % 4 = 0 := by
  rw [← UInt32.toNat_inj, toNat_alignData]
  omega

/-- What is left when less than a burst is left. -/
theorem flatten_lcdDisplayTail (buffer : Nat) {n : Nat} (h : n < 0x100) :
    (lcdDisplayTail mem buffer n).flatten = slice mem buffer n := by
  have hwords : (UInt32.ofInt ((n : Int) >>> (2 : Nat))).toNat = n / 4 := by
    rw [toNat_ofInt_words]
    omega
  have hrest : (UInt32.ofInt n &&& 0x03).toNat = n % 4 := by
    rw [toNat_and_three, toNat_ofInt]
    omega
  have hsum : 4 * (n / 4) + n % 4 = n := Nat.div_add_mod n 4
  simp only [lcdDisplayTail, hwords, hrest]
  by_cases hzero : n % 4 = 0
  · rw [hzero, Nat.add_zero] at hsum
    simp [hzero, hsum]
  · rw [if_pos hzero]
    simp only [List.flatten_cons, List.flatten_nil, List.append_nil, ← slice_add, hsum]

/-- A negative length becomes a number of words. -/
theorem length_lcdDisplayTail_neg (buffer : Nat) {n : Nat} (hpos : 0 < n) (h : n < 4) :
    4 * (2 ^ 32 - 1) ≤ (lcdDisplayTail mem buffer (-(n : Int))).flatten.length := by
  have hwords : (UInt32.ofInt ((-(n : Int)) >>> (2 : Nat))).toNat = 2 ^ 32 - 1 := by
    rw [toNat_ofInt_words]
    omega
  rw [lcdDisplayTail, hwords, List.flatten_cons, List.length_append, length_slice]
  exact Nat.le_add_right _ _

/-- The loop sends what it is given. -/
theorem flatten_lcdDisplayLoop (buffer n : Nat) :
    (lcdDisplayLoop mem buffer n).flatten = slice mem buffer n := by
  induction n using Nat.strongRecOn generalizing buffer with
  | ind n ih =>
      rw [lcdDisplayLoop]
      split
      · next hle =>
          obtain ⟨m, rfl⟩ := Nat.exists_eq_add_of_le (by omega : 0x100 ≤ n)
          have hsub : ((0x100 + m : Nat) : Int) - 0x100 = m := by omega
          rw [hsub, List.flatten_cons, ih m (by omega), ← slice_add]
      · next hlt => exact flatten_lcdDisplayTail buffer (by omega)

/-- The bytes that are sent: the head, and as many as are left from the word address on. -/
theorem flatten_lcdDisplay {data : UInt32} {length : Nat} (h : data.toNat % 4 ≤ length) :
    (lcdDisplay mem data length).flatten = slice mem data.toNat (data.toNat % 4) ++
      slice mem (data.toNat - data.toNat % 4) (length - data.toNat % 4) := by
  simp only [lcdDisplay, ne_eq, alignData_eq_iff, toNat_singleLength, toNat_alignData]
  by_cases haligned : data.toNat % 4 = 0
  · simp [haligned, flatten_lcdDisplayLoop]
  · rw [if_pos haligned, ← Int.ofNat_sub h, List.flatten_cons, flatten_lcdDisplayLoop]

/-- An image that is shorter than its head. -/
theorem length_lcdDisplay_short {data : UInt32} {length : Nat} (h : length < data.toNat % 4) :
    4 * (2 ^ 32 - 1) ≤ (lcdDisplay mem data length).flatten.length := by
  have hneg : (length : Int) - (data.toNat % 4 : Nat) =
      -((data.toNat % 4 - length : Nat) : Int) := by omega
  have htail := @length_lcdDisplayTail_neg mem (data.toNat - data.toNat % 4)
    (data.toNat % 4 - length) (by omega) (by omega)
  simp only [lcdDisplay, ne_eq, alignData_eq_iff, toNat_singleLength, toNat_alignData]
  rw [if_pos (by omega), hneg, lcdDisplayLoop, if_neg (by omega), List.flatten_cons,
    List.length_append]
  exact Nat.le_add_left_of_le htail

/-- What is sent is the image exactly when it repeats. -/
theorem lcdDisplay_eq_iff {data : UInt32} {length : Nat} :
    (lcdDisplay mem data length).flatten = slice mem data.toNat length ↔
      ImageSent mem data length := by
  by_cases hhead : data.toNat % 4 ≤ length
  · have hsplit : slice mem data.toNat length = slice mem data.toNat (data.toNat % 4) ++
        slice mem (data.toNat + data.toNat % 4) (length - data.toNat % 4) := by
      rw [← slice_add, Nat.add_sub_cancel' hhead]
    rw [flatten_lcdDisplay hhead, hsplit, List.append_right_inj, slice_eq_slice_iff]
    by_cases haligned : data.toNat % 4 = 0
    · exact iff_of_true (by simp [haligned]) (.inl haligned)
    · simp only [ImageSent, haligned, hhead, false_or, true_and]
      constructor
      · intro h i hi hle
        have hcell := h (i - data.toNat % 4) (by omega)
        rwa [Nat.add_assoc, Nat.add_sub_cancel' hle] at hcell
      · intro h i hi
        have hcell := h (data.toNat % 4 + i) (by omega) (Nat.le_add_right _ _)
        rwa [Nat.add_sub_cancel_left, ← Nat.add_assoc] at hcell
  · refine iff_of_false (fun heq => ?_) ?_
    · have hlong := @length_lcdDisplay_short mem data length (Nat.lt_of_not_le hhead)
      rw [heq, length_slice] at hlong
      have := Nat.mod_lt data.toNat (by decide : 0 < 4)
      omega
    · rintro (haligned | ⟨hle, _⟩) <;> omega

/-- **The image**: the bursts are `data[0, length)` exactly when it is aligned, or repeats. -/
theorem lcd_display_sends_image_iff (mem : Nat → UInt8) (data : UInt32) (length : Nat) :
    (lcdDisplay mem data length).flatten = slice mem data.toNat length ↔
      ImageSent mem data length :=
  lcdDisplay_eq_iff

/-- Four bytes from an odd address: the last three are those from the byte before on. -/
theorem lcd_display_starts_over :
    (lcdDisplay (fun a => UInt8.ofNat a) 0x101 4).flatten = [0x01, 0x00, 0x01, 0x02] ∧
      (lcdDisplay (fun a => UInt8.ofNat a) 0x101 4).flatten ≠
        slice (fun a => UInt8.ofNat a) 0x101 4 := by
  have hsent := @flatten_lcdDisplay (fun a => UInt8.ofNat a) 0x101 4 (by decide)
  have hbytes : (lcdDisplay (fun a => UInt8.ofNat a) 0x101 4).flatten = [0x01, 0x00, 0x01, 0x02] :=
    hsent.trans (by decide)
  exact ⟨hbytes, fun heq => absurd (hbytes.symm.trans heq) (by decide)⟩

/-! ## rectangles -/

/-- `lcd_set_windows`. -/
def lcdSetWindows (xS yS xE yE : UInt16) : List PanelEvent := lcdWindow xS yS xE yE

/-- `while(len >= 1024)`, and what follows it: the bursts. -/
def solidRectLoop (mem : Nat → UInt8) (buf len : UInt32) : List (List UInt8) :=
  if 1024 ≤ len then lcdDisplay mem buf 0x100 ++ solidRectLoop mem buf (len - 1024)
  else if len ≠ 0 then lcdDisplay mem buf len.toNat else []
termination_by len.toNat
decreasing_by
  next hle =>
    have hle' : 1024 ≤ len.toNat := UInt32.le_iff_toNat_le.mp hle
    rw [UInt32.toNat_sub_of_le _ _ hle]
    show len.toNat - 1024 < len.toNat
    omega

/-- `rm69330_draw_solid_rect`; `buf` is the address of its local buffer. -/
def rm69330DrawSolidRect (x y width height color : UInt16) (buf : UInt32)
    (mem : Nat → UInt8) : List PanelEvent :=
  let len := width.toUInt32 * height.toUInt32 * 2
  let mem := fillColor (1024 / 2) color buf.toNat mem
  lcdSetWindows x y (width - 1) (height - 1) ++ (solidRectLoop mem buf len).flatMap lcdBurst

/-- The rectangle is drawn: the window is the rectangle, and the picture its pixels. -/
def RectFilled (x y width height color : UInt16) (events : List PanelEvent) : Prop :=
  ∀ p : Panel, (p.receive events).Writing (x.toNat, x.toNat + width.toNat - 1)
    (y.toNat, y.toNat + height.toNat - 1) (solid (width.toNat * height.toNat) color)

/-- A short rectangle is one image. -/
theorem solidRectLoop_of_lt {buf len : UInt32} (hlt : len.toNat < 1024) (hne : len.toNat ≠ 0) :
    solidRectLoop mem buf len = lcdDisplay mem buf len.toNat := by
  have hle : ¬ 1024 ≤ len := fun hle => Nat.not_lt.mpr (UInt32.le_iff_toNat_le.mp hle) hlt
  have hne' : len ≠ 0 := fun heq => hne (congrArg UInt32.toNat heq)
  rw [solidRectLoop, if_neg hle, if_pos hne']

/-- As many bytes as a call is given, if the head is not longer; a lot more otherwise. -/
theorem length_lcdDisplay (data : UInt32) (length : Nat) :
    (lcdDisplay mem data length).flatten.length = length ∨
      4 * (2 ^ 32 - 1) ≤ (lcdDisplay mem data length).flatten.length := by
  by_cases hhead : data.toNat % 4 ≤ length
  · left
    rw [flatten_lcdDisplay hhead, List.length_append, length_slice, length_slice,
      Nat.add_sub_cancel' hhead]
  · exact .inr (length_lcdDisplay_short (Nat.lt_of_not_le hhead))

/-- The bytes that are sent for a count of `len`: at most as many, and fewer as soon as it is
1024 or more; or a lot more. -/
theorem length_solidRectLoop (buf len : UInt32) :
    (solidRectLoop mem buf len).flatten.length ≤ len.toNat ∧
        (1024 ≤ len.toNat → (solidRectLoop mem buf len).flatten.length < len.toNat) ∨
      4 * (2 ^ 32 - 1) ≤ (solidRectLoop mem buf len).flatten.length := by
  induction len using solidRectLoop.induct with
  | case1 len hle ih =>
      have hle' : 1024 ≤ len.toNat := UInt32.le_iff_toNat_le.mp hle
      have hsub : (len - 1024).toNat = len.toNat - 1024 := UInt32.toNat_sub_of_le _ _ hle
      have hburst : (lcdDisplay mem buf (0x100 : Nat)).flatten.length = 0x100 ∨ _ :=
        length_lcdDisplay buf 0x100
      rw [solidRectLoop, if_pos hle, List.flatten_append, List.length_append]
      rw [hsub] at ih
      have hcast : ((0x100 : Nat) : Int) = 0x100 := rfl
      rw [hcast] at hburst
      omega
  | case2 len hlt hne =>
      have hlt' : len.toNat < 1024 := by
        refine Nat.not_le.mp fun hle => hlt (UInt32.le_iff_toNat_le.mpr hle)
      have himage := @length_lcdDisplay mem buf len.toNat
      rw [solidRectLoop, if_neg hlt, if_pos hne]
      omega
  | case3 len hlt hzero =>
      rw [solidRectLoop, if_neg hlt, if_neg hzero]
      have hzero' : len = 0 := not_not.mp hzero
      subst hzero'
      exact .inl ⟨Nat.le_refl _, fun h => absurd h (by decide)⟩

/-- The pixels are sent exactly when they are fewer than 512 and the buffer is sent in order. -/
theorem flatten_solidRectLoop_iff {width height color : UInt16} {buf : UInt32}
    (hwidth : 1 ≤ width.toNat) (hheight : 1 ≤ height.toNat) :
    (solidRectLoop (fillColor (1024 / 2) color buf.toNat mem) buf
        (width.toUInt32 * height.toUInt32 * 2)).flatten =
      solid (width.toNat * height.toNat) color ↔
    width.toNat * height.toNat < 512 ∧
      ImageSent (fillColor (1024 / 2) color buf.toNat mem) buf
        (2 * (width.toNat * height.toNat)) := by
  have hpos : 1 ≤ width.toNat * height.toNat := Nat.mul_pos hwidth hheight
  have hbound : width.toNat * height.toNat ≤ 65535 * 65535 :=
    Nat.mul_le_mul (Nat.le_of_lt_succ width.toNat_lt) (Nat.le_of_lt_succ height.toNat_lt)
  have hlen : (width.toUInt32 * height.toUInt32 * 2).toNat =
      2 * (width.toNat * height.toNat) % 2 ^ 32 := by
    rw [UInt32.toNat_mul, UInt32.toNat_mul, UInt16.toNat_toUInt32, UInt16.toNat_toUInt32,
      Nat.mod_mul_mod, Nat.mul_comm]
    rfl
  generalize width.toNat * height.toNat = area at *
  have hle : (width.toUInt32 * height.toUInt32 * 2).toNat ≤ 2 * area := hlen ▸ Nat.mod_le _ _
  have hcount := @length_solidRectLoop (fillColor (1024 / 2) color buf.toNat mem) buf
    (width.toUInt32 * height.toUInt32 * 2)
  have hshort : area < 512 →
      solidRectLoop (fillColor (1024 / 2) color buf.toNat mem) buf
          (width.toUInt32 * height.toUInt32 * 2) =
        lcdDisplay (fillColor (1024 / 2) color buf.toNat mem) buf (2 * area : Nat) := by
    intro harea
    have hexact : (width.toUInt32 * height.toUInt32 * 2).toNat = 2 * area := by omega
    rw [solidRectLoop_of_lt (by omega) (by omega), hexact]
  constructor
  · intro heq
    have harea : area < 512 := by
      rw [heq, length_solid] at hcount
      omega
    refine ⟨harea, lcdDisplay_eq_iff.mp ?_⟩
    rw [slice_fillColor (Nat.le_of_lt harea), ← hshort harea]
    exact heq
  · rintro ⟨harea, hsent⟩
    rw [hshort harea, lcdDisplay_eq_iff.mpr hsent]
    exact slice_fillColor (Nat.le_of_lt harea) _ _ _

/-- What the display has got in the end. -/
theorem writing_rm69330DrawSolidRect (p : Panel) (x y : UInt16) {width height : UInt16}
    (color : UInt16) (buf : UInt32) (mem : Nat → UInt8) (hwidth : 1 ≤ width.toNat)
    (hheight : 1 ≤ height.toNat) :
    (p.receive (rm69330DrawSolidRect x y width height color buf mem)).Writing
      (x.toNat, width.toNat - 1) (y.toNat, height.toNat - 1)
      (solidRectLoop (fillColor (1024 / 2) color buf.toNat mem) buf
        (width.toUInt32 * height.toUInt32 * 2)).flatten := by
  have hlast : ∀ v : UInt16, 1 ≤ v.toNat → (v - 1).toNat = v.toNat - 1 := fun v hv =>
    UInt16.toNat_sub_of_le _ _ (UInt16.le_iff_toNat_le.mpr hv)
  rw [rm69330DrawSolidRect, Panel.receive_append, ← hlast width hwidth, ← hlast height hheight]
  exact writing_bursts (writing_lcdWindow p x y (width - 1) (height - 1)) _

/-- **Rectangles**: a rectangle is drawn exactly when it is at the origin, has fewer than 512
pixels, and the buffer is sent in order. -/
theorem solid_rect_filled_iff {x y width height : UInt16} (color : UInt16) (buf : UInt32)
    (mem : Nat → UInt8) (hwidth : 1 ≤ width.toNat) (hheight : 1 ≤ height.toNat)
    (hx : x.toNat + width.toNat ≤ 2 ^ 16) (hy : y.toNat + height.toNat ≤ 2 ^ 16) :
    RectFilled x y width height color (rm69330DrawSolidRect x y width height color buf mem) ↔
      x = 0 ∧ y = 0 ∧ width.toNat * height.toNat < 512 ∧
        ImageSent (fillColor (1024 / 2) color buf.toNat mem) buf
          (2 * (width.toNat * height.toNat)) := by
  have hdrawn := fun p => writing_rm69330DrawSolidRect p x y color buf mem hwidth hheight
  rw [← flatten_solidRectLoop_iff hwidth hheight]
  constructor
  · intro hfilled
    have hnow := hdrawn ⟨0, [], (0, 0), (0, 0), []⟩
    have hthen := hfilled ⟨0, [], (0, 0), (0, 0), []⟩
    have hcolumns := congrArg Prod.snd (hthen.columns.symm.trans hnow.columns)
    have hrows := congrArg Prod.snd (hthen.rows.symm.trans hnow.rows)
    refine ⟨UInt16.toNat_inj.mp ?_, UInt16.toNat_inj.mp ?_,
      hnow.picture.symm.trans hthen.picture⟩
    · show x.toNat = 0
      have : x.toNat + width.toNat - 1 = width.toNat - 1 := hcolumns
      omega
    · show y.toNat = 0
      have : y.toNat + height.toNat - 1 = height.toNat - 1 := hrows
      omega
  · rintro ⟨rfl, rfl, heq⟩ p
    have hend : ∀ n : Nat, (0 : UInt16).toNat + n - 1 = n - 1 := by
      intro n
      show 0 + n - 1 = n - 1
      rw [Nat.zero_add]
    rw [hend, hend, ← heq]
    exact hdrawn p

/-- Twenty by twenty red pixels at the origin. -/
theorem solid_rect_filled_iff_square :
    RectFilled 0 0 20 20 0xF800 (rm69330DrawSolidRect 0 0 20 20 0xF800 0x1000 fun _ => 0) :=
  (solid_rect_filled_iff 0xF800 0x1000 (fun _ => 0) (by decide) (by decide) (by decide)
    (by decide)).mpr ⟨rfl, rfl, by decide, .inl (by decide)⟩

/-- The window of a rectangle of two by two pixels at (10, 20) goes from 10 to 1; and of 512
pixels only 128 are sent. -/
theorem solid_rect_not_filled :
    ¬ RectFilled 10 20 2 2 0xF800 (rm69330DrawSolidRect 10 20 2 2 0xF800 0x1000 fun _ => 0) ∧
      ¬ RectFilled 0 0 32 16 0xF800
        (rm69330DrawSolidRect 0 0 32 16 0xF800 0x1000 fun _ => 0) := by
  constructor
  · intro hfilled
    have hthen := (hfilled ⟨0, [], (0, 0), (0, 0), []⟩).columns
    rw [(writing_rm69330DrawSolidRect _ 10 20 0xF800 0x1000 _ (by decide) (by decide)).columns]
      at hthen
    exact absurd hthen (by decide)
  · intro hfilled
    have hthen := (hfilled ⟨0, [], (0, 0), (0, 0), []⟩).picture
    rw [(writing_rm69330DrawSolidRect _ 0 0 0xF800 0x1000 _ (by decide) (by decide)).picture]
      at hthen
    have hfew := (flatten_solidRectLoop_iff (by decide) (by decide)).mp hthen
    exact absurd hfew.1 (by decide)

end Fr5080
