import Mathlib.Data.Nat.ModEq
import Fr5080.Embedded.Mem

/-!
# Embedded.Nor

NOR flash: an array of bytes that is erased to ones by the sector and
programmed by the page, and programming can only clear bits.  The address of a
byte that is programmed counts up inside its page and wraps there.

An offset beyond the array selects a byte by its lower bits, so offsets are
taken modulo the size; sectors are known by their number.

* `program_eq` — inside a page, programming is a store of the bits that stay;
* `program_erased` — on erased bytes it is a plain store;
* `Installing` — an image that is copied sector by sector, with the rules for the
  two commands;
* `programPieces_erased` — bytes that are programmed piece by piece;
* `Filling` — bytes that are programmed in parts, in any order and more than once;
* `sectorOf_add_inj` — as far as the array reaches, offsets count through
  different sectors.
-/

namespace Embedded

/-- The sizes of a NOR flash, in bytes. -/
structure NorGeometry where
  page : Nat
  sector : Nat
  size : Nat
  page_pos : 0 < page
  size_pos : 0 < size
  page_dvd : page ∣ sector
  sector_dvd : sector ∣ size

namespace NorGeometry

variable (g : NorGeometry)

/-! ## addresses -/

/-- The byte of the array that an offset selects. -/
def cell (off : Nat) : Nat := off % g.size

/-- The number of the sector that an offset selects. -/
def sectorOf (off : Nat) : Nat := g.cell off / g.sector

/-- The number of sectors. -/
def sectors : Nat := g.size / g.sector

/-- The offset that follows `off` while a page is programmed. -/
def nextInPage (off : Nat) : Nat := off - off % g.page + (off + 1) % g.page

theorem cell_lt (off : Nat) : g.cell off < g.size := Nat.mod_lt _ g.size_pos

theorem sector_pos : 0 < g.sector :=
  Nat.pos_of_dvd_of_pos g.sector_dvd g.size_pos

theorem size_eq : g.size = g.sectors * g.sector := (Nat.div_mul_cancel g.sector_dvd).symm

theorem sectors_pos : 0 < g.sectors :=
  Nat.div_pos (Nat.le_of_dvd g.size_pos g.sector_dvd) g.sector_pos

theorem sectorOf_eq (off : Nat) : g.sectorOf off = off / g.sector % g.sectors := by
  rw [sectorOf, cell, g.size_eq, Nat.mul_comm, Nat.mod_mul_right_div_self]

theorem sectorOf_lt (off : Nat) : g.sectorOf off < g.sectors := by
  rw [sectorOf_eq]
  exact Nat.mod_lt _ g.sectors_pos

/-- As far as the array reaches, different offsets select different bytes. -/
theorem cell_add_inj {off i j : Nat} (hi : i < g.size) (hj : j < g.size)
    (h : g.cell (off + i) = g.cell (off + j)) : i = j := by
  have hmod : i % g.size = j % g.size := Nat.ModEq.add_left_cancel' off h
  rwa [Nat.mod_eq_of_lt hi, Nat.mod_eq_of_lt hj] at hmod

/-- As far as the array reaches, sector numbers count through different sectors. -/
theorem sectorOf_add_inj {b i j : Nat} (hi : i < g.sectors) (hj : j < g.sectors)
    (h : (b + i) % g.sectors = (b + j) % g.sectors) : i = j := by
  have hmod : i % g.sectors = j % g.sectors := Nat.ModEq.add_left_cancel' b h
  rwa [Nat.mod_eq_of_lt hi, Nat.mod_eq_of_lt hj] at hmod

/-- Sectors `p`, …, `p + c - 1` behind sector `b` are among the first `m` behind it exactly
if they end there, or if the `m` sectors are the whole array. -/
theorem sectors_among_iff {b p c m : Nat} (hp : p < m) :
    (∀ j < c, ∃ i < m, (b + p + j) % g.sectors = (b + i) % g.sectors) ↔
      g.sectors ≤ m ∨ p + c ≤ m := by
  constructor
  · intro h
    by_cases hall : g.sectors ≤ m
    · exact Or.inl hall
    · refine Or.inr (Nat.not_lt.mp fun hlt => ?_)
      -- sector `m` is the first outside, and no other number of a sector inside
      obtain ⟨i, hi, heq⟩ := h (m - p) (by omega)
      have hm : b + p + (m - p) = b + m := by omega
      rw [hm] at heq
      have := g.sectorOf_add_inj (by omega) (by omega) heq
      omega
  · rintro (hall | hend) j hj
    · refine ⟨(p + j) % g.sectors, ?_, ?_⟩
      · exact Nat.lt_of_lt_of_le (Nat.mod_lt _ g.sectors_pos) hall
      · rw [Nat.add_mod_mod, Nat.add_assoc]
    · exact ⟨p + j, by omega, by rw [Nat.add_assoc]⟩

/-- A piece that stays inside a unit of the array stays inside the array. -/
theorem cell_add_le {unit off n : Nat} (hpos : 0 < unit) (hdvd : unit ∣ g.size)
    (h : off % unit + n ≤ unit) : g.cell off + n ≤ g.size := by
  obtain ⟨k, hk⟩ := hdvd
  have hmod : g.cell off % unit = off % unit := Nat.mod_mod_of_dvd off ⟨k, hk⟩
  have hdiv : g.cell off / unit < k := by
    rw [Nat.div_lt_iff_lt_mul hpos, Nat.mul_comm, ← hk]
    exact g.cell_lt off
  have hsplit := Nat.div_add_mod (g.cell off) unit
  have hmul : unit * (g.cell off / unit + 1) ≤ unit * k := Nat.mul_le_mul_left _ hdiv
  rw [Nat.mul_add, Nat.mul_one] at hmul
  omega

/-- Inside a unit of the array, offsets count through the bytes. -/
theorem cell_add {unit off i : Nat} (hpos : 0 < unit) (hdvd : unit ∣ g.size)
    (h : off % unit + i < unit) : g.cell (off + i) = g.cell off + i := by
  have hle := @cell_add_le g unit off (i + 1) hpos hdvd h
  rw [cell, cell, ← Nat.mod_add_mod]
  exact Nat.mod_eq_of_lt hle

theorem page_dvd_size : g.page ∣ g.size := Nat.dvd_trans g.page_dvd g.sector_dvd

/-- The bytes of the sector that starts at `off`. -/
theorem sectorOf_eq_iff {off a : Nat} (hoff : off % g.sector = 0) :
    a / g.sector = g.sectorOf off ↔ ∃ j < g.sector, a = g.cell (off + j) := by
  have hcell : ∀ j < g.sector, g.cell (off + j) = g.cell off + j := fun j hj =>
    g.cell_add g.sector_pos g.sector_dvd (by omega)
  have hmod : g.cell off % g.sector = 0 := by
    rw [cell, Nat.mod_mod_of_dvd off g.sector_dvd, hoff]
  have hstart : g.sector * g.sectorOf off = g.cell off := Nat.mul_div_cancel' (by omega)
  constructor
  · intro h
    refine ⟨a % g.sector, Nat.mod_lt _ g.sector_pos, ?_⟩
    rw [hcell _ (Nat.mod_lt _ g.sector_pos), ← hstart, ← h, Nat.div_add_mod]
  · rintro ⟨j, hj, rfl⟩
    rw [hcell j hj, ← hstart, Nat.mul_add_div g.sector_pos, Nat.div_eq_of_lt hj, Nat.add_zero]

/-- A sector is one sector from its start to its end. -/
theorem sectorOf_add {off j : Nat} (hoff : off % g.sector = 0) (hj : j < g.sector) :
    g.sectorOf (off + j) = g.sectorOf off := (g.sectorOf_eq_iff hoff).mpr ⟨j, hj, rfl⟩

/-! ## erasing and programming -/

/-- Erase the sector that `off` selects. -/
def eraseSector (off : Nat) (m : Nat → UInt8) : Nat → UInt8 := fun a =>
  if a / g.sector = g.sectorOf off then 0xFF else m a

/-- Program bytes into the page that `off` selects, from `off` on. -/
def program (off : Nat) : List UInt8 → (Nat → UInt8) → Nat → UInt8
  | [], m => m
  | b :: bs, m =>
      program (g.nextInPage off) bs (Function.update m (g.cell off) (m (g.cell off) &&& b))

theorem eraseSector_of_ne {off a : Nat} (m : Nat → UInt8) (h : a / g.sector ≠ g.sectorOf off) :
    g.eraseSector off m a = m a := if_neg h

theorem eraseSector_of_eq {off a : Nat} (m : Nat → UInt8) (h : a / g.sector = g.sectorOf off) :
    g.eraseSector off m a = 0xFF := if_pos h

theorem eraseSector_congr {off off' : Nat} (h : g.sectorOf off = g.sectorOf off')
    (m : Nat → UInt8) : g.eraseSector off m = g.eraseSector off' m := by
  funext a
  rw [eraseSector, eraseSector, h]

/-- Before the end of the page the next offset is the next byte. -/
theorem nextInPage_eq {off : Nat} (h : off % g.page + 1 < g.page) :
    g.nextInPage off = off + 1 := by
  have hmod : (off + 1) % g.page = off % g.page + 1 := by
    rw [Nat.add_mod, Nat.mod_eq_of_lt (Nat.lt_of_le_of_lt (Nat.le_add_left 1 _) h),
      Nat.mod_eq_of_lt h]
  have := Nat.mod_le off g.page
  rw [nextInPage, hmod]
  omega

/-- Inside a page, programming clears the bits that are zero in the bytes. -/
theorem program_eq (off : Nat) (bs : List UInt8) (m : Nat → UInt8)
    (h : off % g.page + bs.length ≤ g.page) :
    g.program off bs m = store m (g.cell off)
      (List.zipWith (· &&& ·) (slice m (g.cell off) bs.length) bs) := by
  induction bs generalizing off m with
  | nil => simp [program]
  | cons b bs ih =>
      cases bs with
      | nil =>
          funext a
          by_cases ha : a = g.cell off
          · subst ha
            simp [program, slice, store]
          · have hout : a < g.cell off ∨ g.cell off + 1 ≤ a := by omega
            rw [store_of_not_mem _ _ _ _ (by simpa [slice] using hout)]
            simp [program, Function.update_of_ne ha]
      | cons b' bs =>
          rw [List.length_cons, List.length_cons] at h
          have hnext : g.nextInPage off = off + 1 := g.nextInPage_eq (by omega)
          have hmod : (off + 1) % g.page = off % g.page + 1 := by
            rw [Nat.add_mod, Nat.mod_eq_of_lt (by omega : 1 < g.page), Nat.mod_eq_of_lt (by omega)]
          have hcell : g.cell (off + 1) = g.cell off + 1 := by
            exact g.cell_add g.page_pos g.page_dvd_size (by omega)
          have hslice : slice (Function.update m (g.cell off) (m (g.cell off) &&& b))
              (g.cell off + 1) (b' :: bs).length = slice m (g.cell off + 1) (b' :: bs).length :=
            slice_eq_slice_iff.mpr fun i _ => Function.update_of_ne (by omega) _ _
          have hupdate : Function.update m (g.cell off) (m (g.cell off) &&& b) =
              store m (g.cell off) [m (g.cell off) &&& b] := by
            funext a
            by_cases ha : a = g.cell off
            · subst ha
              simp [store]
            · rw [Function.update_of_ne ha, store_of_not_mem _ _ _ _ (by simp; omega)]
          have hsplit : slice m (g.cell off) (b :: b' :: bs).length =
              m (g.cell off) :: slice m (g.cell off + 1) (b' :: bs).length := by
            rw [List.length_cons, Nat.add_comm, slice_add]
            rfl
          rw [program, hnext, ih (off + 1) _ (by rw [hmod, List.length_cons]; omega), hcell,
            hslice, hupdate, hsplit, List.zipWith_cons_cons]
          exact store_store_append m (g.cell off) [m (g.cell off) &&& b] _

/-- Programmed bytes that were erased are as given. -/
theorem program_erased (off : Nat) (bs : List UInt8) (m : Nat → UInt8)
    (h : off % g.page + bs.length ≤ g.page)
    (herased : ∀ i < bs.length, m (g.cell off + i) = 0xFF) :
    g.program off bs m = store m (g.cell off) bs := by
  have hones : slice m (g.cell off) bs.length = List.replicate bs.length 0xFF := by
    apply List.ext_getElem
    · simp
    · intro i hi hi'
      rw [getElem_slice, List.getElem_replicate]
      exact herased i (by simpa using hi)
  have hand : List.zipWith (· &&& ·) (List.replicate bs.length (0xFF : UInt8)) bs = bs := by
    apply List.ext_getElem
    · simp
    · intro i hi hi'
      have hones : ∀ b : UInt8, 0xFF &&& b = b := fun _ => UInt8.neg_one_and
      simp [hones]
  rw [g.program_eq off bs m h, hones, hand]

/-- Programmed bytes that were erased, byte by byte. -/
theorem program_erased_cell (off : Nat) (bs : List UInt8) (m : Nat → UInt8)
    (h : off % g.page + bs.length ≤ g.page)
    (herased : ∀ i < bs.length, m (g.cell (off + i)) = 0xFF) (i : Nat) (hi : i < bs.length) :
    g.program off bs m (g.cell (off + i)) = bs[i] := by
  have hcell : ∀ i < bs.length, g.cell (off + i) = g.cell off + i := fun i hi =>
    g.cell_add g.page_pos g.page_dvd_size (by omega)
  rw [g.program_erased off bs m h fun i hi => by rw [← hcell i hi]; exact herased i hi, hcell i hi,
    store_add _ _ _ _ hi]

/-- Programming keeps the other bytes. -/
theorem program_of_ne (off : Nat) (bs : List UInt8) (m : Nat → UInt8)
    (h : off % g.page + bs.length ≤ g.page) (a : Nat)
    (ha : ∀ i < bs.length, a ≠ g.cell (off + i)) : g.program off bs m a = m a := by
  rw [g.program_eq off bs m h]
  apply store_of_not_mem
  rw [List.length_zipWith, length_slice, Nat.min_self]
  by_contra hin
  refine ha (a - g.cell off) (by omega) ?_
  rw [g.cell_add g.page_pos g.page_dvd_size (by omega)]
  omega

/-! ## pieces -/

/-- `ps` cuts the bytes that go to `off` into pieces in order, each with its offset, and no
piece leaves its page. -/
def Pieces (page : Nat) : Nat → List UInt8 → List (Nat × List UInt8) → Prop
  | _, bs, [] => bs = []
  | off, bs, p :: ps =>
      p.1 = off ∧ p.2 <+: bs ∧ off % page + p.2.length ≤ page ∧
        Pieces page (off + p.2.length) (bs.drop p.2.length) ps

/-- Program pieces, one after the other. -/
def programPieces : List (Nat × List UInt8) → (Nat → UInt8) → Nat → UInt8
  | [], m => m
  | p :: ps, m => programPieces ps (g.program p.1 p.2 m)

/-- Programming pieces keeps the bytes that are not theirs. -/
theorem programPieces_of_ne {off : Nat} {bs : List UInt8} {ps : List (Nat × List UInt8)}
    (h : Pieces g.page off bs ps) (m : Nat → UInt8) (a : Nat)
    (ha : ∀ i < bs.length, a ≠ g.cell (off + i)) : g.programPieces ps m a = m a := by
  induction ps generalizing off bs m with
  | nil => rfl
  | cons p ps ih =>
      obtain ⟨rfl, hprefix, hpage, hrest⟩ := h
      have hle := hprefix.length_le
      rw [programPieces, ih hrest, g.program_of_ne _ _ _ hpage]
      · intro i hi
        exact ha i (by omega)
      · intro i hi
        rw [Nat.add_assoc]
        exact ha _ (by rw [List.length_drop] at hi; omega)

/-- **Programming by pieces**: where the array was erased it has the bytes. -/
theorem programPieces_erased {off : Nat} {bs : List UInt8} {ps : List (Nat × List UInt8)}
    (h : Pieces g.page off bs ps) (m : Nat → UInt8) (hsize : bs.length ≤ g.size)
    (herased : ∀ i < bs.length, m (g.cell (off + i)) = 0xFF) (i : Nat) (hi : i < bs.length) :
    g.programPieces ps m (g.cell (off + i)) = bs[i] := by
  induction ps generalizing off bs m i with
  | nil =>
      have hnil : bs = [] := h
      simp [hnil] at hi
  | cons p ps ih =>
      obtain ⟨rfl, hprefix, hpage, hrest⟩ := h
      have hle := hprefix.length_le
      rw [programPieces]
      by_cases hin : i < p.2.length
      · -- a byte of this piece: the later pieces leave it alone
        rw [g.programPieces_of_ne hrest, g.program_erased_cell _ _ _ hpage _ i hin,
          hprefix.getElem hin]
        · intro j hj
          exact herased j (by omega)
        · intro j hj heq
          rw [List.length_drop] at hj
          rw [Nat.add_assoc] at heq
          have := g.cell_add_inj (by omega) (by omega) heq
          omega
      · -- a byte of a later piece, which this one leaves erased
        obtain ⟨j, rfl⟩ := Nat.exists_eq_add_of_le (Nat.not_lt.mp hin)
        have hj : j < (bs.drop p.2.length).length := by
          rw [List.length_drop]
          omega
        have hrestErased : ∀ k < (bs.drop p.2.length).length,
            g.program p.1 p.2 m (g.cell (p.1 + p.2.length + k)) = 0xFF := by
          intro k hk
          rw [List.length_drop] at hk
          rw [g.program_of_ne _ _ _ hpage, Nat.add_assoc]
          · exact herased _ (by omega)
          · intro l hl heq
            rw [Nat.add_assoc] at heq
            have := g.cell_add_inj (by omega) (by omega) heq
            omega
        have hread := ih hrest _ (by rw [List.length_drop]; omega) hrestErased j hj
        rw [← Nat.add_assoc, hread, List.getElem_drop]

/-- Programmed bytes, byte by byte, whatever was there. -/
theorem program_cell (off : Nat) (bs : List UInt8) (m : Nat → UInt8)
    (h : off % g.page + bs.length ≤ g.page) (i : Nat) (hi : i < bs.length) :
    g.program off bs m (g.cell (off + i)) = m (g.cell (off + i)) &&& bs[i] := by
  have hcell : g.cell (off + i) = g.cell off + i := g.cell_add g.page_pos g.page_dvd_size (by omega)
  rw [g.program_eq off bs m h, hcell, store_add _ _ _ i (by simpa using hi),
    List.getElem_zipWith, getElem_slice]

/-- The same for pieces. -/
theorem programPieces_cell {off : Nat} {bs : List UInt8} {ps : List (Nat × List UInt8)}
    (h : Pieces g.page off bs ps) (m : Nat → UInt8) (hsize : bs.length ≤ g.size) (i : Nat)
    (hi : i < bs.length) :
    g.programPieces ps m (g.cell (off + i)) = m (g.cell (off + i)) &&& bs[i] := by
  induction ps generalizing off bs m i with
  | nil =>
      have hnil : bs = [] := h
      simp [hnil] at hi
  | cons p ps ih =>
      obtain ⟨rfl, hprefix, hpage, hrest⟩ := h
      have hle := hprefix.length_le
      rw [programPieces]
      by_cases hin : i < p.2.length
      · -- a byte of this piece: the later pieces leave it alone
        rw [g.programPieces_of_ne hrest, g.program_cell _ _ _ hpage i hin, hprefix.getElem hin]
        intro j hj heq
        rw [List.length_drop] at hj
        rw [Nat.add_assoc] at heq
        have := g.cell_add_inj (by omega) (by omega) heq
        omega
      · -- a byte of a later piece, which this one leaves as it was
        obtain ⟨j, rfl⟩ := Nat.exists_eq_add_of_le (Nat.not_lt.mp hin)
        have hj : j < (bs.drop p.2.length).length := by
          rw [List.length_drop]
          omega
        have hread := ih hrest (g.program p.1 p.2 m) (by rw [List.length_drop]; omega) j hj
        rw [← Nat.add_assoc, hread, List.getElem_drop, g.program_of_ne _ _ _ hpage]
        intro k hk heq
        rw [Nat.add_assoc] at heq
        have := g.cell_add_inj (by omega) (by omega) heq
        omega

/-! ## images -/

/-- Bytes `bs` are being programmed from `base` on, in any order: those in `D` are in place, the
others are erased, and the rest of the array is as it was. -/
structure Filling (m₀ : Nat → UInt8) (base : Nat) (bs : List UInt8) (D : Nat → Prop)
    (m : Nat → UInt8) : Prop where
  filled : ∀ i (hi : i < bs.length), D i → m (g.cell (base + i)) = bs[i]
  erased : ∀ i < bs.length, ¬ D i → m (g.cell (base + i)) = 0xFF
  kept : ∀ a, (∀ i < bs.length, a ≠ g.cell (base + i)) → m a = m₀ a

/-- A part of the bytes is programmed; it may be in place already. -/
theorem Filling.programPieces {m₀ m : Nat → UInt8} {base k n : Nat} {bs : List UInt8}
    {D : Nat → Prop} {ps : List (Nat × List UInt8)} (h : g.Filling m₀ base bs D m)
    (hpieces : Pieces g.page (base + k) ((bs.drop k).take n) ps) (hle : k + n ≤ bs.length)
    (hsize : bs.length ≤ g.size) :
    g.Filling m₀ base bs (fun i => D i ∨ k ≤ i ∧ i < k + n) (g.programPieces ps m) := by
  have hlen : ((bs.drop k).take n).length = n := by
    rw [List.length_take, List.length_drop]
    omega
  have hother : ∀ i < bs.length, ¬ (k ≤ i ∧ i < k + n) →
      g.programPieces ps m (g.cell (base + i)) = m (g.cell (base + i)) := by
    intro i hi hout
    refine g.programPieces_of_ne hpieces m _ fun j hj heq => ?_
    rw [hlen] at hj
    rw [Nat.add_assoc] at heq
    have := g.cell_add_inj (by omega) (by omega) heq
    omega
  refine ⟨fun i hi hD => ?_, fun i hi hD => ?_, fun a ha => ?_⟩
  · by_cases hin : k ≤ i ∧ i < k + n
    · obtain ⟨j, rfl⟩ := Nat.exists_eq_add_of_le hin.1
      have hbyte := g.programPieces_cell hpieces m (by omega) j (by omega)
      rw [List.getElem_take, List.getElem_drop, Nat.add_assoc] at hbyte
      rw [hbyte]
      by_cases hDj : D (k + j)
      · rw [h.filled _ hi hDj, UInt8.and_self]
      · rw [h.erased _ hi hDj]
        exact UInt8.neg_one_and
    · rw [hother i hi hin]
      exact h.filled i hi (hD.resolve_right hin)
  · rw [hother i hi fun hin => hD (Or.inr hin)]
    exact h.erased i hi fun hDi => hD (Or.inl hDi)
  · rw [g.programPieces_of_ne hpieces m a fun j hj => ?_, h.kept a ha]
    rw [hlen] at hj
    rw [Nat.add_assoc]
    exact ha _ (by omega)

/-- An image that `m₀` has from `src` on is being copied to `dst`: the first `t` bytes are in
place, those behind them are erased up to `e`, and the sectors outside of `T` are as they were. -/
structure Installing (m₀ : Nat → UInt8) (src dst : Nat) (T : Nat → Prop) (t e : Nat)
    (m : Nat → UInt8) : Prop where
  copied : ∀ i < t, m (g.cell (dst + i)) = m₀ (g.cell (src + i))
  erased : ∀ i, t ≤ i → i < e → m (g.cell (dst + i)) = 0xFF
  kept : ∀ a, ¬ T (a / g.sector) → m a = m₀ a

variable {g} {m₀ m : Nat → UInt8} {src dst t e : Nat} {T : Nat → Prop}

theorem Installing.zero : g.Installing m₀ src dst T 0 0 m₀ where
  copied i hi := absurd hi (Nat.not_lt_zero i)
  erased i _ hi := absurd hi (Nat.not_lt_zero i)
  kept _ _ := rfl

/-- When the copy has come to a sector, the sector is erased. -/
theorem Installing.eraseSector (h : g.Installing m₀ src dst T t t m)
    (hstart : (dst + t) % g.sector = 0) (hsize : t + g.sector ≤ g.size)
    (hT : T (g.sectorOf (dst + t))) :
    g.Installing m₀ src dst T t (t + g.sector) (g.eraseSector (dst + t) m) where
  copied i hi := by
    have hne : g.cell (dst + i) / g.sector ≠ g.sectorOf (dst + t) := by
      intro heq
      obtain ⟨j, hj, hcell⟩ := (g.sectorOf_eq_iff hstart).mp heq
      rw [Nat.add_assoc] at hcell
      have := g.cell_add_inj (by omega) (by omega) hcell
      omega
    rw [g.eraseSector_of_ne m hne, h.copied i hi]
  erased i hle hlt := by
    refine g.eraseSector_of_eq m ((g.sectorOf_eq_iff hstart).mpr ⟨i - t, by omega, ?_⟩)
    rw [Nat.add_assoc, Nat.add_sub_cancel' hle]
  kept a ha := by
    rw [g.eraseSector_of_ne m (fun heq => ha (heq ▸ hT)), h.kept a ha]

/-- Bytes behind those in place are programmed. -/
theorem Installing.program {bs : List UInt8} (h : g.Installing m₀ src dst T t e m)
    (hpage : (dst + t) % g.page + bs.length ≤ g.page) (hle : t + bs.length ≤ e)
    (hsize : e ≤ g.size) (hT : ∀ i < bs.length, T (g.sectorOf (dst + (t + i))))
    (hsrc : ∀ i < bs.length, ¬ T (g.sectorOf (src + (t + i))))
    (hbs : ∀ i (hi : i < bs.length), bs[i] = m (g.cell (src + (t + i)))) :
    g.Installing m₀ src dst T (t + bs.length) e (g.program (dst + t) bs m) := by
  have hother : ∀ i < e, (i < t ∨ t + bs.length ≤ i) →
      g.program (dst + t) bs m (g.cell (dst + i)) = m (g.cell (dst + i)) := by
    intro i hi hout
    refine g.program_of_ne _ _ _ hpage _ fun j hj heq => ?_
    rw [Nat.add_assoc] at heq
    have := g.cell_add_inj (by omega) (by omega) heq
    omega
  constructor
  · intro i hi
    by_cases hlt : i < t
    · rw [hother i (by omega) (Or.inl hlt), h.copied i hlt]
    · obtain ⟨j, rfl⟩ := Nat.exists_eq_add_of_le (Nat.not_lt.mp hlt)
      have hj : j < bs.length := by omega
      have hones : ∀ i < bs.length, m (g.cell (dst + t + i)) = 0xFF := by
        intro i hi
        rw [Nat.add_assoc]
        exact h.erased _ (by omega) (by omega)
      rw [← Nat.add_assoc, g.program_erased_cell _ _ _ hpage hones j hj, hbs j hj]
      exact h.kept _ (hsrc j hj)
  · intro i hi hlt
    rw [hother i hlt (Or.inr hi), h.erased i (by omega) hlt]
  · intro a ha
    rw [g.program_of_ne _ _ _ hpage, h.kept a ha]
    rintro j hj rfl
    rw [Nat.add_assoc] at ha
    exact ha (hT j hj)

end NorGeometry

end Embedded
