import Mathlib.Data.List.Basic

/-!
# Embedded.Panel

A display controller as its host sees it: command bytes, and data bytes that
belong to the last command.  Column and row address set (`0x2A`, `0x2B`) give
the window, memory write (`0x2C`) starts a picture, and memory write continue
(`0x3C`) goes on with it.
-/

namespace Embedded

/-- What reaches the controller. -/
inductive PanelEvent
  | command (cmd : UInt8)
  | data (bytes : List UInt8)
deriving DecidableEq, Repr

/-- The controller: the last command and its data, the window (first and last column and row),
and the bytes of the picture. -/
structure Panel where
  cmd : UInt8
  params : List UInt8
  columns : Nat × Nat
  rows : Nat × Nat
  picture : List UInt8
deriving DecidableEq, Repr

/-- Two 16-bit numbers, high byte first. -/
def addressRange : List UInt8 → Option (Nat × Nat)
  | [a, b, c, d] => some (a.toNat * 256 + b.toNat, c.toNat * 256 + d.toNat)
  | _ => none

namespace Panel

/-- One command, or data of the last one. -/
def step (p : Panel) : PanelEvent → Panel
  | .command cmd =>
      { p with cmd := cmd, params := [], picture := if cmd = 0x2C then [] else p.picture }
  | .data bytes =>
      let params := p.params ++ bytes
      { p with
        params := params
        columns := if p.cmd = 0x2A then (addressRange params).getD p.columns else p.columns
        rows := if p.cmd = 0x2B then (addressRange params).getD p.rows else p.rows
        picture := if p.cmd = 0x2C ∨ p.cmd = 0x3C then p.picture ++ bytes else p.picture }

/-- All that is sent. -/
def receive (p : Panel) (events : List PanelEvent) : Panel := events.foldl step p

@[simp] theorem receive_nil (p : Panel) : p.receive [] = p := rfl

@[simp] theorem receive_cons (p : Panel) (e : PanelEvent) (es : List PanelEvent) :
    p.receive (e :: es) = (p.step e).receive es := rfl

@[simp] theorem receive_append (p : Panel) (es es' : List PanelEvent) :
    p.receive (es ++ es') = (p.receive es).receive es' := List.foldl_append

/-- The picture of a window is being written. -/
structure Writing (p : Panel) (columns rows : Nat × Nat) (picture : List UInt8) : Prop where
  cmd : p.cmd = 0x2C ∨ p.cmd = 0x3C
  columns : p.columns = columns
  rows : p.rows = rows
  picture : p.picture = picture

variable {p : Panel} {columns rows : Nat × Nat} {picture : List UInt8}

/-- A window, and the command to write it. -/
theorem writing_window (p : Panel) {xs ys : List UInt8} (hx : addressRange xs = some columns)
    (hy : addressRange ys = some rows) :
    (p.receive [.command 0x2A, .data xs, .command 0x2B, .data ys, .command 0x2C]).Writing
      columns rows [] := by
  refine ⟨Or.inl ?_, ?_, ?_, ?_⟩ <;> simp +decide [step, hx, hy]

/-- More of the picture. -/
theorem Writing.data (h : p.Writing columns rows picture) (bytes : List UInt8) :
    (p.receive [.data bytes]).Writing columns rows (picture ++ bytes) := by
  obtain ⟨hcmd, rfl, rfl, rfl⟩ := h
  have hx : p.cmd ≠ 0x2A := by
    rcases hcmd with hcmd | hcmd <;> rw [hcmd] <;> decide
  have hy : p.cmd ≠ 0x2B := by
    rcases hcmd with hcmd | hcmd <;> rw [hcmd] <;> decide
  refine ⟨hcmd, ?_, ?_, ?_⟩ <;> simp [step, hx, hy, hcmd]

/-- Chunks of the picture, one after the other. -/
theorem Writing.datas (h : p.Writing columns rows picture) (chunks : List (List UInt8)) :
    (p.receive (chunks.map .data)).Writing columns rows (picture ++ chunks.flatten) := by
  induction chunks generalizing p picture with
  | nil => simpa using h
  | cons bytes chunks ih =>
      rw [List.map_cons, receive_cons, List.flatten_cons, ← List.append_assoc]
      exact ih (h.data bytes)

/-- More of the picture, with the command to go on. -/
theorem Writing.goOn (h : p.Writing columns rows picture) (bytes : List UInt8) :
    (p.receive [.command 0x3C, .data bytes]).Writing columns rows (picture ++ bytes) := by
  obtain ⟨_, rfl, rfl, rfl⟩ := h
  refine ⟨Or.inr rfl, ?_, ?_, ?_⟩ <;> simp +decide [step]

end Panel

end Embedded
