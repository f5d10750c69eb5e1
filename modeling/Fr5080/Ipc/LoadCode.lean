import Mathlib.Algebra.Ring.Int.Defs
import Fr5080.Embedded.Forward
import Fr5080.Embedded.Word
import Fr5080.Ipc.Run

/-!
# Fr5080.Ipc.LoadCode

The receive side of the boot code (`app_ipc.c` of `fr5080_basic_xip`):
`app_ipc_rx` copies the code of an `IPC_MSG_LOAD_CODE` message word by word to
the address in the message and answers `IPC_MSG_LOAD_CODE_DONE`.

The memory is one array of words, since the code may go anywhere, also over the
payload it comes from.  A word access to an address that is not a multiple of
four faults.  `writes` is a history variable.

The number of words is `(msg->length - 4) >> 2`: the bit-field is promoted to
`int`, so a message shorter than the destination address gives `-1`, which is
stored as `0xFFFFFFFF`.
-/

namespace Fr5080

open Embedded

/-! ## the code -/

/-- The driver and the memory; `user_func_entry` is the code to be executed. -/
structure LoadSys where
  ipc : Ipc
  mem : UInt32 → UInt32
  userFuncEntry : UInt32
  /-- the words that `app_ipc_rx` has written, oldest first -/
  writes : List (UInt32 × UInt32)

/-- `channel = ipc_alloc_channel(0); ipc_insert_msg(channel, msg, 0, callback);` -/
def ipcNotify (msg : IpcMsgType) (callback : Option IpcTxCallback) (s : Ipc) : Option Ipc :=
  let (channel, s) := ipcAllocChannel 0 s
  ipcInsertMsgUnchecked s.nextTicket channel msg.code 0 callback
    (s.submit ⟨.direct, msg.code, 0, 0, [], callback⟩)

/-- `for(i=0; i<length; i++) *dst++ = *src++;` -/
def loadCodeLoop : Nat → UInt32 → UInt32 → LoadSys → Option LoadSys
  | 0, _, _, s => some s
  | length + 1, dst, src, s =>
      if dst % 4 = 0 ∧ src % 4 = 0 then
        loadCodeLoop length (dst + 4) (src + 4)
          { s with
            mem := Function.update s.mem dst (s.mem src)
            writes := s.writes ++ [(dst, s.mem src)] }
      else none

/-- `(msg->length - 4) >> 2`, an `int` that is stored in `length`. -/
def loadCodeLength (length : Nat) : UInt32 :=
  UInt32.ofInt (((length : Int) - 4) >>> (2 : Nat))

/-- `ipc_get_buffer_offset(IPC_DIR_MCU2DSP, msg->tog)`. -/
def ipcMsgBuffer (msg : IpcMsg) : UInt32 := UInt32.ofNat (ipcGetBufferOffset .mcu2dsp msg.tog)

/-- `case IPC_MSG_LOAD_CODE`. -/
def appIpcRxLoadCode (msg : IpcMsg) (s : LoadSys) : Option LoadSys :=
  let loadCode := ipcMsgBuffer msg
  let length := loadCodeLength msg.length
  let dst := s.mem loadCode
  let src := loadCode + 4
  (loadCodeLoop length.toNat dst src s).bind fun s =>
    (ipcNotify .loadCodeDone none s.ipc).map fun ipc => { s with ipc := ipc }

/-- `ipc_clear_msg`. -/
def ipcClearMsg (chn : Nat) (s : Ipc) : Ipc :=
  { s with msgIn := Function.update s.msgIn chn { s.msgIn chn with tag := 0 } }

/-- `app_ipc_rx`; `userIpcRx` is the handler of the application. -/
def appIpcRx (userIpcRx : Option (IpcMsg → Nat → LoadSys → Option LoadSys)) (msg : IpcMsg)
    (chn : Nat) (s : LoadSys) : Option LoadSys :=
  let handled :=
    if msg.format = IpcMsgType.loadCode.code.toNat then appIpcRxLoadCode msg s
    else if msg.format = IpcMsgType.execUserCode.code.toNat then
      some { s with userFuncEntry := s.mem (s.mem (ipcMsgBuffer msg)) }
    else match userIpcRx with
      | some userIpcRx => userIpcRx msg chn s
      | none => some s
  handled.map fun s => { s with ipc := ipcClearMsg chn s.ipc }

/-- An `IPC_MSG_LOAD_CODE` message with the fields of the register. -/
def loadCodeMsg (length : BitVec 10) (tog : BitVec 1) : IpcMsg :=
  ⟨length.toNat, IpcMsgType.loadCode.code.toNat, tog.toNat, 1⟩

/-! ## the loop -/

/-- Word `i` from an address on. -/
def wordAddr (a : UInt32) (i : Nat) : UInt32 := a + 4 * UInt32.ofNat i

@[simp] theorem wordAddr_zero (a : UInt32) : wordAddr a 0 = a := by simp [wordAddr]

theorem toNat_wordAddr (a : UInt32) (i : Nat) :
    (wordAddr a i).toNat = (a.toNat + 4 * i) % 2 ^ 32 := by
  simp [wordAddr, UInt32.toNat_add, UInt32.toNat_mul]

theorem wordAddr_add_four (a : UInt32) (i : Nat) : wordAddr a i + 4 = wordAddr a (i + 1) := by
  rw [← UInt32.toNat_inj, UInt32.toNat_add, toNat_wordAddr, toNat_wordAddr]
  show (_ % 2 ^ 32 + 4) % 2 ^ 32 = _
  omega

/-- As far as a message reaches, word numbers count through different addresses. -/
theorem wordAddr_inj {a : UInt32} {i j : Nat} (hi : i < 2 ^ 30) (hj : j < 2 ^ 30)
    (h : wordAddr a i = wordAddr a j) : i = j := by
  have hnat := congrArg UInt32.toNat h
  rw [toNat_wordAddr, toNat_wordAddr] at hnat
  omega

theorem mod_four_eq_zero_iff (a : UInt32) : a % 4 = 0 ↔ a.toNat % 4 = 0 := by
  rw [← UInt32.toNat_inj, UInt32.toNat_mod]
  rfl

/-- Words of an aligned address are aligned. -/
theorem wordAddr_aligned {a : UInt32} (h : a % 4 = 0) (i : Nat) : wordAddr a i % 4 = 0 := by
  rw [mod_four_eq_zero_iff] at h ⊢
  rw [toNat_wordAddr]
  omega

/-- A faultless loop is a forward copy. -/
theorem loadCodeLoop_eq {dst src : UInt32} (hdst : dst % 4 = 0) (hsrc : src % 4 = 0)
    (m : UInt32 → UInt32) (n i : Nat) (s : LoadSys)
    (hmem : s.mem = copyForward (wordAddr dst) (wordAddr src) m i) :
    loadCodeLoop n (wordAddr dst i) (wordAddr src i) s = some { s with
      mem := copyForward (wordAddr dst) (wordAddr src) m (i + n)
      writes := s.writes ++ (List.range' i n).map fun j =>
        (wordAddr dst j, readForward (wordAddr dst) (wordAddr src) m j) } := by
  induction n generalizing i s with
  | zero => simp [loadCodeLoop, ← hmem]
  | succ n ih =>
      have hread : s.mem (wordAddr src i) = readForward (wordAddr dst) (wordAddr src) m i := by
        rw [hmem]
        rfl
      rw [loadCodeLoop, if_pos ⟨wordAddr_aligned hdst i, wordAddr_aligned hsrc i⟩,
        wordAddr_add_four, wordAddr_add_four, ih (i + 1)]
      · simp [hread, List.range'_succ, Nat.add_comm, Nat.add_left_comm]
      · simp only [hread, copyForward_succ, hmem]

/-- A word address that is not aligned faults at once. -/
theorem loadCodeLoop_unaligned {dst src : UInt32} (hdst : dst % 4 ≠ 0) {n : Nat} (hn : n ≠ 0)
    (s : LoadSys) : loadCodeLoop n dst src s = none := by
  cases n with
  | zero => exact absurd rfl hn
  | succ n => rw [loadCodeLoop, if_neg fun h => hdst h.1]

/-- The loop of a message: without words it does not look at its addresses. -/
theorem loadCodeLoop_message {dst src : UInt32} {n : Nat} (hdst : n ≠ 0 → dst % 4 = 0)
    (hsrc : src % 4 = 0) (s : LoadSys) :
    loadCodeLoop n dst src s = some { s with
      mem := copyForward (wordAddr dst) (wordAddr src) s.mem n
      writes := s.writes ++ (List.range n).map fun j =>
        (wordAddr dst j, readForward (wordAddr dst) (wordAddr src) s.mem j) } := by
  by_cases hn : n = 0
  · simp [hn, loadCodeLoop]
  · have hloop := loadCodeLoop_eq (hdst hn) hsrc s.mem n 0 s rfl
    simpa [List.range_eq_range'] using hloop

/-- Each round writes a word. -/
theorem length_writes_loadCodeLoop {n : Nat} {dst src : UInt32} {s s' : LoadSys}
    (h : loadCodeLoop n dst src s = some s') : s'.writes.length = s.writes.length + n := by
  induction n generalizing dst src s with
  | zero =>
      cases h
      rfl
  | succ n ih =>
      rw [loadCodeLoop] at h
      split at h
      · rw [ih h]
        simp
        omega
      · cases h

/-! ## the length -/

theorem toNat_loadCodeLength (length : Nat) :
    (loadCodeLength length).toNat = ((((length : Int) - 4) / 4) % 2 ^ 32).toNat :=
  toNat_ofInt_words _

/-- The words of a message that has a destination. -/
theorem toNat_loadCodeLength_of_le {length : Nat} (hlt : length < 2 ^ 10) (h : 4 ≤ length) :
    (loadCodeLength length).toNat = (length - 4) / 4 := by
  rw [toNat_loadCodeLength]
  omega

/-- A shorter message is copied as long as the counter counts. -/
theorem toNat_loadCodeLength_of_lt {length : Nat} (h : length < 4) :
    (loadCodeLength length).toNat = 2 ^ 32 - 1 := by
  rw [toNat_loadCodeLength]
  omega

/-! ## loading -/

/-- `load_code->dest`. -/
def LoadSys.dest (msg : IpcMsg) (s : LoadSys) : UInt32 := s.mem (ipcMsgBuffer msg)

/-- `load_code->data[i]`. -/
def LoadSys.data (msg : IpcMsg) (s : LoadSys) (i : Nat) : UInt32 :=
  s.mem (wordAddr (ipcMsgBuffer msg + 4) i)

/-- The words of the payload. -/
def IpcMsg.codeWords (msg : IpcMsg) : Nat := (msg.length - 4) / 4

/-- The code of the message is at its destination, nothing else is written, and one
`LOAD_CODE_DONE` is on a channel that was available. -/
structure CodeLoaded (msg : IpcMsg) (s s' : LoadSys) : Prop where
  writes : s'.writes = s.writes ++
    (List.range msg.codeWords).map fun i => (wordAddr (s.dest msg) i, s.data msg i)
  loaded : ∀ i < msg.codeWords, s'.mem (wordAddr (s.dest msg) i) = s.data msg i
  kept : ∀ a, (∀ i < msg.codeWords, wordAddr (s.dest msg) i ≠ a) → s'.mem a = s.mem a
  done : ∃ c < ipcChannels, s.ipc.availableBuffer.getLsbD c = true ∧
    s'.ipc.log.sent = s.ipc.log.sent ++ [⟨s.ipc.nextTicket, c,
      ipcMsgWord c IpcMsgType.loadCodeDone.code 0, s.ipc.shm, s.ipc.log.flight c⟩]

/-- What `app_ipc_rx` does not check: that there is a destination and a channel, that the
destination is a word address, and that the words written over payload words still to be
read are equal to them. -/
structure Loadable (msg : IpcMsg) (s : LoadSys) : Prop where
  long : 4 ≤ msg.length
  channel : s.ipc.SomeAvailable
  aligned : msg.codeWords ≠ 0 → s.dest msg % 4 = 0
  inOrder : ∀ k j, k < j → j < msg.codeWords →
    wordAddr (s.dest msg) k = wordAddr (ipcMsgBuffer msg + 4) j → s.data msg j = s.data msg k

/-- `app_ipc_rx` on a code message. -/
theorem appIpcRx_loadCode (userIpcRx : Option (IpcMsg → Nat → LoadSys → Option LoadSys))
    (length : BitVec 10) (tog : BitVec 1) (chn : Nat) (s : LoadSys) :
    appIpcRx userIpcRx (loadCodeMsg length tog) chn s =
      (loadCodeLoop (loadCodeLength length.toNat).toNat (s.dest (loadCodeMsg length tog))
        (ipcMsgBuffer (loadCodeMsg length tog) + 4) s).bind fun s =>
          (ipcNotify .loadCodeDone none s.ipc).map fun ipc =>
            { s with ipc := ipcClearMsg chn ipc } := by
  have hformat : (loadCodeMsg length tog).format = IpcMsgType.loadCode.code.toNat := rfl
  simp only [appIpcRx, hformat, if_true, appIpcRxLoadCode, Option.map_bind, LoadSys.dest]
  refine congrArg (Option.bind _) (funext fun s => ?_)
  exact Option.map_map ..

/-- A message goes to an available channel; without one the stores are out of bounds. -/
theorem ipcNotify_cases (msg : IpcMsgType) (callback : Option IpcTxCallback) (s : Ipc) :
    (s.SomeAvailable ∧ ∃ c < ipcChannels, s.availableBuffer.getLsbD c = true ∧
      ipcNotify msg callback s = some (ipcInsertMsg s.nextTicket c msg.code 0 callback
        (Ipc.submit ⟨.direct, msg.code, 0, 0, [], callback⟩
          { s with availableBuffer := s.availableBuffer &&& ~~~(1#8 <<< c) }))) ∨
      (¬ s.SomeAvailable ∧ ipcNotify msg callback s = none) := by
  obtain ⟨hsome, c, hc, hbit, heq⟩ | ⟨hnone, heq⟩ := ipcAllocChannel_command s
  · refine Or.inl ⟨hsome, c, hc, hbit, ?_⟩
    simp only [ipcNotify, heq, ipcInsertMsgUnchecked, if_pos hc]
    rfl
  · refine Or.inr ⟨hnone, ?_⟩
    simp only [ipcNotify, heq]
    rfl

/-- A message that is sent at once is the last one on its channel. -/
theorem sent_ipcNotify {msg : IpcMsgType} {callback : Option IpcTxCallback} {s s' : Ipc}
    (h : ipcNotify msg callback s = some s') (chn : Nat) :
    ∃ c < ipcChannels, s.availableBuffer.getLsbD c = true ∧
      (ipcClearMsg chn s').log.sent = s.log.sent ++
        [⟨s.nextTicket, c, ipcMsgWord c msg.code 0, s.shm, s.log.flight c⟩] := by
  obtain ⟨-, c, hc, hbit, heq⟩ | ⟨-, heq⟩ := ipcNotify_cases msg callback s
  · cases heq.symm.trans h
    exact ⟨c, hc, hbit, rfl⟩
  · cases heq.symm.trans h

/-- A message that is loaded has been counted right. -/
theorem CodeLoaded.length_eq {userIpcRx : Option (IpcMsg → Nat → LoadSys → Option LoadSys)}
    {length : BitVec 10} {tog : BitVec 1} {chn : Nat} {s s' : LoadSys}
    (h : CodeLoaded (loadCodeMsg length tog) s s')
    (hrx : appIpcRx userIpcRx (loadCodeMsg length tog) chn s = some s') :
    (loadCodeLength length.toNat).toNat = (length.toNat - 4) / 4 := by
  rw [appIpcRx_loadCode] at hrx
  obtain ⟨s1, hloop, hnotify⟩ := Option.bind_eq_some_iff.mp hrx
  obtain ⟨ipc, -, rfl⟩ := Option.map_eq_some_iff.mp hnotify
  have hrounds := length_writes_loadCodeLoop hloop
  have hwords := congrArg List.length h.writes
  have hcode : (loadCodeMsg length tog).codeWords = (length.toNat - 4) / 4 := rfl
  simp only [List.length_append, List.length_map, List.length_range, hcode] at hwords
  omega

/-- A message without a destination is not loaded. -/
theorem not_codeLoaded_of_short {userIpcRx : Option (IpcMsg → Nat → LoadSys → Option LoadSys)}
    {length : BitVec 10} {tog : BitVec 1} {chn : Nat} {s s' : LoadSys} (hshort : length.toNat < 4)
    (hrx : appIpcRx userIpcRx (loadCodeMsg length tog) chn s = some s') :
    ¬ CodeLoaded (loadCodeMsg length tog) s s' := by
  intro h
  have hcount := h.length_eq hrx
  rw [toNat_loadCodeLength_of_lt hshort] at hcount
  omega

theorem ipcMsgBuffer_aligned (length : BitVec 10) (tog : BitVec 1) :
    (ipcMsgBuffer (loadCodeMsg length tog) + 4) % 4 = 0 := by
  have hbits : ∀ tog : BitVec 1,
      (UInt32.ofNat (ipcGetBufferOffset .mcu2dsp tog.toNat) + 4) % 4 = 0 := by decide
  exact hbits tog

/-- The words of a message have different addresses at the destination. -/
theorem destAddr_inj (length : BitVec 10) (tog : BitVec 1) (dst : UInt32) :
    ∀ i < (loadCodeMsg length tog).codeWords, ∀ j < (loadCodeMsg length tog).codeWords,
      wordAddr dst i = wordAddr dst j → i = j := by
  have hlt : length.toNat < 2 ^ 10 := length.isLt
  have hle : (loadCodeMsg length tog).codeWords ≤ length.toNat :=
    Nat.le_trans (Nat.div_le_self _ _) (Nat.sub_le _ _)
  exact fun i hi j hj => wordAddr_inj (by omega) (by omega)

/-- A message that was copied forward and answered is loaded if the words were in order. -/
theorem codeLoaded_copied_iff {msg : IpcMsg} {s : LoadSys} {ipc : Ipc} (chn : Nat)
    (hlong : 4 ≤ msg.length) (hdst : msg.codeWords ≠ 0 → s.dest msg % 4 = 0)
    (hinj : ∀ i < msg.codeWords, ∀ j < msg.codeWords,
      wordAddr (s.dest msg) i = wordAddr (s.dest msg) j → i = j)
    (hnotify : ipcNotify .loadCodeDone none s.ipc = some ipc) :
    CodeLoaded msg s { s with
      ipc := ipcClearMsg chn ipc
      mem := copyForward (wordAddr (s.dest msg)) (wordAddr (ipcMsgBuffer msg + 4)) s.mem
        msg.codeWords
      writes := s.writes ++ (List.range msg.codeWords).map fun j =>
        (wordAddr (s.dest msg) j,
          readForward (wordAddr (s.dest msg)) (wordAddr (ipcMsgBuffer msg + 4)) s.mem j) } ↔
      Loadable msg s := by
  constructor
  · intro hloaded
    have hwrites := List.append_cancel_left hloaded.writes
    obtain ⟨c, hc, hbit, -⟩ := hloaded.done
    refine ⟨hlong, ⟨c, hc, hbit⟩, hdst, ?_⟩
    refine (readForward_eq_iff hinj).mp fun i hi => ?_
    have hpair := List.map_inj_left.mp hwrites i (List.mem_range.mpr hi)
    exact congrArg Prod.snd hpair
  · intro h
    have hread := (readForward_eq_iff hinj).mpr h.inOrder
    refine ⟨?_, ?_, ?_, sent_ipcNotify hnotify chn⟩
    · refine congrArg (s.writes ++ ·) (List.map_congr_left fun i hi => ?_)
      exact congrArg _ (hread i (List.mem_range.mp hi))
    · exact fun i hi => (copyForward_dst hinj hi).trans (hread i hi)
    · exact fun a ha => copyForward_of_ne ha

/-- **Loading**: a code message of any length is loaded and acknowledged exactly when it meets
the conditions that `app_ipc_rx` does not check. -/
theorem load_code_iff (userIpcRx : Option (IpcMsg → Nat → LoadSys → Option LoadSys))
    (length : BitVec 10) (tog : BitVec 1) (chn : Nat) (s : LoadSys) :
    (∃ s', appIpcRx userIpcRx (loadCodeMsg length tog) chn s = some s' ∧
      CodeLoaded (loadCodeMsg length tog) s s') ↔ Loadable (loadCodeMsg length tog) s := by
  have hlt : length.toNat < 2 ^ 10 := length.isLt
  by_cases hshort : length.toNat < 4
  · refine iff_of_false ?_ fun h => Nat.not_le.mpr hshort h.long
    rintro ⟨s', hrx, hloaded⟩
    exact not_codeLoaded_of_short hshort hrx hloaded
  have hlong : 4 ≤ length.toNat := Nat.not_lt.mp hshort
  have hcount : (loadCodeLength length.toNat).toNat = (loadCodeMsg length tog).codeWords :=
    toNat_loadCodeLength_of_le hlt hlong
  rw [appIpcRx_loadCode, hcount]
  by_cases hdst : (loadCodeMsg length tog).codeWords ≠ 0 → s.dest (loadCodeMsg length tog) % 4 = 0
  · rw [loadCodeLoop_message hdst (ipcMsgBuffer_aligned length tog), Option.bind_some]
    obtain ⟨-, c, -, -, heq⟩ | ⟨hnone, heq⟩ := ipcNotify_cases .loadCodeDone none s.ipc
    · rw [← codeLoaded_copied_iff chn hlong hdst (destAddr_inj length tog _) heq]
      simp only [heq, Option.map_some]
      constructor
      · rintro ⟨s', hs', hloaded⟩
        cases hs'
        exact hloaded
      · exact fun hloaded => ⟨_, rfl, hloaded⟩
    · simp only [heq, Option.map_none]
      exact iff_of_false (by simp) fun h => hnone h.channel
  · obtain ⟨hne, hdst⟩ := Classical.not_imp.mp hdst
    rw [loadCodeLoop_unaligned hdst hne, Option.bind_none]
    exact iff_of_false (by simp) fun h => hdst (h.aligned hne)

/-- A DSP that has just started, with `0x20000` in every word. -/
def LoadSys.started : LoadSys :=
  ⟨(ipcStart (fun _ => 0) (fun _ => 0) fun _ => ⟨0, 0, 0, 0⟩).ipc, fun _ => 0x20000, 0, []⟩

/-- An empty message is not loaded; and after four messages that the MCU has not completed, the
answer to one of eight bytes is not on a channel. -/
theorem load_code_unchecked :
    (¬ ∃ s', appIpcRx none (loadCodeMsg 0 0) 0 .started = some s' ∧
      CodeLoaded (loadCodeMsg 0 0) .started s') ∧
    ∃ t, run ipcStep (ipcStart (fun _ => 0) (fun _ => 0) fun _ => ⟨0, 0, 0, 0⟩)
        (List.replicate 4 (.msgSend .rawBufferSpace 1 none)) = some t ∧
      ¬ ∃ s', appIpcRx none (loadCodeMsg 8 0) 0 ⟨t.ipc, fun _ => 0x20000, 0, []⟩ = some s' ∧
        CodeLoaded (loadCodeMsg 8 0) ⟨t.ipc, fun _ => 0x20000, 0, []⟩ s' := by
  constructor
  · rintro ⟨s', hrx, hloaded⟩
    exact not_codeLoaded_of_short (by decide) hrx hloaded
  · have hview : (run ipcStep (ipcStart (fun _ => 0) (fun _ => 0) fun _ => ⟨0, 0, 0, 0⟩)
        (List.replicate 4 (.msgSend .rawBufferSpace 1 none))).map
          (fun t => t.ipc.availableBuffer) = some 0 := by decide +kernel
    obtain ⟨t, hrun, havail⟩ := Option.map_eq_some_iff.mp hview
    refine ⟨t, hrun, ?_⟩
    rintro ⟨s', _, hloaded⟩
    obtain ⟨c, _, hbit, _⟩ := hloaded.done
    simp [havail] at hbit

end Fr5080
