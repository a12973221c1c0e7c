import ShedKernel.Console.FormatProperties
import ShedKernel.Editor.CommandBuffer
import ShedKernel.Editor.QuitProperties

/-! Commands typed after a colon: which of them keep `editorExecCommand` inside its two
buffers. -/

set_option autoImplicit false

namespace ShedKernel.Editor

open Foundation FileSystem Console

/-! The stores. -/

section Stores

variable {cmdbuf : Memory} {tmp : TmpBuffer} {index count : Nat} {bytes : List UInt8}

private theorem storeEach_cmdbuf (fits : index + bytes.length ≤ cmdbufSize) :
    storeEach storeCmdbuf cmdbuf index bytes = .ok (cmdbuf.storeBytes index bytes) := by
  induction bytes generalizing cmdbuf index with
  | nil => rfl
  | cons byte rest ih =>
    rw [List.length_cons] at fits
    have stored : storeCmdbuf cmdbuf index byte = _ := if_pos (by omega)
    simp only [storeEach, stored, bind, Except.bind]
    exact ih (by omega)

/-- The bytes that are stored, and those that are left. -/
def overlay (tmp : TmpBuffer) (index : Nat) (bytes : List UInt8) : TmpBuffer :=
  fun place => if index ≤ place ∧ place < index + bytes.length then some (bytes.getD (place - index) 0)
    else tmp place

private theorem storeEach_tmp (fits : index + bytes.length ≤ cmdbufSize) :
    storeEach storeTmp tmp index bytes = .ok (overlay tmp index bytes) := by
  induction bytes generalizing tmp index with
  | nil =>
    have same : overlay tmp index [] = tmp := by
      funext place
      exact if_neg (by simp)
    rw [same]
    rfl
  | cons byte rest ih =>
    rw [List.length_cons] at fits
    have stored : storeTmp tmp index byte = _ := if_pos (by omega)
    simp only [storeEach, stored, bind, Except.bind]
    rw [ih (by omega)]
    congr 1
    funext place
    unfold overlay
    rw [List.length_cons]
    by_cases first : place = index
    · subst first
      rw [if_neg (by omega), if_pos (by omega), Function.update_self, Nat.sub_self]
      rfl
    by_cases later : index + 1 ≤ place ∧ place < index + 1 + rest.length
    · obtain ⟨next, rfl⟩ := Nat.exists_eq_add_of_le later.1
      rw [if_pos later, if_pos (by omega), Nat.add_sub_cancel_left, Nat.add_assoc, Nat.add_sub_cancel_left,
        Nat.add_comm 1]
      rfl
    · rw [if_neg later, if_neg (by omega), Function.update_of_ne first]

private theorem storeEach_tmp_fault (overflow : cmdbufSize < index + bytes.length) (inside : index ≤ cmdbufSize) :
    storeEach storeTmp tmp index bytes = .error (.outsideTmp cmdbufSize) := by
  induction bytes generalizing tmp index with
  | nil =>
    simp only [List.length_nil] at overflow
    omega
  | cons byte rest ih =>
    rw [List.length_cons] at overflow
    by_cases last : index = cmdbufSize
    · subst last
      have refused : storeTmp tmp cmdbufSize byte = _ := if_neg (Nat.lt_irrefl _)
      simp only [storeEach, refused, bind, Except.bind]
    · have stored : storeTmp tmp index byte = _ := if_pos (by omega)
      simp only [storeEach, stored, bind, Except.bind]
      exact ih (by omega) (by omega)

/-- The copy needs every byte of `tmp` up to its end. -/
theorem copyTmp_ok {source : Nat → UInt8} (fits : count ≤ cmdbufSize)
    (initialised : ∀ place, place < count → tmp place = some (source place)) :
    copyTmp tmp cmdbuf count = .ok (cmdbuf.blit 0 source count) := by
  induction count with
  | zero =>
    have same : cmdbuf.blit 0 source 0 = cmdbuf := by
      funext place
      exact Memory.blit_of_outside (.inr (Nat.zero_le _))
    rw [same]
    rfl
  | succ count ih =>
    have earlier := ih (Nat.le_of_succ_le fits) fun place inside =>
      initialised place (Nat.lt_succ_of_lt inside)
    have stored : storeCmdbuf (cmdbuf.blit 0 source count) count (source count) = _ := if_pos fits
    simp only [copyTmp, earlier, bind, Except.bind, initialised count (Nat.lt_succ_self count), stored]
    apply congrArg
    funext place
    by_cases last : place = count
    · subst last
      have inside := @Memory.blit_of_inside cmdbuf 0 (place + 1) place source (Nat.lt_succ_self place)
      rw [Nat.zero_add] at inside
      rw [Memory.storeByte_self, inside]
    · rw [Memory.storeByte_of_ne last]
      unfold Memory.blit
      exact if_congr (by omega) rfl rfl

private theorem copyTmp_fault {place : Nat} (uninitialised : tmp place = none) (inside : place < count) :
    ∃ fault, copyTmp tmp cmdbuf count = .error fault := by
  induction count with
  | zero => cases inside
  | succ count ih =>
    simp only [copyTmp]
    by_cases last : place = count
    · subst last
      cases copyTmp tmp cmdbuf place with
      | error fault => exact ⟨fault, rfl⟩
      | ok cmdbuf => exact ⟨.uninitialised place, by simp only [bind, Except.bind, uninitialised]; rfl⟩
    · obtain ⟨fault, stopped⟩ := ih (by omega)
      exact ⟨fault, by rw [stopped]; rfl⟩

end Stores

/-! The messages. -/

/-- What stands on the command line after an unknown command. -/
def unknownMessage (E : EditorConfig) : List UInt8 := ascii "Not an editor command: " ++ commandText E

private theorem formatted_unknown (E : EditorConfig) :
    formatted "Not an editor command: %s" [.string (commandString E)] = unknownMessage E := by
  have written : ksprintf (ascii "Not an editor command: %s") [.string (commandString E)] =
      some (ascii "Not an editor command: " ++ (commandText E ++ [])) := rfl
  rw [formatted, written, List.append_nil]
  rfl

private theorem formatted_unsaved :
    formatted "No write since last change (use :q!)" [] = ascii "No write since last change (use :q!)" := by
  decide

/-- `E.cmdbuf` after the copy of a message. -/
def copiedMessage (E : EditorConfig) : Memory :=
  (E.cmdbuf.blit 0 (fun index => (unknownMessage E ++ [0]).getD index 0) 79).storeByte 79 0

/-- A message fits into `tmp` and fills what is copied at two lengths only. -/
theorem reportUnknown_ok {E : EditorConfig}
    (fits : (unknownMessage E).length = 78 ∨ (unknownMessage E).length = 79) :
    reportUnknown E = .ok (copiedMessage E) := by
  have length : (unknownMessage E ++ [0]).length = (unknownMessage E).length + 1 := List.length_append
  have filled : storeEach storeTmp (fun _ => none) 0 (unknownMessage E ++ [0]) = _ :=
    storeEach_tmp (by unfold cmdbufSize; omega)
  have initialised : ∀ place, place < 79 →
      overlay (fun _ => none) 0 (unknownMessage E ++ [0]) place =
        some ((unknownMessage E ++ [0]).getD place 0) :=
    fun place inside => if_pos ⟨Nat.zero_le _, by omega⟩
  have copied : copyTmp _ E.cmdbuf 79 = _ := copyTmp_ok (by decide) initialised
  simp only [reportUnknown, formatted_unknown, filled, copied, bind, Except.bind]
  rfl

private theorem reportUnknown_fault {E : EditorConfig}
    (unfit : ¬((unknownMessage E).length = 78 ∨ (unknownMessage E).length = 79)) :
    ∃ fault, reportUnknown E = .error fault := by
  have length : (unknownMessage E ++ [0]).length = (unknownMessage E).length + 1 := List.length_append
  by_cases overflow : 79 < (unknownMessage E).length
  · have stopped : storeEach storeTmp (fun _ => none) 0 (unknownMessage E ++ [0]) = _ :=
      storeEach_tmp_fault (by unfold cmdbufSize; omega) (Nat.zero_le _)
    exact ⟨.outsideTmp cmdbufSize, by
      simp only [reportUnknown, formatted_unknown, stopped, bind, Except.bind]⟩
  · have filled : storeEach storeTmp (fun _ => none) 0 (unknownMessage E ++ [0]) = _ :=
      storeEach_tmp (by unfold cmdbufSize; omega)
    have short : overlay (fun _ => none) 0 (unknownMessage E ++ [0]) 78 = none := if_neg (by omega)
    obtain ⟨fault, stopped⟩ := @copyTmp_fault E.cmdbuf _ 79 78 short (by decide)
    exact ⟨fault, by simp only [reportUnknown, formatted_unknown, filled, stopped, bind, Except.bind]⟩

/-! The checked stores against the unchecked ones. -/

section Refinement

variable {s next : EditorSession} {stack : Memory}

private theorem storeCmdbuf_eq {cmdbuf stored : Memory} {index : Nat} {byte : UInt8}
    (ran : storeCmdbuf cmdbuf index byte = .ok stored) : stored = cmdbuf.storeByte index byte := by
  unfold storeCmdbuf at ran
  split at ran
  · exact (Except.ok.inj ran).symm
  · cases ran

/-- Once nothing uninitialised is copied, `tmp` does not depend on the stack. -/
theorem copiedMessage_eq {E : EditorConfig} (stack : Memory) (filled : 78 ≤ (unknownMessage E).length) :
    (E.cmdbuf.blit 0 (ksprintfString stack (unknownMessage E)) 79).storeByte 79 0 = copiedMessage E := by
  have length : (unknownMessage E ++ [0]).length = (unknownMessage E).length + 1 := List.length_append
  unfold copiedMessage
  congr 1
  apply Memory.blit_congr
  intro index inside
  have stored := @Memory.storeBytes_of_inside stack 0 index (unknownMessage E ++ [0]) (by omega)
  rwa [Nat.zero_add] at stored

/-- What the checked command does, the command does. -/
theorem checkedExecCommand_sound {quit : Bool} (ran : checkedExecCommand s stack = .ok (quit, next)) :
    editorExecCommand s stack = .ok (quit, next) := by
  unfold checkedExecCommand at ran
  unfold editorExecCommand
  dsimp only at ran ⊢
  split at ran
  · next command =>
    rw [if_pos command]
    split at ran
    · next unsaved =>
      rw [if_pos unsaved]
      obtain ⟨cmdbuf, stored, done⟩ := ok_of_bind ran
      rw [formatted_unsaved, storeEach_cmdbuf (by decide)] at stored
      cases stored
      cases done
      rfl
    · next saved =>
      rw [if_neg saved]
      cases ran
      rfl
  next notQuit =>
  rw [if_neg notQuit]
  split at ran
  · next command =>
    rw [if_pos command]
    cases ran
    rfl
  next notForced =>
  rw [if_neg notForced]
  split at ran
  · next command =>
    rw [if_pos command]
    cases ran
    rfl
  next notWrite =>
  rw [if_neg notWrite]
  split at ran
  · next command =>
    rw [if_pos command]
    cases ran
    rfl
  next notBoth =>
  rw [if_neg notBoth]
  obtain ⟨cmdbuf, reported, done⟩ := ok_of_bind ran
  by_cases fits : (unknownMessage s.E).length = 78 ∨ (unknownMessage s.E).length = 79
  · rw [reportUnknown_ok fits] at reported
    cases reported
    have message := copiedMessage_eq stack (show 78 ≤ (unknownMessage s.E).length by omega)
    have room : ¬80 < (unknownMessage s.E).length + 1 := by omega
    cases done
    unfold unknownMessage at message room
    rw [if_neg room, message]
    rfl
  · obtain ⟨fault, stopped⟩ := reportUnknown_fault fits
    cases stopped.symm.trans reported

private theorem checkedKeypress_sound {c : Int} (ran : checkedKeypress s c stack = .ok next) :
    commandKeypress s c stack = .ok next := by
  unfold checkedKeypress at ran
  unfold commandKeypress
  split at ran
  · next escape =>
    obtain ⟨cmdbuf, stored, done⟩ := ok_of_bind ran
    rw [if_pos escape, ← storeCmdbuf_eq stored]
    cases done
    rfl
  next notEscape =>
  rw [if_neg notEscape]
  split at ran
  · next enter =>
    obtain ⟨cmdbuf, stored, executed⟩ := ok_of_bind ran
    obtain ⟨⟨quit, entered⟩, result, done⟩ := ok_of_bind executed
    rw [if_pos enter, ← storeCmdbuf_eq stored]
    simp only [checkedExecCommand_sound result, bind, Except.bind]
    cases quit with
    | true =>
      cases done
      rfl
    | false =>
      cases done
      rfl
  next notEnter =>
  rw [if_neg notEnter]
  split at ran
  · next erase =>
    rw [if_pos erase]
    split at ran
    · next some =>
      obtain ⟨cmdbuf, stored, done⟩ := ok_of_bind ran
      rw [if_pos some, ← storeCmdbuf_eq stored]
      cases done
      rfl
    · next none =>
      rw [if_neg none]
      cases ran
      rfl
  next notErase =>
  rw [if_neg notErase]
  split at ran
  · next printable =>
    obtain ⟨first, stored, rest⟩ := ok_of_bind ran
    obtain ⟨second, terminated, done⟩ := ok_of_bind rest
    rw [if_pos printable, ← storeCmdbuf_eq stored, ← storeCmdbuf_eq terminated]
    cases done
    rfl
  · next other =>
    rw [if_neg other]
    cases ran
    rfl

end Refinement

/-! Typing a command. -/

/-- The command line after one more key. -/
def typeKey (text : List UInt8) (c : Int) : List UInt8 :=
  if c = backspaceKey ∨ c = deleteKey then text.dropLast
  else if 32 ≤ c ∧ c < 127 ∧ text.length < 78 then text ++ [charOf c]
  else text

/-- `text` stands on the command line. -/
structure Entering (s : EditorSession) (text : List UInt8) : Prop where
  mode : s.E.mode = .command
  running : s.E.dirty ≠ -9999
  length : s.E.cmdlen = text.length
  short : text.length ≤ 78
  holds : s.E.cmdbuf.HoldsString 0 text

section Typing

variable {s next : EditorSession} {stack : Memory} {text : List UInt8} {c : Int}

private theorem storeCmdbuf_ok {cmdbuf : Memory} {index : Nat} {byte : UInt8} (inside : index < cmdbufSize) :
    storeCmdbuf cmdbuf index byte = .ok (cmdbuf.storeByte index byte) := if_pos inside

private theorem charOf_ne_zero (printable : 32 ≤ c ∧ c < 127) : charOf c ≠ 0 := by
  intro zero
  have value := congrArg UInt8.toNat zero
  rw [charOf, UInt8.toNat_ofNat', UInt8.toNat_zero] at value
  omega

/-- Every key but Escape and Enter stays inside `E.cmdbuf` and edits the command. -/
theorem Entering.key (entering : Entering s text) (notEscape : c ≠ escapeKey) (notEnter : c ≠ enterKey)
    (stack : Memory) : ∃ next, checkedKeypress s c stack = .ok next ∧ Entering next (typeKey text c) := by
  obtain ⟨mode, running, length, short, holds⟩ := entering
  unfold checkedKeypress typeKey
  rw [if_neg notEscape, if_neg notEnter]
  by_cases erase : c = backspaceKey ∨ c = deleteKey
  · rw [if_pos erase, if_pos erase]
    by_cases some : 0 < s.E.cmdlen
    · rw [if_pos some, storeCmdbuf_ok (by unfold cmdbufSize; omega)]
      refine ⟨_, rfl, mode, running, ?_, ?_, ?_⟩
      · rw [List.length_dropLast, ← length]
      · rw [List.length_dropLast]
        omega
      · have shortened := holds.dropLast (length ▸ some)
        rwa [Nat.zero_add, ← length] at shortened
    · have empty : text = [] := List.length_eq_zero_iff.mp (by omega)
      rw [if_neg some]
      exact ⟨s, rfl, mode, running, by rw [empty] at length ⊢; exact length, by rw [empty]; decide,
        by rw [empty] at holds ⊢; exact holds⟩
  rw [if_neg erase, if_neg erase]
  by_cases printable : 32 ≤ c ∧ c < 127 ∧ s.E.cmdlen < 78
  · rw [if_pos printable, if_pos (by rwa [← length]), storeCmdbuf_ok (by unfold cmdbufSize; omega)]
    simp only [bind, Except.bind]
    rw [storeCmdbuf_ok (by unfold cmdbufSize; omega)]
    refine ⟨_, rfl, mode, running, ?_, ?_, ?_⟩
    · rw [List.length_append, List.length_singleton, ← length]
    · rw [List.length_append, List.length_singleton]
      omega
    · have extended := holds.snoc (charOf_ne_zero ⟨printable.1, printable.2.1⟩)
      rwa [Nat.zero_add, ← length] at extended
  · rw [if_neg printable, if_neg (by rwa [← length])]
    exact ⟨s, rfl, mode, running, length, short, holds⟩

/-! Enter. -/

/-- The command line is a string inside its buffer, and `E.cmdlen` is its length. -/
def LineConsistent (E : EditorConfig) : Prop :=
  ∃ text, E.cmdbuf.HoldsString 0 text ∧ E.cmdlen = text.length ∧ text.length < cmdbufSize

/-- Enter stays inside both buffers, copies stored bytes only and leaves a proper line. -/
def CommandKept (s : EditorSession) (stack : Memory) : Prop :=
  ∃ next, checkedKeypress s enterKey stack = .ok next ∧ LineConsistent next.E

/-- A known command, or one of the two lengths at which the message fits. -/
def Fits (text : List UInt8) : Prop :=
  text ∈ [ascii "q", ascii "q!", ascii "w", ascii "wq"] ∨ text.length = 55 ∨ text.length = 56

instance (text : List UInt8) : Decidable (Fits text) := inferInstanceAs (Decidable (_ ∨ _))

private theorem setCommand_consistent {cmdbuf : Memory} (holds : cmdbuf.HoldsString 0 text)
    (short : text.length < cmdbufSize) : LineConsistent (setCommand s cmdbuf).E := by
  refine ⟨text, holds, ?_, short⟩
  have read : commandText { s.E with cmdbuf } = text :=
    holds.stringAt_eq (Nat.lt_trans short (by unfold cmdbufSize; omega))
  exact congrArg List.length read

private theorem editorSave_command (E : EditorConfig) (fs : FsState) (stack : Memory) :
    (editorSave E fs stack).1.cmdbuf = E.cmdbuf ∧ (editorSave E fs stack).1.cmdlen = E.cmdlen := by
  by_cases stores : SaveStores E fs
  · rw [editorSave_of_stores stores]
    exact ⟨rfl, rfl⟩
  · rw [editorSave_of_not_stores stores]
    exact ⟨rfl, rfl⟩

private theorem copiedMessage_holds {E : EditorConfig}
    (fits : (unknownMessage E).length = 78 ∨ (unknownMessage E).length = 79) :
    (copiedMessage E).HoldsString 0 (unknownMessage E) := by
  have byteAt : ∀ index, index < 79 →
      copiedMessage E (0 + index) = (unknownMessage E ++ [0]).getD index 0 := by
    intro index inside
    unfold copiedMessage
    rw [Memory.storeByte_of_ne (by omega), Memory.blit_of_inside inside]
  refine Memory.HoldsString.bytes_iff.mpr ⟨?_, fun index inside => ?_, ?_⟩
  · unfold unknownMessage
    rw [List.mem_append, not_or]
    exact ⟨by decide, (commandString E).terminated⟩
  · rw [byteAt index (by omega), List.getD_append _ _ _ _ inside]
  · by_cases last : (unknownMessage E).length = 79
    · rw [last]
      exact Memory.storeByte_self _ _ _
    · rw [byteAt _ (by omega), List.getD_append_right _ _ _ _ (Nat.le_refl _), Nat.sub_self]
      rfl

/-- The four commands and the message, on a line that holds `text`. -/
theorem checkedExecCommand_iff (holds : s.E.cmdbuf.HoldsString 0 text) (length : s.E.cmdlen = text.length)
    (short : text.length ≤ 78) (stack : Memory) :
    (∃ quit next, checkedExecCommand s stack = .ok (quit, next) ∧ LineConsistent next.E) ↔ Fits text := by
  have equal : ∀ command, 0 ∉ ascii command →
      (s.E.cmdbuf.strcmpEqual 0 (ascii command) = true ↔ text = ascii command) := by
    intro command proper
    rw [Memory.strcmpEqual_iff proper]
    exact ⟨fun same => holds.unique same, fun same => same ▸ holds⟩
  have unchanged : LineConsistent s.E := ⟨text, holds, length, by unfold cmdbufSize; omega⟩
  obtain ⟨sameBuffer, sameLength⟩ := editorSave_command s.E s.fs stack
  have saved : LineConsistent (editorSave s.E s.fs stack).1 :=
    ⟨text, sameBuffer ▸ holds, sameLength.trans length, by unfold cmdbufSize; omega⟩
  have read : commandText s.E = text := holds.stringAt_eq (by omega)
  unfold checkedExecCommand
  dsimp only
  simp only [equal "q" (by decide), equal "q!" (by decide), equal "w" (by decide), equal "wq" (by decide)]
  by_cases quits : text = ascii "q"
  · rw [if_pos quits]
    refine iff_of_true ?_ (.inl (by simp [quits]))
    by_cases unsaved : 0 < s.E.dirty
    · rw [if_pos unsaved, formatted_unsaved, storeEach_cmdbuf (by decide)]
      exact ⟨_, _, rfl, setCommand_consistent (Memory.storeBytes_holdsString _ _ (by decide)) (by decide)⟩
    · rw [if_neg unsaved]
      exact ⟨_, _, rfl, unchanged⟩
  rw [if_neg quits]
  by_cases forced : text = ascii "q!"
  · rw [if_pos forced]
    exact iff_of_true ⟨_, _, rfl, unchanged⟩ (.inl (by simp [forced]))
  rw [if_neg forced]
  by_cases writes : text = ascii "w"
  · rw [if_pos writes]
    exact iff_of_true ⟨_, _, rfl, saved⟩ (.inl (by simp [writes]))
  rw [if_neg writes]
  by_cases leaves : text = ascii "wq"
  · rw [if_pos leaves]
    exact iff_of_true ⟨_, _, rfl, saved⟩ (.inl (by simp [leaves]))
  rw [if_neg leaves]
  have messageLength : (unknownMessage s.E).length = 23 + text.length := by
    unfold unknownMessage
    rw [read, List.length_append]
    rfl
  have fitsIff : Fits text ↔ (unknownMessage s.E).length = 78 ∨ (unknownMessage s.E).length = 79 := by
    unfold Fits
    simp only [List.mem_cons, quits, forced, writes, leaves, List.not_mem_nil, or_self, false_or]
    omega
  rw [fitsIff]
  constructor
  · rintro ⟨quit, next, ran, _⟩
    apply Classical.byContradiction
    intro unfit
    obtain ⟨fault, stopped⟩ := reportUnknown_fault unfit
    simp only [stopped, bind, Except.bind] at ran
    cases ran
  · intro fits
    rw [reportUnknown_ok fits]
    exact ⟨_, _, rfl, setCommand_consistent (copiedMessage_holds fits) (by unfold cmdbufSize; omega)⟩

private theorem Entering.enter_iff (entering : Entering s text) (stack : Memory) :
    CommandKept s stack ↔ Fits text := by
  obtain ⟨mode, running, length, short, holds⟩ := entering
  have terminated : (s.E.cmdbuf.storeByte s.E.cmdlen 0).HoldsString 0 text := by
    apply holds.congr
    intro place _ inside
    by_cases last : place = s.E.cmdlen
    · rw [last, Memory.storeByte_self, length, ← (Memory.HoldsString.bytes_iff.mp holds).2.2, Nat.zero_add]
    · exact Memory.storeByte_of_ne last
  have executed := @checkedExecCommand_iff
    { s with E := { s.E with cmdbuf := s.E.cmdbuf.storeByte s.E.cmdlen 0 } } text terminated length short stack
  rw [← executed]
  unfold CommandKept checkedKeypress
  rw [if_neg (by decide), if_pos rfl, storeCmdbuf_ok (by unfold cmdbufSize; omega)]
  constructor
  · rintro ⟨next, ran, consistent⟩
    obtain ⟨_, stored, executed⟩ := ok_of_bind ran
    cases stored
    obtain ⟨⟨quit, entered⟩, result, done⟩ := ok_of_bind executed
    refine ⟨quit, entered, result, ?_⟩
    cases quit with
    | true =>
      cases done
      exact consistent
    | false =>
      cases done
      exact consistent
  · rintro ⟨quit, entered, result, consistent⟩
    simp only [bind, Except.bind, result]
    cases quit with
    | true => exact ⟨_, rfl, consistent⟩
    | false => exact ⟨_, rfl, consistent⟩

/-! Turns of the main loop. -/

private theorem editorScroll_command (E : EditorConfig) : (editorScroll E).cmdbuf = E.cmdbuf ∧
    (editorScroll E).cmdlen = E.cmdlen ∧ (editorScroll E).mode = E.mode ∧
    (editorScroll E).dirty = E.dirty := by
  unfold editorScroll
  dsimp only
  split <;> split <;> split <;> split <;> exact ⟨rfl, rfl, rfl, rfl⟩

theorem Entering.scroll (entering : Entering s text) :
    Entering { s with E := editorScroll s.E } text := by
  obtain ⟨cmdbuf, cmdlen, mode, dirty⟩ := editorScroll_command s.E
  exact ⟨mode.trans entering.mode, dirty ▸ entering.running, cmdlen.trans entering.length, entering.short,
    cmdbuf ▸ entering.holds⟩

theorem Entering.turn (entering : Entering s text) (notEscape : c ≠ escapeKey) (notEnter : c ≠ enterKey)
    (stack : Memory) : ∃ next, Turn s ⟨[c], stack⟩ next ∧ Entering next (typeKey text c) := by
  obtain ⟨next, ran, typed⟩ := entering.scroll.key notEscape notEnter stack
  refine ⟨next, ⟨entering.running, ?_⟩, typed⟩
  have mode : (editorScroll s.E).mode = .command := entering.scroll.mode
  simp only [editorTurn, editorProcessKeypress, mode, checkedKeypress_sound ran]
  rfl

/-- The colon opens an empty command line. -/
theorem colon_turn (normal : s.E.mode = .normal) (running : s.E.dirty ≠ -9999) (stack : Memory) :
    ∃ next, Turn s ⟨[keyOf ':'], stack⟩ next ∧ Entering next [] := by
  obtain ⟨_, _, mode, dirty⟩ := editorScroll_command s.E
  have pressed : editorTurn s [keyOf ':'] stack = .ok (⟨{ editorScroll s.E with
      mode := .command, cmdbuf := (editorScroll s.E).cmdbuf.storeByte 0 0, cmdlen := 0 }, s.yank, s.fs⟩, []) := by
    simp only [editorTurn, editorProcessKeypress, mode, normal]
    rfl
  have empty : ((editorScroll s.E).cmdbuf.storeByte 0 0).HoldsString 0 [] := Memory.storeByte_self _ 0 0
  exact ⟨_, ⟨running, pressed⟩, rfl, dirty ▸ running, rfl, Nat.zero_le _, empty⟩

theorem Entering.run {turns : List Typed} {typed : List Int} (entering : Entering s text)
    (keys : turns.map Typed.keys = typed.map fun c => [c])
    (stays : ∀ c ∈ typed, c ≠ escapeKey ∧ c ≠ enterKey) :
    ∃ entered, Run Turn s turns entered ∧ Entering entered (typed.foldl typeKey text) := by
  induction typed generalizing s text turns with
  | nil =>
    have none : turns = [] := List.map_eq_nil_iff.mp keys
    subst none
    exact ⟨s, .nil, entering⟩
  | cons c typed ih =>
    obtain ⟨turn, later, rfl, key, laterKeys⟩ := List.map_eq_cons_iff.mp keys
    obtain ⟨pressed, stack⟩ := turn
    have same : pressed = [c] := key
    subst same
    obtain ⟨notEscape, notEnter⟩ := stays c List.mem_cons_self
    obtain ⟨next, turned, typing⟩ := entering.turn notEscape notEnter stack
    obtain ⟨entered, ran, result⟩ := ih typing laterKeys fun c member => stays c (List.mem_cons_of_mem _ member)
    exact ⟨entered, (Run.single turned).append ran, result⟩

/-- A colon, and a command behind it. -/
theorem command_run {turns : List Typed} {typed : List Int} (normal : s.E.mode = .normal)
    (running : s.E.dirty ≠ -9999)
    (keys : turns.map Typed.keys = (keyOf ':' :: typed).map fun c => [c])
    (stays : ∀ c ∈ typed, c ≠ escapeKey ∧ c ≠ enterKey) :
    ∃ entered, Run Turn s turns entered ∧ Entering entered (typed.foldl typeKey []) := by
  obtain ⟨turn, later, rfl, key, laterKeys⟩ := List.map_eq_cons_iff.mp keys
  obtain ⟨pressed, stack⟩ := turn
  have same : pressed = [keyOf ':'] := key
  subst same
  obtain ⟨opened, turned, entering⟩ := colon_turn normal running stack
  obtain ⟨entered, ran, result⟩ := entering.run laterKeys stays
  exact ⟨entered, (Run.single turned).append ran, result⟩

/-- After a colon and any keys, only Enter can go wrong, and it keeps to the buffers exactly
for a known command and for a text of 55 or 56 characters. -/
theorem command_buffers_kept_iff (s : EditorSession) (normal : s.E.mode = .normal)
    (running : s.E.dirty ≠ -9999) (turns : List Typed) (typed : List Int)
    (keys : turns.map Typed.keys = (keyOf ':' :: typed).map fun c => [c])
    (stays : ∀ c ∈ typed, c ≠ escapeKey ∧ c ≠ enterKey) :
    ∃ entered, Run Turn s turns entered ∧ commandText entered.E = typed.foldl typeKey [] ∧
      ∀ stack, (CommandKept entered stack ↔ Fits (typed.foldl typeKey [])) ∧
        (∀ c, c ≠ escapeKey → c ≠ enterKey → ∃ next, checkedKeypress entered c stack = .ok next) ∧
        ∀ c next, checkedKeypress entered c stack = .ok next →
          commandKeypress entered c stack = .ok next := by
  obtain ⟨entered, ran, entering⟩ := command_run normal running keys stays
  have short := entering.short
  refine ⟨entered, ran, entering.holds.stringAt_eq (by omega), fun stack => ⟨entering.enter_iff stack, ?_, ?_⟩⟩
  · intro c notEscape notEnter
    obtain ⟨next, pressed, _⟩ := entering.key notEscape notEnter stack
    exact ⟨next, pressed⟩
  · exact fun c next pressed => checkedKeypress_sound pressed

/-- `:q` in an empty editor. -/
theorem command_buffers_kept_quit : ∃ entered,
    Run Turn (editorStart blankEditor [] blankState none) [typedKey ':', typedKey 'q'] entered ∧
      commandText entered.E = ascii "q" ∧ CommandKept entered (constantMemory 0) := by
  obtain ⟨entered, ran, text, kept⟩ := command_buffers_kept_iff
    (editorStart blankEditor [] blankState none) rfl (by decide) [typedKey ':', typedKey 'q'] [keyOf 'q'] rfl
    (by decide)
  exact ⟨entered, ran, text, (kept _).1.mpr (by decide)⟩

/-- With 57 characters the message runs past the end of `tmp`. -/
theorem long_command_overruns_tmp :
    ¬∀ (s : EditorSession) (turns : List Typed) (typed : List Int), s.E.mode = .normal → s.E.dirty ≠ -9999 →
      (turns.map Typed.keys = (keyOf ':' :: typed).map fun c => [c]) →
      (∀ c ∈ typed, c ≠ escapeKey ∧ c ≠ enterKey) →
      ∀ entered, Run Turn s turns entered → ∀ stack, CommandKept entered stack := by
  intro kept
  have stays : ∀ c ∈ List.replicate 57 (keyOf 'a'), c ≠ escapeKey ∧ c ≠ enterKey := by
    intro c member
    rw [List.eq_of_mem_replicate member]
    decide
  have keys : (typedKey ':' :: List.replicate 57 (typedKey 'a')).map Typed.keys =
      (keyOf ':' :: List.replicate 57 (keyOf 'a')).map fun c => [c] := by
    rw [List.map_cons, List.map_cons, List.map_replicate, List.map_replicate]
    rfl
  obtain ⟨entered, ran, entering⟩ :=
    @command_run (editorStart blankEditor [] blankState none) _ _ rfl (by decide) keys stays
  have outcome := kept _ _ _ rfl (by decide) keys stays entered ran (constantMemory 0)
  exact absurd ((entering.enter_iff _).mp outcome) (by decide +kernel)

end Typing

end ShedKernel.Editor
