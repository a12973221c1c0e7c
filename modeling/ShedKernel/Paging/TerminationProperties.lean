import ShedKernel.Foundation.Run
import ShedKernel.Paging.SbrkProperties

/-! Which calls of `sbrk` leave the loop over the pages. -/

set_option autoImplicit false

namespace ShedKernel.Paging

open Foundation

/-- `addr` at the test of the loop, after `turns` turns. -/
def loopAddr (old : Nat) : Nat → Nat
  | 0 => pageAlign old
  | turns + 1 => add32 (loopAddr old turns) 0x1000

/-- After finitely many turns the test fails. -/
def LoopEnds (old newPtr : Nat) : Prop := ∃ turns, newPtr ≤ loopAddr old turns

/-- `user_heap_ptr` after a call that left its loop. -/
def BreakStep (old : Nat) (increment : UInt32) (next : Nat) : Prop :=
  LoopEnds old (add32 old increment.toNat) ∧ next = add32 old increment.toNat

variable {old newPtr bound turns x : Nat} {s : PagingState}
  {body : PagingState → Nat → Except KernelStop PagingState}

private theorem loopAddr_eq (small : old < 4294967296) (turns : Nat) :
    loopAddr old turns = (old / 4096 + turns) % 1048576 * 4096 := by
  induction turns with
  | zero =>
    unfold loopAddr pageAlign
    omega
  | succ turns ih =>
    unfold loopAddr add32
    rw [ih]
    omega

/-- The last page of the address space is never passed. -/
theorem loopEnds_iff (small : old < 4294967296) : LoopEnds old newPtr ↔ newPtr ≤ 0xFFFFF000 := by
  constructor
  · rintro ⟨turns, passed⟩
    rw [loopAddr_eq small] at passed
    omega
  · intro low
    refine ⟨1048575 - old / 4096, ?_⟩
    rw [loopAddr_eq small]
    omega

/-- Wherever the loop stands, the first failing test is at most `2 ^ 20` turns away. -/
theorem loopEnds_early (small : old < 4294967296) (ends : LoopEnds old newPtr) :
    ∃ turns, turns < enoughTurns ∧ newPtr ≤ loopAddr old turns := by
  have low := (loopEnds_iff small).mp ends
  refine ⟨1048575 - old / 4096, by unfold enoughTurns; omega, ?_⟩
  rw [loopAddr_eq small]
  omega

/-! The loop with its body. -/

/-- A loop that is left fails its test after some of the turns. -/
theorem pageLoop_ok {done : Nat} {final : PagingState}
    (left : pageLoop body bound turns s (loopAddr old done) = .ok final) :
    ∃ more, bound ≤ loopAddr old (done + more) := by
  induction turns generalizing s done with
  | zero => cases left
  | succ turns ih =>
    unfold pageLoop at left
    split at left
    · cases ran : body s (loopAddr old done) with
      | error stop =>
        rw [ran] at left
        cases left
      | ok next =>
        rw [ran] at left
        obtain ⟨more, passed⟩ := @ih next (done + 1) left
        exact ⟨more + 1, by rwa [Nat.add_comm more, ← Nat.add_assoc]⟩
    · next passed => exact ⟨0, Nat.not_lt.mp passed⟩

/-- With a test that fails in time, the loop is left or its body stops. -/
theorem pageLoop_of_passed {done more : Nat} (passed : bound ≤ loopAddr old (done + more))
    (enough : more < turns) :
    (∃ final, pageLoop body bound turns s (loopAddr old done) = .ok final) ∨
      ∃ current address stop, body current address = .error stop ∧
        pageLoop body bound turns s (loopAddr old done) = .error stop := by
  induction turns generalizing s done more with
  | zero => exact absurd enough (Nat.not_lt_zero _)
  | succ turns ih =>
    unfold pageLoop
    split
    · next inside =>
      obtain ⟨more, rfl⟩ : ∃ rest, more = rest + 1 :=
        Nat.exists_eq_succ_of_ne_zero fun none => by subst none; exact absurd passed (Nat.not_le.mpr inside)
      cases ran : body s (loopAddr old done) with
      | error stop => exact .inr ⟨_, _, stop, ran, rfl⟩
      | ok next =>
        rw [Nat.add_comm more, ← Nat.add_assoc] at passed
        exact @ih next (done + 1) more passed (Nat.lt_of_succ_lt_succ enough)
    · exact .inl ⟨s, rfl⟩

/-- A body that always returns leaves the loop to its test. -/
theorem pageLoop_ok_iff (returns : ∀ s x, ∃ next, body s x = .ok next) :
    (∃ turns final, pageLoop body newPtr turns s (pageAlign old) = .ok final) ↔ LoopEnds old newPtr := by
  constructor
  · rintro ⟨turns, final, left⟩
    obtain ⟨more, passed⟩ := @pageLoop_ok _ _ _ _ _ 0 _ left
    exact ⟨_, passed⟩
  · rintro ⟨turns, passed⟩
    refine ⟨turns + 1, ?_⟩
    have started := @pageLoop_of_passed old newPtr (turns + 1) s body 0 turns
      (by rwa [Nat.zero_add]) (Nat.lt_succ_self turns)
    rcases started with left | ⟨current, address, stop, stopped, _⟩
    · exact left
    · obtain ⟨next, ran⟩ := returns current address
      rw [ran] at stopped
      cases stopped

/-! The body of `sbrk` stops on page faults only. -/

/-- The computation does not run into an endless loop. -/
def NotEndless {α : Type} (result : Except KernelStop α) : Prop := result ≠ .error .endlessLoop

private theorem notEndless_ok {α : Type} (value : α) : NotEndless (.ok value) := nofun

theorem NotEndless.bind {α β : Type} {first : Except KernelStop α} {rest : α → Except KernelStop β}
    (started : NotEndless first) (continued : ∀ value, NotEndless (rest value)) :
    NotEndless (first >>= rest) := by
  cases first with
  | error stop => exact fun same => started (congrArg Except.error (Except.error.inj same))
  | ok value => exact continued value

private theorem notEndless_physicalAddress (memory : Memory) (address : Nat) :
    NotEndless (physicalAddress memory address) := by
  unfold physicalAddress NotEndless
  split <;> simp

private theorem notEndless_kernelLoad (s : PagingState) (address : Nat) : NotEndless (kernelLoad s address) :=
  (notEndless_physicalAddress _ _).bind fun _ => notEndless_ok _

private theorem notEndless_kernelStore (s : PagingState) (address value : Nat) :
    NotEndless (kernelStore s address value) :=
  (notEndless_physicalAddress _ _).bind fun _ => notEndless_ok _

private theorem notEndless_mapNewFrame (s : PagingState) (virt : Nat) : NotEndless (mapNewFrame s virt) := by
  unfold mapNewFrame mapUserPage ensureTable
  refine NotEndless.bind ?_ fun _ =>
    (notEndless_kernelLoad _ _).bind fun _ => notEndless_kernelStore _ _ _
  refine (notEndless_kernelLoad _ _).bind fun _ => ?_
  split
  · exact notEndless_kernelStore _ _ _
  · exact notEndless_ok _

/-- The loop of `sbrk` ends exactly when the new break is not behind the beginning of the last
page. When it does not end, no number of turns brings the call to its return. -/
theorem sbrk_loop_ends_iff (calls : List UInt32) (old : Nat) (run : Run BreakStep 0xE0000000 calls old)
    (increment : UInt32) :
    (LoopEnds old (add32 old increment.toNat) ↔ add32 old increment.toNat ≤ 0xFFFFF000) ∧
      ∀ s : PagingState, s.userHeapPtr = old →
        (LoopEnds old (add32 old increment.toNat) → sbrk s increment.toNat ≠ .error .endlessLoop) ∧
        (¬LoopEnds old (add32 old increment.toNat) → ∀ turns final,
          pageLoop mapNewFrame (add32 old increment.toNat) turns s (pageAlign old) ≠ .ok final) := by
  have small : old < 4294967296 := by
    have start : 0xE0000000 < 4294967296 := by decide
    refine @Run.invariant _ _ _ _ _ _ (· < 4294967296) run start ?_
    rintro current call next _ ⟨_, rfl⟩
    exact add32_lt _ _
  refine ⟨loopEnds_iff small, fun s heap => ⟨fun ends => ?_, fun endless turns final left => ?_⟩⟩
  · obtain ⟨turns, early, passed⟩ := loopEnds_early small ends
    rw [← heap] at passed
    unfold sbrk
    refine NotEndless.bind ?_ fun _ => notEndless_ok _
    have ran := @pageLoop_of_passed s.userHeapPtr (add32 s.userHeapPtr increment.toNat) enoughTurns s mapNewFrame
      0 turns (by rwa [Nat.zero_add]) early
    rcases ran with ⟨final, left⟩ | ⟨current, address, stop, stopped, ended⟩
    · intro same
      cases left.symm.trans same
    · intro same
      have endless := stopped.trans (ended.symm.trans same)
      exact notEndless_mapNewFrame _ _ endless
  · obtain ⟨more, passed⟩ := @pageLoop_ok old _ turns s mapNewFrame 0 final left
    exact endless ⟨_, passed⟩

/-- Two calls after boot: up by a page and a byte, then far down. -/
theorem sbrk_loop_ends_down : ∃ old, Run BreakStep 0xE0000000 [4097] old ∧
    add32 old (2415919103 : UInt32).toNat ≤ 0xFFFFF000 ∧
    LoopEnds old (add32 old (2415919103 : UInt32).toNat) := by
  have first : BreakStep 0xE0000000 4097 0xE0001001 := ⟨(loopEnds_iff (by decide)).mpr (by decide), rfl⟩
  have run := Run.single first
  exact ⟨_, run, by decide, (sbrk_loop_ends_iff _ _ run _).1.mpr (by decide)⟩

/-- The first call asks for everything up to the last byte of the address space. -/
theorem sbrk_loop_endless : ¬∀ calls old, Run BreakStep 0xE0000000 calls old →
    ∀ increment : UInt32, LoopEnds old (add32 old increment.toNat) := by
  intro ends
  have last := ends [] 0xE0000000 .nil 0x1FFFFFFF
  exact absurd ((loopEnds_iff (by decide)).mp last) (by decide)

/-! A machine on which no access of the loop faults: memory is used up, and all pages are
frame 0, whose words are no page table. -/

/-- Every directory entry names frame 1, and every entry of that table names frame 0. -/
def sharedFrame : PagingState where
  memory address :=
    if address / 4096 = rootFrame then
      if address % 4 = 0 then 0x07 else if address % 4 = 1 then 0x10 else 0
    else if address / 4096 = 1 then if address % 4 = 0 then 0x07 else 0
    else 0
  nextFreePage := physMemEnd
  userHeapPtr := 0xE0000000

/-- Only frame 0 differs from that machine. -/
structure SharesFrame (s : PagingState) : Prop where
  tables : ∀ address, 4096 ≤ address → s.memory address = sharedFrame.memory address
  usedUp : physMemEnd ≤ s.nextFreePage

theorem SharesFrame.directoryEntry (shares : SharesFrame s) {index : Nat} (inside : index < 1024) :
    PageTable.directoryEntry s.memory rootFrame index = 0x1007 := by
  have word : ∀ byte, byte < 4 → s.memory (4096 * rootFrame + 4 * index + byte) =
      if byte = 0 then 0x07 else if byte = 1 then 0x10 else 0 := by
    intro byte small
    rw [rootFrame, shares.tables _ (by omega)]
    unfold sharedFrame
    dsimp only
    rw [rootFrame, if_pos (by omega), show (4096 * 0x9C + 4 * index + byte) % 4 = byte by omega]
  unfold PageTable.directoryEntry PageTable.wordAddress Memory.load32
  rw [← Nat.add_zero (4096 * rootFrame + 4 * index), word 0 (by decide), Nat.add_zero,
    word 1 (by decide), word 2 (by decide), word 3 (by decide)]
  rfl

theorem SharesFrame.pageEntry (shares : SharesFrame s) {page : Nat} (inside : page < 1048576) :
    PageTable.pageEntry s.memory rootFrame page = 7 := by
  have word : ∀ byte, byte < 4 → s.memory (4096 * 1 + 4 * (page % 1024) + byte) =
      if byte = 0 then 0x07 else 0 := by
    intro byte small
    rw [shares.tables _ (by omega)]
    unfold sharedFrame
    dsimp only
    rw [rootFrame, if_neg (by omega), if_pos (by omega),
      show (4096 * 1 + 4 * (page % 1024) + byte) % 4 = byte by omega]
  unfold PageTable.pageEntry PageTable.tableFrame
  rw [shares.directoryEntry (by omega)]
  unfold PageTable.wordAddress Memory.load32
  rw [show PageTable.frameOf 0x1007 = 1 from rfl, ← Nat.add_zero (4096 * 1 + 4 * (page % 1024)),
    word 0 (by decide), Nat.add_zero, word 1 (by decide), word 2 (by decide), word 3 (by decide)]
  rfl

theorem SharesFrame.physicalAddress (shares : SharesFrame s) {address : Nat}
    (small : address < 4294967296) : physicalAddress s.memory address = .ok (address % 4096) := by
  unfold Paging.physicalAddress
  rw [PageTable.translate_eq (shares.directoryEntry (by omega)) (shares.pageEntry (by omega))]
  exact congrArg Except.ok (Nat.zero_add _)

theorem SharesFrame.kernelLoad (shares : SharesFrame s) {address : Nat}
    (small : address < 4294967296) :
    kernelLoad s address = .ok (s.memory.load32 (address % 4096)) := by
  unfold Paging.kernelLoad
  rw [shares.physicalAddress small]
  rfl

theorem SharesFrame.kernelStore (shares : SharesFrame s) {address : Nat} (value : Nat)
    (small : address < 4294967296) (aligned : address % 4 = 0) :
    ∃ next, kernelStore s address value = .ok next ∧ SharesFrame next := by
  unfold Paging.kernelStore
  rw [shares.physicalAddress small]
  refine ⟨_, rfl, fun other high => ?_, shares.usedUp⟩
  exact (Memory.store32_of_outside (.inr (by omega))).trans (shares.tables other high)

/-- A turn of the loop neither faults nor changes what the next one meets. -/
theorem SharesFrame.mapNewFrame (shares : SharesFrame s) {virt : Nat} (small : virt < 4294967296) :
    ∃ next, mapNewFrame s virt = .ok next ∧ SharesFrame next := by
  have entryAddress : pageDirectory + 4 * (virt / 0x400000) < 4294967296 := by
    unfold pageDirectory
    omega
  have ensured : ∃ next, ensureTable s (virt / 0x400000) = .ok next ∧ SharesFrame next := by
    unfold ensureTable
    rw [shares.kernelLoad entryAddress]
    simp only [bind, Except.bind]
    split
    · rw [allocPageFrame, if_pos shares.usedUp]
      exact shares.kernelStore _ entryAddress (by unfold pageDirectory; omega)
    · exact ⟨s, rfl, shares⟩
  unfold Paging.mapNewFrame mapUserPage
  rw [allocPageFrame, if_pos shares.usedUp]
  obtain ⟨middle, ran, sharesMiddle⟩ := ensured
  simp only [ran, bind, Except.bind, sharesMiddle.kernelLoad entryAddress]
  have bounded := Memory.load32_lt middle.memory ((pageDirectory + 4 * (virt / 0x400000)) % 4096)
  refine sharesMiddle.kernelStore _ ?_ ?_ <;> unfold pageAlign <;> omega

private theorem SharesFrame.pageLoop_endless (shares : SharesFrame s) (turns : Nat) {address : Nat}
    (small : address < 4294967296) (aligned : address % 4096 = 0) :
    pageLoop Paging.mapNewFrame 0xFFFFFFFF turns s address = .error .endlessLoop := by
  induction turns generalizing s address with
  | zero => rfl
  | succ turns ih =>
    obtain ⟨next, ran, sharesNext⟩ := shares.mapNewFrame small
    rw [pageLoop, if_pos (by omega), ran]
    exact ih sharesNext (add32_lt _ _) (by unfold add32; omega)

/-- On that machine the loop itself never ends, however many turns it is given. -/
theorem sbrk_never_returns : sbrk sharedFrame 0x1FFFFFFF = .error .endlessLoop ∧
    ∀ turns, pageLoop mapNewFrame 0xFFFFFFFF turns sharedFrame 0xE0000000 = .error .endlessLoop := by
  have shares : SharesFrame sharedFrame := ⟨fun _ _ => rfl, Nat.le_refl _⟩
  have endless := fun turns => @SharesFrame.pageLoop_endless _ shares turns 0xE0000000 (by decide) (by decide)
  refine ⟨?_, endless⟩
  unfold sbrk
  generalize enoughTurns = turns
  have aligned : pageAlign sharedFrame.userHeapPtr = 0xE0000000 := rfl
  have ended : add32 sharedFrame.userHeapPtr 0x1FFFFFFF = 0xFFFFFFFF := rfl
  dsimp only
  rw [aligned, ended, endless turns]
  rfl

end ShedKernel.Paging
