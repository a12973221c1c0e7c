import ShedKernel.Paging.Confinement
import ShedKernel.Paging.Loader

/-! After boot ring 3 finds the programs' images, padded with zeros, and nothing else. -/

set_option autoImplicit false

namespace ShedKernel.Paging

open Foundation PageTable

variable {base page frame address physical : Nat} {s next : PagingState} {info : BootInfo}
  {images : Images}

/-! Places. -/

private theorem ring3Place_eq_some_iff : ring3Place s address = some physical ↔ address < 4294967296 ∧
    ∃ frame, Ring3Reaches s (address / 4096) frame ∧ physical = 4096 * frame + address % 4096 := by
  unfold ring3Place
  by_cases small : address < 4294967296
  · rw [if_pos small]
    have fits : address / 4096 < 1048576 := by omega
    cases found : translate s.memory rootFrame (address / 0x1000) with
    | none =>
      constructor
      · nofun
      · rintro ⟨_, frame, ⟨_, translation, mapped, _⟩, _⟩
        exact nomatch found.symm.trans mapped
    | some translation =>
      dsimp only
      constructor
      · intro placed
        split at placed
        · next user =>
          exact ⟨small, translation.frame, ⟨fits, translation, found, user, rfl⟩, (Option.some.inj placed).symm⟩
        · cases placed
      · rintro ⟨_, frame, ⟨_, translation, mapped, user, rfl⟩, rfl⟩
        cases Option.some.inj (found.symm.trans mapped)
        rw [if_pos user]
  · rw [if_neg small]
    exact iff_of_false nofun fun placed => small placed.1

private theorem ring3Place_congr (same : address < 4294967296 →
    next.translation (address / 4096) = s.translation (address / 4096)) :
    ring3Place next address = ring3Place s address := by
  unfold ring3Place
  by_cases small : address < 4294967296
  · rw [if_pos small, if_pos small]
    have found : translate next.memory rootFrame (address / 0x1000) =
        translate s.memory rootFrame (address / 0x1000) := same small
    rw [found]
  · rw [if_neg small, if_neg small]

/-- While frames are left, two addresses of ring 3 are two places of memory. -/
theorem Confined.ring3Place_injective (confined : Confined base s) (available : s.nextFreePage < physMemEnd)
    {other : Nat} (here : ring3Place s address = some physical) (there : ring3Place s other = some physical) :
    other = address := by
  obtain ⟨_, frame, reached, rfl⟩ := ring3Place_eq_some_iff.mp here
  obtain ⟨_, shared, otherReached, same⟩ := ring3Place_eq_some_iff.mp there
  have frames : shared = frame := by omega
  subst frames
  cases confined.own _ _ reached with
  | inl own =>
    by_cases pages : other / 4096 = address / 4096
    · omega
    · have above := Ring3Reaches.above otherReached confined.map
      obtain ⟨fits, translation, found, _, frame⟩ := otherReached
      exact absurd frame (own.alone _ above fits pages translation found)
  | inr zero => omega

/-! Loading. -/

private theorem mapNewFrames_append (s : PagingState) (first second : List Nat) :
    mapNewFrames s (first ++ second) = (mapNewFrames s first).bind (mapNewFrames · second) := by
  induction first generalizing s with
  | nil => rfl
  | cons virt rest ih =>
    simp only [List.cons_append, mapNewFrames, bind]
    cases mapNewFrame s virt with
    | error stop => rfl
    | ok next => exact ih next

/-- No address of the framebuffer lies in the 4 MiB of the directory entry. -/
def ClearOfFramebuffer (info : BootInfo) (index : Nat) : Prop :=
  2 ≤ index ∧ (info.fbPhysAddr ≠ 0 → ∀ done, 4096 * done < info.fbSize →
    (info.fbPhysAddr.toNat / 4096 + done) % 1048576 / 1024 ≠ index)

/-- What holds while the programs are loaded: `spent` pages are mapped so far, and
ring 3 sees the contents. -/
structure Loading (info : BootInfo) (spent : Nat) (s : PagingState) (contents : Contents) : Prop where
  confined : Confined info.firstFrame s
  frames : s.nextFreePage ≤ info.firstFrame + 4096 * info.fbTables + 8192 * spent
  tables : ∀ index, index < 1024 → ClearOfFramebuffer info index → Present (s.directory index) →
    User (s.directory index)
  pages : ∀ page, page < 1048576 → ClearOfFramebuffer info (page / 1024) →
    ∀ translation, s.translation page = some translation → translation.user = true
  image : ∀ address, 0x100000 ≤ address → address < info.kernelEnd.toNat →
    s.memory address = info.memory address
  contents : ring3Contents s = contents

namespace Loading

variable {spent : Nat} {contents : Contents} (loading : Loading info spent s contents) (bootable : Bootable info)

include loading bootable

theorem low (room : spent ≤ 29) : s.nextFreePage < 0x800000 := by
  have frames := loading.frames
  have room := bootable.room
  obtain ⟨_, _, near⟩ := bootable.firstFrame_spec
  omega

/-! A page. -/

private theorem contents_mapNewFrame
    (room : spent ≤ 28) (fits : page < 1048576) (nextMap : PageMap info.firstFrame next)
    (mapped : Mapped 7 s.allocated next page (s.handedOut + 7)) (ready : Ready s page)
    (user : User (next.directory (page / 1024))) :
    ring3Contents next = (ring3Contents s).region (4096 * page) (fun _ => 0) 4096 := by
  have map := loading.confined.map
  have free := loading.confined.free
  have low := loading.low bootable (Nat.le_succ_of_le room)
  have aligned := map.aligned
  have available : s.nextFreePage < physMemEnd := Nat.lt_trans low (by decide)
  have nextConfined := loading.confined.mapNewFrame ready fits nextMap mapped
  obtain ⟨translation, found, frame, granted⟩ := translation_handedOut map mapped
  rw [(handedOut_available available).1] at frame
  have memory : ∀ address, address / 4096 ≠ rootFrame → address / 4096 ≠ next.table (page / 1024) →
      next.memory address = s.memory address := by
    intro address notRoot notTable
    rw [mapped.untouched address notRoot notTable, allocated_memory]
  funext address
  by_cases inside : 4096 * page ≤ address ∧ address < 4096 * page + 4096
  · have here : address / 4096 = page := by omega
    have placed : ring3Place next address = some (4096 * translation.frame + address % 4096) := by
      rw [ring3Place_eq_some_iff, here]
      exact ⟨by omega, _, ⟨fits, translation, found, granted user, rfl⟩, rfl⟩
    have apart := nextConfined.reached_apart ⟨fits, translation, found, granted user, rfl⟩
    rw [Contents.region_inside inside, ring3Contents, Contents.view, placed, Option.map_some, memory]
    · have zero := free.zero (4096 * translation.frame + address % 4096) (by omega) (by omega)
      exact congrArg some zero
    · have notRoot := apart.1
      omega
    · have notTable := apart.2.2 (page / 1024) (by omega) mapped.present
      omega
  · rw [Contents.region_outside (by omega)]
    have same : ring3Place next address = ring3Place s address := by
      apply ring3Place_congr
      intro small
      exact translation_mapNewFrame_of_ne map ready mapped free (by omega) (by omega)
    unfold ring3Contents Contents.view
    rw [same]
    cases placed : ring3Place s address with
    | none => rfl
    | some physical =>
      rw [← same] at placed
      obtain ⟨_, frame, reached, rfl⟩ := ring3Place_eq_some_iff.mp placed
      obtain ⟨notRoot, _, notTable⟩ := nextConfined.reached_apart reached
      have notTable := notTable (page / 1024) (by omega) mapped.present
      simp only [Option.map_some]
      rw [memory _ (by omega) (by omega)]

theorem mapNewFrame (room : spent ≤ 28) (fits : page < 1048576) (above : 2048 ≤ page)
    (clear : ClearOfFramebuffer info (page / 1024)) :
    ∃ next, mapNewFrame s (4096 * page) = .ok next ∧
      Loading info (spent + 1) next (contents.region (4096 * page) (fun _ => 0) 4096) := by
  have map := loading.confined.map
  have free := loading.confined.free
  have inside : page / 1024 < 1024 := by omega
  have low : s.nextFreePage + 4096 < 0x800000 := by
    have frames := loading.frames
    have room := bootable.room
    obtain ⟨_, _, near⟩ := bootable.firstFrame_spec
    omega
  obtain ⟨next, ran, nextMap, mapped⟩ := mapNewFrame_spec map fits above (.inr low)
  have taken := nextFree_mapNewFrame mapped
  have tables : ∀ index, index < 1024 → ClearOfFramebuffer info index → Present (next.directory index) →
      User (next.directory index) := by
    intro index bound clear present
    by_cases before : Present (s.directory index)
    · rw [directory_mapNewFrame mapped bound (.inr before)]
      exact loading.tables index bound clear before
    · have here : index = page / 1024 := by
        apply Classical.byContradiction
        intro elsewhere
        rw [directory_mapNewFrame mapped bound (.inl elsewhere)] at present
        exact before present
      subst here
      have aligned := map.allocated.aligned
      rw [← allocated_directory] at before
      rw [(mapped.newTable before).1]
      unfold User
      omega
  refine ⟨next, ran, loading.confined.mapNewFrame (.inr low) fits nextMap mapped, ?_, tables, ?_, ?_, ?_⟩
  · have frames := loading.frames
    rw [Nat.mul_succ, ← Nat.add_assoc]
    exact Nat.le_trans taken (Nat.add_le_add_right frames _)
  · intro other otherFits otherClear translation found
    by_cases here : other = page
    · subst here
      obtain ⟨handed, mappedTo, _, granted⟩ := translation_handedOut map mapped
      rw [mappedTo] at found
      cases Option.some.inj found
      exact granted (tables _ inside clear mapped.present)
    · rw [translation_mapNewFrame_of_ne map (.inr low) mapped free otherFits here] at found
      exact loading.pages other otherFits otherClear translation found
  · intro address high below
    obtain ⟨_, behind, _⟩ := bootable.firstFrame_spec
    have table := (nextMap.tables _ clear.1 inside mapped.present).1
    have notRoot : address / 4096 ≠ rootFrame := by
      unfold rootFrame
      omega
    rw [mapped.untouched address notRoot (by omega), allocated_memory]
    exact loading.image address high below
  · rw [loading.contents_mapNewFrame bootable room fits nextMap mapped (.inr low)
      (tables _ inside clear mapped.present), loading.contents]

/-- Pages one behind the other. -/
theorem mapNewFrames {count : Nat} (above : 2048 ≤ page) (fits : page + count ≤ 1048576)
    (room : spent + count ≤ 29)
    (clear : ∀ p, p < count → ClearOfFramebuffer info ((page + p) / 1024)) :
    ∃ next, mapNewFrames s (pagesFrom (4096 * page) count) = .ok next ∧
      Loading info (spent + count) next (contents.region (4096 * page) (fun _ => 0) (4096 * count)) := by
  induction count with
  | zero =>
    refine ⟨s, rfl, ?_⟩
    rw [Nat.mul_zero, Contents.region_empty]
    exact loading
  | succ count ih =>
    obtain ⟨middle, ran, loaded⟩ := ih (Nat.le_of_succ_le fits) (Nat.le_of_succ_le room) fun p within =>
      clear p (Nat.lt_succ_of_lt within)
    obtain ⟨next, mapped, added⟩ := loaded.mapNewFrame bootable (Nat.le_of_succ_le_succ room)
      (show page + count < 1048576 from fits)
      (Nat.le_add_right_of_le above) (clear count (Nat.lt_succ_self count))
    have whole := @Contents.region_append contents (fun _ => 0) (4096 * page) (4096 * count) 4096
    rw [Nat.mul_add, whole] at added
    refine ⟨next, ?_, added⟩
    have pages : pagesFrom (4096 * page) (count + 1) =
        pagesFrom (4096 * page) count ++ [4096 * (page + count)] := by
      simp only [pagesFrom, List.range_succ, List.map_append, List.map_cons, List.map_nil, Nat.mul_add,
        Nat.mul_comm count]
    rw [pages, mapNewFrames_append, ran]
    simp only [Except.bind, Paging.mapNewFrames, mapped, bind]

/-! A byte. -/

omit bootable

/-- Where ring 3 reaches nothing the kernel does not either. -/
theorem unmapped (clear : ClearOfFramebuffer info (address / 4096 / 1024)) (small : address < 4294967296)
    (absent : contents address = none) : physicalAddress s.memory address = .error (.pageFault address) := by
  rw [← loading.contents] at absent
  cases found : translate s.memory rootFrame (address / 0x1000) with
  | none => rw [physicalAddress, found]
  | some translation =>
    have user := loading.pages (address / 4096) (by omega) clear translation found
    have placed : ring3Place s address = some (4096 * translation.frame + address % 4096) :=
      ring3Place_eq_some_iff.mpr ⟨small, _, ⟨by omega, translation, found, user, rfl⟩, rfl⟩
    simp only [ring3Contents, Contents.view, placed, Option.map_some] at absent
    cases absent

theorem mapped {old : UInt8} (there : contents address = some old) :
    ∃ physical, ring3Place s address = some physical ∧ physicalAddress s.memory address = .ok physical := by
  rw [← loading.contents] at there
  unfold ring3Contents Contents.view at there
  cases placed : ring3Place s address with
  | none =>
    rw [placed] at there
    cases there
  | some physical =>
    obtain ⟨_, frame, ⟨_, translation, found, _, rfl⟩, rfl⟩ := ring3Place_eq_some_iff.mp placed
    have found : translate s.memory rootFrame (address / 0x1000) = some translation := found
    exact ⟨_, rfl, by rw [physicalAddress, found]⟩

theorem kernelStoreByte (bootable : Bootable info) (room : spent ≤ 29) {old : UInt8} (value : UInt8)
    (there : contents address = some old) :
    ∃ next, kernelStoreByte s address value = .ok next ∧
      Loading info spent next (Function.update contents address (some value)) := by
  have low := loading.low bootable room
  have available : s.nextFreePage < physMemEnd := Nat.lt_trans low (by decide)
  obtain ⟨physical, placed, found⟩ := loading.mapped there
  obtain ⟨small, frame, reached, place⟩ := ring3Place_eq_some_iff.mp placed
  obtain ⟨notRoot, used, notTable⟩ := loading.confined.reached_apart reached
  have changed := @beside_storeByte frame s _ value (Nat.mod_lt address (by decide)) notRoot notTable
  rw [← place] at changed
  refine ⟨_, by simp only [Paging.kernelStoreByte, found, bind, Except.bind, pure, Except.pure],
    loading.confined.beside changed used, loading.frames, ?_, ?_, ?_, ?_⟩
  · intro index inside clear present
    rw [changed.directories index inside] at present ⊢
    exact loading.tables index inside clear present
  · intro page fits clear translation mapped
    rw [changed.translation fits] at mapped
    exact loading.pages page fits clear translation mapped
  · intro other high below
    rw [changed.untouched other, loading.image other high below]
    obtain ⟨_, behind, _⟩ := bootable.firstFrame_spec
    cases loading.confined.own _ frame reached with
    | inl own =>
      have above := own.above
      omega
    | inr zero => omega
  · have places : ring3Place { s with memory := s.memory.storeByte physical value } = ring3Place s := by
      funext other
      exact ring3Place_congr fun small => changed.translation (by omega)
    rw [ring3Contents, places, ← loading.contents]
    exact Contents.view_storeByte placed fun other reached =>
      loading.confined.ring3Place_injective available placed reached

/-! Loops. -/

theorem zeroRegion (bootable : Bootable info) (room : spent ≤ 29) {ptr count : Nat}
    (there : ∀ i, i < count → contents (ptr + i) ≠ none) :
    ∃ next, zeroRegion s ptr count = .ok next ∧
      Loading info spent next (contents.region ptr (fun _ => 0) count) := by
  induction count with
  | zero =>
    refine ⟨s, rfl, ?_⟩
    rw [Contents.region_empty]
    exact loading
  | succ count ih =>
    obtain ⟨middle, ran, loaded⟩ := ih fun i within => there i (Nat.lt_succ_of_lt within)
    obtain ⟨old, held⟩ := Option.ne_none_iff_exists'.mp (there count (Nat.lt_succ_self count))
    rw [← @Contents.region_outside contents (fun _ => 0) ptr count _ (.inr (Nat.le_refl _))] at held
    obtain ⟨next, stored, more⟩ := loaded.kernelStoreByte bootable room 0 held
    rw [Contents.update_region] at more
    refine ⟨next, ?_, more⟩
    simp only [Paging.zeroRegion, ran, bind, Except.bind]
    exact stored

theorem kernelLoadByte (bootable : Bootable info) (behind : 0x100000 ≤ address)
    (inside : address < info.kernelEnd.toNat) : kernelLoadByte s address = .ok (info.memory address) := by
  have room := bootable.room
  have found := loading.confined.map.physicalAddress_low (show address < 0x800000 by omega)
  simp only [Paging.kernelLoadByte, found, bind, Except.bind, pure, Except.pure,
    loading.image address behind inside]

section CopyBinary

variable {image : Image} (bootable : Bootable info) (room : spent ≤ 29) (behind : 0x100000 ≤ image.start)
  (inside : image.stop ≤ info.kernelEnd.toNat)

include bootable room behind inside

theorem copyBinary {dst count : Nat} (within : count ≤ image.size)
    (there : ∀ i, i < count → contents (dst + i) ≠ none) :
    ∃ next, copyBinary s dst image.start count = .ok next ∧
      Loading info spent next (contents.region dst (fun i => info.memory (image.start + i)) count) := by
  unfold Image.size at within
  induction count with
  | zero =>
    refine ⟨s, rfl, ?_⟩
    rw [Contents.region_empty]
    exact loading
  | succ count ih =>
    obtain ⟨middle, ran, loaded⟩ := ih (by omega) fun i within => there i (Nat.lt_succ_of_lt within)
    obtain ⟨old, held⟩ := Option.ne_none_iff_exists'.mp (there count (Nat.lt_succ_self count))
    rw [← @Contents.region_outside contents (fun i => info.memory (image.start + i)) dst count _
      (.inr (Nat.le_refl _))] at held
    have read := loaded.kernelLoadByte bootable (show 0x100000 ≤ image.start + count by omega) (by omega)
    obtain ⟨next, stored, more⟩ :=
      loaded.kernelStoreByte bootable room (info.memory (image.start + count)) held
    rw [Contents.update_region] at more
    refine ⟨next, ?_, more⟩
    simp only [Paging.copyBinary, ran, read, bind, Except.bind]
    exact stored

/-- An image that does not fit stops the kernel behind the last page. -/
theorem copyBinary_fault {dst size count : Nat} (within : count ≤ image.size) (long : size < count)
    (there : ∀ i, i < size → contents (dst + i) ≠ none) (absent : contents (dst + size) = none)
    (clear : ClearOfFramebuffer info ((dst + size) / 4096 / 1024)) (small : dst + size < 4294967296) :
    Paging.copyBinary s dst image.start count = .error (.pageFault (dst + size)) := by
  induction count with
  | zero => exact absurd long (Nat.not_lt_zero _)
  | succ count ih =>
    by_cases last : size = count
    · subst last
      obtain ⟨middle, ran, loaded⟩ := loading.copyBinary bootable room behind inside (Nat.le_of_succ_le within) there
      unfold Image.size at within
      have read := loaded.kernelLoadByte bootable (show 0x100000 ≤ image.start + size by omega) (by omega)
      rw [← @Contents.region_outside contents (fun i => info.memory (image.start + i)) dst size _
        (.inr (Nat.le_refl _))] at absent
      have faulted := loaded.unmapped clear small absent
      simp only [Paging.copyBinary, ran, read, bind, Except.bind, Paging.kernelStoreByte, faulted]
    · have earlier := ih (Nat.le_of_succ_le within) (by omega)
      simp only [Paging.copyBinary, earlier, bind, Except.bind]

end CopyBinary

end Loading

/-! The programs. -/

/-- The images lie in the kernel. -/
def Linked (info : BootInfo) (images : Images) : Prop :=
  ∀ image, image = images.user ∨ image = images.editor ∨ image = images.shell →
    0x100000 ≤ image.start ∧ image.stop ≤ info.kernelEnd.toNat

/-- The bytes of an image, followed by zeros. -/
def padded (info : BootInfo) (image : Image) (index : Nat) : UInt8 :=
  if index < image.size then info.memory (image.start + index) else 0

/-- What ring 3 is to find when the programs are loaded. -/
def programContents (info : BootInfo) (images : Images) : Contents :=
  let user : Contents := (Contents.region (fun _ => none) 0xA0000000 (padded info images.user) 0x1000)
  let shared := (user.region 0xB0000000 (fun _ => 0) 0x1000).region 0xF0000000 (fun _ => 0) 0x1000
  let editor := (shared.region 0x70000000 (padded info images.editor) 0xC000).region 0x71000000 (fun _ => 0) 0x1000
  (editor.region 0xC0000000 (padded info images.shell) 0xC000).region 0xD0000000 (fun _ => 0) 0x1000

/-- The address of the page fault that an image too long for its pages leads to. -/
def imageFault (images : Images) : Option Nat :=
  if 0x1000 < images.user.size then some 0xA0001000
  else if 0xC000 < images.editor.size then some 0x7000C000
  else if 0xC000 < images.shell.size then some 0xC000C000
  else none

private theorem padded_over {contents : Contents} {virt count : Nat} {image : Image} (fits : image.size ≤ count) :
    (contents.region virt (fun _ => 0) count).region virt (fun i => info.memory (image.start + i)) image.size =
      contents.region virt (padded info image) count :=
  Contents.region_over fits

namespace Loading

variable {spent : Nat} {contents : Contents} {image : Image} {stack : Nat}

section LoadProgram

variable (loading : Loading info spent s contents) (bootable : Bootable info) (room : spent ≤ 16)
  (behind : 0x100000 ≤ image.start) (inside : image.stop ≤ info.kernelEnd.toNat) (above : 2048 ≤ page)
  (fits : page + 13 ≤ 1048576) (stackAbove : 2048 ≤ stack) (stackFits : stack < 1048576)
  (clear : ∀ p, p < 13 → ClearOfFramebuffer info ((page + p) / 1024))
  (stackClear : ClearOfFramebuffer info (stack / 1024)) (apart : page + 13 ≤ stack)

include loading bootable room behind inside above fits stackAbove stackFits clear stackClear apart

omit behind inside in
/-- The loader up to the copy of the image. -/
theorem clearedProgram : ∃ cleared, loadProgram s (4096 * page) (4096 * stack) image =
      Paging.copyBinary cleared (4096 * page) image.start image.size ∧
    Loading info (spent + 13) cleared ((contents.region (4096 * page) (fun _ => 0) 0xC000).region
      (4096 * stack) (fun _ => 0) 0x1000) := by
  obtain ⟨paged, ran, first⟩ := @mapNewFrames page s info spent contents loading bootable 12 above (by omega)
    (by omega) fun p within => clear p (by omega)
  rw [show 4096 * 12 = 0xC000 by decide] at first
  obtain ⟨stacked, mapped, second⟩ := first.mapNewFrame bootable (by omega) stackFits stackAbove stackClear
  have there : ∀ i, i < 0xC000 → ((contents.region (4096 * page) (fun _ => 0) 0xC000).region
      (4096 * stack) (fun _ => 0) 4096) (4096 * page + i) ≠ none := by
    intro i within
    rw [Contents.region_outside (by omega), Contents.region_inside (by omega)]
    exact Option.some_ne_none _
  obtain ⟨cleared, zeroed, third⟩ := second.zeroRegion bootable (by omega) there
  have disjoint : 4096 * page + 0xC000 ≤ 4096 * stack := by omega
  rw [← Contents.region_comm (.inl disjoint), Contents.region_over (Nat.le_refl _)] at third
  simp only [ite_self] at third
  refine ⟨cleared, ?_, third⟩
  -- the loop's bound stays as it is: unfolding it would run the loop
  rw [show 0xC000 = 12 * 4096 by decide] at zeroed
  rw [Paging.loadProgram, ran, ok_bind, mapped, ok_bind, zeroed, ok_bind]

theorem loadProgram (short : image.size ≤ 0xC000) :
    ∃ next, loadProgram s (4096 * page) (4096 * stack) image = .ok next ∧
      Loading info (spent + 13) next ((contents.region (4096 * page) (padded info image) 0xC000).region
        (4096 * stack) (fun _ => 0) 0x1000) := by
  obtain ⟨cleared, ran, loaded⟩ := clearedProgram loading bootable room above fits stackAbove stackFits clear
    stackClear apart
  have there : ∀ i, i < image.size → ((contents.region (4096 * page) (fun _ => 0) 0xC000).region
      (4096 * stack) (fun _ => 0) 0x1000) (4096 * page + i) ≠ none := by
    intro i within
    rw [Contents.region_outside (by omega), Contents.region_inside (by omega)]
    exact Option.some_ne_none _
  obtain ⟨next, copied, done⟩ :=
    loaded.copyBinary bootable (by omega) behind inside (Nat.le_refl _) there
  have disjoint : 4096 * page + image.size ≤ 4096 * stack := by omega
  rw [← Contents.region_comm (.inl disjoint), padded_over short] at done
  exact ⟨next, ran.trans copied, done⟩

private theorem loadProgram_fault (long : 0xC000 < image.size) (absent : contents (4096 * page + 0xC000) = none) :
    Paging.loadProgram s (4096 * page) (4096 * stack) image = .error (.pageFault (4096 * page + 0xC000)) := by
  obtain ⟨cleared, ran, loaded⟩ := clearedProgram loading bootable room above fits stackAbove stackFits clear
    stackClear apart
  rw [ran]
  apply loaded.copyBinary_fault bootable (by omega) behind inside (Nat.le_refl _) long
  · intro i within
    rw [Contents.region_outside (by omega), Contents.region_inside (by omega)]
    exact Option.some_ne_none _
  · rw [Contents.region_outside (by omega), Contents.region_outside (by omega)]
    exact absent
  · have page : (4096 * page + 0xC000) / 4096 = page + 12 := by omega
    rw [page]
    exact clear 12 (by decide)
  · omega

end LoadProgram

end Loading

private theorem KernelReady.loading (ready : KernelReady info s) (bootable : Bootable info) :
    Loading info 0 s fun _ => none := by
  have absent : ∀ index, index < 1024 → ClearOfFramebuffer info index → ¬Present (s.directory index) := by
    intro index inside clear present
    obtain ⟨mapped, turn, within, same⟩ := ready.created index clear.1 inside present
    exact clear.2 mapped turn within same
  refine ⟨ready.confined bootable, Nat.le_trans ready.frames (Nat.le_add_right _ _), fun index inside clear present =>
    absurd present (absent index inside clear), ?_, ?_, ?_⟩
  · intro page fits clear translation found
    exact absurd (translate_eq_some found).1 (absent _ (by omega) clear)
  · intro address high below
    obtain ⟨_, above, _⟩ := bootable.firstFrame_spec
    exact ready.image address (by omega) (by omega)
  · funext address
    unfold ring3Contents Contents.view
    cases placed : ring3Place s address with
    | none => rfl
    | some physical =>
      obtain ⟨_, frame, ⟨fits, translation, found, user, _⟩, _⟩ := ring3Place_eq_some_iff.mp placed
      exact absurd (user_of_translation found user) (ready.only _ (by omega) (translate_eq_some found).1)

private theorem bootPrograms_eq (reached : info.fbPhysAddr = 0 ∧ s = pagingOn info.memory info.firstFrame ∨
    info.fbPhysAddr ≠ 0 ∧
      mapFramebuffer (pagingOn info.memory info.firstFrame) info.fbPhysAddr.toNat info.fbSize = .ok s) :
    bootPrograms info images = loadPrograms images s := by
  unfold bootPrograms
  cases reached with
  | inl without =>
    rw [if_pos without.1, pure_bind, without.2, pagingOn_eq, BootInfo.firstFrame]
  | inr framebuffer =>
    obtain ⟨there, looped⟩ := framebuffer
    rw [pagingOn_eq, BootInfo.firstFrame] at looped
    rw [if_neg there, looped, ok_bind]

/-- The pages of the programs are clear of the framebuffer. -/
def ProgramsClear (info : BootInfo) : Prop :=
  ∀ virt, virt ∈ programPages → ClearOfFramebuffer info (virt / 4096 / 1024)

/-- What comes before the editor. -/
theorem loadPrograms_user (ready : KernelReady info s) (bootable : Bootable info) (linked : Linked info images)
    (clear : ProgramsClear info) :
    if 0x1000 < images.user.size then loadPrograms images s = .error (.pageFault 0xA0001000)
    else ∃ shared, (loadPrograms images s = do
        let s ← loadProgram shared 0x70000000 0x71000000 images.editor
        loadProgram s 0xC0000000 0xD0000000 images.shell) ∧
      Loading info 3 shared (((Contents.region (fun _ => none) 0xA0000000 (padded info images.user) 0x1000).region
        0xB0000000 (fun _ => 0) 0x1000).region 0xF0000000 (fun _ => 0) 0x1000) := by
  obtain ⟨behind, inside⟩ := linked images.user (.inl rfl)
  obtain ⟨text, textMapped, first⟩ := @Loading.mapNewFrame 0xA0000 s info 0 _ (ready.loading bootable) bootable
    (by decide) (by decide) (by decide) (clear 0xA0000000 (by decide))
  obtain ⟨stack, stackMapped, second⟩ := @Loading.mapNewFrame 0xB0000 text info 1 _ first bootable (by decide)
    (by decide) (by decide) (clear 0xB0000000 (by decide))
  have there : ∀ i, i < 0x1000 → ((Contents.region (fun _ => none) 0xA0000000 (fun _ => 0) 0x1000).region 0xB0000000
      (fun _ => 0) 0x1000) (0xA0000000 + i) ≠ none := by
    intro i within
    rw [Contents.region_outside (by omega), Contents.region_inside (by omega)]
    exact Option.some_ne_none _
  by_cases long : 0x1000 < images.user.size
  · rw [if_pos long]
    have faulted := second.copyBinary_fault bootable (by decide) behind inside (Nat.le_refl _) long there rfl
      (clear 0xA0000000 (by decide)) (by decide)
    rw [loadPrograms, textMapped, ok_bind, stackMapped, ok_bind, faulted]
    rfl
  · rw [if_neg long]
    obtain ⟨copied, ran, third⟩ := second.copyBinary bootable (by decide) behind inside (Nat.le_refl _)
      fun i within => there i (by omega)
    rw [← Contents.region_comm (.inl (by omega)), padded_over (Nat.not_lt.mp long)] at third
    obtain ⟨paged, sharedMapped, fourth⟩ := @Loading.mapNewFrame 0xF0000 copied info 2 _ third bootable (by decide)
      (by decide) (by decide) (clear 0xF0000000 (by decide))
    obtain ⟨shared, zeroed, fifth⟩ := @Loading.zeroRegion paged info 3 _ fourth bootable (by decide) 0xF0000000 4096
      fun i within => by
        rw [Contents.region_inside (by omega)]
        exact Option.some_ne_none _
    rw [Contents.region_over (Nat.le_refl _)] at fifth
    simp only [ite_self] at fifth
    refine ⟨shared, ?_, fifth⟩
    rw [loadPrograms, textMapped, ok_bind, stackMapped, ok_bind, ran, ok_bind, sharedMapped, ok_bind, zeroed, ok_bind]

private theorem ProgramsClear.twelve (clear : ProgramsClear info) {virt : Nat} (member : virt ∈ programPages)
    (early : virt / 4096 % 1024 = 0) (p : Nat) (within : p < 13) :
    ClearOfFramebuffer info ((virt / 4096 + p) / 1024) := by
  have same : (virt / 4096 + p) / 1024 = virt / 4096 / 1024 := by omega
  rw [same]
  exact clear virt member

theorem boot_loads_programs (bootable : Bootable info) (clean : CleanBoot info) (linked : Linked info images)
    (clear : ProgramsClear info) :
    (imageFault images = none → ∃ s, bootPrograms info images = .ok s ∧ Confined info.firstFrame s ∧
      ring3Contents s = programContents info images) ∧
    ∀ address, imageFault images = some address →
      bootPrograms info images = .error (.pageFault address) := by
  obtain ⟨s, ready, reached⟩ := kernel_ready bootable clean
  have user := loadPrograms_user ready bootable linked clear
  obtain ⟨editorBehind, editorInside⟩ := linked images.editor (.inr (.inl rfl))
  obtain ⟨shellBehind, shellInside⟩ := linked images.shell (.inr (.inr rfl))
  have editorClear := clear.twelve (show 0x70000000 ∈ programPages by decide) (by decide)
  have shellClear := clear.twelve (show 0xC0000000 ∈ programPages by decide) (by decide)
  have editorStack := clear 0x71000000 (by decide)
  have shellStack := clear 0xD0000000 (by decide)
  rw [bootPrograms_eq reached]
  unfold imageFault
  by_cases userLong : 0x1000 < images.user.size
  · rw [if_pos userLong] at user ⊢
    exact ⟨nofun, fun address same => Option.some.inj same ▸ user⟩
  rw [if_neg userLong] at user ⊢
  obtain ⟨shared, loads, sharedLoaded⟩ := user
  rw [loads]
  by_cases editorLong : 0xC000 < images.editor.size
  · rw [if_pos editorLong]
    have faulted := @Loading.loadProgram_fault 0x70000 shared info 3 _ images.editor 0x71000 sharedLoaded bootable
      (by decide) editorBehind editorInside (by decide) (by decide) (by decide) (by decide) editorClear editorStack
      (by decide) editorLong rfl
    refine ⟨nofun, fun address same => ?_⟩
    rw [← Option.some.inj same, faulted]
    rfl
  rw [if_neg editorLong]
  obtain ⟨edited, editorRan, editorLoaded⟩ := @Loading.loadProgram 0x70000 shared info 3 _ images.editor 0x71000
    sharedLoaded bootable (by decide) editorBehind editorInside (by decide) (by decide) (by decide) (by decide)
    editorClear editorStack (by decide) (Nat.not_lt.mp editorLong)
  rw [editorRan, ok_bind]
  by_cases shellLong : 0xC000 < images.shell.size
  · rw [if_pos shellLong]
    have faulted := @Loading.loadProgram_fault 0xC0000 edited info 16 _ images.shell 0xD0000 editorLoaded bootable
      (by decide) shellBehind shellInside (by decide) (by decide) (by decide) (by decide) shellClear shellStack
      (by decide) shellLong rfl
    exact ⟨nofun, fun address same => Option.some.inj same ▸ faulted⟩
  rw [if_neg shellLong]
  obtain ⟨final, shellRan, loaded⟩ := @Loading.loadProgram 0xC0000 edited info 16 _ images.shell 0xD0000 editorLoaded
    bootable (by decide) shellBehind shellInside (by decide) (by decide) (by decide) (by decide) shellClear shellStack
    (by decide) (Nat.not_lt.mp shellLong)
  exact ⟨fun _ => ⟨final, shellRan, loaded.confined, loaded.contents⟩, nofun⟩

/-- A kernel with three images in it. -/
def exampleImages : Images where
  user := ⟨0x200000, 0x200040⟩
  editor := ⟨0x300000, 0x309000⟩
  shell := ⟨0x310000, 0x31B000⟩

def exampleKernel : BootInfo :=
  { exampleBoot with memory := fun address => if address < 0x61A4E0 then UInt8.ofNat address else 0 }

theorem boot_loads_programs_example : ∃ s, bootPrograms exampleKernel exampleImages = .ok s ∧
    ring3Contents s = programContents exampleKernel exampleImages := by
  have bootable : Bootable exampleKernel := ⟨by decide, fun mapped => absurd rfl mapped, by decide⟩
  have clean : CleanBoot exampleKernel :=
    ⟨fun address behind _ => if_neg (Nat.not_lt.mpr behind), fun mapped => absurd rfl mapped⟩
  have linked : Linked exampleKernel exampleImages := by
    rintro image (rfl | rfl | rfl) <;> decide
  have clear : ProgramsClear exampleKernel := by
    intro virt member
    obtain ⟨_, above, _⟩ := programPages_proper virt member
    exact ⟨by omega, fun mapped => absurd rfl mapped⟩
  obtain ⟨loads, _⟩ := boot_loads_programs bootable clean linked clear
  obtain ⟨s, booted, _, contents⟩ := loads (by decide)
  exact ⟨s, booted, contents⟩

end ShedKernel.Paging
