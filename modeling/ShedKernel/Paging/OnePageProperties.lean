import ShedKernel.Paging.InitProperties

/-! `map_user_page` on any page directory and any tables: when it changes the translation
of one page only. -/

set_option autoImplicit false

namespace ShedKernel.Paging

open Foundation PageTable

/-- The table in which `map_user_page` stores the new entry. -/
def tableFor (s : PagingState) (index : Nat) : Nat :=
  if Present (s.directory index) then s.table index else s.handedOut / 4096

/-- Free frames are whole pages, the directory is not one of the tables, and the kernel can
write to the directory and to the table. -/
structure Walkable (s : PagingState) (index : Nat) : Prop where
  aligned : s.nextFreePage % 4096 = 0
  apart : ∀ other, other < 1024 → Present (s.directory other) → s.table other ≠ rootFrame
  tableApart : tableFor s index ≠ rootFrame
  directory : ReachesFrame s rootFrame
  table : ReachesFrame s (tableFor s index)

/-- The page is mapped for ring 3 to the frame at `phys`, and no other page has changed. -/
def MapsOnePage (s next : PagingState) (page phys : Nat) : Prop :=
  next.translation page = some ⟨phys / 4096, true, true⟩ ∧
    ∀ other, other < 1048576 → other ≠ page → next.translation other = s.translation other

/-- A table that is there grants both rights, a new one holds no other entries, and where a
table serves a second directory entry, the page there is mapped so already. -/
structure Undisturbing (s : PagingState) (page phys : Nat) : Prop where
  rights : Present (s.directory (page / 1024)) →
    Writable (s.directory (page / 1024)) ∧ User (s.directory (page / 1024))
  clean : ¬Present (s.directory (page / 1024)) → ∀ index, index < 1024 → index ≠ page % 1024 →
    ¬Present (s.memory.load32 (wordAddress (s.handedOut / 4096) index))
  unshared : ∀ other, other < 1024 → other ≠ page / 1024 → Present (s.directory other) →
    s.table other = tableFor s (page / 1024) →
    s.translation (1024 * other + page % 1024) =
      some ⟨phys / 4096, decide (Writable (s.directory other)), decide (User (s.directory other))⟩

variable {s next : PagingState} {index page phys virt frame : Nat}

/-! The table. -/

/-- The state once the directory has its entry. -/
def withTable (s : PagingState) (index : Nat) : PagingState :=
  if Present (s.directory index) then s
  else { s.allocated with memory := setDirectory s.memory rootFrame index (s.handedOut + 7) }

private theorem withTable_of_present (present : Present (s.directory index)) : withTable s index = s :=
  if_pos present

private theorem withTable_of_absent (absent : ¬Present (s.directory index)) : withTable s index =
    { s.allocated with memory := setDirectory s.memory rootFrame index (s.handedOut + 7) } :=
  if_neg absent

/-- The other directory entries stay. -/
theorem withTable_directory_of_ne {other : Nat} (inside : index < 1024) (otherInside : other < 1024)
    (different : other ≠ index) :
    (withTable s index).directory other = s.directory other := by
  by_cases present : Present (s.directory index)
  · rw [withTable_of_present present]
  · rw [withTable_of_absent present]
    exact directoryEntry_setDirectory_of_ne inside otherInside different

section WithTable

variable (walkable : Walkable s index)

include walkable

private theorem Walkable.tableFor_lt : tableFor s index < 1048576 := by
  unfold tableFor
  split
  · have small := Memory.load32_lt s.memory (wordAddress rootFrame index)
    show s.memory.load32 (wordAddress rootFrame index) / 4096 < 1048576
    omega
  · have below := (handedOut_aligned walkable.aligned).2
    unfold physMemEnd at below
    omega

private theorem Walkable.newEntry (absent : ¬Present (s.directory index)) :
    (withTable s index).directory index = s.handedOut + 7 ∧
      frameOf (s.handedOut + 7) = tableFor s index := by
  obtain ⟨aligned, below⟩ := handedOut_aligned walkable.aligned
  rw [withTable_of_absent absent, tableFor, if_neg absent]
  unfold physMemEnd at below
  refine ⟨directoryEntry_setDirectory_self (by omega), ?_⟩
  unfold frameOf
  omega

theorem Walkable.present : Present ((withTable s index).directory index) := by
  by_cases present : Present (s.directory index)
  · rwa [withTable_of_present present]
  · rw [(walkable.newEntry present).1]
    have aligned := (handedOut_aligned walkable.aligned).1
    unfold Present
    omega

theorem Walkable.tableFrame : (withTable s index).table index = tableFor s index := by
  by_cases present : Present (s.directory index)
  · rw [withTable_of_present present, tableFor, if_pos present]
  · obtain ⟨entry, frame⟩ := walkable.newEntry present
    exact (congrArg frameOf entry).trans frame

variable (inside : index < 1024)

include inside

/-- Only the pages of a new table are seen differently. -/
theorem Walkable.translation (fits : page < 1048576)
    (elsewhere : page / 1024 ≠ index ∨ Present (s.directory index)) :
    (withTable s index).translation page = s.translation page := by
  by_cases present : Present (s.directory index)
  · rw [withTable_of_present present]
  have different := elsewhere.resolve_right present
  have pageInside : page / 1024 < 1024 := by omega
  have same := @withTable_directory_of_ne s index _ inside pageInside different
  by_cases mapped : Present (s.directory (page / 1024))
  · apply translate_congr same
    rw [withTable_of_absent present]
    exact pageEntry_setDirectory_of_apart inside fits (walkable.apart _ pageInside mapped) different
  · have unmapped : s.translation page = none := translate_of_absent mapped
    rw [unmapped]
    exact translate_of_absent (by rwa [← same] at mapped)

theorem Walkable.reaches (fits : frame < 1048576) (reaches : ReachesFrame s frame) :
    ReachesFrame (withTable s index) frame := by
  obtain ⟨translation, found, same⟩ := reaches
  refine ⟨translation, ?_, same⟩
  rw [walkable.translation inside fits, found]
  by_cases here : frame / 1024 = index
  · right
    have present := (translate_eq_some found).1
    rwa [here] at present
  · exact .inl here

theorem Walkable.ensureTable : ensureTable s index = .ok (withTable s index) := by
  have loaded : kernelLoad s (pageDirectory + 4 * index) = .ok (s.directory index) :=
    walkable.directory.load (by omega)
  by_cases present : Present (s.directory index)
  · have flag : ¬(s.directory index &&& pagePresent = 0) := fun zero => (flag_eq_zero_iff _).mp zero present
    rw [withTable_of_present present]
    simp only [Paging.ensureTable, loaded, if_neg flag, bind, Except.bind, pure, Except.pure]
  · have flag : s.directory index &&& pagePresent = 0 := (flag_eq_zero_iff _).mpr present
    have reached : ReachesFrame s.allocated rootFrame := by
      obtain ⟨translation, found, same⟩ := walkable.directory
      refine ⟨translation, ?_, same⟩
      rw [PagingState.translation, allocated_memory]
      exact found
    have stored : kernelStore s.allocated (pageDirectory + 4 * index) (s.handedOut + 7) = _ :=
      reached.store (by omega)
    have flags := userFlags_eq (handedOut_aligned walkable.aligned).1
    rw [withTable_of_absent present]
    simp only [Paging.ensureTable, loaded, if_pos flag, bind, Except.bind]
    exact (congrArg _ flags).trans (stored.trans (by rw [allocated_memory]; rfl))

end WithTable

/-- The state after a call for `page`. -/
def withEntry (s : PagingState) (page phys : Nat) : PagingState :=
  { withTable s (page / 1024) with
    memory := (withTable s (page / 1024)).memory.store32
      (wordAddress (tableFor s (page / 1024)) (page % 1024)) (phys + 7) }

theorem Walkable.mapUserPage (walkable : Walkable s (virt / 4096 / 1024)) (small : virt < 4294967296)
    (aligned : phys % 4096 = 0) : mapUserPage s virt phys = .ok (withEntry s (virt / 4096) phys) := by
  have inside : virt / 4096 / 1024 < 1024 := by omega
  have directory : virt / 0x400000 = virt / 4096 / 1024 := (Nat.div_div_eq_div_mul virt 4096 1024).symm
  have made := walkable.ensureTable inside
  have loaded : kernelLoad (withTable s (virt / 4096 / 1024)) (pageDirectory + 4 * (virt / 4096 / 1024)) =
      .ok ((withTable s (virt / 4096 / 1024)).directory (virt / 4096 / 1024)) :=
    (walkable.reaches inside (by decide) walkable.directory).load (by omega)
  have place : pageAlign ((withTable s (virt / 4096 / 1024)).directory (virt / 4096 / 1024)) =
      4096 * tableFor s (virt / 4096 / 1024) := by
    rw [← walkable.tableFrame, pageAlign, Nat.mul_comm]
    rfl
  have stored := @ReachesFrame.store _ _ (4 * (virt / 4096 % 1024)) (phys + 7)
    (walkable.reaches inside (walkable.tableFor_lt) walkable.table) (by omega)
  simp only [Paging.mapUserPage, directory, made, loaded, place, userFlags_eq aligned, bind, Except.bind]
  exact stored

/-! Translations afterwards. -/

section WithEntry

variable (walkable : Walkable s (page / 1024))

include walkable

private theorem Walkable.withEntry_directory {other : Nat} (otherInside : other < 1024) :
    (withEntry s page phys).directory other = (withTable s (page / 1024)).directory other :=
  directoryEntry_store_word walkable.tableApart (Nat.mod_lt _ (by decide)) otherInside

private theorem Walkable.withEntry_entry
    {other : Nat} (otherFits : other < 1048576) (valueFits : phys + 7 < 4294967296) :
    (withEntry s page phys).entry other =
      if (withTable s (page / 1024)).table (other / 1024) = tableFor s (page / 1024) ∧
          other % 1024 = page % 1024 then phys + 7
      else (withTable s (page / 1024)).entry other :=
  pageEntry_store_word walkable.tableApart (Nat.mod_lt _ (by decide)) otherFits valueFits

variable (aligned : phys % 4096 = 0) (small : phys < 4294967296)

include aligned small

/-- A page that uses the stored word. -/
theorem Walkable.translation_of_hit {other : Nat} (otherFits : other < 1048576)
    (present : Present ((withTable s (page / 1024)).directory (other / 1024)))
    (table : (withTable s (page / 1024)).table (other / 1024) = tableFor s (page / 1024))
    (same : other % 1024 = page % 1024) : (withEntry s page phys).translation other =
      some ⟨phys / 4096, decide (Writable ((withTable s (page / 1024)).directory (other / 1024))),
        decide (User ((withTable s (page / 1024)).directory (other / 1024)))⟩ := by
  have directory := @Walkable.withEntry_directory s page phys walkable (other / 1024) (by omega)
  have entry := @Walkable.withEntry_entry s page phys walkable other otherFits (by omega)
  rw [if_pos ⟨table, same⟩] at entry
  have flags : Present (phys + 7) ∧ Writable (phys + 7) ∧ User (phys + 7) ∧
      frameOf (phys + 7) = phys / 4096 := by
    unfold Present Writable User frameOf
    omega
  rw [PagingState.translation, translate_eq directory entry, if_pos ⟨present, flags.1⟩, flags.2.2.2]
  simp only [flags.2.1, flags.2.2.1, and_true]

/-- A page that does not. -/
theorem Walkable.translation_of_miss {other : Nat} (otherFits : other < 1048576)
    (miss : ¬(Present ((withTable s (page / 1024)).directory (other / 1024)) ∧
      (withTable s (page / 1024)).table (other / 1024) = tableFor s (page / 1024) ∧
      other % 1024 = page % 1024)) :
    (withEntry s page phys).translation other = (withTable s (page / 1024)).translation other := by
  have directory := @Walkable.withEntry_directory s page phys walkable (other / 1024) (by omega)
  by_cases present : Present ((withTable s (page / 1024)).directory (other / 1024))
  · have entry := @Walkable.withEntry_entry s page phys walkable other otherFits (by omega)
    rw [if_neg fun hit => miss ⟨present, hit⟩] at entry
    exact translate_congr directory entry
  · have before : (withTable s (page / 1024)).translation other = none := translate_of_absent present
    rw [before]
    apply translate_of_absent
    show ¬Present ((withEntry s page phys).directory (other / 1024))
    rwa [directory]

end WithEntry

section OnePage

variable (walkable : Walkable s (page / 1024)) (fits : page < 1048576)

include walkable fits

/-- A page of a new table has the word that the frame held. -/
theorem Walkable.newTable_translation {index : Nat} (absent : ¬Present (s.directory (page / 1024)))
    (inside : index < 1024) :
    (withTable s (page / 1024)).translation (1024 * (page / 1024) + index) = none ↔
      ¬Present (s.memory.load32 (wordAddress (s.handedOut / 4096) index)) := by
  have dirInside : page / 1024 < 1024 := by omega
  have here : (1024 * (page / 1024) + index) / 1024 = page / 1024 := by omega
  have place : (1024 * (page / 1024) + index) % 1024 = index := by omega
  obtain ⟨_, below⟩ := handedOut_aligned walkable.aligned
  have frame := (walkable.newEntry absent).2
  have number : tableFor s (page / 1024) = s.handedOut / 4096 := if_neg absent
  have apart := walkable.tableApart
  rw [← frame] at apart
  unfold physMemEnd at below
  have entry : (withTable s (page / 1024)).entry (1024 * (page / 1024) + index) =
      s.memory.load32 (wordAddress (s.handedOut / 4096) index) := by
    rw [withTable_of_absent absent, ← number, ← frame]
    have held := @pageEntry_setDirectory_self s.memory rootFrame (1024 * (page / 1024) + index)
      (page / 1024) (s.handedOut + 7) dirInside (by omega) apart here
    rwa [place] at held
  have present := walkable.present
  have directory : directoryEntry (withTable s (page / 1024)).memory rootFrame
      ((1024 * (page / 1024) + index) / 1024) = (withTable s (page / 1024)).directory (page / 1024) := by
    rw [here]
    rfl
  rw [PagingState.translation, translate_eq directory entry]
  simp [present]

variable (aligned : phys % 4096 = 0) (small : phys < 4294967296)

include aligned small

private theorem Walkable.undisturbing_of_maps (maps : MapsOnePage s (withEntry s page phys) page phys) :
    Undisturbing s page phys := by
  have dirInside : page / 1024 < 1024 := by omega
  refine ⟨fun present => ?_, fun absent index inside different => ?_, fun other inside different present shared => ?_⟩
  · have hit := walkable.translation_of_hit aligned small fits (walkable.present)
      (walkable.tableFrame) rfl
    rw [maps.1, withTable_of_present present] at hit
    simpa using hit
  · have unmapped : s.translation (1024 * (page / 1024) + index) = none :=
      translate_of_absent (by rwa [show (1024 * (page / 1024) + index) / 1024 = page / 1024 by omega])
    have miss := walkable.translation_of_miss aligned small
      (show 1024 * (page / 1024) + index < 1048576 by omega) (by omega)
    rw [maps.2 _ (by omega) (by omega), unmapped] at miss
    exact (walkable.newTable_translation fits absent inside).mp miss.symm
  · have here : (1024 * other + page % 1024) / 1024 = other := by omega
    have same := @withTable_directory_of_ne s (page / 1024) _ dirInside inside different
    have hit := walkable.translation_of_hit aligned small
      (show 1024 * other + page % 1024 < 1048576 by omega)
      (by rwa [here, same]) (by rw [here]; exact (congrArg frameOf same).trans shared) (by omega)
    rwa [maps.2 _ (by omega) (by omega), here, same] at hit

private theorem Walkable.maps_of_undisturbing (undisturbing : Undisturbing s page phys) :
    MapsOnePage s (withEntry s page phys) page phys := by
  have dirInside : page / 1024 < 1024 := by omega
  have rights : Writable ((withTable s (page / 1024)).directory (page / 1024)) ∧
      User ((withTable s (page / 1024)).directory (page / 1024)) := by
    by_cases present : Present (s.directory (page / 1024))
    · rw [withTable_of_present present]
      exact undisturbing.rights present
    · have aligned := (handedOut_aligned walkable.aligned).1
      rw [(walkable.newEntry present).1]
      unfold Writable User
      omega
  refine ⟨?_, fun other otherFits different => ?_⟩
  · rw [walkable.translation_of_hit aligned small fits (walkable.present)
      (walkable.tableFrame) rfl]
    simp [rights.1, rights.2]
  by_cases hit : Present ((withTable s (page / 1024)).directory (other / 1024)) ∧
      (withTable s (page / 1024)).table (other / 1024) = tableFor s (page / 1024) ∧
      other % 1024 = page % 1024
  · obtain ⟨present, table, same⟩ := hit
    have elsewhere : other / 1024 ≠ page / 1024 := by omega
    have kept := @withTable_directory_of_ne s (page / 1024) _ dirInside (show other / 1024 < 1024 by omega) elsewhere
    have place : 1024 * (other / 1024) + page % 1024 = other := by omega
    rw [walkable.translation_of_hit aligned small otherFits present table same, kept]
    rw [kept] at present
    have already := undisturbing.unshared (other / 1024) (by omega) elsewhere present
      ((congrArg frameOf kept).symm.trans table)
    rw [place] at already
    exact already.symm
  · rw [walkable.translation_of_miss aligned small otherFits hit]
    by_cases elsewhere : other / 1024 ≠ page / 1024 ∨ Present (s.directory (page / 1024))
    · exact walkable.translation dirInside otherFits elsewhere
    · obtain ⟨here, absent⟩ := not_or.mp elsewhere
      have here : other / 1024 = page / 1024 := not_not.mp here
      have place : 1024 * (page / 1024) + other % 1024 = other := by omega
      have unmapped : s.translation other = none := translate_of_absent (by rwa [here])
      have clean := undisturbing.clean absent (other % 1024) (by omega) (by omega)
      have seen := (walkable.newTable_translation fits absent (show other % 1024 < 1024 by omega)).mpr clean
      rw [place] at seen
      rw [seen, unmapped]

end OnePage

/-- The kernel's own page tables can be walked, as long as new tables are below 8 MiB. -/
theorem PageMap.walkable {base : Nat} (map : PageMap base s) (inside : index < 1024)
    (ready : Present (s.directory index) ∨ s.nextFreePage < 0x800000) : Walkable s index := by
  have low : tableFor s index < 2048 ∧ rootFrame < tableFor s index := by
    by_cases present : Present (s.directory index)
    · rw [tableFor, if_pos present]
      exact map.table_low inside present
    · have below := ready.resolve_left present
      have start := Nat.le_trans map.start map.grown
      rw [tableFor, if_neg present, (handedOut_available (by unfold physMemEnd; omega)).1]
      unfold rootFrame
      omega
  exact ⟨map.aligned, fun _ otherInside present => Nat.ne_of_gt (map.table_low otherInside present).2,
    Nat.ne_of_gt low.2, map.identity_translation (by decide), map.identity_translation low.1⟩

/-- The call ends, and it maps one page and changes no other exactly when a table that is
there grants both rights, a new one is clean, and no other entry shares the table. -/
theorem map_user_page_maps_one_iff (s : PagingState) (virt phys : Nat) (virtSmall : virt < 4294967296)
    (aligned : phys % 4096 = 0) (small : phys < 4294967296) (walkable : Walkable s (virt / 4096 / 1024)) :
    ∃ next, mapUserPage s virt phys = .ok next ∧
      (MapsOnePage s next (virt / 4096) phys ↔ Undisturbing s (virt / 4096) phys) := by
  have fits : virt / 4096 < 1048576 := by omega
  exact ⟨_, walkable.mapUserPage virtSmall aligned, walkable.undisturbing_of_maps fits aligned small,
    walkable.maps_of_undisturbing fits aligned small⟩

/-! A call after boot, over memory that holds the same byte everywhere. -/

/-- After `init_paging`, with free frames from 2 MiB on. -/
def pagingOver (byte : UInt8) : PagingState := pagingOn (fun _ => byte) 0x200000

private theorem pagingOver_map (byte : UInt8) : PageMap 0x200000 (pagingOver byte) :=
  pagingOn_map _ (by decide) (by decide)

private theorem pagingOver_absent (byte : UInt8) : ¬Present ((pagingOver byte).directory 640) :=
  fun present => absurd ((pagingOn_present _ _ (by decide)).mp present) (by decide)

private theorem pagingOver_walkable (byte : UInt8) : Walkable (pagingOver byte) 640 :=
  (pagingOver_map byte).walkable (by decide) (.inr (show 0x200000 < 0x800000 by decide))

private theorem pagingOver_frame (byte : UInt8) : (pagingOver byte).handedOut / 4096 = 512 := by
  have start : (pagingOver byte).nextFreePage = 0x200000 := rfl
  rw [(handedOut_available (start ▸ (by decide))).1, start]

/-- The words of the first free frame. -/
theorem pagingOver_word (byte : UInt8) (index : Nat) :
    (pagingOver byte).memory.load32 (wordAddress ((pagingOver byte).handedOut / 4096) index) =
      Memory.load32 (fun _ => byte) 0 := by
  rw [pagingOver_frame]
  unfold Memory.load32 wordAddress
  simp only [pagingOver]
  rw [pagingOn_untouched _ _ (by omega), pagingOn_untouched _ _ (by omega),
    pagingOn_untouched _ _ (by omega), pagingOn_untouched _ _ (by omega)]

theorem map_user_page_maps_one_zeros : ∃ next,
    mapUserPage (pagingOver 0) 0xA0000000 0x300000 = .ok next ∧
      MapsOnePage (pagingOver 0) next 0xA0000 0x300000 := by
  obtain ⟨next, ran, maps⟩ := map_user_page_maps_one_iff (pagingOver 0) 0xA0000000 0x300000 (by decide)
    (by decide) (by decide) (pagingOver_walkable 0)
  refine ⟨next, ran, maps.mpr ⟨fun present => absurd present (pagingOver_absent 0), ?_, ?_⟩⟩
  · intro _ index _ _
    rw [pagingOver_word]
    decide
  · intro other inside _ present shared
    have kernel := (pagingOn_present _ _ inside).mp present
    have table := (pagingOver_map 0).kernelTable kernel
    have number : tableFor (pagingOver 0) (0xA0000000 / 4096 / 1024) = 512 :=
      (if_neg (pagingOver_absent 0)).trans (pagingOver_frame 0)
    omega

/-- Over a frame full of ones, the neighbours of the page are mapped as well. -/
theorem map_user_page_maps_garbage : ¬∀ (s : PagingState) (virt phys : Nat), virt < 4294967296 →
    phys % 4096 = 0 → phys < 4294967296 → Walkable s (virt / 4096 / 1024) →
    ∃ next, mapUserPage s virt phys = .ok next ∧ MapsOnePage s next (virt / 4096) phys := by
  intro mapsOne
  obtain ⟨next, ran, maps⟩ := mapsOne (pagingOver 1) 0xA0000000 0x300000 (by decide) (by decide) (by decide)
    (pagingOver_walkable 1)
  have walked := @Walkable.mapUserPage (pagingOver 1) 0x300000 0xA0000000 (pagingOver_walkable 1)
    (by decide) (by decide)
  cases Except.ok.inj (ran.symm.trans walked)
  have undisturbing := (pagingOver_walkable 1).undisturbing_of_maps (by decide) (by decide) (by decide) maps
  have clean := undisturbing.clean (pagingOver_absent 1) 1 (by decide) (by decide)
  rw [pagingOver_word] at clean
  exact clean (by decide)

end ShedKernel.Paging
