import WordMachine.Proofs.Command

/-!
# Loading images

An image is loaded as a whole or not at all.  One that does not fit, or that could not be read,
changes nothing.  One that fits takes the place of all that the region for programs held, so
that of several images only the last one that was loaded counts.
-/

namespace WordMachine

variable {Reason : Type}

/-! ## Attempts one after the other -/

section Attempts

variable {α : Type} {outcome : AddressSpace → α → Except (LoadFault Reason) Unit × AddressSpace}
  {Succeeds : α → Prop}

/-- An attempt that fails changes nothing, and one that succeeds leaves nothing of any before
it. -/
structure Replaces (outcome : AddressSpace → α → Except (LoadFault Reason) Unit × AddressSpace)
    (Succeeds : α → Prop) : Prop where
  fails : ∀ space attempt, ¬Succeeds attempt → (outcome space attempt).2 = space
  succeeds : ∀ space attempt, Succeeds attempt → (outcome space attempt).1 = .ok ()
  replaces : ∀ space earlier last, Succeeds last →
    (outcome (outcome space earlier).2 last).2 = (outcome space last).2

/-- The space after attempts that are made one after the other. -/
def afterAttempts (outcome : AddressSpace → α → Except (LoadFault Reason) Unit × AddressSpace)
    (space : AddressSpace) (attempts : List α) : AddressSpace :=
  attempts.foldl (fun space attempt => (outcome space attempt).2) space

namespace Replaces

variable (hreplaces : Replaces outcome Succeeds) {attempts earlier later : List α} {last : α}
  (space : AddressSpace)
include hreplaces

theorem afterAttempts_of_fails (hfails : ∀ attempt ∈ attempts, ¬Succeeds attempt) :
    afterAttempts outcome space attempts = space := by
  induction attempts with
  | nil => rfl
  | cons attempt rest ih =>
      obtain ⟨hattempt, hrest⟩ := List.forall_mem_cons.mp hfails
      change afterAttempts outcome (outcome space attempt).2 rest = space
      rw [hreplaces.fails space attempt hattempt, ih hrest]

theorem outcome_afterAttempts (hlast : Succeeds last) :
    (outcome (afterAttempts outcome space earlier) last).2 = (outcome space last).2 := by
  induction earlier generalizing space with
  | nil => rfl
  | cons attempt rest ih => exact (ih _).trans (hreplaces.replaces space attempt last hlast)

theorem afterAttempts_of_last (hlast : Succeeds last)
    (hlater : ∀ attempt ∈ later, ¬Succeeds attempt) :
    afterAttempts outcome space (earlier ++ last :: later) = (outcome space last).2 := by
  have hsplit : afterAttempts outcome space (earlier ++ last :: later) =
      afterAttempts outcome (outcome (afterAttempts outcome space earlier) last).2 later := by
    rw [afterAttempts, List.foldl_append]
    rfl
  rw [hsplit, hreplaces.afterAttempts_of_fails _ hlater, hreplaces.outcome_afterAttempts _ hlast]

end Replaces

end Attempts

/-- The file could be read, and what is in it fits. -/
def Machine.ImageFile.Fits (file : ImageFile Reason) : Prop :=
  ∃ image, file.contents = .ok image ∧ image.length ≤ Layout.romSize

namespace AddressSpace

variable {space : AddressSpace} {image first : List Byte}

theorem ext_byteAt {left right : AddressSpace} (hregisters : left.registers = right.registers)
    (hbytes : ∀ place, left.byteAt place = right.byteAt place)
    (hlength : left.romLength = right.romLength) : left = right := by
  cases left
  cases right
  obtain rfl := hregisters
  obtain rfl := hlength
  congr 1
  exact Buffer.ext_byteAt fun place _ => hbytes place

/-! ## The region for programs -/

/-- An image that fits leaves nothing of the one before it. -/
theorem withImage_withImage (hfirst : first.length ≤ Layout.romSize)
    (himage : image.length ≤ Layout.romSize) :
    (space.withImage first).withImage image = space.withImage image := by
  apply ext_byteAt
  · rfl
  · intro place
    rw [byteAt_withImage _ himage, byteAt_withImage _ himage, byteAt_withImage _ hfirst]
    by_cases hrom : Layout.romBase ≤ place ∧ place < Layout.spaceSize
    · rw [if_pos hrom, if_pos hrom]
    · rw [if_neg hrom, if_neg hrom, if_neg hrom]
  · rfl

/-- Where the program counter stands has no part in what loading does to memory. -/
theorem withImage_setPc (value : Word) :
    (space.setPc value).withImage image = (space.withImage image).setPc value := rfl

@[simp]
theorem setPc_setPc (first second : Word) :
    (space.setPc first).setPc second = space.setPc second := by
  simp only [setPc_eq_setRegister, setRegister_setRegister]

theorem byteAt_withImage_of_getElem? (hfits : image.length ≤ Layout.romSize) {index : Nat}
    {byte : Byte} (hbyte : image[index]? = some byte) :
    (space.withImage image).byteAt (Layout.romBase + index) = byte := by
  have hend : Layout.spaceSize = Layout.romBase + Layout.romSize := rfl
  have hindex : index < image.length := (List.getElem?_eq_some_iff.mp hbyte).1
  rw [byteAt_withImage _ hfits, if_pos (by omega), Nat.add_sub_cancel_left, hbyte,
    Option.getD_some]

theorem bytesFrom_withImage (hfits : image.length ≤ Layout.romSize) :
    (space.withImage image).bytesFrom Layout.romBase image.length = image := by
  have hspace : Layout.romBase + image.length ≤ Layout.spaceSize := Nat.add_le_add_left hfits _
  apply List.ext_getElem?
  intro index
  by_cases hindex : index < image.length
  · rw [getElem?_bytesFrom _ hspace hindex, List.getElem?_eq_getElem hindex,
      byteAt_withImage_of_getElem? hfits (List.getElem?_eq_getElem hindex)]
  · rw [List.getElem?_eq_none (by rw [length_bytesFrom _ hspace]; omega),
      List.getElem?_eq_none (by omega)]

/-- A copy of the region, as long as the image, is the image. -/
theorem romSnapshot_withImage (hfits : image.length ≤ Layout.romSize) {buffer : List Byte}
    (hbuffer : buffer.length = image.length) :
    (space.withImage image).romSnapshot buffer = .ok (image.length, image) := by
  have hcount : min buffer.length Layout.romSize = image.length := by omega
  have hnone : buffer.drop image.length = [] := List.drop_eq_nil_of_le (by omega)
  rw [romSnapshot, snapshot_eq _ (by decide), hcount, bytesFrom_withImage hfits, hnone,
    List.append_nil]

/-! ## What attempts to load leave -/

theorem loaded_of_fits (hfits : image.length ≤ Layout.romSize) :
    space.loaded image Reason = (.ok (), space.withImage image) :=
  if_neg (Nat.not_lt.mpr hfits)

theorem loaded_of_not_fits (hlong : Layout.romSize < image.length) :
    space.loaded image Reason = (.error (.tooLarge image.length Layout.romSize), space) :=
  if_pos hlong

theorem loadedFile_of_fits {path : String} (hfits : image.length ≤ Layout.romSize) :
    space.loadedFile (⟨path, .ok image⟩ : Machine.ImageFile Reason) =
      (.ok (), (space.withImage image).setPc (.ofNat 16 Layout.romBase)) := by
  have hread : (⟨path, .ok image⟩ : Machine.ImageFile Reason).read = .ok image := rfl
  simp only [loadedFile, hread, loaded_of_fits hfits]

theorem loadedFile_of_not_fits {path : String} (hlong : Layout.romSize < image.length) :
    space.loadedFile (⟨path, .ok image⟩ : Machine.ImageFile Reason) =
      (.error (.tooLarge image.length Layout.romSize), space) := by
  have hread : (⟨path, .ok image⟩ : Machine.ImageFile Reason).read = .ok image := rfl
  simp only [loadedFile, hread, loaded_of_not_fits hlong]

theorem replaces_loaded : Replaces (loaded · · Reason) (·.length ≤ Layout.romSize) where
  fails := fun _ _ hlong => by rw [loaded_of_not_fits (Nat.not_le.mp hlong)]
  succeeds := fun _ _ hfits => by rw [loaded_of_fits hfits]
  replaces := by
    intro space earlier last hlast
    rw [loaded_of_fits hlast, loaded_of_fits hlast]
    rcases Nat.lt_or_ge Layout.romSize earlier.length with hlong | hearlier
    · rw [loaded_of_not_fits hlong]
    · rw [loaded_of_fits hearlier]
      exact withImage_withImage hearlier hlast

theorem replaces_loadedFile :
    Replaces loadedFile fun file : Machine.ImageFile Reason => file.Fits where
  fails := by
    rintro space ⟨path, contents⟩ hunfit
    cases contents with
    | error reason => rfl
    | ok image =>
        have hlong : Layout.romSize < image.length :=
          Nat.not_le.mp fun hfits => hunfit ⟨image, rfl, hfits⟩
        rw [loadedFile_of_not_fits hlong]
  succeeds := by
    rintro space ⟨path, contents⟩ ⟨image, rfl, hfits⟩
    rw [loadedFile_of_fits hfits]
  replaces := by
    rintro space ⟨earlierPath, earlier⟩ ⟨path, contents⟩ ⟨image, rfl, hfits⟩
    rw [loadedFile_of_fits hfits, loadedFile_of_fits hfits]
    cases earlier with
    | error reason => rfl
    | ok first =>
        rcases Nat.lt_or_ge Layout.romSize first.length with hlong | hfirst
        · rw [loadedFile_of_not_fits hlong]
        · rw [loadedFile_of_fits hfirst]
          simp only [withImage_setPc, setPc_setPc, withImage_withImage hfirst hfits]

end AddressSpace

namespace Machine

variable {machine : Machine} {image : List Byte}

/-! ## Loading into a machine -/

/-- After an image was loaded into a machine its bytes are followed by zeros up to the end of
memory, and all else is as it was before. -/
structure Takes (machine : Machine) (image : List Byte) (after : Machine) : Prop where
  /-- Neither the accounts nor the table nor the switch has changed. -/
  rest : after = machine.withSpace after.space
  registers : after.space.registers = machine.space.registers
  romLength : after.space.romLength = image.length
  bytes : ∀ index byte, image[index]? = some byte →
    after.space.byteAt (Layout.romBase + index) = byte
  zeros : ∀ place, Layout.romBase + image.length ≤ place → place < Layout.spaceSize →
    after.space.byteAt place = 0
  below : ∀ place, place < Layout.romBase → after.space.byteAt place = machine.space.byteAt place
  snapshot : ∀ buffer : List Byte, buffer.length = image.length →
    after.space.romSnapshot buffer = .ok (image.length, image)

theorem takes_withImage (hfits : image.length ≤ Layout.romSize) :
    machine.Takes image (machine.withSpace (machine.space.withImage image)) where
  rest := rfl
  registers := rfl
  romLength := rfl
  bytes := fun index byte hbyte => AddressSpace.byteAt_withImage_of_getElem? hfits hbyte
  zeros := by
    intro place hpast hspace
    have hnone : image[place - Layout.romBase]? = none := List.getElem?_eq_none (by omega)
    rw [space_withSpace, AddressSpace.byteAt_withImage _ hfits, if_pos (by omega), hnone,
      Option.getD_none]
  below := by
    intro place hbelow
    rw [space_withSpace, AddressSpace.byteAt_withImage _ hfits, if_neg (by omega)]
  snapshot := fun buffer hbuffer => AddressSpace.romSnapshot_withImage hfits hbuffer

theorem load_of_fits (hfits : image.length ≤ Layout.romSize) :
    machine.load image Reason = .ok (.ok (), machine.withSpace (machine.space.withImage image),
      [.imageLoaded image.length]) := by
  rw [load, AddressSpace.loadImage_eq, if_neg (Nat.not_lt.mpr hfits)]
  rfl

theorem load_of_not_fits (hlong : Layout.romSize < image.length) :
    machine.load image Reason =
      .ok (.error (.tooLarge image.length Layout.romSize), machine, []) := by
  rw [load, AddressSpace.loadImage_eq, if_pos hlong]
  rfl

theorem loadFile_of_fits (path : String) (hfits : image.length ≤ Layout.romSize) :
    machine.loadFile (⟨path, .ok image⟩ : ImageFile Reason) =
      .ok (.ok (),
        (machine.withSpace (machine.space.withImage image)).setPc (.ofNat 16 Layout.romBase),
        [.imageLoaded image.length, .imageReady image.length]) := by
  have hread : (⟨path, .ok image⟩ : ImageFile Reason).read = .ok image := rfl
  simp only [loadFile, hread, load_of_fits hfits]
  rfl

theorem loadFile_of_not_fits (path : String) (hlong : Layout.romSize < image.length) :
    machine.loadFile (⟨path, .ok image⟩ : ImageFile Reason) =
      .ok (.error (.tooLarge image.length Layout.romSize), machine, []) := by
  have hread : (⟨path, .ok image⟩ : ImageFile Reason).read = .ok image := rfl
  simp only [loadFile, hread, load_of_not_fits hlong]
  rfl

/-! ## Several loads -/

section Attempts

variable {α : Type} {command : α → Command Reason} {Succeeds : α → Prop}
  {outcome : AddressSpace → α → Except (LoadFault Reason) Unit × AddressSpace}

/-- Of several attempts to load only the last one that succeeds counts: the machine is left as
that one alone would leave it, and as it was if there is none. -/
structure LeftByLast (machine : Machine) (command : α → Command Reason) (Succeeds : α → Prop)
    (attempts : List α) (reached : Machine) : Prop where
  last : ∀ earlier last later, attempts = earlier ++ last :: later → Succeeds last →
    (∀ attempt ∈ later, ¬Succeeds attempt) →
    ∃ performed, machine.perform (command last) = .ok performed ∧
      performed.answer = .loaded (.ok ()) ∧ performed.machine = reached
  none : (∀ attempt ∈ attempts, ¬Succeeds attempt) → reached = machine

/-- A command is answered with what comes of the attempt, and leaves the space after it. -/
def PerformsAs (command : α → Command Reason)
    (outcome : AddressSpace → α → Except (LoadFault Reason) Unit × AddressSpace) : Prop :=
  ∀ (machine : Machine) attempt, ∃ events, machine.perform (command attempt) =
    .ok ⟨.loaded (outcome machine.space attempt).1,
      machine.withSpace (outcome machine.space attempt).2, events⟩

theorem performsAs_loaded : PerformsAs .load (AddressSpace.loaded · · Reason) := by
  intro machine image
  obtain ⟨events, hload⟩ := machine.load_eq image Reason
  refine ⟨events, ?_⟩
  rw [perform, hload]
  rfl

theorem performsAs_loadedFile :
    PerformsAs .loadFile fun space (file : ImageFile Reason) => space.loadedFile file := by
  intro machine file
  obtain ⟨events, hload⟩ := machine.loadFile_eq file
  refine ⟨events, ?_⟩
  rw [perform, hload]
  rfl

theorem exists_run_attempts (hperforms : PerformsAs command outcome) (machine : Machine)
    (attempts : List α) :
    ∃ answers, machine.run (attempts.map command) =
      .ok (answers, machine.withSpace (afterAttempts outcome machine.space attempts)) := by
  induction attempts generalizing machine with
  | nil => exact ⟨[], rfl⟩
  | cons attempt rest ih =>
      obtain ⟨events, hperformed⟩ := hperforms machine attempt
      obtain ⟨answers, hrest⟩ := ih (machine.withSpace (outcome machine.space attempt).2)
      refine ⟨.loaded (outcome machine.space attempt).1 :: answers, ?_⟩
      rw [List.map_cons, run, hperformed, ok_bind, hrest]
      rfl

theorem exists_leftByLast (hperforms : PerformsAs command outcome)
    (hreplaces : Replaces outcome Succeeds) (machine : Machine) (attempts : List α) :
    ∃ answers reached, machine.run (attempts.map command) = .ok (answers, reached) ∧
      machine.LeftByLast command Succeeds attempts reached := by
  obtain ⟨answers, hrun⟩ := exists_run_attempts hperforms machine attempts
  refine ⟨answers, _, hrun, ?_, ?_⟩
  · rintro earlier last later rfl hlast hlater
    obtain ⟨events, hperformed⟩ := hperforms machine last
    refine ⟨_, hperformed, ?_, ?_⟩
    · rw [hreplaces.succeeds _ last hlast]
    · rw [hreplaces.afterAttempts_of_last _ hlast hlater]
  · intro hfails
    rw [hreplaces.afterAttempts_of_fails _ hfails]
    rfl

end Attempts

/-- What comes of loading images into a machine.  Files that are not read are not read for
reasons of any type. -/
structure LoadsImages (machine : Machine) (Reason : Type) : Prop where
  refused : ∀ image, Layout.romSize < image.length →
    machine.load image Reason = .ok (.error (.tooLarge image.length Layout.romSize), machine, [])
  placed : ∀ image, image.length ≤ Layout.romSize → ∃ after,
    machine.load image Reason = .ok (.ok (), after, [.imageLoaded image.length]) ∧
      machine.Takes image after
  last : ∀ images, ∃ answers reached,
    machine.run (images.map (.load : List Byte → Command Reason)) = .ok (answers, reached) ∧
      machine.LeftByLast (.load : List Byte → Command Reason) (·.length ≤ Layout.romSize)
        images reached

/-- What comes of loading the images in files into a machine. -/
structure LoadsFiles (machine : Machine) (Reason : Type) : Prop where
  unreadable : ∀ path (reason : Reason), machine.loadFile ⟨path, .error reason⟩ =
    .ok (.error (.unreadable path reason), machine, [])
  refused : ∀ path image, Layout.romSize < image.length →
    machine.loadFile (⟨path, .ok image⟩ : ImageFile Reason) =
      .ok (.error (.tooLarge image.length Layout.romSize), machine, [])
  placed : ∀ path image, image.length ≤ Layout.romSize → ∃ after,
    machine.load image Reason = .ok (.ok (), after, [.imageLoaded image.length]) ∧
      machine.loadFile (⟨path, .ok image⟩ : ImageFile Reason) =
        .ok (.ok (), after.setPc (.ofNat 16 Layout.romBase),
          [.imageLoaded image.length, .imageReady image.length])
  last : ∀ files : List (ImageFile Reason), ∃ answers reached,
    machine.run (files.map .loadFile) = .ok (answers, reached) ∧
      machine.LeftByLast .loadFile ImageFile.Fits files reached

/-- An image that fits takes the place of the whole region for programs, and one that does not
changes nothing.  A file is loaded as the image in it is, and moves the program counter to the
start of the image; if it cannot be read, nothing is changed.  Of several loads the last one
that succeeds counts, and no other. -/
theorem loads_whole_or_not_at_all (machine : Machine) (Reason : Type) :
    machine.LoadsImages Reason ∧ machine.LoadsFiles Reason := by
  constructor
  · exact {
      refused := fun image hlong => load_of_not_fits hlong
      placed := fun image hfits => ⟨_, load_of_fits hfits, takes_withImage hfits⟩
      last := exists_leftByLast performsAs_loaded AddressSpace.replaces_loaded machine }
  · exact {
      unreadable := fun path reason => rfl
      refused := fun path image hlong => loadFile_of_not_fits path hlong
      placed := fun path image hfits => ⟨_, load_of_fits hfits, loadFile_of_fits path hfits⟩
      last := exists_leftByLast performsAs_loadedFile AddressSpace.replaces_loadedFile machine }

end Machine

end WordMachine
