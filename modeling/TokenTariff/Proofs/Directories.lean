import TokenTariff.Proofs.FileTree
/-!
# Making directories and writing inside of them

A directory that was made is there (`hasDirectory_of_makeEach`), and one that is there is not made
again. So a file can be written within directories once and again: the first time makes what is
missing, and every further time finds it (`writeWithin_of_hasRoom`).

* `Disk.HasRoom`: the paths at which a file can be written, with the directories around it.
-/

namespace TokenTariff
set_option autoImplicit false

namespace Disk
open FileTree

/-! ## Directories -/

theorem look_eq_notFound_iff {disk : Disk} {place : List String} :
    disk.look place = .error .notFound ↔
      ¬ Path.maxNameSize < (place.getLast?.getD "").utf8ByteSize ∧
        disk.root.find? place = none := by
  unfold look
  by_cases long : Path.maxNameSize < (place.getLast?.getD "").utf8ByteSize
  · simp [long]
  · rw [if_neg long]
    cases disk.root.find? place <;> simp [long]

theorem makeNew_eq_ok_iff {disk disk' : Disk} {path : String} :
    disk.makeNew path = .ok disk' ↔
      ∃ place, disk.locate path = .ok place ∧ disk.look place = .error .notFound ∧
        disk.putAt place (.directory []) = disk' := by
  unfold makeNew
  rw [bind_eq_ok_iff]
  refine exists_congr fun place => and_congr_right fun _ => ?_
  cases disk.look place with
  | ok tree => simp
  | error e => cases e <;> simp

theorem hasDirectory_iff {disk : Disk} {path : String} :
    disk.hasDirectory path = true ↔
      ∃ place, disk.locate path = .ok place ∧
        ¬ Path.maxNameSize < (place.getLast?.getD "").utf8ByteSize ∧
          disk.root.HasDirectory place := by
  have found : disk.hasDirectory path = true ↔
      ∃ entries, disk.find path = .ok (.directory entries) := by
    unfold hasDirectory
    split
    · next entries found => simp [found]
    · next other => exact ⟨nofun, fun ⟨entries, found⟩ => absurd found (other entries)⟩
  rw [found]
  unfold find
  simp only [bind_eq_ok_iff]
  constructor
  · rintro ⟨entries, place, located, tree, looked, h⟩
    obtain ⟨short, there⟩ := look_eq_ok_iff.1 looked
    cases tree with
    | file content =>
      simp only at h
      split at h <;> cases h
    | directory entries' => exact ⟨place, located, short, entries', there⟩
  · rintro ⟨place, located, short, entries, there⟩
    exact ⟨entries, place, located, .directory entries, look_eq_ok_iff.2 ⟨short, there⟩, rfl⟩

/-- A path that leads nowhere, from a directory that is there, has a last step. -/
theorem steps_of_vacant {disk : Disk} {path : String} {place : List String}
    (located : disk.locate path = .ok place) (vacant : disk.root.find? place = none) :
    Path.steps path ≠ [] := by
  intro none
  have nonempty := ne_empty_of_locate located
  cases absolute : Path.isAbsolute path with
  | false => exact Path.steps_ne_nil_of_relative nonempty absolute none
  | true =>
    obtain ⟨-, -, -, root⟩ := locate_eq_ok_iff.1 located
    rw [none, absolute] at root
    cases root
    cases vacant

theorem hasDirectory_of_makeNew {disk disk' : Disk} {path : String}
    (h : disk.makeNew path = .ok disk') : disk'.hasDirectory path = true := by
  obtain ⟨place, located, missing, rfl⟩ := makeNew_eq_ok_iff.1 h
  obtain ⟨short, none⟩ := look_eq_notFound_iff.1 missing
  have vacant : ¬ disk.root.HasDirectory place := by
    rintro ⟨entries, there⟩
    rw [none] at there
    cases there
  obtain ⟨around, name, rfl, there⟩ :=
    parent_of_locate located (steps_of_vacant located none) vacant
  exact hasDirectory_iff.2 ⟨_, locate_putAt vacant located, short, [], find?_putAt there⟩

theorem hasDirectory_of_make {disk disk' : Disk} {path : String} (h : disk.make path = .ok disk') :
    disk'.hasDirectory path = true := by
  unfold make at h
  split at h
  · next made =>
    cases h
    exact hasDirectory_of_makeNew made
  · split at h
    · next there =>
      cases h
      exact there
    · cases h

theorem hasDirectory_of_makeEach {disk disk' : Disk} {path : String} {around : List String}
    (h : disk.makeEach (path :: around) = (disk', .ok ())) : disk'.hasDirectory path = true := by
  rw [makeEach] at h
  split at h
  · next made =>
    cases h
    exact hasDirectory_of_make made
  · split at h
    · cases h
    · split at h
      · next made =>
        cases h
        exact hasDirectory_of_make made
      · cases h
  · cases h

theorem make_of_hasDirectory {disk : Disk} {path : String} (h : disk.hasDirectory path = true) :
    disk.make path = .ok disk := by
  obtain ⟨place, located, short, entries, there⟩ := hasDirectory_iff.1 h
  unfold make
  cases made : disk.makeNew path with
  | error e => exact if_pos h
  | ok disk' =>
    obtain ⟨place', located', missing, -⟩ := makeNew_eq_ok_iff.1 made
    cases located.symm.trans located'
    rw [look_eq_ok_iff.2 ⟨short, there⟩] at missing
    cases missing

theorem makeEach_of_hasDirectory {disk : Disk} {path : String} (h : disk.hasDirectory path = true)
    (around : List String) : disk.makeEach (path :: around) = (disk, .ok ()) := by
  rw [makeEach, make_of_hasDirectory h]

theorem hasDirectory_of_putAt {disk : Disk} {path : String} {place : List String} {tree : FileTree}
    (vacant : ¬ disk.root.HasDirectory place) (h : disk.hasDirectory path = true) :
    (disk.putAt place tree).hasDirectory path = true := by
  obtain ⟨place', located, short, there⟩ := hasDirectory_iff.1 h
  exact hasDirectory_iff.2
    ⟨place', locate_putAt vacant located, short, hasDirectory_putAt vacant there⟩

/-! ## Files within directories -/

/-- The directories around a path are there or can be made, and then the path leads to a place for a
file: its name is no longer than names may be, and it is not that of a directory. -/
def HasRoom (disk : Disk) (path : String) : Prop :=
  ∃ around place, disk.makeAround path = (around, .ok ()) ∧ around.locate path = .ok place ∧
    Path.isOfDirectory path = false ∧
      ¬ Path.maxNameSize < (place.getLast?.getD "").utf8ByteSize ∧ ¬ around.root.HasDirectory place

/-- A file can be written where there is room, and there is room for it afterwards. -/
theorem writeWithin_of_hasRoom {disk : Disk} {path : String} (h : disk.HasRoom path)
    (content : Bytes) :
    ∃ disk', disk.writeWithin path content = (disk', .ok ()) ∧ disk'.HasRoom path := by
  obtain ⟨around, place, made, located, file, short, vacant⟩ := h
  have written : around.write path content = .ok (around.putAt place (.file content)) :=
    write_eq_ok_iff.2 ⟨place, located, file, short, vacant, rfl⟩
  have again : (around.putAt place (.file content)).makeAround path =
      (around.putAt place (.file content), .ok ()) := by
    unfold makeAround at made ⊢
    -- the innermost directory is still there, so none is made again
    cases paths : (Path.lineage path).tail with
    | nil => rfl
    | cons inner outer =>
      rw [paths] at made
      have there := hasDirectory_of_makeEach made
      exact makeEach_of_hasDirectory (hasDirectory_of_putAt vacant there) outer
  have isFile : ¬ (around.putAt place (.file content)).root.HasDirectory place := by
    rintro ⟨entries, found⟩
    rw [find?_putAt_of_locate located file vacant] at found
    cases found
  refine ⟨around.putAt place (.file content), ?_, ?_⟩
  · rw [writeWithin, made]
    simp only [written]
  · exact ⟨_, place, again, locate_putAt vacant located, file, short, isFile⟩

end Disk

end TokenTariff
