import TokenTariff.Dictionary
import TokenTariff.FileTree
import TokenTariff.Proofs.Results
/-!
# Reading what was written

A file that was written is there, with the content that was written (`find_of_write`). Writing
replaces no directory, so every path that led through directories before leads to the same place
afterwards (`locate_of_keeps`).
-/

namespace TokenTariff
set_option autoImplicit false

namespace FileTree

/-! ## Places -/

theorem lookup_setEntry (name wanted : String) (tree : FileTree) :
    ∀ entries : Entries, (setEntry name tree entries).lookup wanted =
      if wanted = name then some tree else entries.lookup wanted
  | [] => by
    rw [setEntry, Dictionary.lookup_cons_name]
  | (other, kept) :: rest => by
    rw [setEntry, Dictionary.lookup_cons_name]
    by_cases same : name = other
    · rw [if_pos same, Dictionary.lookup_cons_name, same]
      by_cases h : wanted = other
      · rw [if_pos h, if_pos h]
      · rw [if_neg h, if_neg h, if_neg h]
    · rw [if_neg same, Dictionary.lookup_cons_name, lookup_setEntry name wanted tree rest]
      by_cases h : wanted = other
      · rw [if_pos h, if_pos h, if_neg fun e => same (e.symm.trans h)]
      · rw [if_neg h, if_neg h]

theorem find?_append :
    ∀ (tree : FileTree) (a b : List String),
      tree.find? (a ++ b) = (tree.find? a).bind (find? · b)
  | tree, [], b => by simp [find?]
  | file _, _ :: _, b => by simp [find?]
  | directory entries, name :: a, b => by
    rw [List.cons_append, find?, find?]
    cases entries.lookup name with
    | none => rfl
    | some tree => exact find?_append tree a b

/-- Whether there is a directory at a place. -/
def HasDirectory (tree : FileTree) (place : List String) : Prop :=
  ∃ entries, tree.find? place = some (directory entries)

theorem hasDirectory_of_append {tree : FileTree} {a b : List String} (nonempty : b ≠ [])
    {found : FileTree} (h : tree.find? (a ++ b) = some found) : tree.HasDirectory a := by
  rw [find?_append, Option.bind_eq_some_iff] at h
  obtain ⟨around, there, inside⟩ := h
  cases around with
  | file content =>
    cases b with
    | nil => exact absurd rfl nonempty
    | cons name b => cases inside
  | directory entries => exact ⟨entries, there⟩

theorem HasDirectory.of_append {tree : FileTree} {a b : List String}
    (h : tree.HasDirectory (a ++ b)) : tree.HasDirectory a := by
  obtain ⟨entries, there⟩ := h
  cases b with
  | nil => exact ⟨entries, by rwa [List.append_nil] at there⟩
  | cons name b => exact hasDirectory_of_append (List.cons_ne_nil _ _) there

theorem hasDirectory_cons_iff {entries : Entries} {name : String} {place : List String} :
    (directory entries).HasDirectory (name :: place) ↔
      ∃ tree, entries.lookup name = some tree ∧ tree.HasDirectory place := by
  unfold HasDirectory
  rw [find?]
  cases entries.lookup name <;> simp

theorem find?_changeAt {change : Entries → Entries} {entries : Entries} :
    ∀ {tree : FileTree} {place : List String}, tree.find? place = some (directory entries) →
      (tree.changeAt change place).find? place = some (directory (change entries))
  | file _, [], h => by cases h
  | file _, _ :: _, h => by cases h
  | directory _, [], h => by
    cases h
    rfl
  | directory others, name :: place, h => by
    rw [find?] at h
    rw [changeAt]
    cases there : others.lookup name with
    | none => rw [there] at h; cases h
    | some tree =>
      simp only [there] at h
      simp only [find?, lookup_setEntry, if_true]
      exact find?_changeAt h

/-- Putting something where there is no directory takes no directory away. -/
theorem hasDirectory_changeAt {name : String} {added : FileTree} :
    ∀ {tree : FileTree} {around place : List String},
      ¬ tree.HasDirectory (around ++ [name]) → tree.HasDirectory place →
        (tree.changeAt (setEntry name added) around).HasDirectory place
  | file _, [], _, _, h => h
  | file _, _ :: _, _, _, h => h
  | directory entries, around, [], _, _ => by
    cases around with
    | nil => exact ⟨_, rfl⟩
    | cons d around =>
      rw [changeAt]
      cases entries.lookup d with
      | none => exact ⟨_, rfl⟩
      | some tree => exact ⟨_, rfl⟩
  | directory entries, [], n :: place, vacant, h => by
    have ne : n ≠ name := by
      rintro rfl
      exact vacant (HasDirectory.of_append (a := [n]) (b := place) h)
    rw [hasDirectory_cons_iff] at h
    rw [changeAt, hasDirectory_cons_iff, lookup_setEntry, if_neg ne]
    exact h
  | directory entries, d :: around, n :: place, vacant, h => by
    rw [changeAt]
    cases there : entries.lookup d with
    | none => exact h
    | some tree =>
      rw [hasDirectory_cons_iff] at h
      simp only [hasDirectory_cons_iff, lookup_setEntry]
      by_cases same : n = d
      · obtain ⟨tree', there', inner⟩ := h
        rw [same, there] at there'
        cases there'
        have vacant' : ¬ tree.HasDirectory (around ++ [name]) := fun taken =>
          vacant (hasDirectory_cons_iff.2 ⟨tree, there, taken⟩)
        exact ⟨_, if_pos same, hasDirectory_changeAt vacant' inner⟩
      · rw [if_neg same]
        exact h

end FileTree

/-! ## Paths -/

namespace Path

theorem exists_ne_nil_of_divide :
    ∀ {chars : List Char}, chars ≠ [] → chars.getLast? ≠ some '/' →
      ∃ name ∈ divide chars, name ≠ []
  | [], h, _ => absurd rfl h
  | c :: rest, _, notSlash => by
    rw [divide]
    split
    · next slash =>
      have more : rest ≠ [] := by
        rintro rfl
        exact notSlash (by rw [slash]; rfl)
      have last : rest.getLast? ≠ some '/' := by
        obtain ⟨d, rest, rfl⟩ := List.exists_cons_of_ne_nil more
        rwa [List.getLast?_cons_cons] at notSlash
      obtain ⟨name, mem, nonempty⟩ := exists_ne_nil_of_divide more last
      exact ⟨name, List.mem_cons_of_mem _ mem, nonempty⟩
    · split
      · exact ⟨[c], List.mem_cons_self, List.cons_ne_nil _ _⟩
      · next name names _ => exact ⟨c :: name, List.mem_cons_self, List.cons_ne_nil _ _⟩

theorem steps_ne_nil_of_divide {path : String} {name : List Char}
    (mem : name ∈ divide path.toList) (nonempty : name ≠ []) : steps path ≠ [] := by
  have step : (Step.ofText? name).isSome := by
    unfold Step.ofText?
    rw [if_neg nonempty]
    split
    · rfl
    · split <;> rfl
  obtain ⟨step, isStep⟩ := Option.isSome_iff_exists.1 step
  exact List.ne_nil_of_mem (List.mem_filterMap.2 ⟨name, mem, isStep⟩)

/-- A path that may be that of a file has a last step. -/
theorem steps_ne_nil {path : String} (nonempty : path ≠ "") (file : isOfDirectory path = false) :
    steps path ≠ [] := by
  have chars : path.toList ≠ [] := by simpa using nonempty
  have last : path.toList.getLast? ≠ some '/' := by simpa [isOfDirectory] using file
  obtain ⟨name, mem, ne⟩ := exists_ne_nil_of_divide chars last
  exact steps_ne_nil_of_divide mem ne

/-- So has a path that begins anywhere but at the root. -/
theorem steps_ne_nil_of_relative {path : String} (nonempty : path ≠ "")
    (relative : isAbsolute path = false) : steps path ≠ [] := by
  have chars : path.toList ≠ [] := by simpa using nonempty
  obtain ⟨c, rest, split⟩ := List.exists_cons_of_ne_nil chars
  have notSlash : c ≠ '/' := by simpa [isAbsolute, split] using relative
  have first : ∃ name ∈ divide path.toList, name ≠ [] := by
    rw [split, divide, if_neg notSlash]
    cases divide rest with
    | nil => exact ⟨[c], by simp⟩
    | cons name names => exact ⟨c :: name, by simp⟩
  obtain ⟨name, mem, ne⟩ := first
  exact steps_ne_nil_of_divide mem ne

end Path

namespace Disk
open FileTree

theorem look_eq_ok_iff {disk : Disk} {place : List String} {tree : FileTree} :
    disk.look place = .ok tree ↔
      ¬ Path.maxNameSize < (place.getLast?.getD "").utf8ByteSize ∧
        disk.root.find? place = some tree := by
  unfold look
  split
  · next long => simp [long]
  · next short => cases disk.root.find? place <;> simp [short]

theorem step_eq_ok_iff {disk : Disk} {place place' : List String} {step : Path.Step} :
    disk.step place step = .ok place' ↔
      ¬ Path.maxNameSize < (place.getLast?.getD "").utf8ByteSize ∧
        disk.root.HasDirectory place ∧ step.apply place = place' := by
  unfold Disk.step HasDirectory
  cases found : disk.look place with
  | error e =>
    simp only [reduceCtorEq, false_iff, not_and]
    rintro short ⟨entries, there⟩ -
    rw [look_eq_ok_iff.2 ⟨short, there⟩] at found
    cases found
  | ok tree =>
    obtain ⟨short, there⟩ := look_eq_ok_iff.1 found
    cases tree with
    | file content => simp [there]
    | directory entries => simp [there, short]

/-- Steps lead on where all directories are kept. -/
theorem foldlM_step_of_keeps {disk disk' : Disk}
    (keeps : ∀ place, disk.root.HasDirectory place → disk'.root.HasDirectory place)
    {place : List String} :
    ∀ {steps : List Path.Step} {start : List String},
      steps.foldlM disk.step start = .ok place → steps.foldlM disk'.step start = .ok place
  | [], start, h => h
  | step :: steps, start, h => by
    rw [List.foldlM_cons, bind_eq_ok_iff] at h ⊢
    obtain ⟨next, first, rest⟩ := h
    obtain ⟨short, there, e⟩ := step_eq_ok_iff.1 first
    exact ⟨next, step_eq_ok_iff.2 ⟨short, keeps _ there, e⟩, foldlM_step_of_keeps keeps rest⟩

/-- Which paths lead to a place: those that name no more than a path may, step by step. -/
theorem locate_eq_ok_iff {disk : Disk} {path : String} {place : List String} :
    disk.locate path = .ok place ↔
      path.toList.contains '\x00' = false ∧ path ≠ "" ∧ ¬ Path.maxSize < path.utf8ByteSize ∧
        (Path.steps path).foldlM disk.step (if Path.isAbsolute path then [] else disk.start) =
          .ok place := by
  unfold locate
  by_cases nul : path.toList.contains '\x00' = true
  · simp only [nul, if_true, reduceCtorEq, Bool.true_eq_false, false_and]
  rw [if_neg nul, Bool.eq_false_iff.2 nul]
  by_cases empty : path.isEmpty = true
  · simp [String.isEmpty_iff.1 empty]
  rw [if_neg empty]
  have nonempty : path ≠ "" := fun h => empty (String.isEmpty_iff.2 h)
  by_cases long : Path.maxSize < path.utf8ByteSize
  · simp [long]
  · simp [long, nonempty]

theorem locate_of_keeps {disk disk' : Disk} (start : disk'.start = disk.start)
    (keeps : ∀ place, disk.root.HasDirectory place → disk'.root.HasDirectory place)
    {path : String} {place : List String} (h : disk.locate path = .ok place) :
    disk'.locate path = .ok place := by
  obtain ⟨noNul, nonempty, short, steps⟩ := locate_eq_ok_iff.1 h
  rw [← start] at steps
  exact locate_eq_ok_iff.2 ⟨noNul, nonempty, short, foldlM_step_of_keeps keeps steps⟩

theorem ne_empty_of_locate {disk : Disk} {path : String} {place : List String}
    (h : disk.locate path = .ok place) : path ≠ "" :=
  (locate_eq_ok_iff.1 h).2.1

/-- Where the last step leads to no directory, it has been taken from one. -/
theorem parent_of_locate {disk : Disk} {path : String} {place : List String}
    (h : disk.locate path = .ok place) (steps : Path.steps path ≠ [])
    (vacant : ¬ disk.root.HasDirectory place) :
    ∃ around name, place = around ++ [name] ∧ disk.root.HasDirectory around := by
  obtain ⟨-, -, -, h⟩ := locate_eq_ok_iff.1 h
  rw [← List.dropLast_concat_getLast steps, List.foldlM_append, bind_eq_ok_iff] at h
  obtain ⟨around, -, last⟩ := h
  rw [List.foldlM_cons, bind_eq_ok_iff] at last
  obtain ⟨place', last, e⟩ := last
  cases e
  obtain ⟨-, there, e⟩ := step_eq_ok_iff.1 last
  cases step : (Path.steps path).getLast steps with
  | stay =>
    rw [step, Path.Step.apply] at e
    exact absurd (e ▸ there) vacant
  | up =>
    rw [step, Path.Step.apply] at e
    refine absurd ?_ vacant
    rw [← e]
    rcases List.eq_nil_or_concat around with rfl | ⟨outer, name, rfl⟩
    · exact there
    · rw [List.concat_eq_append] at there ⊢
      rw [List.dropLast_concat]
      exact there.of_append
  | enter name =>
    rw [step, Path.Step.apply] at e
    exact ⟨around, name, e.symm, there⟩

theorem putAt_append (disk : Disk) (around : List String) (name : String) (tree : FileTree) :
    disk.putAt (around ++ [name]) tree =
      { disk with root := disk.root.changeAt (setEntry name tree) around } := by
  rw [putAt, List.getLast?_concat, List.dropLast_concat]

theorem start_putAt (disk : Disk) (place : List String) (tree : FileTree) :
    (disk.putAt place tree).start = disk.start := by
  unfold putAt
  split <;> rfl

/-- Where there is no directory, something can be put without taking a directory away. -/
theorem hasDirectory_putAt {disk : Disk} {place place' : List String} {tree : FileTree}
    (vacant : ¬ disk.root.HasDirectory place) (kept : disk.root.HasDirectory place') :
    (disk.putAt place tree).root.HasDirectory place' := by
  rcases List.eq_nil_or_concat place with rfl | ⟨around, name, rfl⟩
  · exact kept
  · rw [List.concat_eq_append] at vacant ⊢
    rw [putAt_append]
    exact hasDirectory_changeAt vacant kept

theorem find?_putAt {disk : Disk} {around : List String} {name : String} {tree : FileTree}
    (there : disk.root.HasDirectory around) :
    (disk.putAt (around ++ [name]) tree).root.find? (around ++ [name]) = some tree := by
  obtain ⟨entries, there⟩ := there
  rw [putAt_append, find?_append, find?_changeAt there, Option.bind_some, find?, lookup_setEntry,
    if_pos rfl]
  rfl

/-- A path leads to the same place when something is put where there is no directory. -/
theorem locate_putAt {disk : Disk} {place place' : List String} {tree : FileTree} {path : String}
    (vacant : ¬ disk.root.HasDirectory place) (located : disk.locate path = .ok place') :
    (disk.putAt place tree).locate path = .ok place' :=
  locate_of_keeps (start_putAt disk place tree) (fun _ => hasDirectory_putAt vacant) located

/-- What is put at the place of a file is there. -/
theorem find?_putAt_of_locate {disk : Disk} {path : String} {place : List String} {tree : FileTree}
    (located : disk.locate path = .ok place) (file : Path.isOfDirectory path = false)
    (vacant : ¬ disk.root.HasDirectory place) :
    (disk.putAt place tree).root.find? place = some tree := by
  have steps := Path.steps_ne_nil (ne_empty_of_locate located) file
  obtain ⟨around, name, rfl, there⟩ := parent_of_locate located steps vacant
  exact find?_putAt there

/-- Writing puts a file at the place of a path, if that is not the place of a directory. -/
theorem write_eq_ok_iff {disk disk' : Disk} {path : String} {content : Bytes} :
    disk.write path content = .ok disk' ↔
      ∃ place, disk.locate path = .ok place ∧ Path.isOfDirectory path = false ∧
        ¬ Path.maxNameSize < (place.getLast?.getD "").utf8ByteSize ∧
          ¬ disk.root.HasDirectory place ∧ disk.putAt place (.file content) = disk' := by
  unfold write
  rw [bind_eq_ok_iff]
  refine exists_congr fun place => and_congr_right fun _ => ?_
  by_cases file : Path.isOfDirectory path = true
  · simp [file]
  by_cases long : Path.maxNameSize < (place.getLast?.getD "").utf8ByteSize
  · simp [file, look, long]
  · unfold HasDirectory
    rw [look, if_neg long]
    cases there : disk.root.find? place with
    | none => simp [file, long]
    | some tree => cases tree <;> simp [file, long]

/-- A file that was written is there, with what was written. -/
theorem find_of_write {disk disk' : Disk} {path : String} {content : Bytes}
    (h : disk.write path content = .ok disk') : disk'.find path = .ok (.file content) := by
  obtain ⟨place, located, file, short, vacant, rfl⟩ := write_eq_ok_iff.1 h
  have there : (disk.putAt place (.file content)).root.find? place = some (.file content) :=
    find?_putAt_of_locate located file vacant
  rw [find, locate_putAt vacant located]
  simp only [bind, Except.bind, look_eq_ok_iff.2 ⟨short, there⟩, file, if_false, Bool.false_eq_true]

theorem has_of_read {disk : Disk} {path : String} {content : Bytes}
    (h : disk.read path = .ok content) : disk.has path = true := by
  obtain ⟨tree, found, -⟩ := bind_eq_ok_iff.1 h
  rw [has, found]
  rfl

theorem read_of_find {disk : Disk} {path : String} {content : Bytes}
    (h : disk.find path = .ok (.file content)) :
    disk.has path = true ∧ disk.read path = .ok content := by
  rw [has, read, h]
  exact ⟨rfl, rfl⟩

theorem find_of_writeWithin {disk disk' : Disk} {path : String} {content : Bytes}
    (h : disk.writeWithin path content = (disk', .ok ())) :
    disk'.find path = .ok (.file content) := by
  unfold writeWithin at h
  split at h
  · cases h
  · split at h
    · cases h
    · next written =>
      cases h
      exact find_of_write written

end Disk

end TokenTariff
