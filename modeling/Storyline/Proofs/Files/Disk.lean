import Storyline.Files.Disk

/-!
# Reading what was written

A text that was written to a disk is read back from the same path, whatever else lies there.

* `Tree.Extends`: folders keep their places and the names in them.
* `Disk.follow_of_extends`: a path then leads where it led.
* `Disk.read_write`: reading after writing.
-/

namespace Storyline

namespace Tree

variable {t u new : Tree} {name other : String} {names : List String}
  {entries entries' : List (String × Tree)}

theorem lookup_cons_of_ne (ne : other ≠ name) (t : Tree) (entries : List (String × Tree)) :
    ((name, t) :: entries).lookup other = entries.lookup other := by
  rw [List.lookup_cons, beq_false_of_ne ne]

theorem lookup_setEntry_self (name : String) (t : Tree) (entries : List (String × Tree)) :
    (setEntry name t entries).lookup name = some t := by
  induction entries with
  | nil => exact List.lookup_cons_self
  | cons entry entries ih =>
    rw [setEntry]
    split
    · rename_i same
      rw [same]
      exact List.lookup_cons_self
    · rename_i different
      rw [lookup_cons_of_ne (Ne.symm different)]
      exact ih

theorem lookup_setEntry_ne (ne : other ≠ name) (t : Tree) (entries : List (String × Tree)) :
    (setEntry name t entries).lookup other = entries.lookup other := by
  induction entries with
  | nil => exact lookup_cons_of_ne ne t []
  | cons entry entries ih =>
    obtain ⟨first, u⟩ := entry
    rw [setEntry]
    split
    · rename_i same
      rw [same, lookup_cons_of_ne ne, lookup_cons_of_ne ne]
    · rw [List.lookup_cons, List.lookup_cons, ih]

/-- Folders stay folders, and their entries stay there, with whatever contents. -/
def Extends (t u : Tree) : Prop :=
  ∀ names entries, t.at? names = some (.folder entries) →
    ∃ entries', u.at? names = some (.folder entries') ∧
      ∀ name, (entries.lookup name).isSome → (entries'.lookup name).isSome

theorem Extends.refl (t : Tree) : t.Extends t :=
  fun _ entries found => ⟨entries, found, fun _ there => there⟩

/-- An entry may be replaced by one that extends it; what is no folder may be replaced by
anything. -/
theorem extends_setEntry
    (kept : ∀ old, entries.lookup name = some old → old.Extends new) :
    (folder entries).Extends (folder (setEntry name new entries)) := by
  intro names entries' found
  cases names with
  | nil =>
    obtain rfl : entries = entries' := by simpa [at?] using found
    refine ⟨_, rfl, fun other there => ?_⟩
    by_cases same : other = name
    · rw [same, lookup_setEntry_self]
      rfl
    · rw [lookup_setEntry_ne same]
      exact there
  | cons step names =>
    rw [at?] at found
    by_cases same : step = name
    · subst same
      obtain ⟨old, at_step, below⟩ := Option.bind_eq_some_iff.1 found
      obtain ⟨entries', found', there⟩ := kept old at_step names entries' below
      refine ⟨entries', ?_, there⟩
      rw [at?, lookup_setEntry_self]
      exact found'
    · refine ⟨entries', ?_, fun _ there => there⟩
      rw [at?, lookup_setEntry_ne same]
      exact found

theorem extends_of_file (bytes : ByteArray) (u : Tree) : (file bytes).Extends u := by
  intro names entries found
  cases names <;> simp [at?] at found

/-- Something put in a folder, in no other folder's place, is found there and hides no folder. -/
theorem put_entry (above : t.at? names = some (.folder entries))
    (noFolder : ∀ entries', entries.lookup name ≠ some (.folder entries')) (new : Tree) :
    t.Extends (t.put (names ++ [name]) new) ∧
      (t.put (names ++ [name]) new).at? (names ++ [name]) = some new := by
  induction names generalizing t with
  | nil =>
    obtain rfl : t = .folder entries := by simpa [at?] using above
    constructor
    · apply extends_setEntry
      intro old at_name
      cases old with
      | file bytes => exact extends_of_file bytes _
      | folder entries' => exact absurd at_name (noFolder entries')
    · show (folder (setEntry name new entries)).at? [name] = some new
      rw [at?, lookup_setEntry_self]
      rfl
  | cons step names ih =>
    cases t with
    | file bytes => simp [at?] at above
    | folder siblings =>
      rw [at?] at above
      obtain ⟨old, at_step, below⟩ := Option.bind_eq_some_iff.1 above
      obtain ⟨extended, found⟩ := ih below
      have changed : (folder siblings).put (step :: names ++ [name]) new =
          folder (setEntry step (old.put (names ++ [name]) new) siblings) := by
        rw [List.cons_append, put, at_step]
        rfl
      rw [changed]
      constructor
      · apply extends_setEntry
        intro old' at_step'
        obtain rfl : old' = old := Option.some.inj (at_step'.symm.trans at_step)
        exact extended
      · rw [List.cons_append, at?, lookup_setEntry_self]
        exact found

theorem at?_append (t : Tree) (names more : List String) :
    t.at? (names ++ more) = (t.at? names).bind (·.at? more) := by
  induction names generalizing t with
  | nil => rfl
  | cons name names ih =>
    cases t with
    | file bytes => rfl
    | folder entries =>
      rw [List.cons_append, at?, at?]
      cases entries.lookup name with
      | none => rfl
      | some u => exact ih u

end Tree

namespace Disk

variable {root root' : Tree} {reached above parts more : List String}

theorem follow_append (root : Tree) (reached parts more : List String) :
    follow root reached (parts ++ more) =
      (follow root reached parts).bind fun above => follow root above more := by
  induction parts generalizing reached with
  | nil => rfl
  | cons name parts ih =>
    rw [List.cons_append, follow, follow]
    split
    · split
      · exact ih reached
      · split
        · exact ih reached.dropLast
        · split
          · rfl
          · split
            · exact ih (reached ++ [name])
            · rfl
    · rfl

theorem follow_of_extends (extended : root.Extends root')
    (followed : follow root reached parts = .ok above) :
    follow root' reached parts = .ok above := by
  induction parts generalizing reached with
  | nil => exact followed
  | cons name parts ih =>
    rw [follow] at followed ⊢
    split at followed
    · rename_i entries found
      obtain ⟨entries', found', there⟩ := extended reached entries found
      rw [found']
      simp only
      split at followed
      · rw [if_pos ‹_›]
        exact ih followed
      · rw [if_neg ‹_›]
        split at followed
        · rw [if_pos ‹_›]
          exact ih followed
        · rw [if_neg ‹_›]
          split at followed
          · exact absurd followed nofun
          · rw [if_neg ‹_›]
            split at followed
            · rw [if_pos (there name ‹_›)]
              exact ih followed
            · exact absurd followed nofun
    · exact absurd followed nofun

/-- Where a text may be written: in a file, there already or not, in a folder that is there. -/
structure Writable (d : Disk) (path : String) (above : List String) (name : String)
    (entries : List (String × Tree)) : Prop where
  noFault : pathFault? path = none
  ending : names path = (names path).dropLast ++ [name]
  followed : follow d.root (d.origin path) (names path).dropLast = .ok above
  folder : d.root.at? above = some (.folder entries)
  noDot : name ≠ "."
  noDots : name ≠ ".."
  noSlash : endsInSlash path = false
  short : name.utf8ByteSize ≤ 255
  noFolder : ∀ entries', entries.lookup name ≠ some (.folder entries')

theorem write_cases {d d' : Disk} {path text : String} (written : d.write path text = .ok d') :
    ∃ above name entries, d.Writable path above name entries ∧
      d' = { d with root := d.root.put (above ++ [name]) (.file text.toUTF8) } := by
  unfold write at written
  split at written
  · exact absurd written nofun
  rename_i noFault
  simp only at written
  cases followed : follow d.root (d.origin path) (names path).dropLast with
  | error fault =>
    rw [followed] at written
    exact absurd written nofun
  | ok above =>
    simp only [followed, bind, Except.bind] at written
    split at written
    · rename_i entries name folder last
      split at written
      · exact absurd written nofun
      rename_i proper
      split at written
      · exact absurd written nofun
      rename_i short
      split at written
      · exact absurd written nofun
      rename_i noFolder
      simp only [List.mem_cons, List.not_mem_nil, or_false, Bool.or_eq_true, decide_eq_true_eq,
        not_or, Bool.not_eq_true] at proper
      obtain ⟨front, split⟩ := List.getLast?_eq_some_iff.1 last
      refine ⟨above, name, entries, ?_, (Except.ok.inj written).symm⟩
      exact
        { noFault := Option.eq_none_iff_forall_ne_some.2 noFault
          ending := by rw [split, List.dropLast_concat]
          followed := followed
          folder := folder
          noDot := proper.1.1
          noDots := proper.1.2
          noSlash := proper.2
          short := Nat.le_of_not_lt short
          noFolder := noFolder }
    · exact absurd written nofun
    · exact absurd written nofun

theorem lookAt_eq {d : Disk} {path : String} {reached : List String} {t : Tree}
    (noFault : pathFault? path = none)
    (followed : follow d.root (d.origin path) (steps path) = .ok reached)
    (found : d.root.at? reached = some t) : d.lookAt path = .ok t := by
  simp only [lookAt, noFault, followed, bind, Except.bind, found]

theorem textOfBytes_toUTF8 (text : String) : textOfBytes text.toUTF8 = .ok text := by
  have back : String.fromUTF8? text.toUTF8 = some text := dif_pos text.isValidUTF8
  rw [textOfBytes, back]

theorem read_write {d d' : Disk} {path text : String} (written : d.write path text = .ok d') :
    d'.read path = .ok text := by
  obtain ⟨above, name, entries, h, rfl⟩ := write_cases written
  obtain ⟨extended, found⟩ := Tree.put_entry h.folder h.noFolder (.file text.toUTF8)
  clear written
  generalize d.root.put (above ++ [name]) (.file text.toUTF8) = root at extended found ⊢
  obtain ⟨entries', folder, -⟩ := extended above entries h.folder
  have there : (entries'.lookup name).isSome := by
    rw [Tree.at?_append, folder, Option.bind_some, Tree.at?] at found
    obtain ⟨t, at_name, -⟩ := Option.bind_eq_some_iff.1 found
    rw [at_name]
    rfl
  have last : follow root above [name] = .ok (above ++ [name]) := by
    rw [follow, folder]
    simp only [if_neg h.noDot, if_neg h.noDots, if_neg (Nat.not_lt.2 h.short), there, if_true]
    rfl
  have whole : follow root (d.origin path) (steps path) = .ok (above ++ [name]) := by
    have slashless : ¬endsInSlash path = true := Bool.eq_false_iff.1 h.noSlash
    rw [steps, if_neg slashless, h.ending, follow_append, follow_of_extends extended h.followed]
    exact last
  have seen : lookAt { d with root := root } path = .ok (.file text.toUTF8) :=
    lookAt_eq h.noFault whole found
  rw [read, seen]
  exact textOfBytes_toUTF8 text

end Disk

end Storyline
