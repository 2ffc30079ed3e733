-- Names and files of the data directory. No two names lead to one file, and making,
-- replacing and renaming files keeps it so; a file whose name an operation does not
-- mention has the content that it had.
import PageStore.Disk

namespace PageStore.Disk

/-- Every name leads to a file, and no two names to the same one. -/
structure Sound (d : Disk) : Prop where
  there : ∀ name file, d.names.get? name = some file → file < d.files.length
  apart : ∀ name other file, d.names.get? name = some file → d.names.get? other = some file →
    name = other

/-- Where a name leads, and what is there, is the same on both. -/
def SameAt (name : String) (d d' : Disk) : Prop :=
  d'.names.get? name = d.names.get? name ∧
    ∀ file, d.names.get? name = some file → d'.content file = d.content file

theorem SameAt.refl (name : String) (d : Disk) : SameAt name d d := ⟨rfl, fun _ _ => rfl⟩

theorem SameAt.trans {name : String} {d d' d'' : Disk} (h : SameAt name d d')
    (h' : SameAt name d' d'') : SameAt name d d'' :=
  ⟨h'.1.trans h.1, fun file hfile => (h'.2 file (h.1 ▸ hfile)).trans (h.2 file hfile)⟩

theorem SameAt.lookup? {name : String} {d d' : Disk} (h : SameAt name d d') :
    d'.lookup? name = d.lookup? name := by
  unfold Disk.lookup?
  rw [h.1]
  cases hname : d.names.get? name with
  | none => rfl
  | some file => exact congrArg some (h.2 file hname)

theorem sound_empty (directory : String) : Sound { directory } where
  there := fun _ _ h => nomatch h
  apart := fun _ _ _ h => nomatch h

/-! ## Making -/

/-- What making a file comes to: the name leads to it, and it is empty if it is new. -/
structure Creates (d : Disk) (name : String) (file : Nat) (d' : Disk) : Prop where
  sound : Sound d'
  leads : d'.names.get? name = some file
  others : ∀ other, other ≠ name → SameAt other d d'
  fresh : d.names.get? name = none → d'.content file = []
  kept : d.names.get? name ≠ none → d' = d

/-- A new name leads to a number that no other name leads to. -/
theorem Sound.create_new {d : Disk} (h : Sound d) (name : String) :
    Sound { d with names := d.names.insert name d.files.length, files := d.files ++ [[]] } := by
  have hnew : ∀ other file, d.names.get? other = some file → file ≠ d.files.length :=
    fun other file hfile => Nat.ne_of_lt (h.there other file hfile)
  constructor
  · intro other file hfile
    rw [List.length_append, List.length_singleton]
    rw [Assoc.get?_insert] at hfile
    split at hfile
    · cases hfile
      omega
    · have := h.there other file hfile
      omega
  · intro a b file ha hb
    rw [Assoc.get?_insert] at ha hb
    split at ha <;> split at hb
    · rename_i hna hnb
      exact hna.symm.trans hnb
    · cases ha
      exact absurd rfl (hnew b _ hb)
    · cases hb
      exact absurd rfl (hnew a _ ha)
    · exact h.apart a b file ha hb

theorem create_creates {d : Disk} (h : Sound d) (name : String) :
    Creates d name (d.create name).1 (d.create name).2 := by
  unfold create
  cases hname : d.names.get? name with
  | some file =>
    refine ⟨h, hname, fun other _ => SameAt.refl other d, fun hnone => ?_, fun _ => rfl⟩
    rw [hname] at hnone
    cases hnone
  | none =>
    refine ⟨h.create_new name, ?_, ?_, ?_, fun hn => absurd hname hn⟩
    · rw [Assoc.get?_insert, if_pos rfl]
    · intro other hne
      refine ⟨?_, ?_⟩
      · rw [Assoc.get?_insert, if_neg (fun h => hne h.symm)]
      · intro file hfile
        unfold content
        rw [List.getD_eq_getElem?_getD, List.getD_eq_getElem?_getD,
          List.getElem?_append_left (h.there other file hfile)]
    · intro _
      unfold content
      rw [List.getD_eq_getElem?_getD, List.getElem?_append_right (Nat.le_refl _), Nat.sub_self]
      rfl

/-- A file that was there, or has another name, is as it was. -/
theorem lookup?_create {d : Disk} (h : Sound d) {name other : String}
    (hor : other ≠ name ∨ d.lookup? other ≠ none) : (d.create name).2.lookup? other = d.lookup? other := by
  have hc := create_creates h name
  by_cases hne : other = name
  · subst hne
    have hthere : d.names.get? other ≠ none := by
      intro hnone
      refine hor.elim (fun hne => hne rfl) fun hsome => hsome ?_
      rw [Disk.lookup?, hnone]
      rfl
    rw [hc.kept hthere]
  · exact (hc.others other hne).lookup?

@[simp] theorem directory_create (d : Disk) (name : String) : (d.create name).2.directory = d.directory := by
  unfold create
  split <;> rfl

/-! ## Replacing and renaming -/

theorem Sound.setContent {d : Disk} (h : Sound d) (file : Nat) (bs : Bytes) :
    Sound (d.setContent file bs) := by
  refine ⟨?_, h.apart⟩
  intro name other hname
  rw [Disk.setContent, List.length_set]
  exact h.there name other hname

theorem sameAt_setContent {d : Disk} {name : String} {file : Nat}
    (h : d.names.get? name ≠ some file) (bs : Bytes) : SameAt name d (d.setContent file bs) := by
  refine ⟨rfl, ?_⟩
  intro other hother
  have hne : file ≠ other := fun heq => h (heq ▸ hother)
  unfold content Disk.setContent
  rw [List.getD_eq_getElem?_getD, List.getD_eq_getElem?_getD, List.getElem?_set_ne hne]

theorem Sound.put {d : Disk} (h : Sound d) (name : String) (bs : Bytes) : Sound (d.put name bs) :=
  (create_creates h name).sound.setContent _ bs

theorem sameAt_put {d : Disk} (h : Sound d) {name other : String} (hne : other ≠ name) (bs : Bytes) :
    SameAt other d (d.put name bs) := by
  have hc := create_creates h name
  refine (hc.others other hne).trans (sameAt_setContent ?_ bs)
  intro hother
  exact hne (hc.sound.apart other name _ hother hc.leads)

/-- Where the names lead after a file of one name got another one. -/
theorem get?_renamed (names : Assoc String Nat) (old new : String) (file : Nat) (other : String) :
    ((names.erase old).insert new file).get? other =
      if new = other then some file else if old = other then none else names.get? other := by
  rw [Assoc.get?_insert, Assoc.get?_erase]

theorem Sound.renamed {d : Disk} (h : Sound d) {old : String} {file : Nat}
    (hold : d.names.get? old = some file) (new : String) :
    Sound { d with names := (d.names.erase old).insert new file } := by
  -- Only the new name leads to the file of the old one.
  have honly : ∀ other, new ≠ other →
      ((d.names.erase old).insert new file).get? other ≠ some file := by
    intro other hne hother
    rw [get?_renamed, if_neg hne] at hother
    split at hother
    · cases hother
    · rename_i hne'
      exact hne' (h.apart old other file hold hother)
  constructor
  · intro other file' hfile
    rw [get?_renamed] at hfile
    split at hfile
    · cases hfile
      exact h.there old file hold
    · split at hfile
      · cases hfile
      · exact h.there other file' hfile
  · intro a b file' ha hb
    have hcases : ∀ other, ((d.names.erase old).insert new file).get? other = some file' →
        (new = other ∧ file' = file) ∨ d.names.get? other = some file' := by
      intro other hother
      rw [get?_renamed] at hother
      split at hother
      · rename_i heq
        exact .inl ⟨heq, (Option.some.inj hother).symm⟩
      · split at hother
        · cases hother
        · exact .inr hother
    rcases hcases a ha with ⟨hna, rfl⟩ | ha'
    · refine Classical.not_not.mp fun hab => ?_
      exact honly b (fun hnb => hab (hna.symm.trans hnb)) hb
    · rcases hcases b hb with ⟨hnb, rfl⟩ | hb'
      · refine Classical.not_not.mp fun hab => ?_
        exact honly a (fun hna => hab (hna.symm.trans hnb)) ha
      · exact h.apart a b file' ha' hb'

theorem rename_spec {d : Disk} (h : Sound d) (old new : String) :
    Sound (d.rename old new) ∧
      ∀ other, other ≠ old → other ≠ new → SameAt other d (d.rename old new) := by
  unfold rename
  cases hold : d.names.get? old with
  | none => exact ⟨h, fun other _ _ => SameAt.refl other d⟩
  | some file =>
    refine ⟨h.renamed hold new, ?_⟩
    intro other hold' hnew
    refine ⟨?_, fun _ _ => rfl⟩
    rw [get?_renamed, if_neg (fun heq => hnew heq.symm), if_neg (fun heq => hold' heq.symm)]

/-- What is written beside a file and then takes its name is what the file holds. -/
theorem lookup?_replaced {d : Disk} (h : Sound d) (old new : String) (bs : Bytes) :
    ((d.put old bs).rename old new).lookup? new = some bs := by
  have hc := create_creates h old
  have hold : (d.put old bs).names.get? old = some (d.create old).1 := hc.leads
  have hlt := hc.sound.there old _ hc.leads
  unfold rename
  rw [hold]
  simp only [lookup?, get?_renamed, if_true, Option.map_some, Option.some.injEq]
  change (((d.create old).2.files.set (d.create old).1 bs).getD (d.create old).1 []) = bs
  rw [List.getD_eq_getElem?_getD, List.getElem?_set_self hlt]
  rfl

@[simp] theorem directory_replaced (d : Disk) (old new : String) (bs : Bytes) :
    ((d.put old bs).rename old new).directory = d.directory := by
  have hput : (d.put old bs).directory = d.directory := directory_create d old
  unfold rename
  split
  · exact hput
  · exact hput

/-! ## Paths -/

/-- Where a path leads hangs on the directory alone. -/
theorem nameOf_congr {d d' : Disk} (h : d'.directory = d.directory) (path : String) :
    d'.nameOf path = d.nameOf path := by
  have hpath : d'.path path = d.path path := by
    unfold Disk.path
    rw [h]
  unfold nameOf
  rw [hpath]

theorem parts_of_no_slash {cs : List Char} (h : '/' ∉ cs) : parts cs = [cs] := by
  induction cs with
  | nil => rfl
  | cons c rest ih =>
    rw [List.mem_cons, not_or] at h
    have hc : c ≠ '/' := fun heq => h.1 heq.symm
    rw [parts, ih h.2]
    exact hc

/-- A path without slashes leads to the file of that name, if it leads anywhere. -/
theorem nameOf_of_no_slash {d : Disk} {path name : String} (hslash : '/' ∉ path.toList)
    (h : d.nameOf path = .ok name) : name = path := by
  simp only [nameOf] at h
  split at h
  · cases h
  · split at h
    · cases h
    · split at h
      · cases h
      · rw [parts_of_no_slash hslash] at h
        simp only [leadsTo] at h
        split at h
        · rename_i part hpart
          split at hpart
          · cases hpart
          · split at hpart
            · cases hpart
            · cases hpart
              cases h
              simp
        · cases h

/-- A path that leads somewhere is not long. -/
theorem length_le_of_nameOf {d : Disk} {path name : String} (h : d.nameOf path = .ok name) :
    (Utf8.encode path).length ≤ maxPathBytes := by
  have hpath : (Utf8.encode path).length ≤ (Utf8.encode (d.path path)).length := by
    unfold Disk.path
    split
    · exact Nat.le_refl _
    · split <;> simp only [Utf8.encode_append, List.length_append] <;> omega
  refine Nat.le_trans hpath ?_
  simp only [nameOf] at h
  split at h
  · cases h
  · split at h
    · cases h
    · split at h
      · cases h
      · rename_i hle
        exact Nat.not_lt.mp hle

theorem openFile_of_nameOf {d : Disk} {path name : String} (h : d.nameOf path = .ok name) :
    openFile path d = (.ok (d.create name).1, (d.create name).2) := by
  unfold openFile
  rw [Step.bind_of_ok (Step.state_run d), h]
  rfl

theorem openFile_of_error {d : Disk} {path : String} {e : FileFault} (h : d.nameOf path = .error e) :
    openFile path d = (.error (.file e), d) := by
  unfold openFile
  rw [Step.bind_of_ok (Step.state_run d), h]
  rfl

/-- Opening makes the file of a path that has no slashes, if anything is opened. -/
theorem openFile_spec {d : Disk} {path : String} (hslash : '/' ∉ path.toList) :
    (∃ e, openFile path d = (.error e, d)) ∨
      openFile path d = (.ok (d.create path).1, (d.create path).2) := by
  cases hname : d.nameOf path with
  | error e => exact .inl ⟨.file e, openFile_of_error hname⟩
  | ok name =>
    obtain rfl := nameOf_of_no_slash hslash hname
    exact .inr (openFile_of_nameOf hname)

end PageStore.Disk
