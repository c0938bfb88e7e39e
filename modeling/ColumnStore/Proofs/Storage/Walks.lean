/-
Walks on disk along the names of a path.

A path that `Fits` is one whose text a disk takes. A walk along its names goes through folders that have been made
(`walkFrom_made`); where they have not, it ends with the fault that tells whether a file or nothing is in the way
(`Housed.walkFrom_unmade`). Making room for a file makes the folders above it, and no others (`prepare_spell`).
-/
import ColumnStore.Proofs.Storage.Reachable
import ColumnStore.Proofs.Storage.Spelling

namespace ColumnStore.Storage

/-- a path that a disk takes: its names are short and have no NUL, and its text has room behind that of the top -/
structure Fits (top : Nat) (path : List String) : Prop where
  clean : ∀ n ∈ path, '\x00' ∉ n.toList
  short : ∀ n ∈ path, n.utf8ByteSize ≤ Component.longest
  size : top + (Path.spell path).utf8ByteSize ≤ Path.longest

instance (top : Nat) (path : List String) : Decidable (Fits top path) :=
  decidable_of_iff ((∀ n ∈ path, '\x00' ∉ n.toList) ∧ (∀ n ∈ path, n.utf8ByteSize ≤ Component.longest) ∧
      top + (Path.spell path).utf8ByteSize ≤ Path.longest)
    ⟨fun ⟨clean, short, size⟩ => ⟨clean, short, size⟩, fun h => ⟨h.clean, h.short, h.size⟩⟩

/-- what leads to a path that fits does so too -/
theorem Fits.above {top : Nat} {path above : List String} (h : Fits top path) (habove : above <+: path) : Fits top above where
  clean n hn := h.clean n (habove.subset hn)
  short n hn := h.short n (habove.subset hn)
  size := (Nat.add_le_add_left (Path.utf8ByteSize_spell_le habove) top).trans h.size

namespace Directory

variable {d : Directory} {path : List String}

/-! ## Walks along names -/

theorem walkFrom_append (d : Directory) (place : Place) (steps more : List Component) :
    d.walkFrom place (steps ++ more) = d.walkFrom place steps >>= fun place => d.walkFrom place more := by
  induction steps generalizing place with
  | nil => rfl
  | cons step steps ih =>
    rw [List.cons_append, walkFrom, walkFrom]
    cases d.occupant place with
    | nothing => rfl
    | file f => rfl
    | folder =>
      dsimp only
      split
      · rfl
      · exact ih _

theorem occupant_place_eq_folder_iff {names : List String} :
    d.occupant (Path.place names) = .folder ↔ d.folders.contains (Path.place names) = true := by
  rw [occupant_eq_folder_iff, Path.any_isName_place]
  cases names with
  | nil => simp [Path.place, Folders.contains]
  | cons n names => simp

theorem occupant_eq_nothing_iff {place : Place} :
    d.occupant place = .nothing ↔
      place.any Component.isName = true ∧ d.folders.contains place = false ∧ ∀ f ∈ d.files, f.place ≠ place := by
  have hnone : d.fileAt? place = none ↔ ∀ f ∈ d.files, f.place ≠ place := by simp [fileAt?]
  rw [← hnone]
  unfold occupant
  cases place.any Component.isName <;> cases d.folders.contains place <;> cases d.fileAt? place <;> simp

theorem walkFrom_here {place : Place} (h : d.occupant place = .folder) : d.walkFrom place [.here] = .ok place := by
  simp [walkFrom, h, Component.isTooLong, Path.next]

/-- one step of a walk into what a folder holds -/
theorem walkFrom_name {before : List String} {n : String} (h : d.occupant (Path.place before) = .folder)
    (hn : n.utf8ByteSize ≤ Component.longest) (steps : List Component) :
    d.walkFrom (Path.place before) (.name n :: steps) = d.walkFrom (Path.place (before ++ [n])) steps := by
  have hshort : (Component.name n).isTooLong = false := by simpa [Component.isTooLong] using hn
  rw [walkFrom, h, hshort, Path.place_append]
  rfl

theorem walkFrom_made (before : List String) {names : List String}
    (hmade : d.folders.contains (Path.place (before ++ names)) = true)
    (hshort : ∀ n ∈ names, n.utf8ByteSize ≤ Component.longest) (more : List Component) :
    d.walkFrom (Path.place before) (Path.place names ++ more) = d.walkFrom (Path.place (before ++ names)) more := by
  induction names generalizing before with
  | nil => rw [List.append_nil]; rfl
  | cons n names ih =>
    obtain ⟨hn, hrest⟩ := List.forall_mem_cons.1 hshort
    have hfolder : d.occupant (Path.place before) = .folder :=
      occupant_place_eq_folder_iff.2 (contains_above hmade (Path.place_prefix_append before (n :: names)))
    rw [List.append_cons before n names] at hmade ⊢
    rw [← ih (before ++ [n]) hmade hrest]
    exact walkFrom_name hfolder hn _

theorem contains_of_enter (before : List String) {names : List String} {place : Place}
    (h : d.walkFrom (Path.place before) (Path.place names ++ [.here]) = .ok place) :
    d.folders.contains (Path.place (before ++ names)) = true := by
  induction names generalizing before with
  | nil =>
    rw [List.append_nil, ← occupant_place_eq_folder_iff]
    change d.walkFrom (Path.place before) [.here] = .ok place at h
    rw [walkFrom] at h
    cases hocc : d.occupant (Path.place before) with
    | folder => rfl
    | nothing => simp [hocc] at h
    | file f => simp [hocc] at h
  | cons n names ih =>
    have hnext : Path.next (Path.place before) (.name n) = Path.place (before ++ [n]) := (Path.place_append before [n]).symm
    change d.walkFrom (Path.place before) (.name n :: (Path.place names ++ [.here])) = .ok place at h
    rw [walkFrom, hnext] at h
    split at h
    · simp at h
    · simp at h
    · split at h
      · simp at h
      · exact List.append_cons before n names ▸ ih _ h

/-- what leads to a place, and is not that place, leads to the folder that holds it -/
theorem prefix_dropLast {p q : Place} (h : p <+: q) (hne : p ≠ q) : p <+: q.dropLast := by
  obtain ⟨rest, rfl⟩ := h
  have hrest : rest ≠ [] := fun hnil => hne (by simp [hnil])
  rw [List.dropLast_append_of_ne_nil hrest]
  exact List.prefix_append p rest.dropLast

/-- the fault of going to a place on disk that is not a folder -/
def obstacle (d : Directory) (goal : Place) : IoError :=
  if ∃ f ∈ d.files, f.place <+: goal then notAFolder else missingOnDisk

/-- every file on disk stands in a folder -/
structure Housed (d : Directory) : Prop where
  tidy : d.Tidy
  disk : d.medium = .disk
  above : ∀ f ∈ d.files, d.folders.contains f.place.dropLast = true

/-- a walk goes no further than to the first place that is not a folder -/
theorem Housed.walkFrom_blocked (h : d.Housed) {before goal : Place} {steps : List Component} (hne : steps ≠ [])
    (hgoal : before <+: goal) (hfolder : d.occupant before ≠ .folder)
    (hbelow : ∀ f ∈ d.files, f.place <+: before → f.place = before) :
    d.walkFrom before steps = .error (d.obstacle goal) := by
  obtain ⟨step, steps, rfl⟩ := List.exists_cons_of_ne_nil hne
  rw [walkFrom, obstacle]
  cases hocc : d.occupant before with
  | folder => exact absurd hocc hfolder
  | file f =>
    obtain ⟨-, -, hat⟩ := occupant_eq_file_iff.1 hocc
    obtain ⟨hmem, rfl⟩ := fileAt?_eq_some hat
    simp only [if_pos (show ∃ f ∈ d.files, f.place <+: goal from ⟨f, hmem, hgoal⟩)]
  | nothing =>
    obtain ⟨-, hunmade, hempty⟩ := occupant_eq_nothing_iff.1 hocc
    have hfree : ¬ ∃ f ∈ d.files, f.place <+: goal := by
      rintro ⟨f, hmem, hle⟩
      rcases List.prefix_or_prefix_of_prefix hle hgoal with hup | hdown
      · exact hempty f hmem (hbelow f hmem hup)
      · have hmade := contains_above (h.above f hmem) (prefix_dropLast hdown (hempty f hmem).symm)
        simp [hunmade] at hmade
    simp only [if_neg hfree]

/-- **What was not made cannot be entered.** A file or nothing is in the way, and the fault says which. -/
theorem Housed.walkFrom_unmade (h : d.Housed) (before : List String) {names : List String}
    (hunmade : ¬ d.folders.contains (Path.place (before ++ names)) = true)
    (hshort : ∀ n ∈ names, n.utf8ByteSize ≤ Component.longest)
    (hbelow : ∀ f ∈ d.files, f.place <+: Path.place before → f.place = Path.place before) :
    d.walkFrom (Path.place before) (Path.place names ++ [.here]) =
      .error (d.obstacle (Path.place (before ++ names))) := by
  induction names generalizing before with
  | nil =>
    rw [List.append_nil] at hunmade ⊢
    have hocc : d.occupant (Path.place before) ≠ .folder := fun hfolder =>
      hunmade (occupant_place_eq_folder_iff.1 hfolder)
    exact h.walkFrom_blocked (by simp) (List.prefix_refl _) hocc hbelow
  | cons n names ih =>
    by_cases hocc : d.occupant (Path.place before) = .folder
    · obtain ⟨hn, hrest⟩ := List.forall_mem_cons.1 hshort
      have hbelow' : ∀ f ∈ d.files, f.place <+: Path.place (before ++ [n]) → f.place = Path.place (before ++ [n]) := by
        intro f hmem hle
        rw [Path.place_append] at hle ⊢
        exact (List.prefix_concat_iff.1 hle).resolve_right (h.tidy.not_prefix_folder h.disk hocc hmem)
      rw [List.append_cons before n names] at hunmade ⊢
      rw [← ih (before ++ [n]) hunmade hrest hbelow']
      exact walkFrom_name hocc hn _
    · exact h.walkFrom_blocked (by simp) (Path.place_prefix_append before (n :: names)) hocc hbelow

/-! ## Making room for a file -/

/-- one folder is made unless it is there -/
theorem makeFrom_name (before : List String) {n : String} (hn : n.utf8ByteSize ≤ Component.longest) (fresh : Bool)
    (steps : List Component) :
    d.makeFrom (Path.place before) fresh (.name n :: steps) =
      match d.occupant (Path.place (before ++ [n])) with
      | .folder => d.makeFrom (Path.place (before ++ [n])) fresh steps
      | .nothing => { d with folders := d.folders.insert (Path.place (before ++ [n])) }.makeFrom
          (Path.place (before ++ [n])) true steps
      | .file _ => (d, .error (if fresh ∨ steps = [] then fileInTheWay else notAFolder)) := by
  have hshort : (Component.name n).isTooLong = false := by simpa [Component.isTooLong] using hn
  rw [makeFrom, hshort, Path.place_append]
  rfl

/-- where no file is in the way, all folders along names are made, and no others -/
theorem makeFrom_names (before : List String) {names : List String}
    (hmade : d.folders.contains (Path.place before) = true)
    (hshort : ∀ n ∈ names, n.utf8ByteSize ≤ Component.longest)
    (hfree : ∀ f ∈ d.files, ¬ f.place <+: Path.place (before ++ names)) (fresh : Bool) :
    (d.makeFrom (Path.place before) fresh (Path.place names)).2 = .ok () ∧
      ∀ p, (d.makeFrom (Path.place before) fresh (Path.place names)).1.folders.contains p = true ↔
        d.folders.contains p = true ∨ p <+: Path.place (before ++ names) := by
  induction names generalizing d before fresh with
  | nil =>
    refine ⟨rfl, fun p => ?_⟩
    rw [List.append_nil]
    exact ⟨Or.inl, fun h => h.elim id (contains_above hmade)⟩
  | cons n names ih =>
    obtain ⟨hn, hrest⟩ := List.forall_mem_cons.1 hshort
    have habove := Path.place_prefix_append (before ++ [n]) names
    have hstep := makeFrom_name (d := d) before hn fresh (Path.place names)
    rw [List.append_cons before n names] at hfree ⊢
    change d.makeFrom (Path.place before) fresh (Path.place (n :: names)) = _ at hstep
    rw [hstep]
    cases hocc : d.occupant (Path.place (before ++ [n])) with
    | folder => exact ih _ (occupant_place_eq_folder_iff.1 hocc) hrest hfree fresh
    | file f =>
      obtain ⟨hmem, hplace⟩ := fileAt?_eq_some (occupant_eq_file_iff.1 hocc).2.2
      exact absurd (hplace ▸ habove) (hfree f hmem)
    | nothing =>
      have hgrow : ∀ p, (d.folders.insert (Path.place (before ++ [n]))).contains p = true ↔
          d.folders.contains p = true ∨ p <+: Path.place (before ++ [n]) := by
        intro p
        rw [Folders.contains_insert, Bool.or_eq_true, List.isPrefixOf_iff_prefix]
      obtain ⟨hok, hfolders⟩ := ih (d := { d with folders := d.folders.insert (Path.place (before ++ [n])) }) _
        ((hgrow _).2 (Or.inr (List.prefix_refl _))) hrest hfree true
      refine ⟨hok, fun p => ?_⟩
      rw [hfolders, hgrow, or_assoc]
      exact or_congr_right (or_iff_right_of_imp fun h => h.trans habove)

/-- a disk takes the text of a path that fits -/
theorem steps_spell (hfits : Fits d.top path) (hparts : ∀ n ∈ path, IsPart n) :
    d.steps (Path.spell path) = .ok (Path.place path) := by
  have hclean : (Path.place path).any Component.hasNul = false := by
    rw [List.any_eq_false]
    rintro step hstep
    obtain ⟨n, hn, rfl⟩ := List.mem_map.1 hstep
    simpa [Component.hasNul] using hfits.clean n hn
  have hsize : ¬ Path.longest < Path.size d.top (Path.spell path) := by
    rw [Path.size, Path.isAbsolute_spell hparts]
    exact Nat.not_lt.2 hfits.size
  unfold steps
  rw [Path.steps_spell hparts, hclean, if_neg hsize]
  rfl

/-- a folder that no file is in the way of is made, with those above it, and no others are -/
theorem makeFolders_spell (h : d.Tidy) (hm : d.medium = .disk) (hparts : ∀ n ∈ path, IsPart n) (hfits : Fits d.top path)
    (hfree : ∀ f ∈ d.files, ¬ f.place <+: Path.place path) :
    ∃ e, d.makeFolders (Path.spell path) = (e, .ok ()) ∧ Extends d e ∧ e.Tidy ∧
      ∀ p, e.folders.contains p = true ↔ d.folders.contains p = true ∨ p <+: Path.place path := by
  have htop : d.occupant [] = .folder := occupant_eq_folder_iff.2 (Or.inl rfl)
  obtain ⟨hextends, htidy⟩ := makeFrom_spec h hm htop false (Path.place path)
  obtain ⟨hok, hfolders⟩ := makeFrom_names [] (by simp [Path.place, Folders.contains]) hfits.short hfree false
  refine ⟨(d.makeFrom [] false (Path.place path)).1, ?_, hextends, htidy, hfolders⟩
  rw [makeFolders, steps_spell hfits hparts]
  exact Prod.ext rfl hok

section

variable {dir : List String} {name : String}

/-- in a folder that is there, a file can stand under a name that is not taken -/
theorem placeForFile_spell (hparts : ∀ n ∈ dir ++ [name], IsPart n) (hfits : Fits d.top (dir ++ [name]))
    (hmade : d.folders.contains (Path.place dir) = true)
    (hnew : d.occupant (Path.place (dir ++ [name])) = .nothing) :
    d.placeForFile (Path.spell (dir ++ [name])) = .ok (Path.place (dir ++ [name])) := by
  obtain ⟨hdir, hname⟩ := List.forall_mem_append.1 hfits.short
  have hwalk : d.walkFrom [] (Path.place (dir ++ [name])) = .ok (Path.place (dir ++ [name])) := by
    rw [Path.place_append]
    calc d.walkFrom [] (Path.place dir ++ [Component.name name])
      _ = d.walkFrom (Path.place dir) [.name name] := walkFrom_made [] hmade hdir [.name name]
      _ = d.walkFrom (Path.place (dir ++ [name])) [] :=
        walkFrom_name (occupant_place_eq_folder_iff.2 hmade) (hname name List.mem_cons_self) []
      _ = .ok (Path.place dir ++ [Component.name name]) := by rw [walkFrom, Path.place_append]; rfl
  have hending : Path.ending (Path.spell (dir ++ [name])) = .plain := Path.ending_spell hparts (by simp)
  have hlocate : d.locate (Path.spell (dir ++ [name])) = .ok (Path.place (dir ++ [name]), .nothing) := by
    simp [locate, steps_spell hfits hparts, hwalk, hending, hnew, bind, Except.bind]
  simp [placeForFile, steps_spell hfits hparts, hending, hlocate, bind, Except.bind]

/-- **Making room.** Where neither a file nor a folder is in the way, the folders above a file are made, and no others. -/
theorem prepare_spell (h : d.Tidy) (hparts : ∀ n ∈ dir ++ [name], IsPart n) (hfits : Fits d.top (dir ++ [name]))
    (hfree : ∀ f ∈ d.files, ¬ f.place <+: Path.place (dir ++ [name]))
    (hnew : d.medium = .disk → d.folders.contains (Path.place (dir ++ [name])) = false) :
    ∃ e, d.prepare (Path.spell (dir ++ [name])) = (e, .ok (Path.place (dir ++ [name]))) ∧ Extends d e ∧ e.Tidy ∧
      (d.medium = .disk → ∀ p, e.folders.contains p = true ↔ d.folders.contains p = true ∨ p <+: Path.place dir) := by
  cases hm : d.medium with
  | memory =>
    refine ⟨d, ?_, Extends.refl d, h, by simp⟩
    rw [prepare, hm, Path.components_spell hparts]
  | disk =>
    have hdirParts : ∀ n ∈ dir, IsPart n := fun n hn => hparts n (List.mem_append_left _ hn)
    obtain ⟨e, hmake, hextends, htidy, hfolders⟩ := makeFolders_spell h hm hdirParts (hfits.above (List.prefix_append _ _))
      (fun f hf hle => hfree f hf (hle.trans (Path.place_prefix_append dir [name])))
    have hunmade : ¬ e.folders.contains (Path.place (dir ++ [name])) = true := by
      rw [hfolders, hnew hm, Path.place_prefix_iff]
      simpa using fun hle : dir ++ [name] <+: dir => by simpa using hle.length_le
    have hnothing : e.occupant (Path.place (dir ++ [name])) = .nothing := by
      refine occupant_eq_nothing_iff.2 ⟨by simp [Path.any_isName_place], Bool.not_eq_true _ ▸ hunmade, ?_⟩
      rw [hextends.files]
      exact fun f hf heq => hfree f hf (heq ▸ List.prefix_refl _)
    have hplace := placeForFile_spell hparts (hextends.top ▸ hfits) ((hfolders _).2 (Or.inr (List.prefix_refl _))) hnothing
    refine ⟨e, ?_, hextends, htidy, fun _ => hfolders⟩
    simp only [prepare, hm, Path.folder_spell hparts, hmake, hplace]

end

end Directory

end ColumnStore.Storage
