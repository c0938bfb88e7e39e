/-
Directories: which file a path names, and what changes it.

A directory is `Tidy` when its files are told apart by their places and by their numbers; every operation keeps it so.
The file that a path names (`named?`) is what a read answers (`read_of_named`), in memory and on disk alike:
- `named?_withContent`: a change by number changes that file and no other;
- `fileAt?_store_same`, `fileAt?_store_of_ne`: a stored file stands at its place, and at every other place stands what
  stood there before;
- `prepare_spec`: making room for a file makes folders only.
-/
import Mathlib.Tactic
import ColumnStore.Storage.Directory

namespace ColumnStore.Storage

/-! ## Other contents -/

/-- a file with another content, if it has the number -/
def File.update (number : Nat) (content : File → ByteArray) (f : File) : File :=
  if f.number = number then { f with content := content f } else f

@[simp] theorem File.update_place (number : Nat) (content : File → ByteArray) (f : File) :
    (File.update number content f).place = f.place := by
  unfold update
  split <;> rfl

@[simp] theorem File.update_number (number : Nat) (content : File → ByteArray) (f : File) :
    (File.update number content f).number = f.number := by
  unfold update
  split <;> rfl

/-- an occupant with another content, if it is the file of the number -/
def Occupant.update (number : Nat) (content : File → ByteArray) : Occupant → Occupant
  | .file f => .file (File.update number content f)
  | other => other

namespace Directory

/-! ## Tidy directories -/

/-- files are told apart by place and by number; on disk none stands where a folder does -/
structure Tidy (d : Directory) : Prop where
  places : (d.files.map File.place).Nodup
  numbers : (d.files.map File.number).Nodup
  below : ∀ f ∈ d.files, f.number < d.made
  apart : d.medium = .disk → ∀ f ∈ d.files, f.place.any Component.isName = true ∧ d.folders.contains f.place = false

/-- the file that a path names -/
def named? (d : Directory) (path : String) : Option File :=
  match d.medium with
  | .memory => d.fileAt? (Path.components path)
  | .disk =>
    match d.locate path with
    | .ok (_, .file f) => some f
    | _ => none

theorem named?_memory {d : Directory} (hm : d.medium = .memory) (path : String) :
    d.named? path = d.fileAt? (Path.components path) := by
  rw [named?, hm]

theorem read_of_named {d : Directory} {path : String} {f : File} (h : d.named? path = some f) :
    d.read path = .ok f.content := by
  unfold named? at h
  unfold read
  cases hm : d.medium with
  | memory => simp_all
  | disk =>
    rw [hm] at h
    dsimp only at h ⊢
    split at h
    · next found =>
      rw [found]
      obtain rfl : _ = f := Option.some.inj h
      rfl
    · simp at h

/-- what is read is the content of the file that is named -/
theorem named_of_read {d : Directory} {path : String} {content : ByteArray} (h : d.read path = .ok content) :
    ∃ f, d.named? path = some f ∧ f.content = content := by
  unfold read at h
  unfold named?
  cases hm : d.medium with
  | memory =>
    rw [hm] at h
    dsimp only at h ⊢
    split at h
    · next f hf => exact ⟨f, hf, Except.ok.inj h⟩
    · simp at h
  | disk =>
    rw [hm] at h
    dsimp only at h ⊢
    split at h
    · next f hlocate => exact ⟨f, by rw [hlocate], Except.ok.inj h⟩
    · simp at h
    · simp at h
    · simp at h

theorem fileAt?_eq_some {d : Directory} {place : Place} {f : File} (h : d.fileAt? place = some f) :
    f ∈ d.files ∧ f.place = place :=
  ⟨List.mem_of_find?_eq_some h, by simpa using List.find?_some h⟩

theorem Tidy.eq_of_number {d : Directory} (h : d.Tidy) {f g : File} (hf : f ∈ d.files) (hg : g ∈ d.files)
    (hn : f.number = g.number) : f = g :=
  List.inj_on_of_nodup_map h.numbers hf hg hn

/-! ## Changing a content -/

section

variable {d : Directory} {number : Nat} {content : File → ByteArray}

theorem withContent_files : (d.withContent number content).files = d.files.map (File.update number content) := rfl

@[simp] theorem withContent_medium : (d.withContent number content).medium = d.medium := rfl

theorem Tidy.withContent (h : d.Tidy) : (d.withContent number content).Tidy where
  places := by simpa [withContent_files, Function.comp_def] using h.places
  numbers := by simpa [withContent_files, Function.comp_def] using h.numbers
  below := by
    intro f hf
    rw [withContent_files] at hf
    obtain ⟨g, hg, rfl⟩ := List.mem_map.1 hf
    rw [File.update_number]
    exact h.below g hg
  apart := by
    intro hm f hf
    rw [withContent_files] at hf
    obtain ⟨g, hg, rfl⟩ := List.mem_map.1 hf
    rw [File.update_place]
    exact h.apart hm g hg

theorem fileAt?_withContent (place : Place) :
    (d.withContent number content).fileAt? place = (d.fileAt? place).map (File.update number content) := by
  unfold fileAt?
  rw [withContent_files, List.find?_map]
  congr 1
  simp

theorem occupant_withContent (place : Place) :
    (d.withContent number content).occupant place = Occupant.update number content (d.occupant place) := by
  have hfolders : (d.withContent number content).folders = d.folders := rfl
  unfold occupant
  rw [hfolders, fileAt?_withContent]
  split
  · rfl
  · cases d.fileAt? place <;> rfl

theorem walkFrom_withContent (place : Place) (steps : List Component) :
    (d.withContent number content).walkFrom place steps = d.walkFrom place steps := by
  induction steps generalizing place with
  | nil => rfl
  | cons step steps ih =>
    rw [walkFrom, walkFrom, occupant_withContent]
    cases d.occupant place <;> simp only [Occupant.update]
    split
    · rfl
    · exact ih _

theorem named?_withContent (path : String) :
    (d.withContent number content).named? path = (d.named? path).map (File.update number content) := by
  unfold named?
  rw [withContent_medium]
  cases d.medium with
  | memory => exact fileAt?_withContent _
  | disk =>
    have hsteps : (d.withContent number content).steps path = d.steps path := rfl
    dsimp only
    unfold locate
    rw [hsteps]
    cases d.steps path with
    | error e => rfl
    | ok steps =>
      simp only [bind, Except.bind, walkFrom_withContent]
      cases d.walkFrom [] steps with
      | error e => rfl
      | ok place =>
        simp only [occupant_withContent]
        cases Path.ending path <;> cases d.occupant place <;> rfl

end

/-! ## Storing -/

section

variable {d : Directory} {place : Place} {name : String} {content : ByteArray}

/-- a stored file stands at its place, under the number that is due there -/
theorem fileAt?_store_same (d : Directory) (place : Place) (name : String) (content : ByteArray) :
    ∃ f, (d.store place name content).fileAt? place = some f ∧ f.number = d.numberAt place ∧ f.content = content := by
  unfold store numberAt
  cases hf : d.fileAt? place with
  | some f =>
    refine ⟨File.update f.number (fun _ => content) f, ?_, by simp, by simp [File.update]⟩
    simp only [fileAt?_withContent, hf, Option.map_some]
  | none =>
    refine ⟨⟨place, name, d.made, content⟩, ?_, rfl, rfl⟩
    have hnone : d.files.find? (fun f => decide (f.place = place)) = none := hf
    simp [fileAt?, List.find?_append, hnone]

/-- every other place holds what it held -/
theorem fileAt?_store_of_ne (h : d.Tidy) {other : Place} (hne : other ≠ place) :
    (d.store place name content).fileAt? other = d.fileAt? other := by
  unfold store
  cases hf : d.fileAt? place with
  | some f =>
    obtain ⟨hmem, hplace⟩ := fileAt?_eq_some hf
    simp only [fileAt?_withContent]
    cases hg : d.fileAt? other with
    | none => rfl
    | some g =>
      obtain ⟨hgmem, hgplace⟩ := fileAt?_eq_some hg
      have hnumber : g.number ≠ f.number := by
        intro heq
        rw [h.eq_of_number hgmem hmem heq, hplace] at hgplace
        exact hne hgplace.symm
      rw [Option.map_some, File.update, if_neg hnumber]
  | none =>
    have hlast : decide (place = other) = false := by simpa using Ne.symm hne
    simp [fileAt?, List.find?_append, hlast]

theorem Tidy.store (h : d.Tidy)
    (hplace : d.medium = .disk → place.any Component.isName = true ∧ d.folders.contains place = false) :
    (d.store place name content).Tidy := by
  unfold Directory.store
  cases hf : d.fileAt? place with
  | some f => exact h.withContent
  | none =>
    have hfree : ∀ f ∈ d.files, f.place ≠ place := by
      intro f hmem heq
      have := List.find?_eq_none.1 hf f hmem
      simp [heq] at this
    refine ⟨?_, ?_, ?_, ?_⟩
    · simp only [List.map_append, List.map_cons, List.map_nil]
      refine List.nodup_append.2 ⟨h.places, List.nodup_singleton _, ?_⟩
      intro p hp q hq heq
      obtain ⟨f, hmem, rfl⟩ := List.mem_map.1 hp
      exact hfree f hmem (heq.trans (List.mem_singleton.1 hq))
    · simp only [List.map_append, List.map_cons, List.map_nil]
      refine List.nodup_append.2 ⟨h.numbers, List.nodup_singleton _, ?_⟩
      intro m hm n hn heq
      obtain ⟨f, hmem, rfl⟩ := List.mem_map.1 hm
      have := h.below f hmem
      rw [List.mem_singleton] at hn
      omega
    · intro f hmem
      rcases List.mem_append.1 hmem with hmem | hmem
      · exact Nat.lt_succ_of_lt (h.below f hmem)
      · rw [List.mem_singleton.1 hmem]
        exact Nat.lt_succ_self _
    · intro hm f hmem
      rcases List.mem_append.1 hmem with hmem | hmem
      · exact h.apart hm f hmem
      · rw [List.mem_singleton.1 hmem]
        exact hplace hm

@[simp] theorem store_medium : (d.store place name content).medium = d.medium := by
  unfold store
  split <;> rfl

@[simp] theorem store_top : (d.store place name content).top = d.top := by
  unfold store
  split <;> rfl

@[simp] theorem store_folders : (d.store place name content).folders = d.folders := by
  unfold store
  split <;> rfl

@[simp] theorem store_faults : (d.store place name content).faults = d.faults := by
  unfold store
  split <;> rfl

end

/-! ## Where a path leads -/

/-- a path leads to a place that can have a file -/
def Leads (d : Directory) (path : String) (place : Place) : Prop :=
  match d.medium with
  | .memory => place = Path.components path
  | .disk => ∃ steps, d.steps path = .ok steps ∧ d.walkFrom [] steps = .ok place ∧ Path.ending path = .plain ∧
      place.any Component.isName = true ∧ d.folders.contains place = false

theorem occupant_eq_file_iff {d : Directory} {place : Place} {f : File} :
    d.occupant place = .file f ↔
      place.any Component.isName = true ∧ d.folders.contains place = false ∧ d.fileAt? place = some f := by
  unfold occupant
  cases place.any Component.isName <;> cases d.folders.contains place <;> cases d.fileAt? place <;> simp

theorem occupant_eq_folder_iff {d : Directory} {place : Place} :
    d.occupant place = .folder ↔ place.any Component.isName = false ∨ d.folders.contains place = true := by
  unfold occupant
  cases place.any Component.isName <;> cases d.folders.contains place <;> cases d.fileAt? place <;> simp

/-- what a path that names something on disk goes through -/
theorem locate_eq_ok {d : Directory} {path : String} {place : Place} {found : Occupant}
    (h : d.locate path = .ok (place, found)) :
    ∃ steps, d.steps path = .ok steps ∧ d.walkFrom [] steps = .ok place ∧ d.occupant place = found ∧
      ∀ f, found = .file f → Path.ending path = .plain := by
  unfold locate at h
  cases hsteps : d.steps path with
  | error e => simp [hsteps, bind, Except.bind] at h
  | ok steps =>
    cases hwalk : d.walkFrom [] steps with
    | error e => simp [hsteps, hwalk, bind, Except.bind] at h
    | ok place' =>
      simp only [hsteps, hwalk, bind, Except.bind] at h
      split at h
      · simp at h
      · simp at h
      · next hslash hdot =>
        simp only [Except.ok.injEq, Prod.mk.injEq] at h
        obtain ⟨rfl, rfl⟩ := h
        refine ⟨steps, rfl, hwalk, rfl, ?_⟩
        intro f hf
        cases hending : Path.ending path with
        | plain => rfl
        | slash => exact absurd hf (fun hc => hslash f hending hc)
        | dot => exact absurd hf (fun hc => hdot f hending hc)

/-- the file that a path names stands where it leads -/
theorem named?_eq_some_iff {d : Directory} {path : String} {f : File} :
    d.named? path = some f ↔ ∃ place, d.Leads path place ∧ d.fileAt? place = some f := by
  unfold named? Leads
  cases hm : d.medium with
  | memory => simp
  | disk =>
    dsimp only
    constructor
    · intro h
      split at h
      · next place g hlocate =>
        obtain rfl : g = f := Option.some.inj h
        obtain ⟨steps, hsteps, hwalk, hfile, hending⟩ := locate_eq_ok hlocate
        obtain ⟨hname, hfolder, hat⟩ := occupant_eq_file_iff.1 hfile
        exact ⟨place, ⟨steps, hsteps, hwalk, hending g rfl, hname, hfolder⟩, hat⟩
      · simp at h
    · rintro ⟨place, ⟨steps, hsteps, hwalk, hending, hname, hfolder⟩, hat⟩
      have hfile := occupant_eq_file_iff.2 ⟨hname, hfolder, hat⟩
      simp [locate, hsteps, hwalk, hending, hfile, bind, Except.bind]

/-- a step of a walk only looks at folders, so more folders lead as far as fewer -/
theorem walkFrom_mono {d d' : Directory} (h : ∀ p, d.folders.contains p = true → d'.folders.contains p = true)
    {place last : Place} {steps : List Component} (hwalk : d.walkFrom place steps = .ok last) :
    d'.walkFrom place steps = .ok last := by
  induction steps generalizing place with
  | nil => exact hwalk
  | cons step steps ih =>
    rw [walkFrom] at hwalk ⊢
    cases hocc : d.occupant place with
    | nothing => simp [hocc] at hwalk
    | file f => simp [hocc] at hwalk
    | folder =>
      have hocc' : d'.occupant place = .folder := by
        exact occupant_eq_folder_iff.2 ((occupant_eq_folder_iff.1 hocc).imp id (h place))
      rw [hocc] at hwalk
      rw [hocc']
      dsimp only at hwalk ⊢
      split at hwalk
      · simp at hwalk
      · next hshort =>
        rw [if_neg hshort]
        exact ih hwalk

/-- a place that a path leads to is free of folders -/
theorem Leads.free {d : Directory} {path : String} {place : Place} (h : d.Leads path place) (hdisk : d.medium = .disk) :
    place.any Component.isName = true ∧ d.folders.contains place = false := by
  rw [Leads, hdisk] at h
  obtain ⟨-, -, -, -, hname, hfolder⟩ := h
  exact ⟨hname, hfolder⟩

/-- a path leads where it led, if folders were only made elsewhere -/
theorem Leads.mono {d d' : Directory} {path : String} {place : Place} (h : d.Leads path place)
    (hmedium : d'.medium = d.medium) (htop : d'.top = d.top)
    (hfolders : ∀ p, d.folders.contains p = true → d'.folders.contains p = true)
    (hfree : d.medium = .disk → d'.folders.contains place = false) : d'.Leads path place := by
  unfold Leads at h ⊢
  rw [hmedium]
  cases hm : d.medium with
  | memory => simpa [hm] using h
  | disk =>
    rw [hm] at h
    obtain ⟨steps, hsteps, hwalk, hending, hname, -⟩ := h
    refine ⟨steps, ?_, walkFrom_mono hfolders hwalk, hending, hname, hfree hm⟩
    unfold Directory.steps at hsteps ⊢
    rwa [htop]

/-- a file at another place stays under its names -/
theorem named?_store_of_ne {d : Directory} (h : d.Tidy) {path : String} {f : File} {place : Place} {name : String}
    {content : ByteArray} (hf : d.named? path = some f) (hne : f.place ≠ place) :
    (d.store place name content).named? path = some f := by
  obtain ⟨there, hleads, hat⟩ := named?_eq_some_iff.1 hf
  obtain ⟨hmem, rfl⟩ := fileAt?_eq_some hat
  refine named?_eq_some_iff.2 ⟨f.place, ?_, ?_⟩
  · exact hleads.mono (by simp) (by simp) (by simp) (fun hdisk => by simpa using (h.apart hdisk f hmem).2)
  · rw [fileAt?_store_of_ne h hne, hat]

/-! ## Making folders -/

/-- a directory in which folders were made, and nothing else was changed -/
structure Extends (d d' : Directory) : Prop where
  files : d'.files = d.files
  made : d'.made = d.made
  medium : d'.medium = d.medium
  top : d'.top = d.top
  faults : d'.faults = d.faults
  folders : ∀ p, d.folders.contains p = true → d'.folders.contains p = true

theorem Extends.refl (d : Directory) : Extends d d := ⟨rfl, rfl, rfl, rfl, rfl, fun _ => id⟩

theorem Extends.trans {d e f : Directory} (h : Extends d e) (h' : Extends e f) : Extends d f :=
  ⟨h'.files.trans h.files, h'.made.trans h.made, h'.medium.trans h.medium, h'.top.trans h.top,
    h'.faults.trans h.faults, fun p hp => h'.folders p (h.folders p hp)⟩

theorem Extends.fileAt? {d d' : Directory} (h : Extends d d') (place : Place) :
    d'.fileAt? place = d.fileAt? place := by
  rw [Directory.fileAt?, h.files, Directory.fileAt?]

/-- a file that is named stays so while folders are made, as long as the directory stays tidy -/
theorem Extends.named? {d d' : Directory} (h : Extends d d') (htidy : d'.Tidy) {path : String} {f : File}
    (hf : d.named? path = some f) : d'.named? path = some f := by
  obtain ⟨place, hleads, hat⟩ := named?_eq_some_iff.1 hf
  have hat' : d'.fileAt? place = some f := (h.fileAt? place).trans hat
  refine named?_eq_some_iff.2 ⟨place, hleads.mono h.medium h.top h.folders ?_, hat'⟩
  intro hm
  obtain ⟨hmem, rfl⟩ := fileAt?_eq_some hat'
  exact (htidy.apart (h.medium.trans hm) f hmem).2

/-- the folders above a folder are there too -/
theorem contains_above {folders : Folders} {p q : Place} (h : folders.contains p = true) (hq : q <+: p) :
    folders.contains q = true := by
  induction folders generalizing p q with
  | nil =>
    cases p with
    | nil => rw [List.prefix_nil.1 hq, Folders.contains]
    | cons step p => simp [Folders.contains] at h
  | entry name inside others ihInside ihOthers =>
    cases q with
    | nil => rw [Folders.contains]
    | cons step q =>
      obtain ⟨rest, rfl⟩ := hq
      rw [List.cons_append, Folders.contains] at h
      rw [Folders.contains]
      by_cases heq : name = step
      · rw [if_pos heq] at h ⊢
        exact ihInside h (List.prefix_append _ _)
      · rw [if_neg heq] at h ⊢
        rw [← List.cons_append] at h
        exact ihOthers h (List.prefix_append _ _)

/-- no file stands above a folder -/
theorem Tidy.not_prefix_folder {d : Directory} (h : d.Tidy) (hdisk : d.medium = .disk) {place : Place}
    (hplace : d.occupant place = .folder) {f : File} (hf : f ∈ d.files) : ¬ f.place <+: place := by
  intro habove
  obtain ⟨hname, hfree⟩ := h.apart hdisk f hf
  rcases occupant_eq_folder_iff.1 hplace with hnone | hfolder
  · rw [List.any_eq_true] at hname
    obtain ⟨c, hc, hcname⟩ := hname
    rw [List.any_eq_false] at hnone
    exact hnone c (habove.subset hc) hcname
  · rw [contains_above hfolder habove] at hfree
    simp at hfree

/-- a step leads to the root, up, or one component further -/
theorem next_cases (place : Place) (step : Component) :
    Path.next place step = [.root] ∨ Path.next place step <+: place ∨ ∃ c, Path.next place step = place ++ [c] := by
  cases step with
  | root => exact Or.inl rfl
  | here => exact Or.inr (Or.inl (List.prefix_refl place))
  | name text => exact Or.inr (Or.inr ⟨_, rfl⟩)
  | parent =>
    simp only [Path.next]
    split
    · exact Or.inr (Or.inl (List.dropLast_prefix place))
    · exact Or.inr (Or.inl (List.prefix_refl place))
    · exact Or.inr (Or.inr ⟨_, rfl⟩)

/-- no file stands above a free place one step from a folder -/
theorem Tidy.not_prefix_next {d : Directory} (h : d.Tidy) (hdisk : d.medium = .disk) {place : Place} {step : Component}
    (hplace : d.occupant place = .folder) (hnext : d.occupant (Path.next place step) = .nothing) {f : File}
    (hf : f ∈ d.files) : ¬ f.place <+: Path.next place step := by
  intro habove
  have hbelow := h.not_prefix_folder hdisk hplace hf
  have hself : f.place ≠ Path.next place step := by
    intro heq
    rw [← heq] at hnext
    unfold occupant at hnext
    split at hnext
    · simp at hnext
    · split at hnext
      · simp at hnext
      · next hnone => simpa using List.find?_eq_none.1 hnone f hf
  rcases next_cases place step with hroot | hup | ⟨c, hadd⟩
  · rw [hroot, occupant_eq_folder_iff.2 (Or.inl rfl)] at hnext
    simp at hnext
  · exact hbelow (habove.trans hup)
  · rw [hadd] at habove hself
    rcases List.prefix_concat_iff.1 habove with heq | hle
    · exact hself heq
    · exact hbelow hle

theorem makeFrom_spec {d : Directory} (h : d.Tidy) (hdisk : d.medium = .disk) {place : Place}
    (hplace : d.occupant place = .folder) (fresh : Bool) (steps : List Component) :
    Extends d (d.makeFrom place fresh steps).1 ∧ (d.makeFrom place fresh steps).1.Tidy := by
  induction steps generalizing d place fresh with
  | nil => exact ⟨Extends.refl d, h⟩
  | cons step steps ih =>
    rw [makeFrom]
    split
    · exact ⟨Extends.refl d, h⟩
    · dsimp only
      cases hnext : d.occupant (Path.next place step) with
      | folder => exact ih h hdisk hnext fresh
      | file f => exact ⟨Extends.refl d, h⟩
      | nothing =>
        set place' := Path.next place step
        have hgrow : ∀ p, ({ d with folders := d.folders.insert place' } : Directory).folders.contains p =
            (d.folders.contains p || p.isPrefixOf place') := fun p => Folders.contains_insert _ _ _
        have hext : Extends d { d with folders := d.folders.insert place' } := by
          refine ⟨rfl, rfl, rfl, rfl, rfl, ?_⟩
          intro p hp
          rw [hgrow, hp, Bool.true_or]
        have htidy : ({ d with folders := d.folders.insert place' } : Directory).Tidy := by
          refine ⟨h.places, h.numbers, h.below, ?_⟩
          intro hm f hf
          obtain ⟨hname, hfree⟩ := h.apart hm f hf
          refine ⟨hname, ?_⟩
          have habove : f.place.isPrefixOf place' = false := by
            rw [← Bool.not_eq_true, List.isPrefixOf_iff_prefix]
            exact h.not_prefix_next hdisk hplace hnext hf
          rw [hgrow, hfree, habove, Bool.or_false]
        have hfolder : ({ d with folders := d.folders.insert place' } : Directory).occupant place' = .folder := by
          refine occupant_eq_folder_iff.2 (Or.inr ?_)
          rw [hgrow, List.isPrefixOf_iff_prefix.2 (List.prefix_refl place'), Bool.or_true]
        obtain ⟨hrest, hrestTidy⟩ := ih htidy hdisk hfolder true
        exact ⟨hext.trans hrest, hrestTidy⟩

theorem leads_of_placeForFile {d : Directory} (hdisk : d.medium = .disk) {path : String} {place : Place}
    (h : d.placeForFile path = .ok place) : d.Leads path place := by
  unfold placeForFile at h
  unfold Leads
  rw [hdisk]
  cases hsteps : d.steps path with
  | error e => simp [hsteps, bind, Except.bind] at h
  | ok steps =>
    simp only [hsteps, bind, Except.bind] at h
    split at h
    · simp at h
    · next hslash =>
      cases hlocate : d.locate path with
      | error e => simp [hlocate] at h
      | ok found =>
        obtain ⟨place', occupant⟩ := found
        obtain ⟨steps', hsteps', hwalk, hocc, hending⟩ := locate_eq_ok hlocate
        obtain rfl : steps = steps' := by simpa [hsteps] using hsteps'
        rw [hlocate] at h
        cases occupant with
        | folder => simp at h
        | file f =>
          obtain rfl : place' = place := by simpa using h
          obtain ⟨hname, hfree, -⟩ := occupant_eq_file_iff.1 hocc
          exact ⟨steps, rfl, hwalk, hending f rfl, hname, hfree⟩
        | nothing =>
          dsimp only at h
          split at h
          · simp at h
          · next hdot =>
            obtain rfl : place' = place := by simpa using h
            refine ⟨steps, rfl, hwalk, ?_, ?_, ?_⟩
            · cases hend : Path.ending path with
              | plain => rfl
              | slash => exact absurd hend hslash
              | dot => exact absurd hend hdot
            · cases hname : place'.any Component.isName with
              | true => rfl
              | false =>
                rw [occupant_eq_folder_iff.2 (Or.inl hname)] at hocc
                simp at hocc
            · cases hfolder : d.folders.contains place' with
              | false => rfl
              | true =>
                rw [occupant_eq_folder_iff.2 (Or.inr hfolder)] at hocc
                simp at hocc

/-- making room for a file makes folders only, and if it succeeds, the path leads to the place answered -/
theorem prepare_spec {d : Directory} (h : d.Tidy) (path : String) :
    Extends d (d.prepare path).1 ∧ (d.prepare path).1.Tidy ∧
      ∀ place, (d.prepare path).2 = .ok place → (d.prepare path).1.Leads path place := by
  cases hm : d.medium with
  | memory =>
    have hprepare : d.prepare path = (d, .ok (Path.components path)) := by rw [prepare, hm]
    rw [hprepare]
    refine ⟨Extends.refl d, h, ?_⟩
    rintro place ⟨⟩
    rw [Leads, hm]
  | disk =>
    have hfolders : Extends d (d.makeFolders (Path.folder path)).1 ∧ (d.makeFolders (Path.folder path)).1.Tidy := by
      unfold makeFolders
      split
      · exact makeFrom_spec h hm (occupant_eq_folder_iff.2 (Or.inl rfl)) false _
      · exact ⟨Extends.refl d, h⟩
    obtain ⟨hext, htidy⟩ := hfolders
    unfold prepare
    rw [hm]
    dsimp only
    generalize d.makeFolders (Path.folder path) = made at hext htidy
    obtain ⟨d', result⟩ := made
    cases result with
    | error fault => exact ⟨hext, htidy, by simp⟩
    | ok _ => exact ⟨hext, htidy, fun place hplace => leads_of_placeForFile (hext.medium.trans hm) hplace⟩

end Directory

end ColumnStore.Storage
