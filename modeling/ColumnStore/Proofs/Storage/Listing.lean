/-
What a directory lists after files were written.

Files are written one after the other at relative, normalised paths, none of them the path of a folder of another
(`Compatible`). Every write succeeds, in memory and on disk, and afterwards the directory `Shows` these paths: its files
stand at their places in the order of writing, and on disk the folders are the top and those that lead to a file. One
write keeps this (`Shows.write`), so all of them do (`Shows.writeAll`).

In memory a listing tells all paths under a folder. On disk it tells only those directly in it, and it fails unless the
folder is there (`listings`). So the two agree just where a folder is there that holds no other folder.
-/
import ColumnStore.Proofs.Storage.Walks

namespace ColumnStore.Storage

/-! ## Paths of files -/

/-- paths at which files can stand together in a directory -/
structure Compatible (top : Nat) (paths : List (List String)) : Prop where
  room : top ≤ Path.longest
  named : ∀ path ∈ paths, path ≠ []
  parts : ∀ path ∈ paths, ∀ n ∈ path, IsPart n
  fits : ∀ path ∈ paths, Fits top path
  /-- none leads to another -/
  apart : paths.Pairwise fun a b => ¬ a <+: b ∧ ¬ b <+: a

instance (top : Nat) (paths : List (List String)) : Decidable (Compatible top paths) :=
  decidable_of_iff (top ≤ Path.longest ∧ (∀ path ∈ paths, path ≠ []) ∧ (∀ path ∈ paths, ∀ n ∈ path, IsPart n) ∧
      (∀ path ∈ paths, Fits top path) ∧ paths.Pairwise fun a b => ¬ a <+: b ∧ ¬ b <+: a)
    ⟨fun ⟨room, named, parts, fits, apart⟩ => ⟨room, named, parts, fits, apart⟩,
      fun h => ⟨h.room, h.named, h.parts, h.fits, h.apart⟩⟩

theorem Compatible.before {top : Nat} {paths later : List (List String)} (h : Compatible top (paths ++ later)) :
    Compatible top paths where
  room := h.room
  named path hpath := h.named path (List.mem_append_left _ hpath)
  parts path hpath := h.parts path (List.mem_append_left _ hpath)
  fits path hpath := h.fits path (List.mem_append_left _ hpath)
  apart := (List.pairwise_append.1 h.apart).1

/-- the top and whatever leads to a file are folders -/
def IsFolder (paths : List (List String)) (folder : List String) : Prop :=
  folder = [] ∨ ∃ path ∈ paths, folder <+: path.dropLast

theorem Compatible.fits_folder {top : Nat} {paths : List (List String)} {folder : List String} (h : Compatible top paths)
    (hfolder : IsFolder paths folder) : Fits top folder := by
  rcases hfolder with rfl | ⟨path, hpath, hle⟩
  · exact ⟨by simp, by simp, by simpa [Path.spell] using h.room⟩
  · exact (h.fits path hpath).above (hle.trans (List.dropLast_prefix path))

namespace Directory

variable {d : Directory} {paths : List (List String)} {folder path : List String}

/-! ## Writing files -/

/-- a directory that holds files at paths, in this order, and no folders but those above them -/
structure Shows (d : Directory) (paths : List (List String)) : Prop where
  tidy : d.Tidy
  faultless : ∀ path, d.faults.write path = none
  files : d.files.map (fun f => (f.place, f.name)) = paths.map fun path => (Path.place path, Path.spell path)
  folders : d.medium = .disk →
    ∀ p, d.folders.contains p = true ↔ p = [] ∨ ∃ path ∈ paths, p <+: Path.place path.dropLast

theorem Shows.of_mem (h : d.Shows paths) {f : File} (hf : f ∈ d.files) :
    ∃ path ∈ paths, f.place = Path.place path ∧ f.name = Path.spell path := by
  have hmem : (f.place, f.name) ∈ paths.map fun path => (Path.place path, Path.spell path) :=
    h.files ▸ List.mem_map_of_mem hf
  obtain ⟨path, hpath, heq⟩ := List.mem_map.1 hmem
  obtain ⟨hplace, hname⟩ := Prod.mk.inj heq
  exact ⟨path, hpath, hplace.symm, hname.symm⟩

theorem Shows.exists_file (h : d.Shows paths) (hpath : path ∈ paths) : ∃ f ∈ d.files, f.place = Path.place path := by
  have hmem : (Path.place path, Path.spell path) ∈ d.files.map fun f => (f.place, f.name) :=
    h.files ▸ List.mem_map_of_mem hpath
  obtain ⟨f, hf, heq⟩ := List.mem_map.1 hmem
  exact ⟨f, hf, (Prod.mk.inj heq).1⟩

theorem shows_nil (medium : Medium) (top : Nat) : Shows { medium, top } [] where
  tidy := (Reachable.empty medium top {}).tidy
  faultless _ := rfl
  files := rfl
  folders _ p := by cases p <;> simp [Folders.contains]

theorem store_of_free {place : Place} (h : ∀ f ∈ d.files, f.place ≠ place) (name : String) (content : ByteArray) :
    d.store place name content =
      { d with files := d.files ++ [⟨place, name, d.made, content⟩], made := d.made + 1 } := by
  have hnone : d.fileAt? place = none := by simpa [fileAt?] using h
  rw [store, hnone]

/-- neither a file nor a folder is in the way of a further path -/
theorem Shows.free (h : d.Shows paths) (hpaths : Compatible d.top (paths ++ [path])) :
    (∀ f ∈ d.files, ¬ f.place <+: Path.place path) ∧
      (d.medium = .disk → d.folders.contains (Path.place path) = false) := by
  have hapart : ∀ q ∈ paths, ¬ q <+: path ∧ ¬ path <+: q := fun q hq =>
    (List.pairwise_append.1 hpaths.apart).2.2 q hq path List.mem_cons_self
  constructor
  · intro f hf
    obtain ⟨q, hq, hplace, -⟩ := h.of_mem hf
    rw [hplace, Path.place_prefix_iff]
    exact (hapart q hq).1
  · intro hm
    rw [← Bool.not_eq_true, h.folders hm, Path.place_eq_nil_iff]
    rintro (hnil | ⟨q, hq, hle⟩)
    · exact hpaths.named path (by simp) hnil
    · exact (hapart q hq).2 ((Path.place_prefix_iff.1 hle).trans (List.dropLast_prefix q))

/-- **One file.** A write at a further path succeeds, and the directory shows that path too. -/
theorem Shows.write (h : d.Shows paths) (hpaths : Compatible d.top (paths ++ [path])) (content : ByteArray) :
    ∃ e, d.write (Path.spell path) content = (e, .ok ()) ∧ e.Shows (paths ++ [path]) ∧ e.medium = d.medium ∧
      e.top = d.top := by
  have hmem : path ∈ paths ++ [path] := by simp
  have hparts := hpaths.parts path hmem
  have hfits := hpaths.fits path hmem
  obtain ⟨hfree, hnew⟩ := h.free hpaths
  obtain ⟨dir, name, rfl⟩ : ∃ dir name, path = dir ++ [name] := by
    simpa using (List.eq_nil_or_concat path).resolve_left (hpaths.named path hmem)
  obtain ⟨e, hprepare, hextends, htidy, hfolders⟩ := prepare_spell h.tidy hparts hfits hfree hnew
  have hleads : e.Leads (Path.spell (dir ++ [name])) (Path.place (dir ++ [name])) := by
    have hspec := (prepare_spec h.tidy (Path.spell (dir ++ [name]))).2.2
    rw [hprepare] at hspec
    exact hspec _ rfl
  have hstore : e.store (Path.place (dir ++ [name])) (Path.spell (dir ++ [name])) content =
      { e with
        files := d.files ++ [⟨Path.place (dir ++ [name]), Path.spell (dir ++ [name]), e.made, content⟩]
        made := e.made + 1 } := by
    rw [← hextends.files]
    exact store_of_free (fun f hf heq => hfree f (hextends.files ▸ hf) (heq ▸ List.prefix_refl _)) _ _
  refine ⟨e.store (Path.place (dir ++ [name])) (Path.spell (dir ++ [name])) content, ?_,
    ⟨htidy.store hleads.free, ?_, ?_, ?_⟩, store_medium.trans hextends.medium, store_top.trans hextends.top⟩
  · simp only [Directory.write, h.faultless, put, hprepare]
  · rw [store_faults, hextends.faults]
    exact h.faultless
  · rw [hstore, List.map_append, List.map_append, h.files]
    rfl
  · intro hm p
    have hdisk : d.medium = .disk := hextends.medium.symm.trans (store_medium.symm.trans hm)
    rw [store_folders, hfolders hdisk, h.folders hdisk, or_assoc]
    simp [List.mem_append, or_and_right, exists_or]

/-- write files one after the other, up to the first failure -/
def writeAll (d : Directory) : List (List String × ByteArray) → Directory × Except IoError Unit
  | [] => (d, .ok ())
  | (path, content) :: files =>
    match d.write (Path.spell path) content with
    | (d, .ok ()) => d.writeAll files
    | (d, .error fault) => (d, .error fault)

/-- **All files.** Every write succeeds, and the directory shows all paths. -/
theorem Shows.writeAll (h : d.Shows paths) {files : List (List String × ByteArray)}
    (hpaths : Compatible d.top (paths ++ files.map Prod.fst)) :
    ∃ e, d.writeAll files = (e, .ok ()) ∧ e.Shows (paths ++ files.map Prod.fst) ∧ e.medium = d.medium ∧
      e.top = d.top := by
  induction files generalizing d paths with
  | nil => exact ⟨d, rfl, by simpa using h, rfl, rfl⟩
  | cons file files ih =>
    obtain ⟨path, content⟩ := file
    have hsplit : paths ++ ((path, content) :: files).map Prod.fst = paths ++ [path] ++ files.map Prod.fst := by simp
    rw [hsplit] at hpaths ⊢
    obtain ⟨e, hwrite, hshows, hmedium, htop⟩ := h.write hpaths.before content
    obtain ⟨e', hrest, hshows', hmedium', htop'⟩ := ih hshows (htop ▸ hpaths)
    refine ⟨e', ?_, hshows', hmedium'.trans hmedium, htop'.trans htop⟩
    rw [Directory.writeAll, hwrite]
    exact hrest

/-! ## Listing -/

theorem Shows.housed (h : d.Shows paths) (hm : d.medium = .disk) : d.Housed where
  tidy := h.tidy
  disk := hm
  above f hf := by
    obtain ⟨path, hpath, hplace, -⟩ := h.of_mem hf
    rw [h.folders hm, hplace, Path.place_dropLast]
    exact Or.inr ⟨path, hpath, List.prefix_refl _⟩

theorem Shows.contains_iff (h : d.Shows paths) (hm : d.medium = .disk) :
    d.folders.contains (Path.place folder) = true ↔ IsFolder paths folder := by
  simp only [h.folders hm, Path.place_prefix_iff, Path.place_eq_nil_iff, IsFolder]

theorem Shows.obstacle (h : d.Shows paths) :
    d.obstacle (Path.place folder) = if ∃ path ∈ paths, path <+: folder then notAFolder else missingOnDisk := by
  have hsame : (∃ f ∈ d.files, f.place <+: Path.place folder) ↔ ∃ path ∈ paths, path <+: folder := by
    constructor
    · rintro ⟨f, hf, hle⟩
      obtain ⟨path, hpath, hplace, -⟩ := h.of_mem hf
      exact ⟨path, hpath, Path.place_prefix_iff.1 (hplace ▸ hle)⟩
    · rintro ⟨path, hpath, hle⟩
      obtain ⟨f, hf, hplace⟩ := h.exists_file hpath
      exact ⟨f, hf, hplace ▸ Path.place_prefix_iff.2 hle⟩
  rw [Directory.obstacle]
  simp only [hsame]

/-- files that are chosen by their places are listed in the order of their paths -/
theorem Shows.sortFiles_filter (h : d.Shows paths) (chosen : Place → Bool) {wanted : List String → Bool}
    (hsame : ∀ path, chosen (Path.place path) = wanted path) :
    (sortFiles (d.files.filter fun f => chosen f.place)).map (fun f => Path.namesOf f.place) =
      (paths.filter wanted).mergeSort := by
  have hpaths : d.files.map (fun f => Path.namesOf f.place) = paths := by
    have hplaces := congrArg (List.map fun entry => Path.namesOf entry.1) h.files
    simpa [Function.comp_def, Path.namesOf_place] using hplaces
  have hchosen : (d.files.filter fun f => chosen f.place).map (fun f => Path.namesOf f.place) = paths.filter wanted := by
    conv_rhs => rw [← hpaths, List.filter_map]
    congr 1
    refine List.filter_congr fun f hf => ?_
    obtain ⟨path, -, hplace, -⟩ := h.of_mem hf
    rw [Function.comp_apply, hplace, hsame, Path.namesOf_place]
  rw [sortFiles, List.map_mergeSort, hchosen]
  intro f hf g hg
  obtain ⟨a, -, ha, -⟩ := h.of_mem (List.mem_of_mem_filter hf)
  obtain ⟨b, -, hb, -⟩ := h.of_mem (List.mem_of_mem_filter hg)
  rw [ha, hb, Path.namesOf_place, Path.namesOf_place, Bool.eq_iff_iff, bne_iff_ne, decide_eq_true_iff, Ne, Path.order_place_eq_gt]
  exact not_lt

theorem mem_sortFiles_filter {files : List File} {chosen : File → Bool} {f : File}
    (hf : f ∈ sortFiles (files.filter chosen)) : f ∈ files ∧ chosen f = true :=
  List.mem_filter.1 (List.mem_mergeSort.1 hf)

theorem Shows.list_memory (h : d.Shows paths) (hm : d.medium = .memory) (hfolder : ∀ n ∈ folder, IsPart n) :
    d.list (Path.spell folder) = .ok ((paths.filter fun path => folder.isPrefixOf path).mergeSort.map Path.spell) := by
  have hunder : ∀ path, (Path.place folder).isPrefixOf (Path.place path) = folder.isPrefixOf path := by
    intro path
    rw [Bool.eq_iff_iff, List.isPrefixOf_iff_prefix, List.isPrefixOf_iff_prefix, Path.place_prefix_iff]
  rw [list, hm, Path.components_spell hfolder, ← h.sortFiles_filter (Path.place folder).isPrefixOf hunder, List.map_map]
  refine congrArg Except.ok (List.map_congr_left fun f hf => ?_)
  obtain ⟨path, -, hplace, hname⟩ := h.of_mem (mem_sortFiles_filter hf).1
  rw [Function.comp_apply, hplace, hname, Path.namesOf_place]

theorem list_disk (hm : d.medium = .disk) (text : String) :
    d.list text = do
      let place ← d.walkFrom [] ((← d.steps text) ++ [.here])
      return d.textsIn text place := by
  rw [list, hm]
  unfold locate
  cases d.steps text with
  | error fault => rfl
  | ok steps =>
    simp only [bind, Except.bind, walkFrom_append]
    cases d.walkFrom [] steps with
    | error fault => rfl
    | ok place =>
      simp only [walkFrom]
      cases d.occupant place <;> cases Path.ending text <;> rfl

theorem Shows.textsIn (h : d.Shows paths) (hpaths : Compatible d.top paths) (hfolder : ∀ n ∈ folder, IsPart n) :
    d.textsIn (Path.spell folder) (Path.place folder) =
      (paths.filter fun path => path.dropLast = folder).mergeSort.map Path.spell := by
  have hroot : ¬ (Path.steps (Path.spell folder)).head? = some .root := by
    rw [Path.steps_spell hfolder]
    cases folder <;> simp [Path.place]
  have hwithin : ∀ path, decide ((Path.place path).dropLast = Path.place folder) = decide (path.dropLast = folder) := by
    intro path
    rw [decide_eq_decide, Path.place_dropLast, Path.place_injective.eq_iff]
  have hsorted := h.sortFiles_filter (fun place => place.dropLast = Path.place folder) hwithin
  rw [Directory.textsIn, if_neg hroot, ← hsorted, List.map_map, ← List.filterMap_eq_map]
  refine List.filterMap_congr fun f hf => ?_
  obtain ⟨hmem, hin⟩ := mem_sortFiles_filter hf
  obtain ⟨path, hpath, hplace, -⟩ := h.of_mem hmem
  obtain ⟨dir, name, rfl⟩ : ∃ dir name, path = dir ++ [name] := by
    simpa using (List.eq_nil_or_concat path).resolve_left (hpaths.named path hpath)
  have hdir : dir = folder := by
    simpa [hplace, Path.place_dropLast, Path.place_injective.eq_iff] using hin
  have hlast : f.place.getLast? = some (.name name) := by
    rw [hplace, Path.place_append]
    exact List.getLast?_concat
  rw [hlast, Function.comp_apply, Function.comp_apply, hplace, Path.namesOf_place, ← hdir]
  exact congrArg some (Path.join_spell (hpaths.parts _ hpath))

/-- on disk a folder that is there tells the paths directly in it -/
theorem Shows.list_disk_folder (h : d.Shows paths) (hm : d.medium = .disk) (hpaths : Compatible d.top paths)
    (hfolder : ∀ n ∈ folder, IsPart n) (hthere : IsFolder paths folder) :
    d.list (Path.spell folder) = .ok ((paths.filter fun path => path.dropLast = folder).mergeSort.map Path.spell) := by
  have hfits := hpaths.fits_folder hthere
  have hmade : d.folders.contains (Path.place folder) = true := (h.contains_iff hm).2 hthere
  have henter : d.walkFrom [] (Path.place folder ++ [.here]) = .ok (Path.place folder) :=
    (walkFrom_made [] hmade hfits.short [.here]).trans (walkFrom_here (occupant_place_eq_folder_iff.2 hmade))
  rw [list_disk hm, steps_spell hfits hfolder, ← h.textsIn hpaths hfolder]
  simp only [bind, Except.bind, henter]
  rfl

/-- on disk it is an error to list what is not a folder -/
theorem Shows.list_disk_error (h : d.Shows paths) (hm : d.medium = .disk) (hfolder : ∀ n ∈ folder, IsPart n)
    (hthere : ¬ IsFolder paths folder) :
    ∃ fault, d.list (Path.spell folder) = .error fault ∧
      (Fits d.top folder → fault = if ∃ path ∈ paths, path <+: folder then notAFolder else missingOnDisk) := by
  have hunmade : ¬ d.folders.contains (Path.place folder) = true := fun hmade => hthere ((h.contains_iff hm).1 hmade)
  rw [list_disk hm]
  by_cases hfits : Fits d.top folder
  · have henter : d.walkFrom [] (Path.place folder ++ [.here]) = .error (d.obstacle (Path.place folder)) :=
      (h.housed hm).walkFrom_unmade [] hunmade hfits.short (by simp [Path.place])
    refine ⟨d.obstacle (Path.place folder), ?_, fun _ => h.obstacle⟩
    simp only [steps_spell hfits hfolder, bind, Except.bind, henter]
  · -- a text that a disk does not take is refused before the walk or on it
    cases hsteps : d.steps (Path.spell folder) with
    | error fault => exact ⟨fault, rfl, fun hf => absurd hf hfits⟩
    | ok steps =>
      have hnames : steps = Path.place folder := by
        rw [← Path.steps_spell hfolder]
        unfold Directory.steps at hsteps
        split_ifs at hsteps
        exact (Except.ok.inj hsteps).symm
      cases hwalk : d.walkFrom [] (steps ++ [.here]) with
      | error fault => exact ⟨fault, by simp only [bind, Except.bind, hwalk], fun hf => absurd hf hfits⟩
      | ok place => exact absurd (contains_of_enter [] (hnames ▸ hwalk)) hunmade

/-- all paths under a folder are listed like those directly in it just if there are no others -/
theorem listed_eq_iff {top : Nat} (hpaths : Compatible top paths) :
    (paths.filter fun path => path.dropLast = folder).mergeSort.map Path.spell =
        (paths.filter fun path => folder.isPrefixOf path).mergeSort.map Path.spell ↔
      ∀ path ∈ paths, folder <+: path → path.dropLast = folder := by
  constructor
  · intro heq path hpath hle
    have hmem : Path.spell path ∈ (paths.filter fun path => folder.isPrefixOf path).mergeSort.map Path.spell :=
      List.mem_map_of_mem (List.mem_mergeSort.2 (List.mem_filter.2 ⟨hpath, List.isPrefixOf_iff_prefix.2 hle⟩))
    rw [← heq] at hmem
    obtain ⟨other, hother, hspell⟩ := List.mem_map.1 hmem
    obtain ⟨hin, hdirect⟩ := List.mem_filter.1 (List.mem_mergeSort.1 hother)
    rw [← Path.spell_inj (hpaths.parts other hin) (hpaths.parts path hpath) hspell]
    simpa using hdirect
  · intro hdirect
    have hsame : (paths.filter fun path => path.dropLast = folder) = paths.filter fun path => folder.isPrefixOf path := by
      refine List.filter_congr fun path hpath => ?_
      rw [Bool.eq_iff_iff, decide_eq_true_iff, List.isPrefixOf_iff_prefix]
      exact ⟨fun h => h ▸ List.dropLast_prefix path, hdirect path hpath⟩
    rw [hsame]

end Directory

/-! ## Both media -/

/-- what a folder is listed as, in memory and on disk, when files stand at paths -/
structure Listed (top : Nat) (paths : List (List String)) (folder : List String)
    (memory disk : Except IoError (List String)) : Prop where
  /-- in memory all paths under it, in order; none if there are none, and the path itself if it is that of a file -/
  under : memory = .ok ((paths.filter fun path => folder.isPrefixOf path).mergeSort.map Path.spell)
  /-- on disk the paths directly in it, in order -/
  within : IsFolder paths folder →
    disk = .ok ((paths.filter fun path => path.dropLast = folder).mergeSort.map Path.spell)
  /-- on disk what is no folder cannot be listed -/
  refused : ¬ IsFolder paths folder → ∃ fault, disk = .error fault ∧
    (Fits top folder → fault = if ∃ path ∈ paths, path <+: folder then Directory.notAFolder else Directory.missingOnDisk)
  /-- both say the same just if it is a folder, and nothing lies deeper -/
  agree : disk = memory ↔ IsFolder paths folder ∧ ∀ path ∈ paths, folder <+: path → path.dropLast = folder

/-- **Listings.** Files can be written at any paths that go together, in memory and on disk. In memory a folder lists all of
them that lie under it, on disk only those directly in it, and there it has to be a folder. -/
theorem listings {top : Nat} {files : List (List String × ByteArray)} (hfiles : Compatible top (files.map Prod.fst))
    {folder : List String} (hfolder : ∀ n ∈ folder, IsPart n) :
    ∃ memory disk : Directory,
      ({ medium := .memory, top } : Directory).writeAll files = (memory, .ok ()) ∧
      ({ medium := .disk, top } : Directory).writeAll files = (disk, .ok ()) ∧
      Listed top (files.map Prod.fst) folder (memory.list (Path.spell folder)) (disk.list (Path.spell folder)) := by
  obtain ⟨memory, hwritten, hmemory, hmedium, -⟩ := (Directory.shows_nil .memory top).writeAll hfiles
  obtain ⟨disk, hwritten', hdisk, hmedium', htop⟩ := (Directory.shows_nil .disk top).writeAll hfiles
  obtain rfl : disk.top = top := htop
  rw [List.nil_append] at hmemory hdisk
  have hunder := hmemory.list_memory hmedium hfolder
  have hwithin := hdisk.list_disk_folder hmedium' hfiles hfolder
  have hrefused := hdisk.list_disk_error hmedium' hfolder
  refine ⟨memory, disk, hwritten, hwritten', hunder, hwithin, hrefused, ?_⟩
  rw [hunder]
  by_cases hthere : IsFolder (files.map Prod.fst) folder
  · rw [hwithin hthere, Except.ok.injEq, Directory.listed_eq_iff hfiles, and_iff_right hthere]
  · obtain ⟨fault, herror, -⟩ := hrefused hthere
    rw [herror]
    simp [hthere]

/-- a folder with a file in it and one a level further down, beside a third file that is not under it -/
theorem listings_nested :
    Compatible 5 [["a", "b", "c"], ["a", "d"], ["e"]] ∧ (∀ n ∈ ["a"], IsPart n) ∧
      ∃ memory disk : Directory,
        ({ medium := .memory, top := 5 } : Directory).writeAll
          [(["a", "b", "c"], ⟨#[1]⟩), (["a", "d"], ⟨#[]⟩), (["e"], ⟨#[2, 3]⟩)] = (memory, .ok ()) ∧
        ({ medium := .disk, top := 5 } : Directory).writeAll
          [(["a", "b", "c"], ⟨#[1]⟩), (["a", "d"], ⟨#[]⟩), (["e"], ⟨#[2, 3]⟩)] = (disk, .ok ()) ∧
        Listed 5 [["a", "b", "c"], ["a", "d"], ["e"]] ["a"] (memory.list "a") (disk.list "a") := by
  have hfiles : Compatible 5 [["a", "b", "c"], ["a", "d"], ["e"]] := by decide
  have hfolder : ∀ n ∈ ["a"], IsPart n := by decide
  exact ⟨hfiles, hfolder, listings hfiles hfolder⟩

/-- the top lists a file in a folder in memory, but not on disk -/
example :
    let files := [(["a", "b"], ByteArray.empty)]
    ((({ medium := .memory } : Directory).writeAll files).1.list "").toOption = some ["a/b"] ∧
      ((({ medium := .disk } : Directory).writeAll files).1.list "").toOption = some [] := by
  decide +kernel

end ColumnStore.Storage
