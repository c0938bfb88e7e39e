/-
Relative, normalised paths: their texts and their places.

Such a path is a list of names, and `Path.spell` writes them with a slash between each two. What the reading of path texts
takes out of it is what was put in: the components of the text are the names (`components_spell`), the folder of a file is
spelled by all names but the last (`folder_spell`), and joining a name to a folder spells the path of the file
(`join_spell`). The order of listings is the order of the lists of names (`order_place_eq_gt`).
-/
import Mathlib.Tactic
import Mathlib.Data.String.Basic
import ColumnStore.Storage.Path

namespace ColumnStore.Storage

/-- a text that can be one name in a path -/
structure IsPart (text : String) : Prop where
  filled : text ≠ ""
  whole : '/' ∉ text.toList
  here : text ≠ "."
  parent : text ≠ ".."

instance (text : String) : Decidable (IsPart text) :=
  decidable_of_iff (text ≠ "" ∧ '/' ∉ text.toList ∧ text ≠ "." ∧ text ≠ "..")
    ⟨fun ⟨filled, whole, here, parent⟩ => ⟨filled, whole, here, parent⟩, fun h => ⟨h.filled, h.whole, h.here, h.parent⟩⟩

theorem IsPart.toList_ne {text : String} (h : IsPart text) :
    text.toList ≠ [] ∧ text.toList ≠ ['.'] ∧ text.toList ≠ ['.', '.'] := by
  refine ⟨fun he => h.filled ?_, fun he => h.here ?_, fun he => h.parent ?_⟩ <;>
    rw [← String.ofList_toList (s := text), he]

namespace Path

/-- the text of the path of names -/
def spell (names : List String) : String := "/".intercalate names

/-- the place of the path of names -/
def place (names : List String) : Place := names.map .name

variable {names later folder : List String} {name : String}

/-! ## Places -/

theorem place_injective : Function.Injective place :=
  List.map_injective_iff.2 fun _ _ h => Component.name.inj h

theorem place_eq_nil_iff : place names = [] ↔ names = [] := List.map_eq_nil_iff

theorem place_append (names later : List String) : place (names ++ later) = place names ++ place later :=
  List.map_append

theorem place_dropLast (names : List String) : (place names).dropLast = place names.dropLast :=
  List.map_dropLast.symm

theorem place_prefix_iff : place names <+: place later ↔ names <+: later :=
  List.prefix_map_iff_of_injective fun _ _ h => Component.name.inj h

theorem place_prefix_append (names later : List String) : place names <+: place (names ++ later) :=
  place_prefix_iff.2 (List.prefix_append names later)

/-- only the top has no name in its place -/
theorem any_isName_place (names : List String) : (place names).any Component.isName = !names.isEmpty := by
  cases names <;> simp [place, Component.isName]

/-- the names in a place -/
def namesOf (place : Place) : List String :=
  place.filterMap fun
    | .name text => some text
    | _ => none

theorem namesOf_place (path : List String) : namesOf (place path) = path := by
  induction path with
  | nil => rfl
  | cons n path ih => exact congrArg (n :: ·) ih

theorem order_place_eq_gt (a b : List String) : order (place a) (place b) = .gt ↔ b < a := by
  induction a generalizing b with
  | nil => cases b <;> simp [place, order]
  | cons x a ih =>
    cases b with
    | nil => simp [place, order]
    | cons y b =>
      have hstep : order (place (x :: a)) (place (y :: b)) = (compare x y).then (order (place a) (place b)) := rfl
      rw [hstep, Ordering.then_eq_gt, List.cons_lt_cons_iff, ih, compare_gt_iff_gt, compare_eq_iff_eq, eq_comm (a := x)]

/-! ## Parts of a text -/

theorem splitFrom_eq_splitOn (current text : List Char) :
    splitFrom current text = (text.splitOn '/').modifyHead (current.reverse ++ ·) := by
  induction text generalizing current with
  | nil => simp [splitFrom]
  | cons c rest ih =>
    rw [splitFrom, List.splitOn_cons_eq_if_modifyHead]
    by_cases hc : c = '/'
    · simp [hc, ih, show (fun part : List Char => part) = id from rfl]
    · rw [if_neg hc, if_neg (by simpa using hc), ih, List.modifyHead_modifyHead]
      congr 1
      funext part
      simp

theorem toList_spell (names : List String) : (spell names).toList = ['/'].intercalate (names.map String.toList) :=
  String.toList_intercalate

theorem splitFrom_spell (hparts : ∀ n ∈ names, IsPart n) (hne : names ≠ []) :
    splitFrom [] (spell names).toList = names.map String.toList := by
  have hwhole : ∀ part ∈ names.map String.toList, '/' ∉ part := by
    rintro _ hpart
    obtain ⟨n, hn, rfl⟩ := List.mem_map.1 hpart
    exact (hparts n hn).whole
  rw [splitFrom_eq_splitOn, toList_spell, List.splitOn_intercalate '/' hwhole (by simpa using hne)]
  exact congrFun List.modifyHead_id _

theorem laterPart_toList (h : IsPart name) : laterPart name.toList = some (.name name) := by
  obtain ⟨hfilled, hhere, hparent⟩ := h.toList_ne
  simp [laterPart, hfilled, hhere, hparent]

theorem filterMap_laterPart (hparts : ∀ n ∈ names, IsPart n) :
    (names.map String.toList).filterMap laterPart = place names := by
  induction names with
  | nil => rfl
  | cons n names ih =>
    obtain ⟨hn, hrest⟩ := List.forall_mem_cons.1 hparts
    rw [List.map_cons, List.filterMap_cons, laterPart_toList hn, ih hrest]
    rfl

theorem components_spell (hparts : ∀ n ∈ names, IsPart n) : components (spell names) = place names := by
  cases names with
  | nil => rfl
  | cons n names =>
    obtain ⟨hn, hrest⟩ := List.forall_mem_cons.1 hparts
    obtain ⟨hfilled, hhere, -⟩ := hn.toList_ne
    unfold components
    rw [splitFrom_spell hparts (List.cons_ne_nil n names), List.map_cons]
    simp only [hfilled, hhere, false_and, if_false, laterPart_toList hn, filterMap_laterPart hrest]
    rfl

theorem spell_inj {others : List String} (hnames : ∀ n ∈ names, IsPart n) (hothers : ∀ n ∈ others, IsPart n)
    (h : spell names = spell others) : names = others :=
  place_injective (by rw [← components_spell hnames, ← components_spell hothers, h])

/-! ## What a disk makes of a text -/

theorem steps_spell (hparts : ∀ n ∈ names, IsPart n) : steps (spell names) = place names := by
  rw [steps, components_spell hparts, List.filter_eq_self]
  intro step hstep
  obtain ⟨n, -, rfl⟩ := List.mem_map.1 hstep
  rfl

/-- no part of a spelled path stands for nothing -/
theorem trimEnd_toList (hparts : ∀ n ∈ names, IsPart n) : trimEnd (names.map String.toList) = names.map String.toList := by
  cases names with
  | nil => rfl
  | cons n names =>
    obtain ⟨hfilled, hhere, -⟩ := (hparts n List.mem_cons_self).toList_ne
    rw [trimEnd, List.map_cons, List.dropWhile_cons_of_neg]
    simp [hfilled, hhere]

theorem ending_spell (hparts : ∀ n ∈ names, IsPart n) (hne : names ≠ []) : ending (spell names) = .plain := by
  obtain ⟨dir, last, rfl⟩ := (List.eq_nil_or_concat names).resolve_left hne
  obtain ⟨hfilled, hhere, -⟩ := (hparts last (by simp)).toList_ne
  unfold ending
  rw [splitFrom_spell hparts hne]
  simp [hfilled, hhere]

theorem toList_spell_cons (name : String) (names : List String) :
    ∃ rest, (spell (name :: names)).toList = name.toList ++ rest := by
  cases names with
  | nil => exact ⟨[], by simp [toList_spell]⟩
  | cons n names => exact ⟨'/' :: (spell (n :: names)).toList, by simp [toList_spell, List.intercalate_cons_cons]⟩

theorem isAbsolute_spell (hparts : ∀ n ∈ names, IsPart n) : isAbsolute (spell names) = false := by
  cases names with
  | nil => rfl
  | cons n names =>
    have hn := hparts n List.mem_cons_self
    obtain ⟨rest, hrest⟩ := toList_spell_cons n names
    obtain ⟨c, cs, hc⟩ := List.exists_cons_of_ne_nil hn.toList_ne.1
    have hslash : c ≠ '/' := by
      rintro rfl
      exact hn.whole (hc ▸ List.mem_cons_self)
    simp [isAbsolute, hrest, hc, hslash]

/-- the folder of a spelled path is spelled by the names before the last -/
theorem folder_spell (hparts : ∀ n ∈ folder ++ [name], IsPart n) :
    Path.folder (spell (folder ++ [name])) = spell folder := by
  have hback : ∀ n ∈ name :: folder.reverse, IsPart n := fun n hn => hparts n (by simpa [or_comm] using hn)
  have hparents : ∀ n ∈ folder.reverse, IsPart n := fun n hn => hback n (List.mem_cons_of_mem name hn)
  have habove : trimEnd ((trimEnd (splitFrom [] (spell (folder ++ [name])).toList).reverse).drop 1) =
      folder.reverse.map String.toList := by
    rw [splitFrom_spell hparts (by simp), ← List.map_reverse, List.reverse_append, List.reverse_singleton,
      List.singleton_append, trimEnd_toList hback, List.map_cons, List.drop_one, List.tail_cons, trimEnd_toList hparents]
  unfold Path.folder
  rw [habove, if_neg (by simp [isAbsolute_spell hparts]), ← List.map_reverse, List.reverse_reverse, ← toList_spell,
    String.ofList_toList]

/-! ## Files in a folder -/

theorem spell_concat (hne : folder ≠ []) : spell (folder ++ [name]) = spell folder ++ "/" ++ name := by
  rw [spell, String.intercalate_append_of_ne_nil hne (by simp), String.intercalate_singleton]
  rfl

theorem utf8ByteSize_spell_le (h : names <+: later) :
    (spell names).utf8ByteSize ≤ (spell later).utf8ByteSize := by
  obtain ⟨rest, rfl⟩ := h
  induction rest using List.reverseRecOn with
  | nil => simp
  | append_singleton rest n ih =>
    refine ih.trans ?_
    rw [← List.append_assoc]
    by_cases hne : names ++ rest = []
    · simp [hne, spell]
    · rw [spell_concat hne, String.utf8ByteSize_append, String.utf8ByteSize_append]
      omega

theorem trimStart_append (h : IsPart name) (rest : List Char) :
    trimStart (name.toList ++ rest) = name.toList ++ rest := by
  obtain ⟨hfilled, hhere, -⟩ := h.toList_ne
  have hwhole := h.whole
  obtain ⟨c, cs, hc⟩ := List.exists_cons_of_ne_nil hfilled
  rw [hc] at hhere hwhole ⊢
  rw [List.cons_append]
  unfold trimStart
  split
  · next heq =>
    obtain ⟨rfl, -⟩ := List.cons.inj heq
    simp at hwhole
  · next heq =>
    obtain ⟨rfl, hnext⟩ := List.cons.inj heq
    cases cs with
    | nil => exact absurd rfl hhere
    | cons c' cs =>
      obtain ⟨rfl, -⟩ := List.cons.inj hnext
      simp at hwhole
  · rfl

theorem trimStart_spell (hparts : ∀ n ∈ names, IsPart n) : trimStart (spell names).toList = (spell names).toList := by
  cases names with
  | nil => rfl
  | cons n names =>
    obtain ⟨rest, hrest⟩ := toList_spell_cons n names
    rw [hrest, trimStart_append (hparts n List.mem_cons_self)]

theorem getLast?_spell (hparts : ∀ n ∈ folder, IsPart n) : (spell folder).toList.getLast? ≠ some '/' := by
  rcases List.eq_nil_or_concat folder with rfl | ⟨dir, last, rfl⟩
  · simp [spell]
  · have hlast := hparts last (by simp)
    obtain ⟨before, hbefore⟩ : ∃ before, (spell (dir ++ [last])).toList = before ++ last.toList := by
      by_cases hdir : dir = []
      · exact ⟨[], by simp [hdir, toList_spell]⟩
      · exact ⟨(spell dir).toList ++ ['/'], by simp [spell_concat hdir]⟩
    rw [List.concat_eq_append, hbefore, List.getLast?_append_of_ne_nil _ hlast.toList_ne.1]
    exact fun h => hlast.whole (List.mem_of_getLast? h)

/-- a name joined to a folder spells the path of the file -/
theorem join_spell (hparts : ∀ n ∈ folder ++ [name], IsPart n) : join (spell folder) name = spell (folder ++ [name]) := by
  have hfolder : ∀ n ∈ folder, IsPart n := fun n hn => hparts n (List.mem_append_left _ hn)
  have hjoined : spell folder ++ (if spell folder = "" ∨ (spell folder).toList.getLast? = some '/' then "" else "/") ++
      name = spell (folder ++ [name]) := by
    by_cases hne : folder = []
    · simp [hne, spell]
    · have hfilled : spell folder ≠ "" := fun h => hne (spell_inj hfolder (List.forall_mem_nil _) h)
      rw [if_neg (by simp [hfilled, getLast?_spell hfolder]), spell_concat hne]
  simp only [join, hjoined, trimStart_spell hparts, String.ofList_toList]

end Path

end ColumnStore.Storage
