/-
The names of the files of a segment, and where they lead to.

An extension that passes the check of a naming has no slash and no dot in it. The last component of the path is therefore
a name that ends in the extension (`getLast?_of_leads`), in memory and on disk, whatever stands before it; so files with
different extensions never share a place (`places_ne`). As a text a name tells identity, suffix and extension
(`file_injective`): the identity has a fixed width, and what stands behind the last dot is the extension.
-/
import ColumnStore.Proofs.Storage.Directory
import ColumnStore.Proofs.Text.Hex
import ColumnStore.Segment.Basic

namespace ColumnStore

open Storage

namespace Segment

/-! ## Parts of a text -/

/-- characters that are not a slash go to the last part -/
theorem splitFrom_append (current xs : List Char) :
    ∃ init last, ∀ ys : List Char, '/' ∉ ys → Path.splitFrom current (xs ++ ys) = init ++ [last ++ ys] := by
  induction xs generalizing current with
  | nil =>
    refine ⟨[], current.reverse, ?_⟩
    intro ys hys
    rw [List.nil_append, List.nil_append]
    induction ys generalizing current with
    | nil => rw [Path.splitFrom, List.append_nil]
    | cons y ys ih =>
      have hy : y ≠ '/' := fun h => hys (h ▸ List.mem_cons_self)
      rw [Path.splitFrom, if_neg hy, ih (y :: current) (fun h => hys (List.mem_cons_of_mem y h))]
      simp
  | cons x xs ih =>
    by_cases hx : x = '/'
    · obtain ⟨init, last, h⟩ := ih []
      refine ⟨current.reverse :: init, last, ?_⟩
      intro ys hys
      rw [List.cons_append, Path.splitFrom, if_pos hx, h ys hys, List.cons_append]
    · obtain ⟨init, last, h⟩ := ih (x :: current)
      refine ⟨init, last, ?_⟩
      intro ys hys
      rw [List.cons_append, Path.splitFrom, if_neg hx, h ys hys]

/-- a text that can stand for an extension -/
def IsExtension (extension : String) : Prop := extension ≠ "" ∧ ∀ c ∈ extension.toList, c.isAlphanum = true

theorem IsExtension.not_mem {extension : String} (h : IsExtension extension) {c : Char} (hc : c.isAlphanum = false) :
    c ∉ extension.toList := by
  intro hmem
  rw [h.2 c hmem] at hc
  simp at hc

/-- a part that ends in an extension is a name -/
theorem laterPart_extension (last : List Char) {extension : String} (h : IsExtension extension) :
    Path.laterPart (last ++ '.' :: extension.toList) =
      some (.name (String.ofList (last ++ '.' :: extension.toList))) := by
  have hne : extension.toList ≠ [] := fun hnil => h.1 (String.toList_eq_nil_iff.1 hnil)
  obtain ⟨init, c, hc⟩ : ∃ init c, extension.toList = init ++ [c] :=
    ⟨_, _, (List.dropLast_append_getLast hne).symm⟩
  have hdot : c ≠ '.' := by
    rintro rfl
    exact h.not_mem (c := '.') (by decide) (hc ▸ by simp)
  have hlast : (last ++ '.' :: extension.toList).getLast? = some c := by
    rw [hc, ← List.cons_append, ← List.append_assoc, List.getLast?_concat]
  have hneither : ∀ part : List Char, part.getLast? = some '.' ∨ part = [] → last ++ '.' :: extension.toList ≠ part := by
    rintro part (hp | rfl) heq
    · rw [heq, hp] at hlast
      exact hdot (Option.some.inj hlast).symm
    · simp at heq
  rw [Path.laterPart, if_neg, if_neg (hneither _ (Or.inl rfl))]
  rintro (hnil | hone)
  · exact hneither _ (Or.inr rfl) hnil
  · exact hneither _ (Or.inl rfl) hone

/-- with any extension, the path of a stem has the same components up to the last one, which is a name -/
theorem components_extension (stem : String) :
    ∃ (before : List Component) (last : List Char), ∀ extension, IsExtension extension →
      Path.components (stem ++ "." ++ extension) =
        before ++ [.name (String.ofList (last ++ '.' :: extension.toList))] := by
  obtain ⟨init, last, hsplit⟩ := splitFrom_append [] stem.toList
  have hparts : ∀ extension, IsExtension extension → Path.splitFrom [] (stem ++ "." ++ extension).toList =
      init ++ [last ++ '.' :: extension.toList] := by
    intro extension h
    rw [String.toList_append, String.toList_append, List.append_assoc]
    refine hsplit _ ?_
    simp [h.not_mem (c := '/') (by decide)]
  cases init with
  | nil =>
    refine ⟨[], last, ?_⟩
    intro extension h
    have hname := laterPart_extension last h
    unfold Path.components
    rw [hparts extension h, List.nil_append]
    have hone : last ++ '.' :: extension.toList ≠ ['.'] := by
      intro heq
      rw [heq] at hname
      simp [Path.laterPart] at hname
    simp [hone, hname]
  | cons first init =>
    set head := if first = [] then [Component.root] else if first = ['.'] then [.here] else (Path.laterPart first).toList
      with hhead
    refine ⟨head ++ init.filterMap Path.laterPart, last, ?_⟩
    intro extension h
    have hrest : (init ++ [last ++ '.' :: extension.toList]).filterMap Path.laterPart =
        init.filterMap Path.laterPart ++ [.name (String.ofList (last ++ '.' :: extension.toList))] := by
      rw [List.filterMap_append, List.filterMap_cons, laterPart_extension last h, List.filterMap_nil]
    unfold Path.components
    rw [hparts extension h, List.cons_append]
    dsimp only
    rw [hrest, hhead]
    by_cases hroot : first = []
    · simp [hroot]
    · by_cases hhere : first = ['.'] <;> simp [hroot, hhere]

/-! ## Places -/

/-- a walk whose last step is a name ends with that name -/
theorem getLast?_of_walkFrom {d : Directory} {start place : Place} {before : List Component} {text : String}
    (h : d.walkFrom start (before ++ [.name text]) = .ok place) : place.getLast? = some (.name text) := by
  induction before generalizing start with
  | nil =>
    rw [List.nil_append, Directory.walkFrom] at h
    split at h
    · simp at h
    · simp at h
    · split at h
      · simp at h
      · obtain rfl : start ++ [.name text] = place := by simpa [Directory.walkFrom, Path.next] using h
        rw [List.getLast?_concat]
  | cons step before ih =>
    rw [List.cons_append, Directory.walkFrom] at h
    split at h
    · simp at h
    · simp at h
    · split at h
      · simp at h
      · exact ih h

/-- where the path of a stem leads, the last component ends in the extension -/
theorem getLast?_of_leads (stem : String) :
    ∃ last : List Char, ∀ extension, IsExtension extension → ∀ (d : Directory) (place : Place),
      d.Leads (stem ++ "." ++ extension) place →
        place.getLast? = some (.name (String.ofList (last ++ '.' :: extension.toList))) := by
  obtain ⟨before, last, hcomponents⟩ := components_extension stem
  refine ⟨last, ?_⟩
  intro extension h d place hleads
  unfold Directory.Leads at hleads
  cases hm : d.medium with
  | memory =>
    rw [hm] at hleads
    rw [hleads, hcomponents extension h, List.getLast?_concat]
  | disk =>
    rw [hm] at hleads
    obtain ⟨steps, hsteps, hwalk, -⟩ := hleads
    have hpath : steps = Path.steps (stem ++ "." ++ extension) := by
      unfold Directory.steps at hsteps
      split_ifs at hsteps
      exact (Except.ok.inj hsteps).symm
    rw [hpath, Path.steps, hcomponents extension h, List.filter_append] at hwalk
    exact getLast?_of_walkFrom (by simpa using hwalk)

/-- what stands behind the last mark, and what stands before it -/
theorem append_mark_inj {xs ys a b : List Char} {mark : Char} (ha : mark ∉ a) (hb : mark ∉ b)
    (h : xs ++ mark :: a = ys ++ mark :: b) : xs = ys ∧ a = b := by
  rcases List.append_eq_append_iff.1 h with ⟨between, rfl, hrest⟩ | ⟨between, rfl, hrest⟩
  · cases between with
    | nil => exact ⟨(List.append_nil _).symm, (List.cons.inj hrest).2⟩
    | cons first between => exact absurd ((List.cons.inj hrest).2 ▸ by simp) ha
  · cases between with
    | nil => exact ⟨List.append_nil _, (List.cons.inj hrest).2.symm⟩
    | cons first between => exact absurd ((List.cons.inj hrest).2 ▸ by simp) hb

theorem places_ne {stem stem' a b : String} (ha : IsExtension a) (hb : IsExtension b) (hne : a ≠ b) {d e : Directory}
    {place other : Place} (hplace : d.Leads (stem ++ "." ++ a) place) (hother : e.Leads (stem' ++ "." ++ b) other) :
    place ≠ other := by
  obtain ⟨last, hlast⟩ := getLast?_of_leads stem
  obtain ⟨last', hlast'⟩ := getLast?_of_leads stem'
  have hfirst := hlast a ha d place hplace
  have hsecond := hlast' b hb e other hother
  rintro rfl
  rw [hfirst] at hsecond
  have htexts : last ++ '.' :: a.toList = last' ++ '.' :: b.toList :=
    String.ofList_injective (Component.name.inj (Option.some.inj hsecond))
  have hdot : Char.isAlphanum '.' = false := by decide
  exact hne (String.toList_inj.1 (append_mark_inj (ha.not_mem hdot) (hb.not_mem hdot) htexts).2)

/-! ## Names -/

/-- what the file names of a segment begin with -/
def stem (s : Segment) : String := "seg_" ++ s.id.toHex ++ (if s.suffix.isEmpty then "" else "_" ++ s.suffix)

theorem file_eq (s : Segment) {extension : String} (h : IsExtension extension) :
    s.file extension = s.stem ++ "." ++ extension := by
  have hne : extension.isEmpty = false := by
    rw [Bool.eq_false_iff]
    intro hempty
    exact h.1 (String.isEmpty_iff.1 hempty)
  simp [file, fileName, stem, hne, String.append_assoc]

theorem isExtension_info : IsExtension infoExtension := by
  have hplain : infoExtension.toList.all Char.isAlphanum = true := by rfl
  exact ⟨by decide, List.all_eq_true.1 hplain⟩

theorem stem_injective {s t : Segment} (h : s.stem = t.stem) : s.id = t.id ∧ s.suffix = t.suffix := by
  have htexts := congrArg String.toList h
  simp only [stem, String.toList_append, List.append_assoc] at htexts
  obtain ⟨hid, hsuffix⟩ := List.append_inj (List.append_cancel_left htexts)
    (by rw [SegmentId.length_toHex, SegmentId.length_toHex])
  refine ⟨SegmentId.toHex_injective hid, ?_⟩
  have hsuffix := String.toList_inj.1 hsuffix
  by_cases hs : s.suffix = "" <;> by_cases ht : t.suffix = "" <;> simp_all

theorem file_injective {s t : Segment} {a b : String} (ha : IsExtension a) (hb : IsExtension b)
    (h : s.file a = t.file b) : s.id = t.id ∧ s.suffix = t.suffix ∧ a = b := by
  rw [file_eq s ha, file_eq t hb] at h
  have htexts : s.stem.toList ++ '.' :: a.toList = t.stem.toList ++ '.' :: b.toList := by
    simpa [String.append_assoc] using congrArg String.toList h
  have hdot : Char.isAlphanum '.' = false := by decide
  obtain ⟨hstem, hextension⟩ := append_mark_inj (ha.not_mem hdot) (hb.not_mem hdot) htexts
  obtain ⟨hid, hsuffix⟩ := stem_injective (String.toList_inj.1 hstem)
  exact ⟨hid, hsuffix, String.toList_inj.1 hextension⟩

/-- the info file has the name of a file without suffix -/
theorem file_eq_infoFile_iff {s : Segment} {extension : String} (h : IsExtension extension) (id : SegmentId) :
    s.file extension = infoFile id ↔ extension = infoExtension ∧ s.suffix = "" ∧ s.id = id := by
  constructor
  · intro heq
    obtain ⟨hid, hsuffix, hextension⟩ := file_injective (t := ⟨id, 0, ""⟩) h isExtension_info heq
    exact ⟨hextension, hsuffix, hid⟩
  · rintro ⟨rfl, hsuffix, rfl⟩
    rw [file, hsuffix]
    rfl

end Segment

/-! ## Namings -/

namespace Naming

/-- what a naming that passes its check has -/
structure Valid (n : Naming) : Prop where
  dataCodec : Framing.isName n.dataCodec = true
  metadataCodec : Framing.isName n.metadataCodec = true
  dataExtension : Segment.IsExtension n.dataExtension
  metadataExtension : Segment.IsExtension n.metadataExtension
  extensions_ne : n.dataExtension ≠ n.metadataExtension

theorem isName_of_checkCodec {part : NamingPart} {name : String} (h : checkCodec part name = .ok ()) :
    Framing.isName name = true := by
  unfold checkCodec at h
  split_ifs at h with hempty hascii hlength
  simp only [Framing.isName, Bool.and_eq_true, List.all_eq_true, decide_eq_true_eq]
  refine ⟨?_, by omega⟩
  intro c hc
  by_contra hlarge
  exact hascii (List.any_eq_true.2 ⟨c, hc, by simpa using hlarge⟩)

theorem isExtension_of_checkExtension {part : NamingPart} {text : String} (h : checkExtension part text = .ok ()) :
    Segment.IsExtension text := by
  unfold checkExtension at h
  split_ifs at h with hbad
  simp only [Bool.or_eq_true, Bool.not_eq_true', not_or, Bool.not_eq_true, Bool.not_eq_false] at hbad
  refine ⟨?_, List.all_eq_true.1 hbad.2⟩
  rintro rfl
  simp at hbad

theorem valid_of_validate {n : Naming} (h : n.validate = .ok ()) : n.Valid := by
  have hcheck : n.check = .ok () := by
    unfold validate at h
    cases hc : n.check with
    | ok _ => rfl
    | error e => rw [hc] at h; simp [Except.mapError] at h
  unfold check at hcheck
  cases hdata : checkCodec .dataCodec n.dataCodec with
  | error e => simp [hdata, bind, Except.bind] at hcheck
  | ok _ =>
    cases hmetadata : checkCodec .metadataCodec n.metadataCodec with
    | error e => simp [hdata, hmetadata, bind, Except.bind] at hcheck
    | ok _ =>
      cases hdataExtension : checkExtension .dataExtension n.dataExtension with
      | error e => simp [hdata, hmetadata, hdataExtension, bind, Except.bind] at hcheck
      | ok _ =>
        cases hmetadataExtension : checkExtension .metadataExtension n.metadataExtension with
        | error e => simp [hdata, hmetadata, hdataExtension, hmetadataExtension, bind, Except.bind] at hcheck
        | ok _ =>
          simp only [hdata, hmetadata, hdataExtension, hmetadataExtension, bind, Except.bind] at hcheck
          split_ifs at hcheck with hsame
          exact ⟨isName_of_checkCodec hdata, isName_of_checkCodec hmetadata,
            isExtension_of_checkExtension hdataExtension, isExtension_of_checkExtension hmetadataExtension, hsame⟩

end Naming

end ColumnStore
