/-
Entries in the order of their numbers.

Entries of different numbers can be put in their places one after the other, whatever order they come in: what results is
in rising order and has just these entries (`insertAll?_ordered`). Each of them is then found by its number
(`found_of_mem`).
-/
import ColumnStore.Proofs.Segment.Opening

namespace ColumnStore.SegmentReader

open Storage Column

/-- entries in rising order of their numbers -/
def Ordered (entries : List (FieldNumber × Entry)) : Prop := entries.Pairwise fun e e' => e.1 < e'.1

variable {number : FieldNumber} {entry : Entry} {entries result : List (FieldNumber × Entry)}

/-! ## Putting entries in their places -/

/-- an entry of a new number can be put in its place -/
theorem insert?_of_not_mem (entry : Entry) (hnew : number ∉ entries.map Prod.fst) :
    ∃ result, insert? number entry entries = some result := by
  induction entries with
  | nil => exact ⟨_, rfl⟩
  | cons e entries ih =>
    obtain ⟨hne, hrest⟩ : number ≠ e.1 ∧ number ∉ entries.map Prod.fst := by simpa using hnew
    rw [insert?]
    by_cases hlt : number < e.1
    · exact ⟨_, if_pos hlt⟩
    · obtain ⟨rest, hrest⟩ := ih hrest
      refine ⟨e :: rest, ?_⟩
      rw [if_neg hlt, if_neg hne, hrest]
      rfl

theorem Ordered.insert? (h : Ordered entries) (hinsert : insert? number entry entries = some result) :
    Ordered result := by
  induction entries generalizing result with
  | nil =>
    obtain rfl : [(number, entry)] = result := Option.some.inj hinsert
    exact List.pairwise_singleton _ _
  | cons e entries ih =>
    obtain ⟨hfirst, hrest⟩ := List.pairwise_cons.1 h
    rw [SegmentReader.insert?] at hinsert
    split_ifs at hinsert with hlt heq
    · obtain rfl : (number, entry) :: e :: entries = result := Option.some.inj hinsert
      refine List.pairwise_cons.2 ⟨fun e' he' => ?_, h⟩
      rcases List.mem_cons.1 he' with rfl | he'
      · exact hlt
      · exact UInt32.lt_trans hlt (hfirst e' he')
    · obtain ⟨rest, hplaced, rfl⟩ : ∃ rest, SegmentReader.insert? number entry entries = some rest ∧
          e :: rest = result := by
        simpa using hinsert
      refine List.pairwise_cons.2 ⟨fun e' he' => ?_, ih hrest hplaced⟩
      rcases List.mem_cons.1 ((perm_of_insert? hplaced).mem_iff.1 he') with rfl | he'
      · exact UInt32.lt_of_le_of_ne (UInt32.not_lt.1 hlt) (Ne.symm heq)
      · exact hfirst e' he'

/-- a record as an entry with its number -/
def Record.numbered (r : Record) : FieldNumber × Entry := (r.field, r.entry)

/-- **Entries of different numbers are kept in order**, whatever order they come in. -/
theorem insertAll?_ordered {records : List Record} (h : Ordered entries)
    (hnodup : (records.map Record.field).Nodup) (hnew : ∀ r ∈ records, r.field ∉ entries.map Prod.fst) :
    ∃ result, insertAll? entries records = some result ∧ Ordered result ∧
      result.Perm (records.map Record.numbered ++ entries) := by
  induction records generalizing entries with
  | nil => exact ⟨entries, rfl, h, List.Perm.refl _⟩
  | cons r records ih =>
    obtain ⟨hfirst, hnodup⟩ := List.nodup_cons.1 hnodup
    obtain ⟨next, hnext⟩ := insert?_of_not_mem r.entry (hnew r List.mem_cons_self)
    have hperm := perm_of_insert? hnext
    have hstill : ∀ q ∈ records, q.field ∉ next.map Prod.fst := by
      intro q hq hmem
      rcases List.mem_cons.1 ((hperm.map Prod.fst).mem_iff.1 hmem) with hsame | hold
      · exact hfirst (List.mem_map.2 ⟨q, hq, hsame⟩)
      · exact hnew q (List.mem_cons_of_mem _ hq) hold
    obtain ⟨result, hresult, hordered, hall⟩ := ih (h.insert? hnext) hnodup hstill
    refine ⟨result, ?_, hordered, ?_⟩
    · rw [insertAll?, List.foldlM_cons, hnext]
      exact hresult
    · calc List.Perm result (records.map Record.numbered ++ next) := hall
        List.Perm _ (records.map Record.numbered ++ r.numbered :: entries) := hperm.append_left _
        List.Perm _ (r.numbered :: (records.map Record.numbered ++ entries)) := List.perm_middle

/-! ## Asking for entries -/

theorem checkEntries_ok {schema : Schema} {start stop : Nat} (h : ∀ e ∈ entries,
    e.2.checkOffsets start stop = .ok () ∧ checkSchema schema e.1 e.2 = .ok ()) :
    checkEntries schema start stop entries = .ok () := by
  induction entries with
  | nil => rfl
  | cons e entries ih =>
    obtain ⟨hoffsets, hschema⟩ := h e List.mem_cons_self
    obtain ⟨number, entry⟩ := e
    have hrest := ih fun e he => h e (List.mem_cons_of_mem _ he)
    simp only [checkEntries, hoffsets, hschema, hrest, bind, Except.bind]

theorem found_of_mem {r : SegmentReader} (h : Ordered r.entries) (hmem : (number, entry) ∈ r.entries) :
    r.entry? number = some entry := by
  have hfind : ∀ entries, Ordered entries → (number, entry) ∈ entries →
      entries.find? (fun e => e.1 = number) = some (number, entry) := by
    intro entries h hmem
    induction entries with
    | nil => simp at hmem
    | cons e entries ih =>
      obtain ⟨hfirst, hrest⟩ := List.pairwise_cons.1 h
      rcases List.mem_cons.1 hmem with rfl | hmem
      · simp
      · have hne : e.1 ≠ number := UInt32.ne_of_lt (hfirst _ hmem)
        rw [List.find?_cons_of_neg (by simpa using hne)]
        exact ih hrest hmem
  unfold SegmentReader.entry?
  rw [hfind _ h hmem]
  rfl

end ColumnStore.SegmentReader
