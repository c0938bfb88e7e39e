/-
Streams that are merged.

A merge takes the live documents of each input, in order (`liveDocuments`), and asks the input's source for the integer of
each. `slots` lists what is asked of which source. A program asks an input no further than up to the first live document
that it cannot answer (`Source.asked`); what is left out cannot be told from the outside, since no column is written past a
null (`SameToNull`). Main results:

- `merge_whole`: the merged column is what the slots answer, one by one, and its first null is the first slot that is not
  answered (`findIdx?_merge_whole`);
- `SameToNull.planNumbers_eq`: its plan is that of the column that is asked for only in part (`merge_parts`).
-/
import ColumnStore.Column.Source
import ColumnStore.Proofs.Column.Answers

namespace ColumnStore.Column

/-! ## Streams up to a null -/

/-- streams that are equal, or have their first null at the same place -/
def SameToNull (a b : Numbers) : Prop :=
  a = b ∨ ∃ i, a.findIdx? Option.isNone = some i ∧ b.findIdx? Option.isNone = some i

namespace SameToNull

variable {a b c d : Numbers}

theorem refl (a : Numbers) : SameToNull a a := .inl rfl

theorem append (h : SameToNull a b) (h' : SameToNull c d) : SameToNull (a ++ c) (b ++ d) := by
  rcases h with rfl | ⟨i, ha, hb⟩
  · rcases h' with rfl | ⟨i, hc, hd⟩
    · exact .refl _
    · -- a null of the first stream comes before those of the second
      cases ha : a.findIdx? Option.isNone with
      | some j => exact .inr ⟨j, by rw [List.findIdx?_append, ha]; rfl, by rw [List.findIdx?_append, ha]; rfl⟩
      | none =>
        refine .inr ⟨i + a.length, ?_, ?_⟩
        · rw [List.findIdx?_append, ha, hc]
          rfl
        · rw [List.findIdx?_append, ha, hd]
          rfl
  · exact .inr ⟨i, by rw [List.findIdx?_append, ha]; rfl, by rw [List.findIdx?_append, hb]; rfl⟩

theorem cons (v : Option Int64) (h : SameToNull a b) : SameToNull (v :: a) (v :: b) := (refl [v]).append h

theorem flatMap {α : Type} {f g : α → Numbers} {xs : List α} (h : ∀ x ∈ xs, SameToNull (f x) (g x)) :
    SameToNull (xs.flatMap f) (xs.flatMap g) := by
  induction xs with
  | nil => exact .refl []
  | cons x xs ih =>
    rw [List.flatMap_cons, List.flatMap_cons]
    exact (h x List.mem_cons_self).append (ih fun y hy => h y (List.mem_cons_of_mem x hy))

/-- no plan looks past a null -/
theorem planNumbers_eq (h : SameToNull a b) (field : FieldNumber) (name : String) (documents : Option UInt32)
    (offset : Nat) : planNumbers field name documents offset a = planNumbers field name documents offset b := by
  rcases h with rfl | ⟨i, ha, hb⟩
  · rfl
  · rw [planNumbers_error (Stats.collect_null name ha), planNumbers_error (Stats.collect_null name hb)]

end SameToNull

/-! ## Live documents -/

/-- whether a document counts as live; documents past the end of a mask do -/
def isLive (live : Option (List Bool)) (document : Nat) : Bool := (live.bind (·[document]?)).getD true

/-- the live documents of the first `count`, rising -/
def liveDocuments (count : Nat) (live : Option (List Bool)) : List Nat := (List.range count).filter (isLive live)

def liveValues (vs : List Int64) (live : Option (List Bool)) : List Int64 :=
  (liveDocuments vs.length live).filterMap (vs[·]?)

theorem keepLive_nil (values : Numbers) : keepLive values [] = values := by
  cases values <;> rfl

theorem keepLive_cons (v : Option Int64) (values : Numbers) (live : List Bool) :
    keepLive (v :: values) live =
      if live.head? = some false then keepLive values live.tail else v :: keepLive values live.tail := by
  cases live with
  | nil => simp [keepLive, keepLive_nil]
  | cons first rest => cases first <;> simp [keepLive]

/-- a mask keeps the live documents, counted from the one that it starts with -/
theorem keepLive_map_range (f : Nat → Option Int64) (start count : Nat) (live : List Bool) :
    keepLive ((List.range' start count).map f) live =
      ((List.range' start count).filter fun i => (live[i - start]?).getD true).map f := by
  induction count generalizing start live with
  | zero => cases live <;> rfl
  | succ count ih =>
    have hrest : (List.range' (start + 1) count).filter (fun i => (live[i - start]?).getD true) =
        (List.range' (start + 1) count).filter fun i => (live.tail[i - (start + 1)]?).getD true := by
      refine List.filter_congr fun i hi => ?_
      obtain ⟨hle, -⟩ := List.mem_range'_1.1 hi
      rw [show i - start = i - (start + 1) + 1 by omega, List.getElem?_tail]
    rw [List.range'_succ, List.map_cons, keepLive_cons, ih, List.filter_cons, hrest, Nat.sub_self]
    cases live with
    | nil => simp
    | cons first rest => cases first <;> simp

/-- the entries of a part that answers document by document are those of its live documents -/
theorem entries_map_range (f : Nat → Option Int64) (count : Nat) (live : Option (List Bool)) :
    MergePart.entries ⟨(List.range count).map f, live⟩ = (liveDocuments count live).map f := by
  cases live with
  | none =>
    have hall : (List.range count).filter (isLive none) = List.range count := List.filter_eq_self.2 fun _ _ => rfl
    rw [liveDocuments, hall]
    rfl
  | some live =>
    change keepLive ((List.range count).map f) live = _
    rw [List.range_eq_range', keepLive_map_range, liveDocuments, List.range_eq_range']
    rfl

/-! ## Inputs of a merge -/

/-- what a merge is given of a segment: a source, how many documents to take from it, and which of them are live -/
structure MergeInput where
  source : Source
  documents : UInt32
  live : Option (List Bool) := none

namespace MergeInput

/-- the segment as it is merged: an entry for each of its documents, also past one that cannot be answered -/
def whole (m : MergeInput) : MergePart := ⟨m.source.values m.documents.toNat, m.live⟩

/-- what is asked for of it -/
def part (m : MergeInput) : MergePart := m.source.part m.documents m.live

/-- what is asked of the source, in order -/
def slots (m : MergeInput) : List (Source × UInt32) :=
  (liveDocuments m.documents.toNat m.live).map fun i => (m.source, UInt32.ofNat i)

theorem entries_whole (m : MergeInput) : m.whole.entries = m.slots.map fun p => (p.1.int p.2).toOption := by
  rw [whole, Source.values, entries_map_range, slots, List.map_map]
  rfl

end MergeInput

/-- a source of integers -/
def Source.Ints (s : Source) : Prop := ∃ numbers, s = .numbers numbers ∧ numbers.kind = .int

/-- past its documents a source has no answer, and one of another type has none at all -/
theorem Source.int_unanswered (s : Source) {document : UInt32} (h : s.documents ≤ document ∨ ¬ s.Ints) :
    (s.int document).isOk = false := by
  cases s with
  | numbers source =>
    change (source.word .int document).isOk = false
    rw [NumberSource.word, checkDocument]
    by_cases hpast : source.documents ≤ document
    · rw [if_pos hpast]
      rfl
    · have hkind : source.kind ≠ .int := fun hkind => h.resolve_left hpast ⟨source, rfl, hkind⟩
      rw [if_neg hpast, if_neg hkind]
      rfl
  | strings table => rfl
  | sorted source => rfl

theorem isNone_toOption {α : Type} (answer : Except Error α) : answer.toOption.isNone = !answer.isOk := by
  cases answer <;> rfl

/-- nothing is left out before the first null -/
theorem keepLive_asked (s : Source) (live : List Bool) (document left : Nat) :
    document ≤ s.asked live document left ∧
      SameToNull (keepLive ((List.range' document (s.asked live document left - document)).map
          fun i => (s.int (UInt32.ofNat i)).toOption) live)
        (keepLive ((List.range' document left).map fun i => (s.int (UInt32.ofNat i)).toOption) live) := by
  induction left generalizing live document with
  | zero =>
    rw [Source.asked, Nat.sub_self]
    exact ⟨le_refl _, .refl _⟩
  | succ left ih =>
    obtain ⟨hle, hsame⟩ := ih live.tail (document + 1)
    rw [Source.asked]
    split_ifs with hon
    · refine ⟨by omega, ?_⟩
      rw [show s.asked live.tail (document + 1) left - document =
        s.asked live.tail (document + 1) left - (document + 1) + 1 by omega]
      simp only [List.range'_succ, List.map_cons, keepLive_cons]
      split_ifs
      · exact hsame
      · exact hsame.cons _
    · -- the document is live and not answered, so its null is the first of both
      rw [Bool.or_eq_true, decide_eq_true_eq, not_or] at hon
      obtain ⟨hfailed, hlive⟩ := hon
      refine ⟨by omega, .inr ⟨0, ?_, ?_⟩⟩
      · simp [List.range'_succ, keepLive_cons, hlive, List.findIdx?_cons, isNone_toOption, hfailed]
      · simp [List.range'_succ, keepLive_cons, hlive, List.findIdx?_cons, isNone_toOption, hfailed]

theorem MergeInput.entries_part (m : MergeInput) : SameToNull m.part.entries m.whole.entries := by
  obtain ⟨source, documents, live⟩ := m
  have hasked := (keepLive_asked source (live.getD []) 0 documents.toNat).2
  rw [Nat.sub_zero, ← List.range_eq_range', ← List.range_eq_range'] at hasked
  cases live with
  | none =>
    rw [Option.getD_none, keepLive_nil, keepLive_nil] at hasked
    exact hasked
  | some live => exact hasked

/-- what is asked of all sources, in the order of the merge -/
def slots (inputs : List MergeInput) : List (Source × UInt32) := inputs.flatMap MergeInput.slots

/-- every live document that an input covers is asked for -/
theorem mem_slots {inputs : List MergeInput} {m : MergeInput} {document : UInt32} (hm : m ∈ inputs)
    (hdocument : document < m.documents) (hlive : isLive m.live document.toNat = true) :
    (m.source, document) ∈ slots inputs := by
  refine List.mem_flatMap.2 ⟨m, hm, List.mem_map.2 ⟨document.toNat, ?_, by rw [UInt32.ofNat_toNat]⟩⟩
  exact List.mem_filter.2 ⟨List.mem_range.2 (UInt32.lt_iff_toNat_lt.1 hdocument), hlive⟩

/-- **The merged column** is what the slots answer, one by one. -/
theorem merge_whole (inputs : List MergeInput) :
    merge (inputs.map MergeInput.whole) = (slots inputs).map fun p => (p.1.int p.2).toOption := by
  rw [merge, List.flatMap_map, slots, List.map_flatMap]
  congr 1
  funext m
  exact m.entries_whole

/-- what is asked for is the merged column up to its first null -/
theorem merge_parts (inputs : List MergeInput) :
    SameToNull (merge (inputs.map MergeInput.part)) (merge (inputs.map MergeInput.whole)) := by
  rw [merge, merge, List.flatMap_map, List.flatMap_map]
  exact SameToNull.flatMap fun m _ => m.entries_part

/-- the first slot that is not answered is the first null -/
theorem findIdx?_merge_whole (inputs : List MergeInput) :
    (merge (inputs.map MergeInput.whole)).findIdx? Option.isNone =
      (slots inputs).findIdx? fun p => !(p.1.int p.2).isOk := by
  rw [merge_whole, List.findIdx?_map]
  refine congrFun (congrArg _ ?_) _
  funext p
  exact isNone_toOption _

theorem mergedCount_eq (parts : List MergePart) : mergedCount parts = (merge parts).length := by
  have hfold : ∀ count, parts.foldl (fun count part => count + part.entries.length) count =
      count + (merge parts).length := by
    induction parts with
    | nil => exact fun _ => rfl
    | cons part parts ih =>
      intro count
      rw [List.foldl_cons, ih, merge, merge, List.flatMap_cons, List.length_append, Nat.add_assoc]
  rw [mergedCount, hfold, Nat.zero_add]

end ColumnStore.Column
