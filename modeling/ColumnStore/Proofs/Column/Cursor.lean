/-
Walking over a column: what calls on a cursor answer, in whatever order they come.

A `Call` is a step to the next document, or to the first one from a target on; `goal` is the document that it goes to.
What a call does is told by its goal alone (`call_past`, `call_ahead`), and no sum of documents overflows, because a cursor
only moves behind a document that lies below the number of documents.
- `Onward`: no calls change the column of a cursor, or move it back;
- `answered_rising`: each document is answered behind the one before;
- `calls_past`: behind the last document nothing is answered any more;
- `calls_next`: steps alone answer all documents ahead, each once;
- `walks`, `source_cursors`: all of it for a cursor over any getter, and so for those over the getters of a source.
-/
import Mathlib.Tactic
import ColumnStore.Column.Cursor
import ColumnStore.Column.Source

namespace ColumnStore.Column

namespace Cursor

variable {α : Type}

/-- what a call answers: nothing behind the last document -/
abbrev Answer (α : Type) := Option (Except Error (UInt32 × α))

/-- a step to the next document, or to the first one from a target on -/
inductive Call where
  | next
  | advance (target : UInt32)

def call (c : Cursor α) : Call → Answer α × Cursor α
  | .next => c.next
  | .advance target => c.advance target

def goal (c : Cursor α) : Call → UInt32
  | .next => c.document
  | .advance target => max c.document target

def calls (c : Cursor α) : List Call → List (Answer α) × Cursor α
  | [] => ([], c)
  | m :: ms => ((c.call m).1 :: ((c.call m).2.calls ms).1, ((c.call m).2.calls ms).2)

/-- a document and what the getter answers for it -/
def visit (get : UInt32 → Except Error α) (document : UInt32) : Answer α := some ((document, ·) <$> get document)

/-- the document of an answer with a value -/
def Answer.document? : Answer α → Option UInt32
  | some (.ok (document, _)) => some document
  | _ => none

variable {c c' : Cursor α} {m : Call}

/-! ## One call -/

theorem toNat_goal (c : Cursor α) (target : UInt32) :
    (c.goal (.advance target)).toNat = max c.document.toNat target.toNat := by
  change (if c.document ≤ target then target else c.document).toNat = _
  split
  · next h => rw [Nat.max_eq_right (UInt32.le_iff_toNat_le.1 h)]
  · next h =>
    rw [UInt32.le_iff_toNat_le] at h
    rw [Nat.max_eq_left (by omega)]

theorem document_le_goal (c : Cursor α) (m : Call) : c.document ≤ c.goal m := by
  cases m with
  | next => exact UInt32.le_refl _
  | advance target =>
    rw [UInt32.le_iff_toNat_le, toNat_goal]
    exact Nat.le_max_left _ _

/-- a call that goes behind the last document answers nothing -/
theorem call_past (h : c.documents ≤ c.goal m) : c.call m = (none, { c with document := c.goal m }) := by
  cases m with
  | next => exact if_pos h
  | advance target => exact if_pos h

/-- any other call answers the document that it goes to, and moves behind it -/
theorem call_ahead (h : c.goal m < c.documents) :
    c.call m = (visit c.get (c.goal m), { c with document := c.goal m + 1 }) := by
  cases m with
  | next => exact if_neg (UInt32.not_le.2 h)
  | advance target => exact if_neg (UInt32.not_le.2 h)

/-- there is a document behind every one below the number of documents -/
theorem toNat_succ {document documents : UInt32} (h : document < documents) :
    (document + 1).toNat = document.toNat + 1 := by
  have hlt := UInt32.lt_iff_toNat_lt.1 h
  have hmax := documents.toNat_lt
  rw [UInt32.toNat_add]
  exact Nat.mod_eq_of_lt (by simp; omega)

theorem call_eq_none_iff : (c.call m).1 = none ↔ c.documents ≤ c.goal m := by
  refine ⟨fun h => UInt32.not_lt.1 fun hahead => ?_, fun h => by rw [call_past h]⟩
  rw [call_ahead hahead] at h
  cases h

theorem document_call (c : Cursor α) (m : Call) :
    (c.call m).2.document.toNat = (c.goal m).toNat + if c.documents ≤ c.goal m then 0 else 1 := by
  by_cases h : c.documents ≤ c.goal m
  · rw [call_past h, if_pos h, Nat.add_zero]
  · rw [call_ahead (UInt32.not_le.1 h), if_neg h]
    exact toNat_succ (UInt32.not_le.1 h)

/-! ## Runs -/

/-- the same column, and not before where it was -/
structure Onward (c c' : Cursor α) : Prop where
  get : c'.get = c.get
  documents : c'.documents = c.documents
  forward : c.document ≤ c'.document

theorem Onward.refl (c : Cursor α) : c.Onward c := ⟨rfl, rfl, UInt32.le_refl _⟩

theorem Onward.trans {c'' : Cursor α} (h : c.Onward c') (h' : c'.Onward c'') : c.Onward c'' :=
  ⟨h'.get.trans h.get, h'.documents.trans h.documents, UInt32.le_trans h.forward h'.forward⟩

theorem onward_call (c : Cursor α) (m : Call) : c.Onward (c.call m).2 := by
  have hplace : c.document ≤ (c.call m).2.document := by
    have hgoal := UInt32.le_iff_toNat_le.1 (c.document_le_goal m)
    rw [UInt32.le_iff_toNat_le, document_call]
    omega
  by_cases h : c.documents ≤ c.goal m
  · rw [call_past h] at hplace ⊢
    exact ⟨rfl, rfl, hplace⟩
  · rw [call_ahead (UInt32.not_le.1 h)] at hplace ⊢
    exact ⟨rfl, rfl, hplace⟩

theorem onward_calls (c : Cursor α) (ms : List Call) : c.Onward (c.calls ms).2 := by
  induction ms generalizing c with
  | nil => exact .refl c
  | cons m ms ih => exact (c.onward_call m).trans (ih _)

theorem document?_call {d : UInt32} (h : (c.call m).1.document? = some d) :
    d = c.goal m ∧ c.goal m < (c.call m).2.document := by
  by_cases hpast : c.documents ≤ c.goal m
  · rw [call_past hpast] at h
    cases h
  · have hplace := document_call c m
    rw [if_neg hpast] at hplace
    refine ⟨?_, by rw [UInt32.lt_iff_toNat_lt, hplace]; exact Nat.lt_succ_self _⟩
    rw [call_ahead (UInt32.not_le.1 hpast), visit] at h
    cases hget : c.get (c.goal m) with
    | error e =>
      rw [hget] at h
      cases h
    | ok v =>
      rw [hget] at h
      exact (Option.some.inj h).symm

/-- **Rising.** The documents that come with a value start at the cursor, and each lies behind the one before. -/
theorem answered_rising (c : Cursor α) (ms : List Call) :
    (∀ d ∈ (c.calls ms).1.filterMap Answer.document?, c.document ≤ d) ∧
      ((c.calls ms).1.filterMap Answer.document?).Pairwise (· < ·) := by
  induction ms generalizing c with
  | nil => exact ⟨by simp [calls], by simp [calls]⟩
  | cons m ms ih =>
    obtain ⟨hbound, hrising⟩ := ih (c.call m).2
    have hforward := (c.onward_call m).forward
    have hrest : ∀ d ∈ ((c.call m).2.calls ms).1.filterMap Answer.document?, c.document ≤ d :=
      fun d hd => UInt32.le_trans hforward (hbound d hd)
    rw [calls, List.filterMap_cons]
    cases hfirst : (c.call m).1.document? with
    | none => exact ⟨hrest, hrising⟩
    | some d =>
      obtain ⟨rfl, hbehind⟩ := document?_call hfirst
      refine ⟨fun d hd => ?_, List.pairwise_cons.2 ⟨fun d hd => ?_, hrising⟩⟩
      · rcases List.mem_cons.1 hd with rfl | hd
        · exact c.document_le_goal m
        · exact hrest d hd
      · exact UInt32.lt_of_lt_of_le hbehind (hbound d hd)

/-- **The end.** A cursor behind the last document has no answer left. -/
theorem calls_past (h : c.documents ≤ c.document) (ms : List Call) : ∀ answer ∈ (c.calls ms).1, answer = none := by
  induction ms generalizing c with
  | nil => simp [calls]
  | cons m ms ih =>
    have hgoal := UInt32.le_trans h (c.document_le_goal m)
    intro answer hanswer
    rw [calls, call_past hgoal] at hanswer
    rcases List.mem_cons.1 hanswer with rfl | hrest
    · rfl
    · exact ih hgoal answer hrest

/-! ## Steps alone -/

/-- the documents ahead of a cursor, in order -/
def ahead (c : Cursor α) : List UInt32 := (List.range' c.document.toNat c.remaining).map UInt32.ofNat

theorem ahead_cons (h : c.document < c.documents) :
    c.remaining = { c with document := c.document + 1 }.remaining + 1 ∧
      c.ahead = c.document :: { c with document := c.document + 1 }.ahead := by
  have hlt := UInt32.lt_iff_toNat_lt.1 h
  have hsucc := toNat_succ h
  have hleft : c.remaining = { c with document := c.document + 1 }.remaining + 1 := by
    simp only [remaining, hsucc]
    omega
  refine ⟨hleft, ?_⟩
  rw [ahead, hleft, List.range'_succ, List.map_cons, UInt32.ofNat_toNat, ahead]
  simp only [hsucc]

theorem length_calls (c : Cursor α) (ms : List Call) : (c.calls ms).1.length = ms.length := by
  induction ms generalizing c with
  | nil => rfl
  | cons m ms ih => rw [calls, List.length_cons, List.length_cons, ih]

/-- **Every document once.** Steps alone answer the documents ahead, one after the other, and nothing after them. -/
theorem calls_next (c : Cursor α) (n : Nat) :
    (c.calls (List.replicate (c.remaining + n) .next)).1 = c.ahead.map (visit c.get) ++ List.replicate n none := by
  induction hleft : c.remaining generalizing c with
  | zero =>
    have hpast : c.documents ≤ c.document := by
      rw [remaining] at hleft
      rw [UInt32.le_iff_toNat_le]
      omega
    have hnone : c.ahead = [] := by rw [ahead, hleft]; rfl
    rw [hnone, Nat.zero_add, List.map_nil, List.nil_append, List.eq_replicate_iff]
    exact ⟨by rw [length_calls, List.length_replicate], calls_past hpast _⟩
  | succ left ih =>
    have hlt : c.document < c.documents := by
      rw [remaining] at hleft
      rw [UInt32.lt_iff_toNat_lt]
      omega
    obtain ⟨hrest, hahead⟩ := ahead_cons hlt
    have hstep : c.call .next = (visit c.get c.document, { c with document := c.document + 1 }) := call_ahead hlt
    rw [Nat.add_right_comm, List.replicate_succ, calls, hstep, hahead, List.map_cons, List.cons_append]
    exact congrArg _ (ih { c with document := c.document + 1 } (by omega))

/-! ## Cursors over getters -/

/-- what a cursor promises that stands before the first document -/
structure Walks (documents : UInt32) (get : UInt32 → Except Error α) (c : Cursor α) : Prop where
  start : c.document = 0
  /-- after any calls, a call answers nothing just if it goes behind the last document -/
  past (before : List Call) (m : Call) :
    ((c.calls before).2.call m).1 = none ↔ documents ≤ (c.calls before).2.goal m
  /-- any other call answers its document with what the getter has for it -/
  answer (before : List Call) (m : Call) (h : (c.calls before).2.goal m < documents) :
    ((c.calls before).2.call m).1 =
      some (((c.calls before).2.goal m, ·) <$> get ((c.calls before).2.goal m))
  /-- a call moves to its document, and behind it if there is such a document -/
  place (before : List Call) (m : Call) :
    ((c.calls before).2.call m).2.document.toNat =
      ((c.calls before).2.goal m).toNat + if documents ≤ (c.calls before).2.goal m then 0 else 1
  /-- no call moves back -/
  forward (before : List Call) (m : Call) : (c.calls before).2.document ≤ ((c.calls before).2.call m).2.document
  /-- documents are answered in rising order -/
  rising (ms : List Call) : ((c.calls ms).1.filterMap Answer.document?).Pairwise (· < ·)
  /-- after an answer of nothing there is no other -/
  ended (before : List Call) (m : Call) (h : ((c.calls before).2.call m).1 = none) (after : List Call) :
    ∀ answer ∈ (((c.calls before).2.call m).2.calls after).1, answer = none
  /-- how many documents are ahead -/
  hint (before : List Call) : (c.calls before).2.remaining = documents.toNat - (c.calls before).2.document.toNat
  /-- steps alone answer every document below the number of documents, once and in order -/
  whole (n : Nat) : (c.calls (List.replicate (documents.toNat + n) .next)).1 =
    (List.range documents.toNat).map (fun i => some ((UInt32.ofNat i, ·) <$> get (UInt32.ofNat i))) ++ List.replicate n none

/-- a cursor is created over a getter that does not refuse the first document, and keeps its promises -/
theorem walks {documents : UInt32} {get : UInt32 → Except Error α} (h : documents = 0 ∨ ∃ v, get 0 = .ok v) :
    ∃ c, create documents get = .ok c ∧ Walks documents get c := by
  have hcreate : create documents get = .ok { get, documents } := by
    unfold create
    rcases h with rfl | ⟨v, hv⟩
    · rfl
    · rw [hv]
      exact ite_self _
  refine ⟨_, hcreate, ?_⟩
  have honward := onward_calls ({ get, documents } : Cursor α)
  refine
    { start := rfl
      past := fun before m => ?_
      answer := fun before m hahead => ?_
      place := fun before m => ?_
      forward := fun before m => (onward_call _ m).forward
      rising := fun ms => (answered_rising _ ms).2
      ended := fun before m hnone after => ?_
      hint := fun before => ?_
      whole := fun n => ?_ }
  · rw [call_eq_none_iff, (honward before).documents]
  · rw [call_ahead (lt_of_lt_of_eq hahead (honward before).documents.symm), (honward before).get, visit]
  · rw [document_call, (honward before).documents]
  · rw [call_eq_none_iff] at hnone
    rw [call_past hnone]
    exact calls_past hnone after
  · rw [remaining, (honward before).documents]
  · have hall := calls_next ({ get, documents } : Cursor α) n
    have hahead : ahead ({ get, documents } : Cursor α) = (List.range documents.toNat).map UInt32.ofNat := by
      rw [List.range_eq_range']
      rfl
    rwa [hahead, List.map_map] at hall

end Cursor

/-- **Cursors over sources.** A cursor over the integers, the floats or the byte strings of any source, or over the
ordinals of a sorted one, is created unless the source refuses the first document. Whatever calls come then, in whatever
order:
- a call answers nothing just if it goes behind the last document, and then no later call answers anything;
- any other call answers the document it goes to, with the value or the error that the source has for it;
- the cursor moves behind that document, never back, and never past the range of documents by itself;
- documents are answered in rising order, and steps alone answer every one of them, once. -/
theorem source_cursors (s : Source) (t : SortedSource) :
    ((s.documents = 0 ∨ ∃ v, s.int 0 = .ok v) →
      ∃ c, Cursor.create s.documents s.int = .ok c ∧ c.Walks s.documents s.int) ∧
    ((s.documents = 0 ∨ ∃ v, s.float 0 = .ok v) →
      ∃ c, Cursor.create s.documents s.float = .ok c ∧ c.Walks s.documents s.float) ∧
    ((s.documents = 0 ∨ ∃ v, s.bytes 0 = .ok v) →
      ∃ c, Cursor.create s.documents s.bytes = .ok c ∧ c.Walks s.documents s.bytes) ∧
    ((t.documents = 0 ∨ ∃ v, t.ordinal 0 = .ok v) →
      ∃ c, Cursor.create t.documents t.ordinal = .ok c ∧ c.Walks t.documents t.ordinal) :=
  ⟨Cursor.walks, Cursor.walks, Cursor.walks, Cursor.walks⟩

/-- a column of as many documents as there can be: the last one is answered, and then nothing more, not even the first;
and a sorted column without documents, over which a cursor is created at its end -/
theorem source_cursors_longest :
    let s : Source := .numbers ⟨.const 7, .int, 0xffffffff⟩
    let t : SortedSource := ⟨⟨.empty, ⟨#[], 1, 0⟩, 0⟩, .const 0, 0⟩
    (s.documents = 0 ∨ ∃ v, s.int 0 = .ok v) ∧ (t.documents = 0 ∨ ∃ v, t.ordinal 0 = .ok v) ∧
    (∃ c, Cursor.create s.documents s.int = .ok c ∧
      (c.calls [.advance 0xfffffffe, .next, .advance 0]).1 = [some (.ok (0xfffffffe, 7)), none, none]) ∧
    ∃ c, Cursor.create t.documents t.ordinal = .ok c ∧ (c.call .next).1 = none := by
  intro s t
  have hfirst : s.documents = 0 ∨ ∃ v, s.int 0 = .ok v := .inr ⟨7, rfl⟩
  have hempty : t.documents = 0 ∨ ∃ v, t.ordinal 0 = .ok v := .inl rfl
  obtain ⟨hint, -, -, hordinal⟩ := source_cursors s t
  obtain ⟨c, hcreate, hwalks⟩ := hint hfirst
  obtain ⟨c', hcreate', hwalks'⟩ := hordinal hempty
  refine ⟨hfirst, hempty, ⟨c, hcreate, ?_⟩, c', hcreate', (hwalks'.past [] .next).2 UInt32.zero_le⟩
  have hgoal : c.goal (.advance 0xfffffffe) = 0xfffffffe := by
    rw [Cursor.goal, hwalks.start]
    decide
  have hlast : (c.call (.advance 0xfffffffe)).1 = some (.ok (0xfffffffe, 7)) := by
    have hanswer := hwalks.answer [] (.advance 0xfffffffe)
    rw [Cursor.calls, hgoal] at hanswer
    exact hanswer (by decide)
  have hend : ((c.call (.advance 0xfffffffe)).2.call .next).1 = none := by
    have hplace := hwalks.place [] (.advance 0xfffffffe)
    rw [Cursor.calls, hgoal] at hplace
    refine (hwalks.past [.advance 0xfffffffe] .next).2 (UInt32.le_iff_toNat_le.2 (le_of_eq ?_))
    exact hplace.symm
  have hstill := hwalks.ended [.advance 0xfffffffe] .next hend [.advance 0]
  simp only [Cursor.calls, hlast, hend] at hstill ⊢
  rw [hstill _ List.mem_cons_self]

end ColumnStore.Column
