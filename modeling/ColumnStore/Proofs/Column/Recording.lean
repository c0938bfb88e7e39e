/-
Columns under construction, whatever arrives for them and in whatever order.

An `Arrival` is a value for a document, or a padding. After any arrivals a column is as long as they reach (`extent`), and
at each place it holds the value that arrived there last, or the filler (`Settled`). Arrivals only add to what is covered,
so no column gets shorter (`extent_le_append`).

The bytes of a column of strings are counted one arrival at a time: those of the string that is replaced go, and those of
the new one come. The count is right before and after (`Weighed`), and so it is never below what goes
(`length_held_le_bytesUsed`).
-/
import ColumnStore.Proofs.Column.Collector

namespace ColumnStore.Column

/-! ## Arrivals -/

/-- what arrives for a column under construction -/
inductive Arrival (α : Type) where
  | value (document : UInt32) (value : α)
  | padding (count : UInt32)

namespace Arrival

variable {α : Type}

/-- documents that an arrival asks for -/
def reach : Arrival α → Nat
  | value document _ => document.toNat + 1
  | padding count => count.toNat

/-- the value that arrives for a place -/
def value? (place : Nat) : Arrival α → Option α
  | value document v => if place = document.toNat then some v else none
  | padding _ => none

/-- documents that arrivals ask for: the most that one of them does -/
def extent (arrivals : List (Arrival α)) : Nat := (arrivals.map reach).foldl max 0

def last? (place : Nat) (arrivals : List (Arrival α)) : Option α := arrivals.reverse.findSome? (value? place)

theorem extent_concat (arrivals : List (Arrival α)) (a : Arrival α) :
    extent (arrivals ++ [a]) = max (extent arrivals) a.reach := by
  rw [extent, List.map_append, List.foldl_append]
  rfl

theorem last?_concat (place : Nat) (arrivals : List (Arrival α)) (a : Arrival α) :
    last? place (arrivals ++ [a]) = (a.value? place).or (last? place arrivals) := by
  rw [last?, List.reverse_concat, List.findSome?_cons]
  cases a.value? place <;> rfl

theorem extent_le_append (arrivals later : List (Arrival α)) : extent arrivals ≤ extent (arrivals ++ later) := by
  induction later using List.reverseRecOn with
  | nil => rw [List.append_nil]
  | append_singleton later a ih =>
    rw [← List.append_assoc, extent_concat]
    exact ih.trans (Nat.le_max_left _ _)

end Arrival

open Arrival

/-! ## What is held -/

section

variable {α : Type} {filler : α} {arrivals : List (Arrival α)} {values : Array α}

/-- the values that are held after arrivals: as many as they reach, at each place the last one that arrived -/
structure Settled (filler : α) (arrivals : List (Arrival α)) (values : Array α) : Prop where
  size : values.size = extent arrivals
  held : ∀ place, values[place]?.getD filler = (last? place arrivals).getD filler

theorem settled_nil : Settled filler [] #[] := ⟨rfl, fun _ => rfl⟩

theorem Settled.value (h : Settled filler arrivals values) (document : UInt32) (value : α) :
    Settled filler (arrivals ++ [.value document value]) (record values document.toNat filler value) where
  size := by rw [size_record, h.size, extent_concat, reach]
  held place := by
    rw [getD_record, h.held, last?_concat, value?]
    split_ifs <;> rfl

theorem Settled.padding (h : Settled filler arrivals values) (count : UInt32) :
    Settled filler (arrivals ++ [.padding count]) (growTo values count.toNat filler) where
  size := by rw [size_growTo, h.size, extent_concat, reach]
  held place := by
    rw [getD_growTo, h.held, last?_concat]
    rfl

/-- place by place, up to where the arrivals reach -/
theorem Settled.toList (h : Settled filler arrivals values) :
    values.toList = (List.range (extent arrivals)).map fun place => (last? place arrivals).getD filler := by
  refine List.ext_getElem ?_ fun place hplace _ => ?_
  · rw [Array.length_toList, h.size, List.length_map, List.length_range]
  · rw [List.getElem_map, List.getElem_range, ← h.held, Array.getElem?_eq_getElem (by simpa using hplace),
      Array.getElem_toList, Option.getD_some]

def receive (filler : α) (values : Array α) : Arrival α → Array α
  | .value document v => record values document.toNat filler v
  | .padding count => growTo values count.toNat filler

theorem settled_foldl (filler : α) (arrivals : List (Arrival α)) :
    Settled filler arrivals (arrivals.foldl (receive filler) #[]) := by
  induction arrivals using List.reverseRecOn with
  | nil => exact settled_nil
  | append_singleton arrivals a ih =>
    rw [List.foldl_append]
    cases a with
    | value document v => exact ih.value document v
    | padding count => exact ih.padding count

end

namespace NumberCollector

def receive (c : NumberCollector) : Arrival Int64 → NumberCollector
  | .value document v => c.add document v
  | .padding count => c.padTo count

def ofArrivals (arrivals : List (Arrival Int64)) : NumberCollector := arrivals.foldl receive {}

theorem settled_ofArrivals (arrivals : List (Arrival Int64)) : Settled missing arrivals (ofArrivals arrivals).values := by
  have hvalues : (ofArrivals arrivals).values = arrivals.foldl (Column.receive missing) #[] :=
    (List.foldl_hom values fun c a => by cases a <;> rfl).symm
  rw [hvalues]
  exact settled_foldl missing arrivals

end NumberCollector

namespace StringCollector

variable {c : StringCollector}

def receive (c : StringCollector) : Arrival Bytes → StringCollector
  | .value document v => c.add document v
  | .padding count => c.padTo count

def ofArrivals (arrivals : List (Arrival Bytes)) : StringCollector := arrivals.foldl receive {}

theorem settled_ofArrivals (arrivals : List (Arrival Bytes)) : Settled [] arrivals (ofArrivals arrivals).values := by
  have hvalues : (ofArrivals arrivals).values = arrivals.foldl (Column.receive []) #[] :=
    (List.foldl_hom values fun c a => by cases a <;> rfl).symm
  rw [hvalues]
  exact settled_foldl [] arrivals

/-! ## Bytes -/

/-- bytes of all strings together -/
def payload (values : Array Bytes) : Nat := (values.toList.map List.length).sum

theorem payload_growTo (values : Array Bytes) (count : Nat) : payload (growTo values count []) = payload values := by
  rw [payload, growTo, Array.toList_append, Array.toList_replicate, List.map_append, List.map_replicate, List.sum_append,
    List.length_nil, List.sum_replicate, smul_zero, Nat.add_zero, payload]

/-- in a list of numbers, one that replaces another takes its place in the sum -/
theorem sum_set_add {xs : List Nat} {place : Nat} (h : place < xs.length) (x : Nat) :
    (xs.set place x).sum + xs[place] = xs.sum + x := by
  rw [List.sum_set, if_pos h, ← List.sum_take_add_sum_drop xs (place + 1), List.sum_take_succ xs place h]
  omega

/-- a string that replaces another takes its place in the payload -/
theorem payload_record (values : Array Bytes) (place : Nat) (value : Bytes) :
    payload (record values place [] value) + (values[place]?.getD []).length = payload values + value.length := by
  have hplace : place < (growTo values (place + 1) []).size := by
    rw [size_growTo]
    omega
  have hlength : place < ((growTo values (place + 1) []).toList.map List.length).length := by
    rwa [List.length_map, Array.length_toList]
  have hreplaced : (values[place]?.getD []).length = ((growTo values (place + 1) []).toList.map List.length)[place] := by
    rw [← getD_growTo values (place + 1), Array.getElem?_eq_getElem hplace, Option.getD_some, List.getElem_map,
      Array.getElem_toList]
  rw [hreplaced, ← payload_growTo values (place + 1), payload, payload, record, Array.toList_setIfInBounds, List.map_set]
  exact sum_set_add hlength _

theorem length_held_le (c : StringCollector) (place : Nat) : (c.held place).length ≤ payload c.values := by
  have hremoved := payload_record c.values place []
  rw [List.length_nil, Nat.add_zero] at hremoved
  exact le_of_le_of_eq (Nat.le_add_left _ _) hremoved

/-- the bytes used are those of the strings that are held -/
def Weighed (c : StringCollector) : Prop := c.bytesUsed = payload c.values

theorem Weighed.length_held_le_bytesUsed (h : c.Weighed) (place : Nat) : (c.held place).length ≤ c.bytesUsed :=
  le_of_le_of_eq (c.length_held_le place) h.symm

/-- nothing is cut off at zero: what is replaced is taken away in full -/
theorem Weighed.bytesUsed_add (h : c.Weighed) (document : UInt32) (value : Bytes) :
    (c.add document value).bytesUsed + (c.held document.toNat).length = c.bytesUsed + value.length := by
  have hused : (c.add document value).bytesUsed = c.bytesUsed - (c.held document.toNat).length + value.length := by
    rw [held, ← getD_growTo c.values (document.toNat + 1)]
    rfl
  have hle := h.length_held_le_bytesUsed document.toNat
  omega

theorem Weighed.add (h : c.Weighed) (document : UInt32) (value : Bytes) : (c.add document value).Weighed := by
  have hused := h.bytesUsed_add document value
  have hpayload : payload (c.add document value).values + (c.held document.toNat).length =
      payload c.values + value.length := payload_record _ _ _
  unfold Weighed at h ⊢
  omega

theorem Weighed.padTo (h : c.Weighed) (count : UInt32) : (c.padTo count).Weighed :=
  h.trans (payload_growTo c.values count.toNat).symm

theorem weighed_ofArrivals (arrivals : List (Arrival Bytes)) : (ofArrivals arrivals).Weighed := by
  induction arrivals using List.reverseRecOn with
  | nil => rfl
  | append_singleton arrivals a ih =>
    have hlast : ofArrivals (arrivals ++ [a]) = (ofArrivals arrivals).receive a := List.foldl_append
    rw [hlast]
    cases a with
    | value document v => exact ih.add document v
    | padding count => exact ih.padTo count

end StringCollector

/-- **Columns under construction.** Whatever arrived, in whatever order, for a column of numbers and for one of strings:
- a column has as many places as the arrivals reach, each with the value that arrived there last, or with zero or the
  empty string if none did;
- it does not get shorter, whatever else arrives;
- the bytes used are those of the strings that are held, and one more string takes away in full, before it adds its own
  bytes, those of the string that it replaces, which are never more than the bytes used. -/
theorem columns_collected (numbers moreNumbers : List (Arrival Int64)) (strings moreStrings : List (Arrival Bytes)) :
    let n := NumberCollector.ofArrivals numbers
    let s := StringCollector.ofArrivals strings
    (n.values.size = extent numbers ∧
      n.values.toList = (List.range (extent numbers)).map (fun place => (last? place numbers).getD 0) ∧
      n.values.size ≤ (NumberCollector.ofArrivals (numbers ++ moreNumbers)).values.size) ∧
    (s.values.size = extent strings ∧
      s.values.toList = (List.range (extent strings)).map (fun place => (last? place strings).getD []) ∧
      s.values.size ≤ (StringCollector.ofArrivals (strings ++ moreStrings)).values.size) ∧
    s.bytesUsed = (s.values.toList.map List.length).sum ∧
    ∀ document value, (s.held document.toNat).length ≤ s.bytesUsed ∧
      (s.add document value).bytesUsed + (s.held document.toNat).length = s.bytesUsed + value.length := by
  intro n s
  have hn := NumberCollector.settled_ofArrivals numbers
  have hs := StringCollector.settled_ofArrivals strings
  have hweighed := StringCollector.weighed_ofArrivals strings
  refine ⟨⟨hn.size, hn.toList, ?_⟩, ⟨hs.size, hs.toList, ?_⟩, hweighed, ?_⟩
  · rw [hn.size, (NumberCollector.settled_ofArrivals _).size]
    exact extent_le_append _ _
  · rw [hs.size, (StringCollector.settled_ofArrivals _).size]
    exact extent_le_append _ _
  · intro document value
    exact ⟨hweighed.length_held_le_bytesUsed document.toNat, hweighed.bytesUsed_add document value⟩

/-- a longer string gives way to a shorter one, and a padding that reaches less far changes nothing -/
example : StringCollector.ofArrivals [.value 1 [97, 98, 99], .padding 3, .value 1 [100], .padding 2] =
    { values := #[[], [100], []], bytesUsed := 1 } := by
  rfl

end ColumnStore.Column
