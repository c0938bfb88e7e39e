/-
A handle on a column keeps at most one source, whatever calls come and whatever its loader answers.

A `Call` is any of the six operations of a handle. What one call does to the cache is a single equation
(`cached?_call`), and so is what it does to the number of runs of the loader (`runs_call`). Over a run of calls:
- `holds_iff`: a source is kept just if a call to get or load one has succeeded since the last release;
- `filled_of_empty`: without a release all sources that are given out are one, which was put into the cache once;
- `filled_rising`: sources that were put into the cache at different times are told apart by their runs;
- `runs_after`: the loader runs once for each load, and once for each call to get or load that finds no source;
- `sortedRuns_after`: the loader of sorted columns, where there is one, runs once for each load of such a column;
- `keepsOne`: all of it for every new handle, and so for the handles of a segment (`SegmentReader.handle_keepsOne`).
-/
import Mathlib.Tactic
import ColumnStore.Segment.Reader

namespace ColumnStore.Column.Handle

/-! ## Calls -/

/-- a call on a handle -/
inductive Call where
  | getOrLoad
  | getCached
  | footprint
  | release
  | load
  | loadSorted
  deriving DecidableEq

inductive Answer where
  | loaded (answer : Except Error (Shared Source))
  | sorted (answer : Except Error (Shared SortedSource))
  | kept (answer : Option (Shared Source))
  | bytes (count : Nat)

def call (h : Handle) : Call → Handle × Answer
  | .getOrLoad => (h.getOrLoad.1, .loaded h.getOrLoad.2)
  | .getCached => (h, .kept h.cached?)
  | .footprint => (h, .bytes h.footprint)
  | .release => (h.release.1, .kept h.release.2)
  | .load => (h.load.1, .loaded h.load.2)
  | .loadSorted => (h.loadSorted.1, .sorted h.loadSorted.2)

/-- the handle after calls, one after the other -/
def after (h : Handle) (calls : List Call) : Handle := calls.foldl (fun h m => (h.call m).1) h

/-- the kept source that a call gives out -/
def given? (h : Handle) (m : Call) : Option (Shared Source) :=
  match m, (h.call m).2 with
  | .getOrLoad, .loaded (.ok source) => some source
  | .getCached, .kept answer => answer
  | _, _ => none

/-- whether a call asks for a source when none is kept -/
def misses (h : Handle) (m : Call) : Bool := decide (m = .getOrLoad) && h.cached?.isNone

/-- the source that a call puts into the cache -/
def filled? (h : Handle) (m : Call) : Option (Shared Source) := if h.misses m then h.given? m else none

/-- the kept sources that calls give out, one after the other -/
def given (h : Handle) : List Call → List (Shared Source)
  | [] => []
  | m :: ms => (h.given? m).toList ++ (h.call m).1.given ms

/-- the sources that calls put into the cache, one after the other -/
def filled (h : Handle) : List Call → List (Shared Source)
  | [] => []
  | m :: ms => (h.filled? m).toList ++ (h.call m).1.filled ms

/-- how many calls ask for a source when none is kept -/
def missed (h : Handle) : List Call → Nat
  | [] => 0
  | m :: ms => (h.misses m).toNat + (h.call m).1.missed ms

variable {h : Handle} {m : Call} {source : Shared Source}

/-! ## One call -/

theorem getOrLoad_kept (hkept : h.cached? = some source) : h.getOrLoad = (h, .ok source) := by
  rw [getOrLoad, hkept]

/-- with no source kept, the loader is asked, and its answer is kept if it is a source -/
theorem getOrLoad_empty (hempty : h.cached? = none) :
    h.getOrLoad = ({ h.load.1 with cached? := h.load.2.toOption }, h.load.2) := by
  rw [getOrLoad, hempty]
  cases hload : h.load with
  | mk h' answer =>
    cases answer with
    | ok source => rfl
    | error e =>
      have hkeeps : h'.cached? = none := by
        rw [← hempty]
        exact congrArg (fun r : Handle × _ => r.1.cached?) hload.symm
      simp only [Except.toOption, ← hkeeps]

theorem loadSorted_cached? (h : Handle) : h.loadSorted.1.cached? = h.cached? := by
  unfold loadSorted
  split <;> rfl

theorem loadSorted_runs (h : Handle) : h.loadSorted.1.runs = h.runs := by
  unfold loadSorted
  split <;> rfl

theorem cached?_call (h : Handle) (m : Call) :
    (h.call m).1.cached? =
      match m with
      | .getOrLoad => h.cached?.or h.load.2.toOption
      | .release => none
      | _ => h.cached? := by
  cases m with
  | getOrLoad =>
    cases hcached : h.cached? with
    | some source => rw [call, getOrLoad_kept hcached, hcached, Option.or]
    | none => rw [call, getOrLoad_empty hcached, Option.or]
  | loadSorted => exact loadSorted_cached? h
  | _ => rfl

theorem runs_call (h : Handle) (m : Call) :
    (h.call m).1.runs = h.runs + (decide (m = .load)).toNat + (h.misses m).toNat := by
  cases m with
  | getOrLoad =>
    cases hcached : h.cached? with
    | some source => simp [call, getOrLoad_kept hcached, misses, hcached]
    | none => simp [call, getOrLoad_empty hcached, misses, hcached, load]
  | loadSorted => exact loadSorted_runs h
  | _ => rfl

theorem loaders_call (h : Handle) (m : Call) :
    (h.call m).1.loader = h.loader ∧ (h.call m).1.sortedLoader? = h.sortedLoader? := by
  cases m with
  | getOrLoad =>
    cases hcached : h.cached? with
    | some source => rw [call, getOrLoad_kept hcached]; exact ⟨rfl, rfl⟩
    | none => rw [call, getOrLoad_empty hcached]; exact ⟨rfl, rfl⟩
  | loadSorted =>
    rw [call, loadSorted]
    split <;> exact ⟨rfl, rfl⟩
  | _ => exact ⟨rfl, rfl⟩

theorem loadSorted_answer (h : Handle) :
    h.loadSorted.2 =
      match h.sortedLoader? with
      | some loader => (Shared.mk h.started ·) <$> loader h.started
      | none => .error (.unsupported .sortedValues) := by
  unfold loadSorted
  cases h.sortedLoader? <;> rfl

theorem sortedRuns_call (h : Handle) (m : Call) :
    (h.call m).1.sortedRuns = h.sortedRuns + (h.sortedLoader?.isSome && decide (m = .loadSorted)).toNat := by
  cases m with
  | getOrLoad =>
    cases hcached : h.cached? with
    | some source => simp [call, getOrLoad_kept hcached]
    | none => simp [call, getOrLoad_empty hcached, load]
  | loadSorted =>
    rw [call, loadSorted]
    cases h.sortedLoader? <;> rfl
  | _ => simp [call, release, load]

theorem started_le_call (h : Handle) (m : Call) : h.started ≤ (h.call m).1.started := by
  cases m with
  | getOrLoad =>
    cases hcached : h.cached? with
    | some source => rw [call, getOrLoad_kept hcached]
    | none =>
      rw [call, getOrLoad_empty hcached]
      simp only [started, load]
      omega
  | load =>
    simp only [call, load, started]
    omega
  | loadSorted =>
    rw [call, loadSorted]
    split
    · simp only [started]
      omega
    · exact le_rfl
  | _ => exact le_rfl

theorem given?_eq_some (hgiven : h.given? m = some source) : (h.call m).1.cached? = some source := by
  rw [cached?_call]
  cases m with
  | getOrLoad =>
    cases hcached : h.cached? with
    | some other =>
      simp only [given?, call, getOrLoad_kept hcached, Option.some.injEq] at hgiven
      rw [Option.or, hgiven]
    | none =>
      simp only [given?, call, getOrLoad_empty hcached] at hgiven
      rw [Option.or]
      cases hload : h.load.2 with
      | ok loaded =>
        rw [hload] at hgiven
        exact hgiven
      | error e =>
        rw [hload] at hgiven
        cases hgiven
  | getCached => exact hgiven
  | _ => cases hgiven

/-- what a call puts into the cache comes from a run of the loader, and from the next one -/
theorem filled?_eq_some (hfilled : h.filled? m = some source) :
    m = .getOrLoad ∧ h.cached? = none ∧ source.run = h.started ∧ h.loader source.run = .ok source.value ∧
      h.given? m = some source := by
  rw [filled?, misses] at hfilled
  split_ifs at hfilled with hmisses
  simp only [Bool.and_eq_true, decide_eq_true_eq, Option.isNone_iff_eq_none] at hmisses
  obtain ⟨rfl, hempty⟩ := hmisses
  have hanswer := hfilled
  simp only [given?, call, getOrLoad_empty hempty, load] at hanswer
  cases hrun : h.loader h.started with
  | error e =>
    rw [hrun] at hanswer
    cases hanswer
  | ok value =>
    rw [hrun] at hanswer
    obtain rfl : Shared.mk h.started value = source := Option.some.inj hanswer
    exact ⟨rfl, hempty, rfl, hrun, hfilled⟩

/-- a call that fails to load has found no source, and leaves none -/
theorem failed_getOrLoad {e : Error} (hfailed : h.getOrLoad.2 = .error e) :
    h.cached? = none ∧ (h.call .getOrLoad).1.cached? = none := by
  cases hcached : h.cached? with
  | some source =>
    rw [getOrLoad_kept hcached] at hfailed
    cases hfailed
  | none =>
    rw [getOrLoad_empty hcached] at hfailed
    rw [call, getOrLoad_empty hcached, hfailed]
    exact ⟨rfl, rfl⟩

/-! ## Runs of calls -/

theorem after_cons (h : Handle) (m : Call) (ms : List Call) : h.after (m :: ms) = (h.call m).1.after ms := rfl

theorem after_append (h : Handle) (ms ms' : List Call) : h.after (ms ++ ms') = (h.after ms).after ms' := List.foldl_append

theorem after_concat (h : Handle) (ms : List Call) (m : Call) : h.after (ms ++ [m]) = ((h.after ms).call m).1 :=
  after_append h ms [m]

theorem loaders_after (h : Handle) (ms : List Call) :
    (h.after ms).loader = h.loader ∧ (h.after ms).sortedLoader? = h.sortedLoader? := by
  induction ms generalizing h with
  | nil => exact ⟨rfl, rfl⟩
  | cons m ms ih =>
    obtain ⟨hloader, hsorted⟩ := loaders_call h m
    rw [after_cons, ← hloader, ← hsorted]
    exact ih _

/-- a call to get or load has succeeded, and none to release came behind it -/
def Holds (h : Handle) (calls : List Call) : Prop :=
  ∃ earlier later source, calls = earlier ++ .getOrLoad :: later ∧ .release ∉ later ∧
    (h.after earlier).getOrLoad.2 = .ok source

/-- one more call: it gets the source itself, or the source was there and the call is no release -/
theorem holds_concat (h : Handle) (calls : List Call) (m : Call) :
    h.Holds (calls ++ [m]) ↔
      (m = .getOrLoad ∧ ∃ source, (h.after calls).getOrLoad.2 = .ok source) ∨ (m ≠ .release ∧ h.Holds calls) := by
  constructor
  · rintro ⟨earlier, later, source, hcalls, hlater, hsource⟩
    rcases List.eq_nil_or_concat later with rfl | ⟨later, last, rfl⟩
    · obtain ⟨rfl, hm⟩ := List.append_inj' hcalls rfl
      exact .inl ⟨List.singleton_inj.1 hm, source, hsource⟩
    · rw [List.concat_eq_append] at hcalls hlater
      rw [← List.cons_append, ← List.append_assoc] at hcalls
      obtain ⟨rfl, hm⟩ := List.append_inj' hcalls rfl
      obtain rfl : m = last := List.singleton_inj.1 hm
      rw [List.mem_append, List.mem_singleton, not_or] at hlater
      exact .inr ⟨Ne.symm hlater.2, earlier, later, source, rfl, hlater.1, hsource⟩
  · rintro (⟨rfl, source, hsource⟩ | ⟨hm, earlier, later, source, rfl, hlater, hsource⟩)
    · exact ⟨calls, [], source, rfl, List.not_mem_nil, hsource⟩
    · refine ⟨earlier, later ++ [m], source, by rw [List.append_assoc, List.cons_append], ?_, hsource⟩
      rw [List.mem_append, List.mem_singleton, not_or]
      exact ⟨hlater, Ne.symm hm⟩

/-- a source is kept just if one was got or loaded since the last release -/
theorem holds_iff (hempty : h.cached? = none) (calls : List Call) :
    (h.after calls).cached?.isSome = true ↔ h.Holds calls := by
  induction calls using List.reverseRecOn with
  | nil =>
    rw [after, List.foldl_nil, hempty]
    refine iff_of_false (by simp) ?_
    rintro ⟨earlier, later, source, hcalls, -⟩
    simp at hcalls
  | append_singleton calls m ih =>
    rw [after_concat, cached?_call, holds_concat, ← ih]
    cases m with
    | getOrLoad =>
      cases hcached : (h.after calls).cached? with
      | some source => simp [getOrLoad_kept hcached]
      | none =>
        rw [getOrLoad_empty hcached]
        cases (h.after calls).load.2 <;> simp [Except.toOption]
    | _ => simp

/-- without a release, a kept source is the only one that is given out, and none is put in its place -/
theorem given_of_kept (hkept : h.cached? = some source) {calls : List Call} (hcalls : .release ∉ calls) :
    (∀ s ∈ h.given calls, s = source) ∧ h.filled calls = [] := by
  induction calls generalizing h with
  | nil => exact ⟨by simp [given], rfl⟩
  | cons m ms ih =>
    rw [List.mem_cons, not_or] at hcalls
    have hstays : (h.call m).1.cached? = some source := by
      rw [cached?_call]
      cases m with
      | release => exact absurd rfl hcalls.1
      | getOrLoad => rw [hkept, Option.or]
      | _ => exact hkept
    obtain ⟨hgiven, hfilled⟩ := ih hstays hcalls.2
    constructor
    · intro s hs
      rw [given, List.mem_append, Option.mem_toList] at hs
      rcases hs with hs | hs
      · exact Option.some.inj ((given?_eq_some hs).symm.trans hstays)
      · exact hgiven s hs
    · rw [filled, hfilled, filled?, misses, hkept]
      simp

/-- a call that finds an empty cache and does not fill it gives out nothing, and leaves it empty -/
theorem empty_of_unfilled (hempty : h.cached? = none) (hunfilled : h.filled? m = none) :
    h.given? m = none ∧ (h.call m).1.cached? = none := by
  rw [cached?_call, hempty]
  cases m with
  | getOrLoad =>
    have hnothing : h.given? .getOrLoad = none := by
      rw [filled?, misses, hempty] at hunfilled
      exact hunfilled
    refine ⟨hnothing, ?_⟩
    simp only [given?, call, getOrLoad_empty hempty] at hnothing
    cases hload : h.load.2 with
    | ok loaded =>
      rw [hload] at hnothing
      cases hnothing
    | error e => rfl
  | getCached => exact ⟨hempty, rfl⟩
  | _ => exact ⟨rfl, rfl⟩

/-- **One source at a time.** From an empty cache on, until the next release, a source that is given out is the only one
that was put into the cache. -/
theorem filled_of_empty (hempty : h.cached? = none) {calls : List Call} (hcalls : .release ∉ calls) :
    ∀ source ∈ h.given calls, h.filled calls = [source] := by
  induction calls generalizing h with
  | nil => simp [given]
  | cons m ms ih =>
    rw [List.mem_cons, not_or] at hcalls
    intro source hsource
    rw [filled]
    cases hfilled : h.filled? m with
    | some first =>
      -- the first call has loaded a source, which is kept from then on
      have hfirst := (filled?_eq_some hfilled).2.2.2.2
      obtain ⟨hgiven, hnone⟩ := given_of_kept (given?_eq_some hfirst) hcalls.2
      rw [given, hfirst, List.mem_append, Option.mem_toList] at hsource
      rw [hnone]
      rcases hsource with hs | hs
      · exact congrArg (fun s => [s]) (Option.some.inj hs)
      · exact congrArg (fun s => [s]) (hgiven source hs).symm
    | none =>
      obtain ⟨hnothing, hstill⟩ := empty_of_unfilled hempty hfilled
      rw [given, hnothing] at hsource
      exact ih hstill hcalls.2 source hsource

/-- sources are put into the cache by runs of rising numbers -/
theorem filled_rising (h : Handle) (calls : List Call) :
    (∀ s ∈ h.filled calls, h.started ≤ s.run) ∧ (h.filled calls).Pairwise (·.run < ·.run) := by
  induction calls generalizing h with
  | nil => exact ⟨by simp [filled], .nil⟩
  | cons m ms ih =>
    obtain ⟨hbound, hrising⟩ := ih (h.call m).1
    have hrest : ∀ s ∈ (h.call m).1.filled ms, h.started ≤ s.run :=
      fun s hs => (started_le_call h m).trans (hbound s hs)
    rw [filled]
    cases hfilled : h.filled? m with
    | none => exact ⟨hrest, hrising⟩
    | some first =>
      obtain ⟨rfl, hempty, hrun, -⟩ := filled?_eq_some hfilled
      have hnext : (h.call .getOrLoad).1.started = h.started + 1 := by
        rw [call, getOrLoad_empty hempty]
        simp only [started, load]
        omega
      refine ⟨List.forall_mem_cons.2 ⟨hrun.ge, hrest⟩, List.pairwise_cons.2 ⟨fun s hs => ?_, hrising⟩⟩
      have hlater := hbound s hs
      omega

/-- the loader runs once for each load, and once for each call to get or load that finds no source -/
theorem runs_after (h : Handle) (calls : List Call) :
    (h.after calls).runs = h.runs + calls.count .load + h.missed calls := by
  induction calls generalizing h with
  | nil => rfl
  | cons m ms ih =>
    rw [after_cons, ih, runs_call, List.count_cons, missed]
    have hsame : (if (m == Call.load) = true then 1 else 0) = (decide (m = .load)).toNat := by cases m <;> rfl
    omega

/-- a loader of sorted columns runs once for each load of one -/
theorem sortedRuns_after (h : Handle) (calls : List Call) :
    (h.after calls).sortedRuns = h.sortedRuns + if h.sortedLoader?.isSome then calls.count .loadSorted else 0 := by
  induction calls generalizing h with
  | nil => simp [after]
  | cons m ms ih =>
    rw [after_cons, ih, sortedRuns_call, (loaders_call h m).2, List.count_cons]
    cases h.sortedLoader?.isSome with
    | false => rfl
    | true =>
      cases m with
      | loadSorted =>
        simp
        omega
      | _ => simp

/-- nothing but calls to get or load fill an empty cache -/
theorem empty_after (hempty : h.cached? = none) {calls : List Call} (hcalls : .getOrLoad ∉ calls) :
    (h.after calls).cached? = none := by
  induction calls generalizing h with
  | nil => exact hempty
  | cons m ms ih =>
    rw [List.mem_cons, not_or] at hcalls
    refine ih ?_ hcalls.2
    rw [cached?_call]
    cases m with
    | getOrLoad => exact absurd rfl hcalls.1
    | release => rfl
    | _ => exact hempty

/-! ## Handles -/

/-- what a new handle promises, whatever its loader answers -/
structure KeepsOne (h : Handle) : Prop where
  /-- a source is kept just if a call to get or load one has succeeded since the last release -/
  holds (calls : List Call) : (h.after calls).cached?.isSome = true ↔ h.Holds calls
  /-- between two releases, a source that is given out is the only one that was put into the cache -/
  one (before calls : List Call) (hstart : before = [] ∨ before.getLast? = some .release) (hcalls : .release ∉ calls) :
    ∀ source ∈ (h.after before).given calls, (h.after before).filled calls = [source]
  /-- what is put into the cache is what the loader has answered in a run of its own -/
  loaded (before : List Call) (m : Call) (source : Shared Source)
    (hfilled : (h.after before).filled? m = some source) :
    source.run = (h.after before).started ∧ h.loader source.run = .ok source.value
  /-- sources that were put into the cache at different times come from different runs -/
  apart (calls : List Call) : (h.filled calls).Pairwise (·.run < ·.run)
  /-- a call that fails to load leaves the cache empty -/
  failed (before : List Call) (e : Error) (hfailed : (h.after before).getOrLoad.2 = .error e) :
    (h.after (before ++ [.getOrLoad])).cached? = none
  /-- and the next one runs the loader again -/
  retried (before between : List Call) (e : Error) (hfailed : (h.after before).getOrLoad.2 = .error e)
    (hbetween : .getOrLoad ∉ between) :
    let there := h.after (before ++ .getOrLoad :: between)
    there.getOrLoad.1.runs = there.runs + 1 ∧
      there.getOrLoad.2 = (Shared.mk there.started ·) <$> h.loader there.started
  /-- loading past the cache does not change it -/
  aside (before : List Call) :
    (h.after before).load.1.cached? = (h.after before).cached? ∧
      (h.after before).loadSorted.1.cached? = (h.after before).cached?
  /-- it runs the loader, and answers what that run does -/
  fresh (before : List Call) :
    let there := h.after before
    there.load.1.runs = there.runs + 1 ∧ there.load.2 = (Shared.mk there.started ·) <$> h.loader there.started
  /-- a column is loaded as a sorted one by a loader of its own; where there is none, that is refused -/
  sorted (before : List Call) :
    let there := h.after before
    there.loadSorted.2 =
      match h.sortedLoader? with
      | some loader => (Shared.mk there.started ·) <$> loader there.started
      | none => .error (.unsupported .sortedValues)
  /-- looking at the cache changes nothing -/
  shown (before : List Call) :
    (h.after before).call .getCached = (h.after before, .kept (h.after before).cached?) ∧
      (h.after before).call .footprint =
        (h.after before, .bytes (((h.after before).cached?.map fun s => s.value.footprint).getD 0))
  /-- a release answers what was kept, and nothing is kept behind it -/
  released (before : List Call) :
    (h.after before).release.2 = (h.after before).cached? ∧ (h.after before).release.1.cached? = none
  /-- the loader runs once for each load, and once for each call to get or load that finds no source -/
  counted (calls : List Call) : (h.after calls).runs = calls.count .load + h.missed calls
  /-- a loader of sorted columns runs once for each load of one, and for no other call -/
  sortedCounted (calls : List Call) :
    (h.after calls).sortedRuns = if h.sortedLoader?.isSome then calls.count .loadSorted else 0

/-- a handle whose cache is empty, and whose loaders have not run yet, keeps one source at most -/
theorem keepsOne (hempty : h.cached? = none) (hruns : h.runs = 0) (hsorted : h.sortedRuns = 0) : h.KeepsOne where
  holds := holds_iff hempty
  one before calls hstart hcalls := by
    refine filled_of_empty ?_ hcalls
    rcases hstart with rfl | hlast
    · exact hempty
    · obtain ⟨earlier, rfl⟩ := List.getLast?_eq_some_iff.1 hlast
      rw [after_concat]
      rfl
  loaded before m source hfilled := by
    obtain ⟨-, -, hrun, hloader, -⟩ := filled?_eq_some hfilled
    rw [(loaders_after h before).1] at hloader
    exact ⟨hrun, hloader⟩
  apart calls := (filled_rising h calls).2
  failed before e hfailed := by
    rw [after_concat]
    exact (failed_getOrLoad hfailed).2
  retried before between e hfailed hbetween := by
    have hthere : (h.after (before ++ .getOrLoad :: between)).cached? = none := by
      rw [after_append, after_cons]
      exact empty_after (failed_getOrLoad hfailed).2 hbetween
    intro there
    rw [getOrLoad_empty hthere]
    refine ⟨rfl, ?_⟩
    rw [load, (loaders_after h _).1]
  aside before := ⟨rfl, loadSorted_cached? _⟩
  fresh before := by
    intro there
    rw [load, (loaders_after h before).1]
    exact ⟨rfl, rfl⟩
  sorted before := by
    intro there
    rw [loadSorted_answer, (loaders_after h before).2]
  shown before := by
    refine ⟨rfl, ?_⟩
    rw [call, footprint]
    cases (h.after before).cached? <;> rfl
  released before := ⟨rfl, rfl⟩
  counted calls := by rw [runs_after, hruns, Nat.zero_add]
  sortedCounted calls := by rw [sortedRuns_after, hsorted, Nat.zero_add]

end ColumnStore.Column.Handle

namespace ColumnStore

open Column

theorem SegmentReader.handle_keepsOne {r : SegmentReader} {field : FieldNumber} {h : Handle}
    (hh : r.handle field = .ok h) : h.KeepsOne := by
  unfold SegmentReader.handle at hh
  cases hentry : r.entry field with
  | error e =>
    rw [hentry] at hh
    cases hh
  | ok entry =>
    rw [hentry] at hh
    obtain rfl := Except.ok.inj hh
    exact Handle.keepsOne rfl rfl rfl

/-- **A cache of one source.** Whatever the loader answers, run by run, and whatever calls come, in whatever order:
- a source is kept just if a call to get or load one has succeeded since the last release;
- between two releases all calls that give out a source give out the same one, from one run of the loader that was put
  into the cache, and sources that were kept at different times come from different runs;
- a load that fails leaves the cache empty, and the next call to get or load runs the loader again;
- loading past the cache does not change it, and answers a run of its own, for a sorted column one of a second loader;
- a release answers just what was kept, and leaves nothing;
- the loader has run once for each load, and once for each call to get or load on an empty cache; the second one has run
  once for each load of a sorted column. -/
theorem Column.Handle.single_source (field : FieldNumber) (loader : (run : Nat) → Except Error Source)
    (sortedLoader? : Option ((run : Nat) → Except Error SortedSource)) :
    ({ field, loader, sortedLoader? } : Handle).KeepsOne :=
  Handle.keepsOne rfl rfl rfl

/-- the first run of the loader fails and is made up for by the second; the third passes the cache by, and the fourth comes
after a release -/
example :
    let loader : Nat → Except Error Source := fun run =>
      if run = 0 then .error (.unsupported .sortedValues) else .ok (.numbers ⟨.const 7, .int, 4⟩)
    (({ field := 0, loader } : Handle).given
      [.getOrLoad, .getOrLoad, .load, .getCached, .release, .getCached, .getOrLoad]).map Shared.run = [1, 1, 3] := by
  rfl

end ColumnStore
