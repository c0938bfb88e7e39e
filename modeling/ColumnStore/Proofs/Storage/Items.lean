/-
Streams of typed values.

`Item` is one write of a value, `Kind` the reading that goes with it. A write adds the bytes of its item to whatever an
output has taken (`Item.write_spec`), and the reading takes just these and answers the item (`takes_item`), so none of
them needs a mark behind it: a run of writes is a run of bytes (`writeItems_spec`) which the run of readings goes through
item by item, standing behind each where the output stood (`readItems_ok`). `items_round_trip` puts both together over a
file in memory.
-/
import ColumnStore.Proofs.Storage.Reading
import ColumnStore.Proofs.Storage.Streaming

namespace ColumnStore.Storage

open Directory

/-! ## Items -/

/-- a value that is written in one call -/
inductive Item where
  | byte (b : UInt8)
  | bytes (bs : Bytes)
  | uint32 (w : UInt32)
  | int64 (v : Int64)
  | uint128 (w : BitVec 128)
  | varint32 (w : UInt32)
  | varint (n : UInt64)
  | text (t : String)
  deriving DecidableEq

/-- what a reader has to know of a value: its type, and how many bytes it has if nothing else says so -/
inductive Kind where
  | byte
  | bytes (count : Nat)
  | uint32
  | int64
  | uint128
  | varint32
  | varint
  | text

namespace Item

def kind : Item → Kind
  | .byte _ => .byte
  | .bytes bs => .bytes bs.length
  | .uint32 _ => .uint32
  | .int64 _ => .int64
  | .uint128 _ => .uint128
  | .varint32 _ => .varint32
  | .varint _ => .varint
  | .text _ => .text

def write (d : Directory) (o : Output) : Item → Directory × Output × Except IoError Unit
  | .byte b => o.writeByte d b
  | .bytes bs => o.writeAll d bs
  | .uint32 w => o.writeUInt32 d w
  | .int64 v => o.writeInt64 d v
  | .uint128 w => o.writeUInt128 d w
  | .varint32 w => o.writeVarint32 d w
  | .varint n => o.writeVarint d n
  | .text t => o.writeText d t

def encoded : Item → Bytes
  | .byte b => [b]
  | .bytes bs => bs
  | .uint32 w => Bytes.ofUInt32 w
  | .int64 v => Bytes.ofInt64 v
  | .uint128 w => Bytes.ofBitVec128 w
  | .varint32 w => Varint.encode w.toNat
  | .varint n => Varint.encode n.toNat
  | .text t => (Piece.text t).flatten

/-- the length of a text can be counted -/
def Countable : Item → Prop
  | .text t => t.utf8ByteSize < 2 ^ 32
  | _ => True

end Item

def Kind.read : Kind → Reading Item
  | .byte => do return .byte (← Reading.byte)
  | .bytes count => do return .bytes (Bytes.ofArray (← Reading.bytes count))
  | .uint32 => do return .uint32 (← Reading.uint32)
  | .int64 => do return .int64 (← Reading.int64)
  | .uint128 => do return .uint128 (← Reading.uint128)
  | .varint32 => do return .varint32 (← Reading.varint32)
  | .varint => do return .varint (← Reading.varint)
  | .text => do return .text (← Reading.text)

variable {d d' : Directory} {o o' : Output} {done : Bytes} {item : Item} {items : List Item}

namespace Item

theorem write_spec (hd : d.Tidy) (hb : Sink.Backed d o.sink) (hw : o.Wrote done)
    (hwrite : item.write d o = (d', o', .ok ())) : Output.Keeps d d' o o' ∧ o'.Wrote (done ++ item.encoded) := by
  cases item with
  | byte b => exact Output.writeAll_spec hd hb hw hwrite
  | bytes bs => exact Output.writeAll_spec hd hb hw hwrite
  | uint32 w => exact Output.writeAll_spec hd hb hw hwrite
  | int64 v => exact Output.writeAll_spec hd hb hw hwrite
  | uint128 w => exact Output.writeAll_spec hd hb hw hwrite
  | varint32 w =>
    have hspec := Output.writePieces_spec hd hb hw hwrite
    rwa [Varint.flatten_pieces] at hspec
  | varint n =>
    have hspec := Output.writePieces_spec hd hb hw hwrite
    rwa [Varint.flatten_pieces] at hspec
  | text t => exact Output.writePieces_spec hd hb hw hwrite

theorem write_faultless (d : Directory) (hf : o.Faultless) (item : Item) :
    ∃ e o', item.write d o = (e, o', .ok ()) ∧ o'.Faultless ∧ (d.medium = .memory → e = d) := by
  cases item with
  | byte b => exact Output.writeAll_faultless d hf _
  | bytes bs => exact Output.writeAll_faultless d hf _
  | uint32 w => exact Output.writeAll_faultless d hf _
  | int64 v => exact Output.writeAll_faultless d hf _
  | uint128 w => exact Output.writeAll_faultless d hf _
  | varint32 w => exact Output.writePieces_faultless d hf _
  | varint n => exact Output.writePieces_faultless d hf _
  | text t => exact Output.writePieces_faultless d hf _

end Item

namespace Reading

/-- the bytes of an item are read back as this item, and no byte more is taken -/
theorem takes_item (h : item.Countable) : Takes item.kind.read item.encoded item := by
  cases item with
  | byte b => exact (takes_byte b).bind_last (takes_pure _)
  | bytes bs => exact (takes_bytes rfl).bind_last (takes_pure _)
  | uint32 w => exact (takes_uint32 w).bind_last (takes_pure _)
  | int64 v => exact (takes_int64 v).bind_last (takes_pure _)
  | uint128 w => exact (takes_uint128 w).bind_last (takes_pure _)
  | varint32 w => exact (takes_varint32 w).bind_last (takes_pure _)
  | varint n =>
    have hread := (takes_varint n.toNat_lt).map Item.varint
    rwa [UInt64.ofNat_toNat] at hread
  | text t => exact (takes_text h).bind_last (takes_pure _)

end Reading

/-! ## Runs -/

namespace Output

/-- write items in order up to the first failure, and note where the output stands after each -/
def writeItems (d : Directory) (o : Output) : List Item → Directory × Output × Except IoError (List Nat)
  | [] => (d, o, .ok [])
  | item :: items =>
    match item.write d o with
    | (d, o, .error fault) => (d, o, .error fault)
    | (d, o, .ok ()) =>
      let (d', o', marks) := writeItems d o items
      (d', o', marks.map (o.position :: ·))

end Output

namespace Reading

/-- read items in order, and note where the cursor stands after each -/
def readItems : List Kind → Reading (List (Item × Nat))
  | [] => return []
  | kind :: kinds => do
    let item ← kind.read
    let mark := (← get).position
    return (item, mark) :: (← readItems kinds)

end Reading

/-- where items end of which the first starts at `start` -/
def Item.ends (start : Nat) : List Item → List Nat
  | [] => []
  | item :: items => (start + item.encoded.length) :: Item.ends (start + item.encoded.length) items

theorem Item.length_ends (start : Nat) (items : List Item) : (Item.ends start items).length = items.length := by
  induction items generalizing start with
  | nil => rfl
  | cons item items ih => rw [Item.ends, List.length_cons, List.length_cons, ih]

theorem Output.writeItems_spec {marks : List Nat} (hd : d.Tidy) (hb : Sink.Backed d o.sink) (hw : o.Wrote done)
    (hwrite : o.writeItems d items = (d', o', .ok marks)) :
    Keeps d d' o o' ∧ o'.Wrote (done ++ items.flatMap Item.encoded) ∧ marks = Item.ends done.length items := by
  induction items generalizing d o done marks with
  | nil =>
    obtain ⟨rfl, rfl, rfl⟩ : d = d' ∧ o = o' ∧ [] = marks := by simpa [writeItems] using hwrite
    exact ⟨Keeps.refl hd hb, by simpa using hw, rfl⟩
  | cons item items ih =>
    rw [writeItems] at hwrite
    split at hwrite
    · simp at hwrite
    · next e p hitem =>
      obtain ⟨hfirst, hfirstWrote⟩ := Item.write_spec hd hb hw hitem
      generalize hrun : p.writeItems e items = run at hwrite
      obtain ⟨e', p', result⟩ := run
      cases result with
      | error fault => simp [Except.map] at hwrite
      | ok marks' =>
        obtain ⟨rfl, rfl, rfl⟩ : e' = d' ∧ p' = o' ∧ p.position :: marks' = marks := by simpa [Except.map] using hwrite
        obtain ⟨hrest, hrestWrote, hmarks⟩ := ih hfirst.frame.tidy hfirst.backed hfirstWrote hrun
        have hstand : p.position = done.length + item.encoded.length := by
          rw [position, hfirstWrote.written, List.length_append]
        refine ⟨hfirst.trans hrest, ?_, ?_⟩
        · rwa [List.flatMap_cons, ← List.append_assoc]
        · rw [Item.ends, hstand, hmarks, List.length_append]

theorem Output.writeItems_faultless (d : Directory) (hf : o.Faultless) (items : List Item) :
    ∃ e o' marks, o.writeItems d items = (e, o', .ok marks) ∧ o'.Faultless ∧ (d.medium = .memory → e = d) := by
  induction items generalizing d o with
  | nil => exact ⟨d, o, [], rfl, hf, fun _ => rfl⟩
  | cons item items ih =>
    obtain ⟨e, p, hitem, hp, hfirst⟩ := Item.write_faultless d hf item
    obtain ⟨e', p', marks, hrun, hp', hrest⟩ := ih e hp
    refine ⟨e', p', p.position :: marks, ?_, hp', fun hm => ?_⟩
    · simp only [writeItems, hitem, hrun, Except.map]
    · obtain rfl := hfirst hm
      exact hrest hm

/-- the bytes of items are read back item by item, each up to its own end -/
theorem Reading.readItems_ok {i : Input} (hcount : ∀ item ∈ items, item.Countable)
    (hahead : i.Ahead (items.flatMap Item.encoded)) :
    readItems (items.map Item.kind) i =
      .ok (items.zip (Item.ends i.position items)) (i.skip (items.flatMap Item.encoded).length) := by
  induction items generalizing i with
  | nil => rfl
  | cons item items ih =>
    rw [List.flatMap_cons] at hahead
    have hitem := takes_item (hcount item List.mem_cons_self) i hahead.left
    have hrest := ih (fun item h => hcount item (List.mem_cons_of_mem _ h)) hahead.right
    have hmark : (get : Reading Input) (i.skip item.encoded.length) = .ok (i.skip item.encoded.length) _ := rfl
    rw [List.map_cons, readItems, bind_ok hitem, bind_ok hmark, bind_ok hrest, List.flatMap_cons, List.length_append,
      ← Input.skip_skip]
    rfl

/-! ## Round trip -/

/-- **A stream of typed values is read back.** Without faults any items that fit a file are written to it, one after the
other. The file is as long as the output says in the end and has its checksum. The readings that go with the items answer
just these; after each the cursor is where the output was, and nothing is left behind the last. -/
theorem items_round_trip (hd : d.Reachable) (hm : d.medium = .memory) (hf : d.faults = {}) (path : String)
    (items : List Item) (hcount : ∀ t, .text t ∈ items → t.utf8ByteSize < 2 ^ 32)
    (hsize : (items.flatMap Item.encoded).length < addressLimit) :
    ∃ d₁ o d₂ p marks d₃ file, Output.create d path = (d₁, .ok o) ∧ o.writeItems d₁ items = (d₂, p, .ok marks) ∧
      p.finish d₂ = (d₃, .ok ()) ∧ d₃.read path = .ok file ∧ file.size = p.position ∧
      Crc32.checksum (Bytes.ofArray file) = p.checksum ∧ marks.length = items.length ∧
      ∀ name, ∃ j, Reading.readItems (items.map Item.kind) { name, data := file } = .ok (items.zip marks) j ∧
        j.remaining = 0 := by
  -- writing
  obtain ⟨o, hcreate, hfaultless, hempty, hpath⟩ := Output.create_memory hm hf path
  have htidy : Tidy { d with opened := d.opened + 1 } := ⟨hd.tidy.places, hd.tidy.numbers, hd.tidy.below, hd.tidy.apart⟩
  have hbacked : Sink.Backed { d with opened := d.opened + 1 } o.sink := by
    intro hdisk
    simp [hm] at hdisk
  obtain ⟨d₂, p, marks, hwrite, hp, -⟩ := Output.writeItems_faultless { d with opened := d.opened + 1 } hfaultless items
  obtain ⟨hkeeps, hwrote, rfl⟩ := Output.writeItems_spec htidy hbacked hempty hwrite
  rw [List.nil_append] at hwrote
  have hfinish := Output.finish_faultless d₂ hp
  have hread := Output.read_finish hkeeps.frame.tidy hkeeps.backed hwrote hfinish
  rw [hkeeps.path, hpath] at hread
  refine ⟨_, o, d₂, p, _, _, _, hcreate, hwrite, Prod.ext rfl hfinish, hread, hwrote.written.symm, hwrote.checksum.symm,
    Item.length_ends _ _, fun name => ?_⟩
  -- reading
  have hcountable : ∀ item ∈ items, item.Countable := by
    intro item hitem
    cases item with
    | text t => exact hcount t hitem
    | _ => trivial
  set i : Input := { name, data := Bytes.toByteArray (items.flatMap Item.encoded) } with hi
  have hlength : i.data.size = (items.flatMap Item.encoded).length := rfl
  have hahead : i.Ahead (items.flatMap Item.encoded) := by
    refine ⟨Nat.zero_le _, ?_, ?_⟩
    · rwa [hi, Nat.zero_add]
    · rw [hi, List.drop_zero, Bytes.ofArray_toByteArray]
  refine ⟨_, Reading.readItems_ok hcountable hahead, ?_⟩
  rw [Input.remaining, Input.skip_data, Input.skip_position, hlength, hi, Nat.zero_add, Nat.sub_self]

/-- one value of each type, with a varint of ten bytes and a text beyond ASCII -/
theorem items_round_trip_mixed :
    let items : List Item := [.byte 7, .bytes [1, 2], .uint32 9, .int64 (-1), .uint128 5, .varint32 300,
      .varint (-1), .text "é"]
    (∀ t, .text t ∈ items → t.utf8ByteSize < 2 ^ 32) ∧ ∃ d₁ o d₂ p marks d₃ file,
      Output.create {} "f" = (d₁, .ok o) ∧ o.writeItems d₁ items = (d₂, p, .ok marks) ∧ p.finish d₂ = (d₃, .ok ()) ∧
      d₃.read "f" = .ok file ∧ file.size = p.position ∧ marks.length = 8 ∧
      ∃ j, Reading.readItems (items.map Item.kind) { name := "f", data := file } = .ok (items.zip marks) j ∧
        j.remaining = 0 := by
  intro items
  have hcount : ∀ t, .text t ∈ items → t.utf8ByteSize < 2 ^ 32 := by
    intro t ht
    obtain rfl : t = "é" := by simpa [items] using ht
    decide
  have hsize : (items.flatMap Item.encoded).length < addressLimit := by
    have hshort : (Varint.encode (300 : UInt32).toNat).length ≤ 5 := Varint.length_encode_le (by decide) (by decide)
    have hlong : (Varint.encode (-1 : UInt64).toNat).length ≤ 10 := Varint.length_encode_le (by decide) (by decide)
    have htext : (Piece.text "é").flatten.length ≤ 3 := by
      have hcount : (Varint.encode "é".utf8ByteSize).length ≤ 1 := Varint.length_encode_le (by decide) (by decide)
      rw [Reading.flatten_text (by decide), List.length_append]
      exact Nat.add_le_add hcount (le_refl 2)
    simp only [items, List.flatMap_cons, List.flatMap_nil, Item.encoded, List.length_append, List.length_cons,
      List.length_nil, Bytes.ofUInt32, Bytes.ofInt64, Bytes.ofUInt64, Bytes.ofBitVec128, Bytes.length_littleEndian,
      addressLimit]
    omega
  obtain ⟨d₁, o, d₂, p, marks, d₃, file, hcreate, hwrite, hfinish, hread, hlength, -, hmarks, hback⟩ :=
    items_round_trip reachable_empty rfl rfl "f" items hcount hsize
  exact ⟨hcount, d₁, o, d₂, p, marks, d₃, file, hcreate, hwrite, hfinish, hread, hlength, hmarks, hback "f"⟩

end ColumnStore.Storage
