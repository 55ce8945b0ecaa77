/-
# Downlevel.Proofs.Code.Narrowing — what is lost where moved values are cut to 16 bits

The tables of a body store code offsets, and distances between two of them, in 16 bits, while
the code itself may be longer. Offsets only move towards the start, so an offset that fitted
still fits. A distance is another matter: behind a call that became shorter a switch may take
two bytes more of padding, so two offsets can move apart. A distance that grows out of 16 bits
is cut, and nothing reports it.

How far this goes is said by `Stretches`: a stored distance grows by two bytes at most, so only
the last two values that fit can be lost, and only across a switch, in code that is itself too
long for 16 bits. `Body.Narrows` says of every table of a body which of its values are kept and
which are cut (`Body.relocate_narrows`). The cut does happen: the range of 65535 bytes in
`Overlong.body` becomes one of 65537 bytes, of which 1 is stored.
-/
import Downlevel.Proofs.Code.Drift
import Downlevel.Proofs.Code.Tables

namespace Downlevel

set_option autoImplicit false

open Sequencing

/-! ## Distances -/

/-- A distance from the offset `o` to `o'`, as it was stored and as it becomes. It fits 16 bits
again, unless it was one of the last two values that fit, a switch starts on the way and the
code is too long for 16 bits. -/
structure Stretches (code : List Placed) (length o o' old new : Nat) : Prop where
  close : new ≤ old + 2
  fits : new < 65536 ∨ 65534 ≤ old ∧ 65536 ≤ length ∧
    ∃ p ∈ code, o ≤ p.offset ∧ p.offset < o' ∧ p.instruction.IsSwitch

/-- A range that is stored as a start and a size, before and after. The start is kept; the size
is the distance between the ends, cut to 16 bits. -/
structure SpanNarrows (map : OffsetMap) (code : List Placed) (length : Nat)
    (start size start' size' : UInt16) : Prop where
  sends : map.Sends start.toNat start'.toNat
  cut : ∃ stop, map.Sends (start.toNat + size.toNat) stop ∧ start'.toNat ≤ stop ∧
    size' = UInt16.ofNat (stop - start'.toNat) ∧
    Stretches code length start.toNat (start.toNat + size.toNat) size.toNat
      (stop - start'.toNat)

/-! ## Tables -/

/-- The same variable, in its range after the move. -/
structure LocalVariable.Narrows (map : OffsetMap) (code : List Placed) (length : Nat)
    (row moved : LocalVariable) : Prop where
  span : SpanNarrows map code length row.start row.length moved.start moved.length
  name : moved.name = row.name
  type : moved.type = row.type
  slot : moved.slot = row.slot

/-- The same variable of an annotation, in its range after the move. -/
structure TypeAnnotation.Range.Narrows (map : OffsetMap) (code : List Placed) (length : Nat)
    (r r' : Range) : Prop where
  span : SpanNarrows map code length r.start r.length r'.start r'.length
  slot : r'.slot = r.slot

/-- The same frames with all their offsets sent through the map, written down by their deltas.
The first delta fits; each further one is the distance from one frame to the next, less one. -/
def Frame.TableNarrows (map : OffsetMap) (code : List Placed) (length : Nat)
    (info info' : Bytes) : Prop :=
  ∃ frames frames', readAttribute attributeName readTable info = .ok frames ∧
    List.Forall₂ (Moves map) frames frames' ∧ info' = writeAll frames' ∧
    (∀ first ∈ frames'.head?, first.offset < 65536) ∧
    (frames.zip frames').IsChain fun f g => f.2.offset < g.2.offset ∧
      Stretches code length f.1.offset g.1.offset (g.1.offset - f.1.offset - 1)
        (g.2.offset - f.2.offset - 1)

open TypeAnnotation (Item Range)

/-- The contents of an attribute before and after, with all that is kept and all that is cut. -/
inductive OffsetTable.Narrows (map : OffsetMap) (code : List Placed) (length : Nat) :
    OffsetTable → Bytes → Bytes → Prop where
  | lines {info info' : Bytes} {rows rows' : List LineNumber}
      (read : readAttribute lineNumbers.attributeName (Reader.table LineNumber.read) info =
        .ok rows)
      (read' : readAttribute lineNumbers.attributeName (Reader.table LineNumber.read) info' =
        .ok rows')
      (moves : List.Forall₂ (LineNumber.Moves map) rows rows') :
      Narrows map code length lineNumbers info info'
  | locals {table : OffsetTable} {info info' : Bytes} {rows rows' : List LocalVariable}
      (kind : table = localVariables ∨ table = localVariableTypes)
      (read : readAttribute table.attributeName (Reader.table LocalVariable.read) info = .ok rows)
      (read' : readAttribute table.attributeName (Reader.table LocalVariable.read) info' =
        .ok rows')
      (narrows : List.Forall₂ (LocalVariable.Narrows map code length) rows rows') :
      Narrows map code length table info info'
  | stackMap {info info' : Bytes} (narrows : Frame.TableNarrows map code length info info') :
      Narrows map code length frames info info'
  | annotations {table : OffsetTable} {info info' : Bytes} {items items' : List Item}
      (kind : table = visibleAnnotations ∨ table = invisibleAnnotations)
      (reads : TypeAnnotation.Reads info items)
      (written : info' = writeTable Item.write items')
      (narrows : List.Forall₂ (Item.Changes (Range.Narrows map code length)
        fun o o' => map.Sends o.toNat o'.toNat) items items') :
      Narrows map code length table info info'

/-- A body before and after its tables were moved along with the code. -/
structure Body.Narrows (pool : Pool) (map : OffsetMap) (code : List Placed) (b moved : Body) :
    Prop where
  maxStack : moved.maxStack = b.maxStack
  maxLocals : moved.maxLocals = b.maxLocals
  handlers : List.Forall₂ (Handler.Moves map) b.handlers moved.handlers
  attributes : List.Forall₂ (fun a a' => a'.name = a.name ∧
      ∃ text, pool.utf8 a.name = .ok text ∧
        (OffsetTable.ofName? text = none ∧ a'.info = a.info ∨
          ∃ table, OffsetTable.ofName? text = some table ∧
            table.Narrows map code b.code.length a.info a'.info))
    b.attributes moved.attributes

/-! ## The layout -/

section Layout

variable {code : Bytes} {before after : List Placed} (decoded : decode code = .ok before)
  (replaced : List.Forall₂ Placed.Replaced before after)
include decoded replaced

/-- How a stored distance stretches; `less` is taken off before it is stored. -/
theorem stretches_layOut (less : Nat) {o m o' m' : Nat} (sends : (layOut after code.length).Sends o m)
    (sends' : (layOut after code.length).Sends o' m') (apart : o + less ≤ o')
    (stored : o' - o - less < 65536) :
    Stretches before code.length o o' (o' - o - less) (m' - m - less) := by
  have carries := carries_layOut decoded replaced
  have within := carries.within _ _ sends'
  have shorter := carries.shrinks _ _ sends'
  obtain ⟨close, kept⟩ := stretch_layOut decoded replaced sends sends' (by omega)
  refine ⟨by omega, ?_⟩
  by_cases fits : m' - m - less < 65536
  · exact .inl fits
  · refine .inr ⟨by omega, by omega, ?_⟩
    by_contra noSwitch
    have whole := kept fun p held behind ahead switch =>
      noSwitch ⟨p, held, behind, ahead, switch⟩
    omega

theorem spanNarrows_layOut {start size : UInt16} {start' stop : Nat}
    (sends : (layOut after code.length).Sends start.toNat start')
    (sends' : (layOut after code.length).Sends (start.toNat + size.toNat) stop) :
    SpanNarrows (layOut after code.length) before code.length start size (UInt16.ofNat start')
      (UInt16.ofNat (stop - start')) := by
  have carries := carries_layOut decoded replaced
  have bound := start.toNat_lt
  have sizeBound := size.toNat_lt
  have shorter := carries.shrinks _ _ sends
  -- The ends cannot have changed places.
  have forward : start' ≤ stop := by
    have back := carries.ordered sends' sends
    omega
  have stretches := stretches_layOut decoded replaced 0 sends sends' (by omega) (by omega)
  have kept : (UInt16.ofNat start').toNat = start' := by
    rw [UInt16.toNat_ofNat']
    omega
  refine ⟨by rwa [kept], stop, sends', by omega, by rw [kept], ?_⟩
  rw [kept]
  simpa using stretches

/-- The offset of the first frame fits, as its delta did. -/
theorem Frame.first_fits {frames moved : List Frame} {bytes : Bytes}
    (row : Row FrameKind.Form none frames bytes)
    (moves : List.Forall₂ (Moves (layOut after code.length)) frames moved) :
    ∀ first ∈ moved.head?, first.offset < 65536 := by
  cases moves with
  | nil => simp
  | @cons frame frame' frames moved here _ =>
      cases row with
      | @cons _ delta _ _ piece rest _ _ leads _ =>
          have shorter := (carries_layOut decoded replaced).shrinks _ _ here.1
          have bound := delta.toNat_lt
          rw [leads, offsetAfter] at shorter
          simp only [List.head?_cons, Option.mem_def, Option.some.injEq, forall_eq']
          omega

/-- Each delta behind the first is a stored distance. -/
theorem Frame.chain_of_row {first first' : Frame} {frames moved : List Frame} {bytes : Bytes}
    (here : Moves (layOut after code.length) first first')
    (row : Row FrameKind.Form (some first.offset) frames bytes)
    (moves : List.Forall₂ (Moves (layOut after code.length)) frames moved) :
    ((first, first') :: frames.zip moved).IsChain fun f g => f.2.offset < g.2.offset ∧
      Stretches before code.length f.1.offset g.1.offset (g.1.offset - f.1.offset - 1)
        (g.2.offset - f.2.offset - 1) := by
  induction moves generalizing first first' bytes with
  | nil => exact .singleton _
  | @cons next next' frames moved there _ ih =>
      cases row with
      | @cons _ delta _ _ piece rest _ _ leads others =>
          have bound := delta.toNat_lt
          rw [offsetAfter] at leads
          have later : first.offset < next.offset := by omega
          have stored : next.offset - first.offset - 1 < 65536 := by omega
          have ordered := (carries_layOut decoded replaced).ordered here.1 there.1
          exact .cons_cons ⟨ordered.mp later,
            stretches_layOut decoded replaced 1 here.1 there.1 later stored⟩ (ih there others)

theorem Frame.tableNarrows_layOut {info info' : Bytes}
    (ok : relocateTable (layOut after code.length) info = .ok info') :
    TableNarrows (layOut after code.length) before code.length info info' := by
  have shrinks := (carries_layOut decoded replaced).shrinks
  obtain ⟨frames, frames', read, moves, rfl⟩ := (relocateTable_eq_ok shrinks).mp ok
  obtain ⟨-, bytes, row, -⟩ := readTable_eq_ok.mp (readAttribute_iff_read.mp read)
  refine ⟨frames, frames', read, moves, rfl, first_fits decoded replaced row moves, ?_⟩
  cases moves with
  | nil => exact .nil
  | @cons frame frame' frames moved here others =>
      cases row with
      | cons _ _ _ row => exact chain_of_row decoded replaced here row others

theorem LocalVariable.narrows_layOut {row moved : LocalVariable}
    (ok : row.relocate (layOut after code.length) = .ok moved) :
    row.Narrows (layOut after code.length) before code.length moved := by
  have shrinks := (carries_layOut decoded replaced).shrinks
  obtain ⟨start, foundStart, ok⟩ := bind_eq_ok.mp ok
  obtain ⟨stop, foundStop, same⟩ := bind_eq_ok.mp ok
  obtain rfl := pure_eq_ok.mp same
  have span := spanNarrows_layOut decoded replaced (shrinks.find16_eq_ok.mp foundStart)
    (OffsetMap.find_eq_ok.mp foundStop)
  rw [UInt16.ofNat_toNat] at span
  exact ⟨span, rfl, rfl, rfl⟩

theorem TypeAnnotation.Target.narrows_layOut {target target' : Target}
    (changes : target.Changes (Range.MovedTo (layOut after code.length))
      (fun o o' => (layOut after code.length).find16 o = .ok o') target') :
    target.Changes (Range.Narrows (layOut after code.length) before code.length)
      (fun o o' => (layOut after code.length).Sends o.toNat o'.toNat) target' := by
  have shrinks := (carries_layOut decoded replaced).shrinks
  cases changes with
  | ranges changes =>
      refine .ranges (changes.imp fun r r' moved => ?_)
      obtain ⟨start, stop, sends, sends', rfl⟩ := moved
      exact ⟨spanNarrows_layOut decoded replaced sends sends', rfl⟩
  | offset found => exact .offset (shrinks.find16_eq_ok.mp found)
  | argument number found => exact .argument number (shrinks.find16_eq_ok.mp found)
  | fixed bytes => exact .fixed bytes

theorem OffsetTable.narrows_layOut {table : OffsetTable} {info info' : Bytes}
    (ok : table.relocate (layOut after code.length) info = .ok info') :
    table.Narrows (layOut after code.length) before code.length info info' := by
  have shrinks := (carries_layOut decoded replaced).shrinks
  have variables' {table : OffsetTable} (kind : table = localVariables ∨ table = localVariableTypes)
      (ok : LocalVariable.relocateTable table.attributeName (layOut after code.length) info =
        .ok info') : table.Narrows (layOut after code.length) before code.length info info' := by
    obtain ⟨rows, rows', read, read', rounds⟩ :=
      readAttribute_of_mapM LocalVariable.read_inverts ok
    exact .locals kind read read'
      (rounds.imp fun _ _ => LocalVariable.narrows_layOut decoded replaced)
  have items {table : OffsetTable} (kind : table = visibleAnnotations ∨ table = invisibleAnnotations)
      (ok : TypeAnnotation.relocateTable table.attributeName (layOut after code.length) info =
        .ok info') : table.Narrows (layOut after code.length) before code.length info info' := by
    obtain ⟨items, items', reads, changes, written⟩ := TypeAnnotation.relocateTable_eq_ok.mp ok
    exact .annotations kind reads written
      (changes.imp fun _ _ change => ⟨change.tag,
        TypeAnnotation.Target.narrows_layOut decoded replaced change.target, change.path,
        change.proper⟩)
  cases table with
  | lineNumbers =>
      obtain ⟨rows, rows', read, read', rounds⟩ := readAttribute_of_mapM LineNumber.read_inverts ok
      exact .lines read read' (rounds.imp fun _ _ => LineNumber.moves_of_relocate shrinks)
  | localVariables => exact variables' (.inl rfl) ok
  | localVariableTypes => exact variables' (.inr rfl) ok
  | frames => exact .stackMap (Frame.tableNarrows_layOut decoded replaced ok)
  | visibleAnnotations => exact items (.inl rfl) ok
  | invisibleAnnotations => exact items (.inr rfl) ok

end Layout

/-! ## Bodies -/

/-- Moving the tables of a body along with its code, after some of the dynamic calls in the code
became static ones, keeps every code offset that the tables store. Of the distances they store,
it loses those that grow out of 16 bits, which only the last two values that fit can do, and
only across a switch in code that is too long for 16 bits. -/
theorem Body.relocate_narrows {b moved : Body} {before after : List Placed} {code : Bytes}
    {map : OffsetMap} {pool : Pool} (decoded : decode b.code = .ok before)
    (replaced : List.Forall₂ Placed.Replaced before after)
    (assembled : assemble after b.code.length = .ok (code, map))
    (relocated : b.relocate pool map code = .ok moved) :
    moved.code = code ∧ b.Narrows pool map before moved := by
  obtain ⟨rfl, -⟩ := assemble_eq_ok.mp assembled
  have shrinks := (carries_layOut decoded replaced).shrinks
  obtain ⟨handlers, attributes, movedHandlers, movedAttributes, rfl⟩ :=
    Body.relocate_eq_ok.mp relocated
  refine ⟨rfl, rfl, rfl, movedHandlers.imp fun _ _ => Handler.moves_of_relocate shrinks,
    movedAttributes.imp fun a a' moved => ?_⟩
  obtain ⟨text, named, ⟨other, rfl⟩ | ⟨table, info, known, ok, rfl⟩⟩ :=
    Attribute.relocate_eq_ok.mp moved
  · exact ⟨rfl, text, named, .inl ⟨other, rfl⟩⟩
  · exact ⟨rfl, text, named, .inr ⟨table, known, OffsetTable.narrows_layOut decoded replaced ok⟩⟩

/-! ## A body that is too long

A call is followed by a switch of 16380 rows, and a variable lives from behind the call to
behind the switch, for 65535 bytes. With the call two bytes shorter the switch takes two bytes
of padding. So the range starts two bytes earlier and ends where it did. -/

namespace Overlong

def rows : List Nat :=
  List.replicate 16380 65540

/-- The instructions behind the call. -/
def others (rows : List Nat) : List Placed :=
  [⟨5, .plain 0x57 []⟩, ⟨6, .plain 0x03 []⟩, ⟨7, .tableSwitch 65540 0 rows⟩,
    ⟨65540, .plain 0xB1 []⟩]

def before : List Placed :=
  ⟨0, .dynamicCall 1⟩ :: others rows

def after : List Placed :=
  ⟨0, .call Opcode.invokeStatic 9⟩ :: others rows

def switch : Bytes :=
  Opcode.tableSwitch :: ([] ++ (be32 65533 ++ (be32 0 ++ (be32 16379 ++
    (rows.map fun _ => 65533).flatMap be32))))

def code : Bytes :=
  [0xBA, 0, 1, 0, 0] ++ ([0x57] ++ ([0x03] ++ (switch ++ ([0xB1] ++ []))))

def row : LocalVariable :=
  ⟨5, 65535, 2, 3, 0⟩

def body : Body :=
  ⟨0, 1, code, [], [⟨1, writeTable LocalVariable.write [row]⟩]⟩

def pool : Pool :=
  ⟨#[some (.utf8 (Modified.encode "LocalVariableTable"))]⟩

def moved (code : Bytes) : Body :=
  ⟨0, 1, code, [], [⟨1, writeTable LocalVariable.write [⟨3, 1, 2, 3, 0⟩]⟩]⟩

theorem length_rows : rows.length = 16380 := List.length_replicate

theorem encoded : (Instruction.tableSwitch 65540 (0 : UInt32).toInt32 rows).Encoded 7 switch := by
  refine .tableSwitch rfl ?_ (by decide) ⟨by decide, by decide⟩ ?_
  · rw [List.length_map, length_rows]
    decide
  · rw [List.forall₂_map_left_iff, List.forall₂_same]
    intro target held
    rw [List.eq_of_mem_replicate held]
    exact ⟨by decide, by decide⟩

theorem length_switch : switch.length = 65533 := by
  have size := encoded.length
  rwa [Instruction.size, length_rows] at size

theorem length_code : code.length = 65541 := by
  simp only [code, List.length_append, length_switch]
  rfl

/-- The code, around any bytes of the switch. -/
theorem tiles_around {piece : Bytes}
    (encoded : (Instruction.tableSwitch 65540 0 rows).Encoded 7 piece)
    (length : piece.length = 65533) :
    Tiles 0 ([0xBA, 0, 1, 0, 0] ++ ([0x57] ++ ([0x03] ++ (piece ++ ([0xB1] ++ []))))) before := by
  have behind : Tiles 7 (piece ++ ([0xB1] ++ [])) [⟨7, .tableSwitch 65540 0 rows⟩,
      ⟨65540, .plain 0xB1 []⟩] := by
    refine .cons encoded ?_
    rw [length]
    exact .cons (.plain (by decide)) (.nil _)
  exact .cons (@Instruction.Encoded.dynamicCall 0 1 0)
    (.cons (.plain (by decide)) (.cons (.plain (by decide)) behind))

theorem decoded : decode code = .ok before :=
  decode_eq_ok.mpr (tiles_around encoded length_switch)

theorem replaced : List.Forall₂ Placed.Replaced before after :=
  .cons (.call 0 1 9) (List.forall₂_same.mpr fun p _ => .kept p)

-- The rows are a variable here, so that they are only counted once.
theorem lands {rows : List Nat} (count : rows.length = 16380) (length : Nat) :
    let after := ⟨0, .call Opcode.invokeStatic 9⟩ :: others rows
    (5, 3) ∈ (stops after length).zip (landings after 0) ∧
      (65540, 65540) ∈ (stops after length).zip (landings after 0) := by
  simp [others, count, landings, Instruction.size, switchPadding]

/-- The start of the range moves with the call. -/
theorem sends_start : (layOut after code.length).Sends 5 3 :=
  ((sends_layOut decoded replaced).1 5 3).mpr (lands length_rows code.length).1

/-- The end of the range stays. -/
theorem sends_stop : (layOut after code.length).Sends 65540 65540 :=
  ((sends_layOut decoded replaced).1 65540 65540).mpr (lands length_rows code.length).2

theorem assembled :
    ∃ bytes, assemble after code.length = .ok (bytes, layOut after code.length) := by
  have far : Placed.far (layOut after code.length) 5 7 65540 = .ok (be32 65535) := by
    simp only [Placed.far, Placed.distance, OffsetMap.find_eq_ok.mpr sends_stop]
    rfl
  have targets : rows.mapM (Placed.far (layOut after code.length) 5 7) =
      .ok (rows.map fun _ => be32 65535) := by
    rw [mapM_eq_ok, List.forall₂_map_right_iff, List.forall₂_same]
    intro target held
    rw [List.eq_of_mem_replicate held, far]
  have encodes : ∃ piece, Placed.encode (layOut after code.length) 5
      ⟨7, .tableSwitch 65540 0 rows⟩ = .ok piece :=
    ⟨_, bind_eq_ok.mpr ⟨_, far, bind_eq_ok.mpr ⟨_, targets, rfl⟩⟩⟩
  obtain ⟨piece, encodes⟩ := encodes
  exact ⟨_, assemble_eq_ok.mpr ⟨rfl, .cons rfl (.cons rfl (.cons rfl (.cons encodes
    (.cons rfl (.nil _)))))⟩⟩

theorem relocated (bytes : Bytes) :
    body.relocate pool (layOut after code.length) bytes = .ok (moved bytes) := by
  have shrinks := (carries_layOut decoded replaced).shrinks
  have read : readAttribute OffsetTable.localVariables.attributeName
      (Reader.table LocalVariable.read) (writeTable LocalVariable.write [row]) = .ok [row] :=
    (readAttribute_eq_ok (Reader.table_inverts LocalVariable.read_inverts)).mpr
      ⟨⟨by decide, fun _ _ => trivial⟩, rfl⟩
  have start : (layOut after code.length).find16 row.start = .ok 3 :=
    shrinks.find16_eq_ok.mpr sends_start
  have stop : (layOut after code.length).find (row.start.toNat + row.length.toNat) = .ok 65540 :=
    OffsetMap.find_eq_ok.mpr sends_stop
  have moves : row.relocate (layOut after code.length) = .ok ⟨3, 1, 2, 3, 0⟩ :=
    bind_eq_ok.mpr ⟨3, start, bind_eq_ok.mpr ⟨65540, stop, rfl⟩⟩
  have table : OffsetTable.localVariables.relocate (layOut after code.length)
      (writeTable LocalVariable.write [row]) =
        .ok (writeTable LocalVariable.write [⟨3, 1, 2, 3, 0⟩]) :=
    bind_eq_ok.mpr ⟨_, read, bind_eq_ok.mpr ⟨_, mapM_eq_ok.mpr (.cons moves .nil), rfl⟩⟩
  exact Body.relocate_eq_ok.mpr ⟨[], _, .nil, .cons (Attribute.relocate_eq_ok.mpr
    ⟨"LocalVariableTable", by decide +kernel, .inr ⟨.localVariables, _, by decide +kernel, table,
      rfl⟩⟩) .nil, rfl⟩

end Overlong

theorem Body.relocate_narrows_overlong :
    ∃ bytes, assemble Overlong.after Overlong.code.length =
        .ok (bytes, layOut Overlong.after Overlong.code.length) ∧
      Overlong.body.Narrows Overlong.pool (layOut Overlong.after Overlong.code.length)
        Overlong.before (Overlong.moved bytes) := by
  obtain ⟨bytes, assembled⟩ := Overlong.assembled
  exact ⟨bytes, assembled, (Body.relocate_narrows (b := Overlong.body) Overlong.decoded
    Overlong.replaced assembled (Overlong.relocated bytes)).2⟩

/-- A body that is read, changed and moved without an error. The range of its variable is 65535
bytes long, from 5 to 65540. It becomes one from 3 to 65540, whose length 65537 is stored as 1. -/
theorem Body.relocate_cuts_length :
    ∃ (info : Bytes) (b moved : Body) (before after : List Placed) (code : Bytes)
      (map : OffsetMap) (pool : Pool) (row row' : LocalVariable),
      Body.parse info = .ok b ∧ decode b.code = .ok before ∧
      List.Forall₂ Placed.Replaced before after ∧
      assemble after b.code.length = .ok (code, map) ∧ b.relocate pool map code = .ok moved ∧
      pool.utf8 1 = .ok "LocalVariableTable" ∧
      b.attributes = [⟨1, writeTable LocalVariable.write [row]⟩] ∧
      moved.attributes = [⟨1, writeTable LocalVariable.write [row']⟩] ∧
      map.Sends row.start.toNat 3 ∧ map.Sends (row.start.toNat + row.length.toNat) 65540 ∧
      row'.start = 3 ∧ row'.length = 1 := by
  have fits : Overlong.body.Fits := by
    refine ⟨?_, by decide, by decide, ?_⟩
    · show Overlong.code.length < 4294967296
      rw [Overlong.length_code]
      decide
    · intro a held
      rw [List.mem_singleton.mp held]
      show (writeTable LocalVariable.write [Overlong.row]).length < 4294967296
      decide
  obtain ⟨bytes, assembled⟩ := Overlong.assembled
  exact ⟨_, _, _, _, _, _, _, Overlong.pool, Overlong.row, _, Body.parse_write fits,
    Overlong.decoded, Overlong.replaced, assembled, Overlong.relocated bytes, by decide +kernel, rfl,
    rfl, Overlong.sends_start, Overlong.sends_stop, rfl, rfl⟩

end Downlevel
