/-
# Downlevel.Proofs.Code.Tables — rows that follow their instructions

Exception handlers, line numbers and ranges of local variables name code offsets. A row that
is moved has every offset it names sent through the map (`Handler.Moves`,
`LineNumber.Moves`, `LocalVariable.Moves`) and is the same otherwise. A variable's range is
stored as a start and a length. Both of its ends are sent; a layout keeps their order, so the
new length is the distance between the new ends, and it fits 16 bits if the whole code does.

`Attribute.Moves` and `Body.Moves` say the same of whole attributes and bodies, and
`Body.Names` collects the offsets that the rows of a body name. A body can only be moved if
all of them are stops of its code (`Body.stop_of_names`).
-/
import Downlevel.Proofs.Code.Relocation
import Downlevel.Proofs.Pool.Lookup

namespace Downlevel

set_option autoImplicit false

open Sequencing

variable {map : OffsetMap}

theorem OffsetMap.sends_of_find16 {old new : UInt16} (found : map.find16 old = .ok new) :
    ∃ m, map.Sends old.toNat m := by
  obtain ⟨moved, found, -⟩ := bind_eq_ok.mp found
  exact ⟨moved, OffsetMap.find_eq_ok.mp found⟩

/-! ## Handlers -/

namespace Handler

/-- The code offsets that a handler names. -/
def offsets (h : Handler) : List Nat :=
  [h.start.toNat, h.stop.toNat, h.target.toNat]

/-- The same handler, with every offset it names sent through the map. -/
structure Moves (map : OffsetMap) (h moved : Handler) : Prop where
  start : map.Sends h.start.toNat moved.start.toNat
  stop : map.Sends h.stop.toNat moved.stop.toNat
  target : map.Sends h.target.toNat moved.target.toNat
  catchType : moved.catchType = h.catchType

theorem moves_of_relocate (shrinks : map.Shrinks) {h moved : Handler}
    (ok : h.relocate map = .ok moved) : h.Moves map moved := by
  obtain ⟨start, foundStart, ok⟩ := bind_eq_ok.mp ok
  obtain ⟨stop, foundStop, ok⟩ := bind_eq_ok.mp ok
  obtain ⟨target, foundTarget, same⟩ := bind_eq_ok.mp ok
  obtain rfl := pure_eq_ok.mp same
  exact ⟨shrinks.find16_eq_ok.mp foundStart, shrinks.find16_eq_ok.mp foundStop,
    shrinks.find16_eq_ok.mp foundTarget, rfl⟩

theorem Moves.sends {h moved : Handler} (moves : h.Moves map moved) :
    ∀ o ∈ h.offsets, ∃ m, map.Sends o m := by
  simp only [offsets, List.forall_mem_cons, List.not_mem_nil, false_implies, implies_true, and_true]
  exact ⟨⟨_, moves.start⟩, ⟨_, moves.stop⟩, ⟨_, moves.target⟩⟩

end Handler

/-! ## Tables of rows -/

/-- A table whose rows are moved one by one reads back as the moved rows. -/
theorem readAttribute_of_mapM {α : Type} {name : String} {read : Reader α} {write : α → Bytes}
    {move : α → Except Malformed α} {info info' : Bytes}
    (inverts : Reader.Inverts read write fun _ => True)
    (ok : (do
      let rows ← readAttribute name (Reader.table read) info
      return writeTable write (← rows.mapM move)) = .ok info') :
    ∃ rows rows', readAttribute name (Reader.table read) info = .ok rows ∧
      readAttribute name (Reader.table read) info' = .ok rows' ∧
      List.Forall₂ (fun row row' => move row = .ok row') rows rows' := by
  have table := @readAttribute_eq_ok _ name _ _ _ (Reader.table_inverts inverts)
  obtain ⟨rows, held, ok⟩ := bind_eq_ok.mp ok
  obtain ⟨rows', moved, same⟩ := bind_eq_ok.mp ok
  have rounds := mapM_eq_ok.mp moved
  have few : rows'.length < 65536 := by
    rw [← rounds.length_eq]
    exact (table.mp held).1.1
  exact ⟨rows, rows', held, table.mpr ⟨⟨few, fun _ _ => trivial⟩, (pure_eq_ok.mp same).symm⟩,
    rounds⟩

namespace LineNumber

/-- The same line, starting where the map sends its start. -/
structure Moves (map : OffsetMap) (row moved : LineNumber) : Prop where
  start : map.Sends row.start.toNat moved.start.toNat
  line : moved.line = row.line

theorem moves_of_relocate (shrinks : map.Shrinks) {row moved : LineNumber}
    (ok : row.relocate map = .ok moved) : row.Moves map moved := by
  obtain ⟨start, found, same⟩ := bind_eq_ok.mp ok
  obtain rfl := pure_eq_ok.mp same
  exact ⟨shrinks.find16_eq_ok.mp found, rfl⟩

end LineNumber

namespace LocalVariable

/-- The end of the range in which a variable lives. -/
def stop (row : LocalVariable) : Nat :=
  row.start.toNat + row.length.toNat

/-- The same variable, living between where the map sends the ends of its range. -/
structure Moves (map : OffsetMap) (row moved : LocalVariable) : Prop where
  start : map.Sends row.start.toNat moved.start.toNat
  stop : map.Sends row.stop moved.stop
  name : moved.name = row.name
  type : moved.type = row.type
  slot : moved.slot = row.slot

theorem sends_of_relocate {row moved : LocalVariable} (ok : row.relocate map = .ok moved) :
    (∃ m, map.Sends row.start.toNat m) ∧ ∃ m, map.Sends row.stop m := by
  obtain ⟨start, foundStart, ok⟩ := bind_eq_ok.mp ok
  obtain ⟨stop, foundStop, -⟩ := bind_eq_ok.mp ok
  exact ⟨OffsetMap.sends_of_find16 foundStart, stop, OffsetMap.find_eq_ok.mp foundStop⟩

theorem moves_of_relocate {code : List Placed} {length : Nat} (carries : map.Carries code length)
    (short : length < 65536) {row moved : LocalVariable} (ok : row.relocate map = .ok moved) :
    row.Moves map moved := by
  obtain ⟨start, foundStart, ok⟩ := bind_eq_ok.mp ok
  obtain ⟨stop, foundStop, same⟩ := bind_eq_ok.mp ok
  obtain rfl := pure_eq_ok.mp same
  have sendsStart := carries.shrinks.find16_eq_ok.mp foundStart
  have sendsStop : map.Sends row.stop stop := OffsetMap.find_eq_ok.mp foundStop
  have within := carries.within _ _ sendsStop
  have shorter := carries.shrinks _ _ sendsStop
  -- The ends cannot have changed places.
  have forward : start.toNat ≤ stop := by
    have back := carries.ordered sendsStop sendsStart
    have ends : row.start.toNat ≤ row.stop := Nat.le_add_right _ _
    omega
  have reach : LocalVariable.stop
      { row with start := start, length := UInt16.ofNat (stop - start.toNat) } = stop := by
    show start.toNat + (UInt16.ofNat (stop - start.toNat)).toNat = stop
    rw [UInt16.toNat_ofNat', Nat.mod_eq_of_lt (by omega)]
    omega
  exact ⟨sendsStart, reach.symm ▸ sendsStop, rfl, rfl, rfl⟩

end LocalVariable

/-! ## Attributes -/

namespace OffsetTable

/-- The contents of an attribute before and after: the same rows with their offsets sent
through the map. Of annotations it is only said that they keep their length. -/
inductive Moves (map : OffsetMap) : OffsetTable → Bytes → Bytes → Prop where
  | lines {info info' : Bytes} {rows rows' : List LineNumber}
      (read : readAttribute lineNumbers.attributeName (Reader.table LineNumber.read) info =
        .ok rows)
      (read' : readAttribute lineNumbers.attributeName (Reader.table LineNumber.read) info' =
        .ok rows')
      (moves : List.Forall₂ (LineNumber.Moves map) rows rows') : Moves map lineNumbers info info'
  | locals {table : OffsetTable} {info info' : Bytes} {rows rows' : List LocalVariable}
      (kind : table = localVariables ∨ table = localVariableTypes)
      (read : readAttribute table.attributeName (Reader.table LocalVariable.read) info = .ok rows)
      (read' : readAttribute table.attributeName (Reader.table LocalVariable.read) info' =
        .ok rows')
      (moves : List.Forall₂ (LocalVariable.Moves map) rows rows') : Moves map table info info'
  | stackMap {info info' : Bytes} {rows rows' : List Frame}
      (read : readAttribute frames.attributeName Frame.readTable info = .ok rows)
      (read' : readAttribute frames.attributeName Frame.readTable info' = .ok rows')
      (moves : List.Forall₂ (Frame.Moves map) rows rows') : Moves map frames info info'
  | annotations {table : OffsetTable} {info info' : Bytes}
      (kind : table = visibleAnnotations ∨ table = invisibleAnnotations)
      (length : info'.length = info.length) : Moves map table info info'

/-- The code offsets that the rows of an attribute name, annotations apart. -/
inductive Names : OffsetTable → Bytes → Nat → Prop where
  | line {info : Bytes} {rows : List LineNumber} {row : LineNumber}
      (read : readAttribute lineNumbers.attributeName (Reader.table LineNumber.read) info =
        .ok rows) (listed : row ∈ rows) : Names lineNumbers info row.start.toNat
  | variableStart {table : OffsetTable} {info : Bytes} {rows : List LocalVariable}
      {row : LocalVariable} (kind : table = localVariables ∨ table = localVariableTypes)
      (read : readAttribute table.attributeName (Reader.table LocalVariable.read) info = .ok rows)
      (listed : row ∈ rows) : Names table info row.start.toNat
  | variableStop {table : OffsetTable} {info : Bytes} {rows : List LocalVariable}
      {row : LocalVariable} (kind : table = localVariables ∨ table = localVariableTypes)
      (read : readAttribute table.attributeName (Reader.table LocalVariable.read) info = .ok rows)
      (listed : row ∈ rows) : Names table info row.stop
  | frame {info : Bytes} {rows : List Frame} {row : Frame} {o : Nat}
      (read : readAttribute frames.attributeName Frame.readTable info = .ok rows)
      (listed : row ∈ rows) (named : o ∈ row.offsets) : Names frames info o

variable {code : List Placed} {length : Nat} {info info' : Bytes}

theorem moves_of_relocate (carries : map.Carries code length) (short : length < 65536)
    {table : OffsetTable} (ok : table.relocate map info = .ok info') :
    table.Moves map info info' := by
  have ranges {table : OffsetTable} (kind : table = localVariables ∨ table = localVariableTypes)
      (ok : LocalVariable.relocateTable table.attributeName map info = .ok info') :
      table.Moves map info info' := by
    obtain ⟨rows, rows', read, read', rounds⟩ :=
      readAttribute_of_mapM LocalVariable.read_inverts ok
    exact .locals kind read read'
      (rounds.imp fun _ _ => LocalVariable.moves_of_relocate carries short)
  cases table with
  | lineNumbers =>
      obtain ⟨rows, rows', read, read', rounds⟩ := readAttribute_of_mapM LineNumber.read_inverts ok
      exact .lines read read'
        (rounds.imp fun _ _ => LineNumber.moves_of_relocate carries.shrinks)
  | localVariables => exact ranges (.inl rfl) ok
  | localVariableTypes => exact ranges (.inr rfl) ok
  | frames =>
      obtain ⟨rows, rows', row, read, moves, few, brief, rfl⟩ :=
        Frame.row_of_relocateTable carries short ok
      exact .stackMap read (Frame.readTable_of_row few brief) moves
  | visibleAnnotations =>
      exact .annotations (.inl rfl) <| TypeAnnotation.length_relocateTable ok
  | invisibleAnnotations =>
      exact .annotations (.inr rfl) <| TypeAnnotation.length_relocateTable ok

theorem sends_of_names (shrinks : map.Shrinks) {table : OffsetTable}
    (ok : table.relocate map info = .ok info') {o : Nat} (names : table.Names info o) :
    ∃ m, map.Sends o m := by
  have ranges {table : OffsetTable} {rows : List LocalVariable} {row : LocalVariable}
      (kind : table = localVariables ∨ table = localVariableTypes)
      (ok : table.relocate map info = .ok info')
      (read : readAttribute table.attributeName (Reader.table LocalVariable.read) info = .ok rows)
      (listed : row ∈ rows) :
      (∃ m, map.Sends row.start.toNat m) ∧ ∃ m, map.Sends row.stop m := by
    have ok : LocalVariable.relocateTable table.attributeName map info = .ok info' := by
      rcases kind with rfl | rfl
      · exact ok
      · exact ok
    obtain ⟨rows', rows'', again, -, rounds⟩ := readAttribute_of_mapM LocalVariable.read_inverts ok
    cases read.symm.trans again
    obtain ⟨moved, -, relocated⟩ := round_from_mem rounds listed
    exact LocalVariable.sends_of_relocate relocated
  cases names with
  | line read listed =>
      obtain ⟨rows, rows', again, -, rounds⟩ := readAttribute_of_mapM LineNumber.read_inverts ok
      cases read.symm.trans again
      obtain ⟨moved, -, relocated⟩ := round_from_mem rounds listed
      exact ⟨_, (LineNumber.moves_of_relocate shrinks relocated).start⟩
  | variableStart kind read listed => exact (ranges kind ok read listed).1
  | variableStop kind read listed => exact (ranges kind ok read listed).2
  | frame read listed named =>
      obtain ⟨rows, rows', again, moves, -⟩ := (Frame.relocateTable_eq_ok shrinks).mp ok
      cases read.symm.trans again
      obtain ⟨moved, -, moves⟩ := round_from_mem moves listed
      exact (Frame.exists_moves_iff shrinks).mp ⟨moved, moves⟩ _ named

end OffsetTable

/-- An attribute before and after. Its name is looked up in `pool`; if it names a table of
offsets the rows have moved, and else the contents are the same. -/
inductive Attribute.Moves (pool : Pool) (map : OffsetMap) : Attribute → Attribute → Prop where
  | kept {a : Attribute} {text : String} (named : pool.utf8 a.name = .ok text)
      (other : OffsetTable.ofName? text = none) : Moves pool map a a
  | table {a : Attribute} {text : String} {table : OffsetTable} {info : Bytes}
      (named : pool.utf8 a.name = .ok text) (known : OffsetTable.ofName? text = some table)
      (moves : table.Moves map a.info info) : Moves pool map a { a with info := info }

namespace Attribute

theorem relocate_eq_ok {pool : Pool} {a moved : Attribute} :
    a.relocate pool map = .ok moved ↔ ∃ text, pool.utf8 a.name = .ok text ∧
      (OffsetTable.ofName? text = none ∧ moved = a ∨
        ∃ table info, OffsetTable.ofName? text = some table ∧
          table.relocate map a.info = .ok info ∧ moved = { a with info := info }) := by
  unfold relocate
  rw [bind_eq_ok]
  refine exists_congr fun text => and_congr_right fun _ => ?_
  cases known : OffsetTable.ofName? text with
  | none => exact pure_eq_ok.trans (by simp [eq_comm])
  | some table =>
      simp only [bind_eq_ok, pure_eq_ok]
      constructor
      · intro ⟨info, relocated, same⟩
        exact .inr ⟨table, info, rfl, relocated, same.symm⟩
      · rintro (⟨impossible, -⟩ | ⟨_, info, ⟨⟩, relocated, same⟩)
        · cases impossible
        · exact ⟨info, relocated, same.symm⟩

theorem moves_of_relocate {pool : Pool} {code : List Placed} {length : Nat}
    (carries : map.Carries code length) (short : length < 65536) {a moved : Attribute}
    (ok : a.relocate pool map = .ok moved) : a.Moves pool map moved := by
  obtain ⟨text, named, ⟨other, rfl⟩ | ⟨table, info, known, relocated, rfl⟩⟩ := relocate_eq_ok.mp ok
  · exact .kept named other
  · exact .table named known (OffsetTable.moves_of_relocate carries short relocated)

/-- What an attribute has become can be told from a pool that retains its name. -/
theorem Moves.retains {before after : Pool} (retains : Pool.Retains before after)
    {a moved : Attribute} (moves : a.Moves before map moved) : a.Moves after map moved := by
  cases moves with
  | kept named other => exact .kept (retains.utf8 named) other
  | table named known moves => exact .table (retains.utf8 named) known moves

end Attribute

/-! ## Bodies -/

namespace Body

/-- A body before and after, its code apart. -/
structure Moves (pool : Pool) (map : OffsetMap) (b moved : Body) : Prop where
  maxStack : moved.maxStack = b.maxStack
  maxLocals : moved.maxLocals = b.maxLocals
  handlers : List.Forall₂ (Handler.Moves map) b.handlers moved.handlers
  attributes : List.Forall₂ (Attribute.Moves pool map) b.attributes moved.attributes

/-- The code offsets that the handlers of a body and the rows of its attributes name. The names
of attributes are looked up in `pool`. -/
inductive Names (pool : Pool) (b : Body) : Nat → Prop where
  | handler {h : Handler} {o : Nat} (listed : h ∈ b.handlers) (named : o ∈ h.offsets) :
      Names pool b o
  | table {a : Attribute} {text : String} {table : OffsetTable} {o : Nat}
      (held : a ∈ b.attributes) (named : pool.utf8 a.name = .ok text)
      (known : OffsetTable.ofName? text = some table) (names : table.Names a.info o) :
      Names pool b o

variable {pool : Pool} {code : Bytes} {b moved : Body}

theorem relocate_eq_ok :
    b.relocate pool map code = .ok moved ↔
      ∃ handlers attributes,
        List.Forall₂ (fun h h' => h.relocate map = .ok h') b.handlers handlers ∧
        List.Forall₂ (fun a a' => a.relocate pool map = .ok a') b.attributes attributes ∧
        moved = { b with code := code, handlers := handlers, attributes := attributes } := by
  simp only [relocate, bind_eq_ok, mapM_eq_ok, pure_eq_ok]
  constructor
  · rintro ⟨handlers, movedHandlers, attributes, movedAttributes, rfl⟩
    exact ⟨handlers, attributes, movedHandlers, movedAttributes, rfl⟩
  · rintro ⟨handlers, attributes, movedHandlers, movedAttributes, rfl⟩
    exact ⟨handlers, movedHandlers, attributes, movedAttributes, rfl⟩

theorem moves_of_relocate {before : List Placed} {length : Nat}
    (carries : map.Carries before length) (short : length < 65536)
    (ok : b.relocate pool map code = .ok moved) : b.Moves pool map moved := by
  obtain ⟨handlers, attributes, movedHandlers, movedAttributes, rfl⟩ := relocate_eq_ok.mp ok
  exact ⟨rfl, rfl, movedHandlers.imp fun _ _ => Handler.moves_of_relocate carries.shrinks,
    movedAttributes.imp fun _ _ => Attribute.moves_of_relocate carries short⟩

theorem Moves.retains {after : Pool} (retains : Pool.Retains pool after)
    (moves : b.Moves pool map moved) : b.Moves after map moved :=
  ⟨moves.maxStack, moves.maxLocals, moves.handlers,
    moves.attributes.imp fun _ _ => Attribute.Moves.retains retains⟩

/-- Every offset that a moved body names is a stop of its code. What it names may be told from
any pool that retains the names of its attributes. -/
theorem stop_of_names {before : List Placed} {length : Nat} (carries : map.Carries before length)
    (ok : b.relocate pool map code = .ok moved) {after : Pool} (retains : Pool.Retains pool after)
    {o : Nat} (names : b.Names after o) : o ∈ stops before length := by
  obtain ⟨handlers, attributes, movedHandlers, movedAttributes, -⟩ := relocate_eq_ok.mp ok
  apply (carries.defined o).mp
  cases names with
  | handler listed named =>
      obtain ⟨h', -, relocated⟩ := round_from_mem movedHandlers listed
      exact (Handler.moves_of_relocate carries.shrinks relocated).sends o named
  | @table a text table _ listed named known names =>
      obtain ⟨a', -, relocated⟩ := round_from_mem movedAttributes listed
      obtain ⟨text', again, outcome⟩ := Attribute.relocate_eq_ok.mp relocated
      cases named.symm.trans (retains.utf8 again)
      rw [known] at outcome
      rcases outcome with ⟨impossible, -⟩ | ⟨table', info, same, relocated, -⟩
      · cases impossible
      · obtain rfl := Option.some.inj same
        exact OffsetTable.sends_of_names carries.shrinks relocated names

/-- What a body names can be told from a pool that retains the names of its attributes. -/
theorem Names.retains {after : Pool} (retains : Pool.Retains pool after) {o : Nat}
    (names : b.Names pool o) : b.Names after o := by
  cases names with
  | handler listed named => exact .handler listed named
  | table held named known names => exact .table held (retains.utf8 named) known names

end Body

end Downlevel
