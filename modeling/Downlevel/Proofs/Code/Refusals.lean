/-
# Downlevel.Proofs.Code.Refusals — why a body cannot be moved

A table of a body is refused for one of two reasons: its contents do not read, or one of its
rows names an offset that the map sends nowhere. The error says which: it names the attribute
(`Malformed.badAttribute`) or the offset (`Malformed.badOffset`). A body can be refused for the
same reasons, and for a name of an attribute that cannot be looked up
(`Body.fails_relocate`).
-/
import Downlevel.Proofs.Code.Tables

namespace Downlevel

set_option autoImplicit false

open Sequencing

/-- The error is about an offset that goes nowhere. -/
def Malformed.Strays (map : OffsetMap) (e : Malformed) : Prop :=
  ∃ o, e = .badOffset o ∧ ∀ m, ¬ map.Sends o m

/-- The error is about the attribute, or about an offset that goes nowhere. -/
def Malformed.Refuses (map : OffsetMap) (name : String) (e : Malformed) : Prop :=
  e = .badAttribute name ∨ e.Strays map

/-! ## Rows -/

section Rows

variable (map : OffsetMap)

theorem OffsetMap.fails_find (o : Nat) : Fails (map.find o) (Malformed.Strays map) := by
  intro e failed
  unfold OffsetMap.find at failed
  cases found : map.find? o with
  | some m =>
      rw [found] at failed
      cases failed
  | none =>
      rw [found] at failed
      cases failed
      refine ⟨o, rfl, fun m sends => ?_⟩
      rw [OffsetMap.Sends, found] at sends
      cases sends

theorem OffsetMap.fails_find16 (o : UInt16) : Fails (map.find16 o) (Malformed.Strays map) :=
  (map.fails_find o.toNat).bind fun _ => fails_pure _ _

theorem Handler.fails_relocate (h : Handler) : Fails (h.relocate map) (Malformed.Strays map) :=
  (map.fails_find16 h.start).bind fun _ => (map.fails_find16 h.stop).bind fun _ =>
    (map.fails_find16 h.target).bind fun _ => fails_pure _ _

theorem LineNumber.fails_relocate (row : LineNumber) :
    Fails (row.relocate map) (Malformed.Strays map) :=
  (map.fails_find16 row.start).bind fun _ => fails_pure _ _

theorem LocalVariable.fails_relocate (row : LocalVariable) :
    Fails (row.relocate map) (Malformed.Strays map) :=
  (map.fails_find16 row.start).bind fun _ => (map.fails_find _).bind fun _ => fails_pure _ _

theorem VerificationType.fails_relocate (type : VerificationType) :
    Fails (type.relocate map) (Malformed.Strays map) := by
  cases type with
  | uninitialized offset => exact (map.fails_find16 offset).bind fun _ => fails_pure _ _
  | _ => exact fails_pure _ _

theorem FrameKind.fails_relocate (kind : FrameKind) :
    Fails (kind.relocate map) (Malformed.Strays map) := by
  have types (types : List VerificationType) :
      Fails (types.mapM (VerificationType.relocate map)) (Malformed.Strays map) :=
    Fails.mapM fun type _ => type.fails_relocate map
  cases kind with
  | same => exact fails_pure _ _
  | chop count => exact fails_pure _ _
  | sameWithItem item => exact (item.fails_relocate map).bind fun _ => fails_pure _ _
  | append locals => exact (types locals).bind fun _ => fails_pure _ _
  | full locals stack =>
      exact (types locals).bind fun _ => (types stack).bind fun _ => fails_pure _ _

theorem Frame.fails_relocate (frame : Frame) :
    Fails (frame.relocate map) (Malformed.Strays map) :=
  (map.fails_find frame.offset).bind fun _ =>
    (frame.kind.fails_relocate map).bind fun _ => fails_pure _ _

end Rows

/-! ## Annotations -/

namespace TypeAnnotation

/-- The relocator fails on account of the attribute or of an offset that goes nowhere. -/
def Blames {α : Type} (map : OffsetMap) (name : String) (x : Relocator α) : Prop :=
  ∀ input, Fails (x input) (Malformed.Refuses map name)

variable {map : OffsetMap} {name : String} {α β : Type}

theorem Blames.bind {x : Relocator α} {f : α → Relocator β} (first : Blames map name x)
    (next : ∀ a, Blames map name (f a)) : Blames map name (x >>= f) :=
  fun input => (first input).bind fun result => next result.1 result.2

theorem blames_pure (a : α) : Blames map name (pure a : Relocator α) :=
  fun _ => fails_pure _ _

theorem blames_lift {x : Except Malformed α} (fails : Fails x (Malformed.Strays map)) :
    Blames map name (liftM x : Relocator α) :=
  fun _ => (fails.imp fun _ => Or.inr).bind fun _ => fails_pure _ _

theorem blames_reading (r : Reader α) : Blames map name (reading name r) := by
  intro input e failed
  unfold reading at failed
  cases taken : r input with
  | ok result =>
      rw [taken] at failed
      cases failed
  | error fault =>
      rw [taken] at failed
      cases failed
      exact .inl rfl

theorem Blames.loop {x : Relocator α} (blames : Blames map name x) (rounds : List Nat) :
    Blames map name (rounds.mapM fun _ => x) := by
  induction rounds with
  | nil => exact blames_pure []
  | cons n rounds ih =>
      rw [List.mapM_cons]
      exact blames.bind fun a => ih.bind fun others => blames_pure (a :: others)

theorem blames_range : Blames map name (relocateRange name map) :=
  (blames_reading _).bind fun _ => (blames_reading _).bind fun _ =>
    (blames_reading _).bind fun _ => (blames_lift (map.fails_find _)).bind fun _ =>
      (blames_lift (map.fails_find _)).bind fun _ => blames_pure _

theorem blames_target (tag : UInt8) : Blames map name (relocateTarget name map tag) := by
  unfold relocateTarget
  cases TargetShape.ofTag? tag with
  | none =>
      intro input e failed
      cases failed
      exact .inl rfl
  | some shape =>
      cases shape with
      | ranges =>
          exact (blames_reading _).bind fun _ => (blames_range.loop _).bind fun _ => blames_pure _
      | offset =>
          exact (blames_reading _).bind fun offset =>
            (blames_lift (map.fails_find16 offset)).bind fun _ => blames_pure _
      | argument =>
          exact (blames_reading _).bind fun offset => (blames_reading _).bind fun _ =>
            (blames_lift (map.fails_find16 offset)).bind fun _ => blames_pure _
      | fixed count => exact blames_reading _

theorem blames_one (depth : Nat) : Blames map name (relocateOne name map depth) :=
  (blames_reading _).bind fun tag => (blames_target tag).bind fun _ =>
    (blames_reading _).bind fun _ => (blames_reading _).bind fun _ => blames_pure _

theorem fails_relocateTable (info : Bytes) :
    Fails (relocateTable name map info) (Malformed.Refuses map name) := by
  have all : Blames map name (relocateAll name map info.length) :=
    (blames_reading _).bind fun _ => ((blames_one _).loop _).bind fun _ =>
      (blames_reading _).bind fun _ => blames_pure _
  exact (all info).bind fun _ => fails_pure _ _

end TypeAnnotation

/-! ## Tables and bodies -/

/-- A table that is read whole and moved row by row. -/
theorem fails_rows {α β : Type} {map : OffsetMap} {name : String} {read : Reader (List α)}
    {move : α → Except Malformed α} {write : List α → β}
    (each : ∀ row, Fails (move row) (Malformed.Strays map)) (info : Bytes) :
    Fails (do
      let rows ← readAttribute name read info
      return write (← rows.mapM move)) (Malformed.Refuses map name) := by
  have reading : Fails (readAttribute name read info) (Malformed.Refuses map name) := by
    intro e failed
    unfold readAttribute at failed
    cases taken : Reader.whole read info with
    | ok result =>
        rw [taken] at failed
        cases failed
    | error fault =>
        rw [taken] at failed
        cases failed
        exact .inl rfl
  have moving (rows : List α) : Fails (rows.mapM move) (Malformed.Refuses map name) :=
    (Fails.mapM fun row _ => each row).imp fun _ => Or.inr
  exact reading.bind fun rows => (moving rows).bind fun _ => fails_pure _ _

/-- A table is refused on account of itself, or of an offset that goes nowhere. -/
theorem OffsetTable.fails_relocate (map : OffsetMap) (table : OffsetTable) (info : Bytes) :
    Fails (table.relocate map info) (Malformed.Refuses map table.attributeName) := by
  cases table with
  | lineNumbers => exact fails_rows (LineNumber.fails_relocate map) info
  | localVariables => exact fails_rows (LocalVariable.fails_relocate map) info
  | localVariableTypes => exact fails_rows (LocalVariable.fails_relocate map) info
  | frames => exact fails_rows (Frame.fails_relocate map) info
  | visibleAnnotations => exact TypeAnnotation.fails_relocateTable info
  | invisibleAnnotations => exact TypeAnnotation.fails_relocateTable info

/-- Why a body cannot be moved: one of the offsets it names goes nowhere, the name of an
attribute cannot be looked up, or a table of offsets does not read. -/
def Body.Refused (pool : Pool) (map : OffsetMap) (b : Body) (e : Malformed) : Prop :=
  e.Strays map ∨ ∃ a ∈ b.attributes, pool.utf8 a.name = .error e ∨
    ∃ text table, pool.utf8 a.name = .ok text ∧ OffsetTable.ofName? text = some table ∧
      e = .badAttribute table.attributeName

theorem Body.fails_relocate (pool : Pool) (map : OffsetMap) (code : Bytes) (b : Body) :
    Fails (b.relocate pool map code) (b.Refused pool map) := by
  have handlers : Fails (b.handlers.mapM (Handler.relocate map)) (b.Refused pool map) :=
    (Fails.mapM fun h _ => h.fails_relocate map).imp fun _ => Or.inl
  have attributes : Fails (b.attributes.mapM (Attribute.relocate pool map))
      (b.Refused pool map) := by
    refine Fails.mapM fun a held e failed => ?_
    unfold Attribute.relocate at failed
    cases named : pool.utf8 a.name with
    | error e' =>
        rw [named] at failed
        cases failed
        exact .inr ⟨a, held, .inl named⟩
    | ok text =>
        rw [named] at failed
        cases known : OffsetTable.ofName? text with
        | none =>
            simp only [bind, Except.bind, known] at failed
            cases failed
        | some table =>
            have moving : Fails (do
                return { a with info := ← table.relocate map a.info })
                (Malformed.Refuses map table.attributeName) :=
              (table.fails_relocate map a.info).bind fun _ => fails_pure _ _
            simp only [bind, Except.bind, known] at failed
            rcases moving e failed with blamed | strays
            · exact .inr ⟨a, held, .inr ⟨text, table, named, known, blamed⟩⟩
            · exact .inl strays
  exact handlers.bind fun _ => attributes.bind fun _ => fails_pure _ _

end Downlevel
