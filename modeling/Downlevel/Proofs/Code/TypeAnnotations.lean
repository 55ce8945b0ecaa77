/-
# Downlevel.Proofs.Code.TypeAnnotations — moving annotations on types

The format of a table of type annotations, spelled out without reference to the readers. Of what
stands behind a target nothing is ever changed, so it stays bytes: a path (`IsPath`) and the
annotation proper (`IsProper`), whose elements have values that may be annotations and arrays of
values in their turn (`IsValue`). An `Item` is an annotation with its target taken apart.

Copying takes exactly these bytes off the front of its input. Each level of nesting begins with
a byte of its own, so as many levels as there are bytes are enough (`copyValue_within`). Moving
takes an item off the front and gives the item with other ranges and offsets
(`rewrites_relocateOne`, `relocateTable_eq_ok`). Where the map is rising, sends nothing towards the
end and is defined on 16-bit offsets only, no cut to 16 bits loses anything, and each end of a
range goes where the map sends it (`Range.movedTo_eq_moves`).
-/
import Mathlib.Tactic.SplitIfs
import Downlevel.Code.TypeAnnotations
import Downlevel.Proofs.Code.Reassembly

namespace Downlevel

set_option autoImplicit false

namespace TypeAnnotation

open Reader

/-! ## What is copied -/

/-- A 16-bit count and that many items. -/
def IsTable (P : Bytes → Prop) (out : Bytes) : Prop :=
  ∃ items : List Bytes, items.length < 65536 ∧ (∀ item ∈ items, P item) ∧ out = writeTable id items

/-- The index of a name, and a value. -/
def IsPair (P : Bytes → Prop) (out : Bytes) : Prop :=
  2 ≤ out.length ∧ P (out.drop 2)

/-- The index of a type, and a table of elements. -/
def IsProper (P : Bytes → Prop) (out : Bytes) : Prop :=
  ∃ type pairs : Bytes, type.length = 2 ∧ IsTable (IsPair P) pairs ∧ out = type ++ pairs

/-- The tags of values: for numbers, strings and classes `B`, `C`, `D`, `F`, `I`, `J`, `S`, `Z`,
`s` and `c`, for the others `e`, `@` and `[`. -/
def valueTags : ValueShape → List UInt8
  | .constant => [0x42, 0x43, 0x44, 0x46, 0x49, 0x4A, 0x53, 0x5A, 0x73, 0x63]
  | .enumeration => [0x65]
  | .nested => [0x40]
  | .array => [0x5B]

/-- The bytes are the value of an element. -/
inductive IsValue : Bytes → Prop where
  | constant {tag : UInt8} {index : Bytes} (known : tag ∈ valueTags .constant)
      (size : index.length = 2) : IsValue (tag :: index)
  /-- After `e`: the indices of the type and of the name. -/
  | enumeration {names : Bytes} (size : names.length = 4) : IsValue (0x65 :: names)
  /-- After `@`: an annotation proper. -/
  | nested {type : Bytes} {pairs : List Bytes} (typed : type.length = 2)
      (few : pairs.length < 65536) (named : ∀ pair ∈ pairs, 2 ≤ pair.length)
      (valued : ∀ pair ∈ pairs, IsValue (pair.drop 2)) :
      IsValue (0x40 :: (type ++ writeTable id pairs))
  /-- After `[`: a table of values. -/
  | array {values : List Bytes} (few : values.length < 65536)
      (each : ∀ value ∈ values, IsValue value) : IsValue (0x5B :: writeTable id values)

/-- An 8-bit count and that many steps of two bytes. -/
def IsPath (out : Bytes) : Prop :=
  ∃ (count : UInt8) (steps : Bytes), steps.length = 2 * count.toNat ∧ out = count :: steps

theorem isValue_of_isProper {out : Bytes} (proper : IsProper IsValue out) :
    IsValue (0x40 :: out) := by
  obtain ⟨type, _, typed, ⟨pairs, few, each, rfl⟩, rfl⟩ := proper
  exact .nested typed few (fun pair held => (each pair held).1) fun pair held => (each pair held).2

/-! ## Copying -/

section Copying

variable {limit : Nat} {P : Bytes → Prop}

theorem copyTable_within {item : Reader Bytes} (copies : InvertsWithin limit item id P) :
    InvertsWithin limit (copyTable item) id (IsTable P) := by
  intro input short out rest
  unfold copyTable
  simp only [bind_eq_ok, pure_eq_ok, u16_eq_ok]
  constructor
  · rintro ⟨count, middle, rfl, items, _, read, rfl, rfl⟩
    rw [List.length_append] at short
    obtain ⟨counted, each, rfl⟩ := (times_eq_ok_within copies (by omega)).mp read
    have bound := count.toNat_lt
    refine ⟨⟨items, by omega, each, ?_⟩, ?_⟩
    · rw [writeTable, counted, UInt16.ofNat_toNat, List.flatMap_id]
    · rw [List.flatMap_id, id, List.append_assoc]
  · rintro ⟨⟨items, few, each, rfl⟩, rfl⟩
    simp only [id, writeTable, List.append_assoc, List.length_append] at short ⊢
    refine ⟨_, _, rfl, items, rest, ?_, ?_, rfl⟩
    · apply (times_eq_ok_within copies ?_).mpr
      · refine ⟨?_, each, rfl⟩
        rw [UInt16.toNat_ofNat']
        omega
      · rw [List.length_append]
        omega
    · rw [List.flatMap_id]

theorem copyPair_within {value : Reader Bytes} (copies : InvertsWithin limit value id P) :
    InvertsWithin limit (copyPair value) id (IsPair P) := by
  intro input short out rest
  unfold copyPair
  simp only [bind_eq_ok, pure_eq_ok, take_eq_ok]
  constructor
  · rintro ⟨name, middle, ⟨size, rfl⟩, copied, _, read, rfl, rfl⟩
    rw [List.length_append] at short
    obtain ⟨valued, rfl⟩ := (copies middle (by omega) copied _).mp read
    refine ⟨⟨?_, ?_⟩, (List.append_assoc _ _ _).symm⟩
    · rw [List.length_append]
      omega
    · rw [← size, List.drop_left]
      exact valued
  · rintro ⟨⟨long, valued⟩, rfl⟩
    have split := List.take_append_drop 2 out
    refine ⟨out.take 2, out.drop 2 ++ rest, ⟨by simp [long], ?_⟩, out.drop 2, rest, ?_, split, rfl⟩
    · rw [← List.append_assoc, split, id]
    · apply (copies _ ?_ _ _).mpr ⟨valued, rfl⟩
      simp only [id, List.length_append, List.length_drop] at short ⊢
      omega

theorem copyProper_within {value : Reader Bytes} (copies : InvertsWithin limit value id P) :
    InvertsWithin limit (copyProper value) id (IsProper P) := by
  have pairs := copyTable_within (copyPair_within copies)
  intro input short out rest
  unfold copyProper
  simp only [bind_eq_ok, pure_eq_ok, take_eq_ok]
  constructor
  · rintro ⟨type, middle, ⟨size, rfl⟩, copied, _, read, rfl, rfl⟩
    rw [List.length_append] at short
    obtain ⟨table, rfl⟩ := (pairs middle (by omega) copied _).mp read
    exact ⟨⟨type, copied, size, table, rfl⟩, (List.append_assoc _ _ _).symm⟩
  · rintro ⟨⟨type, copied, size, table, rfl⟩, rfl⟩
    refine ⟨type, copied ++ rest, ⟨size, List.append_assoc _ _ _⟩, copied, rest, ?_, rfl, rfl⟩
    apply (pairs _ ?_ _ _).mpr ⟨table, rfl⟩
    simp only [id, List.length_append] at short ⊢
    omega

end Copying

/-- A byte is the code of a character exactly if it is its number. -/
theorem char_ofNat_eq {n : Nat} (small : n < 256) {c : Char} : Char.ofNat n = c ↔ n = c.toNat := by
  have valid : n.isValidChar := .inl (by omega)
  constructor
  · rintro rfl
    rw [Char.ofNat, dif_pos valid]
    rfl
  · rintro rfl
    exact Char.ofNat_toNat c

theorem valueShape_eq_some {tag : UInt8} {shape : ValueShape} :
    ValueShape.ofTag? tag = some shape ↔ tag ∈ valueTags shape := by
  have letters : "BCDFIJSZsc".toList = ['B', 'C', 'D', 'F', 'I', 'J', 'S', 'Z', 's', 'c'] := by
    decide +kernel
  have code (c : Char) : Char.ofNat tag.toNat = c ↔ tag.toNat = c.toNat := char_ofNat_eq tag.toNat_lt
  simp only [ValueShape.ofTag?, letters, List.contains_iff_mem, List.mem_cons, List.not_mem_nil,
    or_false, code]
  -- Both sides are now about the number of the tag.
  cases shape <;> simp only [valueTags, List.mem_cons, List.not_mem_nil, or_false,
    ← UInt8.toNat_inj, UInt8.reduceToNat, Char.reduceToNat]
  all_goals
    split_ifs <;> simp <;> omega

/-- What is copied behind a byte. -/
theorem behind_eq_ok {r : Reader Bytes} {tag : UInt8} {input out rest : Bytes} :
    (do return tag :: (← r) : Reader Bytes) input = .ok (out, rest) ↔
      ∃ copied, r input = .ok (copied, rest) ∧ out = tag :: copied := by
  simp only [bind_eq_ok, pure_eq_ok]
  constructor
  · rintro ⟨copied, _, read, rfl, rfl⟩
    exact ⟨copied, read, rfl⟩
  · rintro ⟨copied, read, rfl⟩
    exact ⟨copied, rest, read, rfl, rfl⟩

/-- On inputs of at most `depth` bytes, the values that are nested at most `depth` deep are all
values. -/
theorem copyValue_within (depth : Nat) : InvertsWithin depth (copyValue depth) id IsValue := by
  induction depth with
  | zero =>
      intro input short out rest
      obtain rfl := List.length_eq_zero_iff.mp (Nat.le_zero.mp short)
      constructor
      · intro read
        cases read
      · rintro ⟨value, same⟩
        cases value <;> cases same
  | succ depth ih =>
      have proper := copyProper_within ih
      have array := copyTable_within ih
      intro input short out rest
      rw [copyValue, bind_eq_ok]
      constructor
      · rintro ⟨tag, middle, taken, next⟩
        obtain rfl := u8_eq_ok.mp taken
        have shorter : middle.length ≤ depth := Nat.le_of_succ_le_succ short
        cases known : ValueShape.ofTag? tag with
        | none =>
            rw [known] at next
            cases next
        | some shape =>
            rw [known] at next
            cases shape with
            | constant =>
                obtain ⟨index, read, rfl⟩ := behind_eq_ok.mp next
                obtain ⟨size, rfl⟩ := take_eq_ok.mp read
                exact ⟨.constant (valueShape_eq_some.mp known) size, rfl⟩
            | enumeration =>
                obtain ⟨names, read, rfl⟩ := behind_eq_ok.mp next
                obtain ⟨size, rfl⟩ := take_eq_ok.mp read
                obtain rfl := List.mem_singleton.mp (valueShape_eq_some.mp known)
                exact ⟨.enumeration size, rfl⟩
            | nested =>
                obtain ⟨copied, read, rfl⟩ := behind_eq_ok.mp next
                obtain ⟨fits, rfl⟩ := (proper middle shorter copied rest).mp read
                obtain rfl := List.mem_singleton.mp (valueShape_eq_some.mp known)
                exact ⟨isValue_of_isProper fits, rfl⟩
            | array =>
                obtain ⟨copied, read, rfl⟩ := behind_eq_ok.mp next
                obtain ⟨⟨values, few, each, rfl⟩, rfl⟩ := (array middle shorter copied rest).mp read
                obtain rfl := List.mem_singleton.mp (valueShape_eq_some.mp known)
                exact ⟨.array few each, rfl⟩
      · rintro ⟨value, rfl⟩
        cases value with
        | @constant tag index known size =>
            refine ⟨tag, index ++ rest, rfl, ?_⟩
            rw [valueShape_eq_some.mpr known]
            exact behind_eq_ok.mpr ⟨index, take_eq_ok.mpr ⟨size, rfl⟩, rfl⟩
        | @enumeration names size =>
            refine ⟨0x65, names ++ rest, rfl, ?_⟩
            have known : 0x65 ∈ valueTags .enumeration := List.mem_singleton_self _
            rw [valueShape_eq_some.mpr known]
            exact behind_eq_ok.mpr ⟨names, take_eq_ok.mpr ⟨size, rfl⟩, rfl⟩
        | @nested type pairs typed few named valued =>
            have fits : IsProper IsValue (type ++ writeTable id pairs) :=
              ⟨type, _, typed, ⟨pairs, few, fun pair held => ⟨named pair held, valued pair held⟩, rfl⟩,
                rfl⟩
            refine ⟨0x40, (type ++ writeTable id pairs) ++ rest, rfl, ?_⟩
            have known : 0x40 ∈ valueTags .nested := List.mem_singleton_self _
            rw [valueShape_eq_some.mpr known]
            exact behind_eq_ok.mpr
              ⟨_, (proper _ (Nat.le_of_succ_le_succ short) _ rest).mpr ⟨fits, rfl⟩, rfl⟩
        | @array values few each =>
            refine ⟨0x5B, writeTable id values ++ rest, rfl, ?_⟩
            have known : 0x5B ∈ valueTags .array := List.mem_singleton_self _
            rw [valueShape_eq_some.mpr known]
            exact behind_eq_ok.mpr ⟨_, (array _ (Nat.le_of_succ_le_succ short) _ rest).mpr
              ⟨⟨values, few, each, rfl⟩, rfl⟩, rfl⟩

theorem copyPath_eq_ok {input out rest : Bytes} :
    copyPath input = .ok (out, rest) ↔ IsPath out ∧ input = out ++ rest := by
  unfold copyPath
  rw [bind_eq_ok]
  simp only [behind_eq_ok, take_eq_ok, u8_eq_ok]
  constructor
  · rintro ⟨count, middle, rfl, steps, ⟨size, rfl⟩, rfl⟩
    exact ⟨⟨count, steps, size, rfl⟩, rfl⟩
  · rintro ⟨⟨count, steps, size, rfl⟩, rfl⟩
    exact ⟨count, steps ++ rest, rfl, steps, ⟨size, rfl⟩, rfl⟩

/-! ## Items -/

/-- A range of code in which a variable lives in a slot. -/
structure Range where
  start : UInt16
  length : UInt16
  slot : UInt16

namespace Range

def write (r : Range) : Bytes :=
  be16 r.start ++ (be16 r.length ++ be16 r.slot)

def stop (r : Range) : Nat :=
  r.start.toNat + r.length.toNat

end Range

/-- What follows the tag of an annotation: code offsets, or bytes that hold none. -/
inductive Target where
  | ranges (ranges : List Range)
  | offset (offset : UInt16)
  | argument (offset : UInt16) (number : UInt8)
  | fixed (bytes : Bytes)

namespace Target

def write : Target → Bytes
  | ranges rs => writeTable Range.write rs
  | offset o => be16 o
  | argument o number => be16 o ++ [number]
  | fixed bytes => bytes

/-- The code offsets that a target names. -/
def offsets : Target → List Nat
  | ranges rs => rs.flatMap fun r => [r.start.toNat, r.stop]
  | offset o => [o.toNat]
  | argument o _ => [o.toNat]
  | fixed _ => []

theorem forall_offsets_ranges {P : Nat → Prop} {rs : List Range} :
    (∀ o ∈ (ranges rs).offsets, P o) ↔ ∀ r ∈ rs, P r.start.toNat ∧ P r.stop := by
  simp only [offsets, List.forall_mem_flatMap, List.forall_mem_cons, List.not_mem_nil,
    false_implies, implies_true, and_true]

/-- The form of target that a tag announces. -/
def Announces (tag : UInt8) : TargetShape → Prop
  | .ranges => tag.toNat = 0x40 ∨ tag.toNat = 0x41
  | .offset => 0x43 ≤ tag.toNat ∧ tag.toNat ≤ 0x46
  | .argument => 0x47 ≤ tag.toNat ∧ tag.toNat ≤ 0x4B
  | .fixed size =>
      (tag.toNat ≤ 0x01 ∨ tag.toNat = 0x16) ∧ size = 1 ∨
        (0x10 ≤ tag.toNat ∧ tag.toNat ≤ 0x12 ∨ tag.toNat = 0x17 ∨ tag.toNat = 0x42) ∧ size = 2 ∨
        (0x13 ≤ tag.toNat ∧ tag.toNat ≤ 0x15) ∧ size = 0

instance (tag : UInt8) : DecidablePred (Announces tag)
  | .ranges => inferInstanceAs (Decidable (_ ∨ _))
  | .offset => inferInstanceAs (Decidable (_ ∧ _))
  | .argument => inferInstanceAs (Decidable (_ ∧ _))
  | .fixed _ => inferInstanceAs (Decidable (_ ∨ _))

/-- The target is of the form that its tag announces. -/
inductive Under (tag : UInt8) : Target → Prop where
  | ranges {rs : List Range} (announced : Announces tag .ranges) (few : rs.length < 65536) :
      Under tag (.ranges rs)
  | offset (o : UInt16) (announced : Announces tag .offset) : Under tag (.offset o)
  | argument (o : UInt16) (number : UInt8) (announced : Announces tag .argument) :
      Under tag (.argument o number)
  | fixed {bytes : Bytes} (announced : Announces tag (.fixed bytes.length)) :
      Under tag (.fixed bytes)

/-- The target with other ranges, related by `R`, or another offset, related by `S`. -/
inductive Changes (R : Range → Range → Prop) (S : UInt16 → UInt16 → Prop) :
    Target → Target → Prop where
  | ranges {rs rs' : List Range} (changes : List.Forall₂ R rs rs') :
      Changes R S (.ranges rs) (.ranges rs')
  | offset {o o' : UInt16} (changes : S o o') : Changes R S (.offset o) (.offset o')
  | argument {o o' : UInt16} (number : UInt8) (changes : S o o') :
      Changes R S (.argument o number) (.argument o' number)
  | fixed (bytes : Bytes) : Changes R S (.fixed bytes) (.fixed bytes)

end Target

/-- An annotation, of which only the target may name code offsets. -/
structure Item where
  tag : UInt8
  target : Target
  path : Bytes
  proper : Bytes

namespace Item

def write (item : Item) : Bytes :=
  item.tag :: (item.target.write ++ (item.path ++ item.proper))

/-- The parts of the item are of the format. -/
structure Fits (item : Item) : Prop where
  target : item.target.Under item.tag
  path : IsPath item.path
  proper : IsProper IsValue item.proper

/-- The same item but for the ranges and offsets of its target. -/
structure Changes (R : Range → Range → Prop) (S : UInt16 → UInt16 → Prop) (item item' : Item) :
    Prop where
  tag : item'.tag = item.tag
  target : item.target.Changes R S item'.target
  path : item'.path = item.path
  proper : item'.proper = item.proper

end Item

/-- The bytes are the table of the items, with nothing behind it. -/
def Reads (info : Bytes) (items : List Item) : Prop :=
  items.length < 65536 ∧ (∀ item ∈ items, item.Fits) ∧ info = writeTable Item.write items

/-! ## Moving -/

theorem relocator_bind_eq_ok {α β : Type} {x : Relocator α} {f : α → Relocator β}
    {input rest : Bytes} {b : β} :
    (x >>= f) input = .ok (b, rest) ↔
      ∃ a middle, x input = .ok (a, middle) ∧ f a middle = .ok (b, rest) := by
  show (x input >>= fun result => f result.1 result.2) = .ok (b, rest) ↔ _
  rw [Sequencing.bind_eq_ok]
  constructor
  · rintro ⟨⟨a, middle⟩, first, next⟩
    exact ⟨a, middle, first, next⟩
  · rintro ⟨a, middle, first, next⟩
    exact ⟨(a, middle), first, next⟩

theorem relocator_pure_eq_ok {α : Type} {a b : α} {input rest : Bytes} :
    (pure a : Relocator α) input = .ok (b, rest) ↔ a = b ∧ input = rest := by
  constructor
  · intro same
    cases same
    exact ⟨rfl, rfl⟩
  · rintro ⟨rfl, rfl⟩
    rfl

theorem reading_eq_ok {α : Type} {name : String} {r : Reader α} {input rest : Bytes} {a : α} :
    reading name r input = .ok (a, rest) ↔ r input = .ok (a, rest) := by
  unfold reading
  cases r input with
  | error fault => simp
  | ok result => simp

/-- Looking an offset up takes no input. -/
theorem lift_eq_ok {α : Type} {x : Except Malformed α} {input rest : Bytes} {a : α} :
    (liftM x : Relocator α) input = .ok (a, rest) ↔ x = .ok a ∧ input = rest := by
  show (x >>= fun a => pure (a, input)) = .ok (a, rest) ↔ _
  rw [Sequencing.bind_eq_ok]
  constructor
  · rintro ⟨a', found, same⟩
    obtain ⟨rfl, rfl⟩ := Prod.mk.inj (Sequencing.pure_eq_ok.mp same)
    exact ⟨found, rfl⟩
  · rintro ⟨found, rfl⟩
    exact ⟨a, found, rfl⟩

/-- On inputs of at most `limit` bytes, the relocator takes a value that fits off the front and
gives a related one, both in their written form. -/
def Rewrites {α : Type} (limit : Nat) (x : Relocator Bytes) (write : α → Bytes) (Fits : α → Prop)
    (R : α → α → Prop) : Prop :=
  ∀ input : Bytes, input.length ≤ limit → ∀ out rest : Bytes, x input = .ok (out, rest) ↔
    ∃ a a', Fits a ∧ R a a' ∧ input = write a ++ rest ∧ out = write a'

theorem Rewrites.loop {α : Type} {limit : Nat} {x : Relocator Bytes} {write : α → Bytes}
    {Fits : α → Prop} {R : α → α → Prop} (rewrites : Rewrites limit x write Fits R)
    {rounds : List Nat} {input rest : Bytes} {outs : List Bytes} (short : input.length ≤ limit) :
    (rounds.mapM fun _ => x) input = .ok (outs, rest) ↔
      ∃ as as', as.length = rounds.length ∧ (∀ a ∈ as, Fits a) ∧ List.Forall₂ R as as' ∧
        input = as.flatMap write ++ rest ∧ outs = as'.map write := by
  induction rounds generalizing input outs with
  | nil =>
      rw [List.mapM_nil, relocator_pure_eq_ok]
      constructor
      · rintro ⟨rfl, rfl⟩
        exact ⟨[], [], rfl, fun a held => absurd held List.not_mem_nil, .nil, rfl, rfl⟩
      · rintro ⟨as, as', none, -, related, rfl, rfl⟩
        obtain rfl := List.length_eq_zero_iff.mp none
        cases related
        exact ⟨rfl, rfl⟩
  | cons n rounds ih =>
      rw [List.mapM_cons, relocator_bind_eq_ok]
      simp only [relocator_bind_eq_ok, relocator_pure_eq_ok]
      constructor
      · rintro ⟨out, middle, first, others, _, next, rfl, rfl⟩
        obtain ⟨a, a', fits, related, rfl, rfl⟩ := (rewrites input short out middle).mp first
        rw [List.length_append] at short
        obtain ⟨as, as', count, allFit, allRelated, rfl, rfl⟩ := (ih (by omega)).mp next
        refine ⟨a :: as, a' :: as', ?_, List.forall_mem_cons.mpr ⟨fits, allFit⟩,
          .cons related allRelated, ?_, rfl⟩
        · rw [List.length_cons, List.length_cons, count]
        · rw [List.flatMap_cons, List.append_assoc]
      · rintro ⟨as, as', count, allFit, allRelated, rfl, rfl⟩
        cases allRelated with
        | nil => cases count
        | @cons a a' as as' related others =>
            obtain ⟨fits, fit⟩ := List.forall_mem_cons.mp allFit
            rw [List.flatMap_cons, List.append_assoc] at short ⊢
            refine ⟨_, _, (rewrites _ short _ _).mpr ⟨a, a', fits, related, rfl, rfl⟩, _, _, ?_, rfl,
              rfl⟩
            rw [List.length_append] at short
            exact (ih (by omega)).mpr ⟨as, as', Nat.succ.inj count, fit, others, rfl, rfl⟩

/-- A count and that many rounds rewrite a table. -/
theorem Rewrites.table {α : Type} {limit : Nat} {x : Relocator Bytes} {write : α → Bytes}
    {Fits : α → Prop} {R : α → α → Prop} (rewrites : Rewrites limit x write Fits R)
    (name : String) :
    Rewrites limit (do
        let count ← reading name u16
        let pieces ← (List.range count.toNat).mapM fun _ => x
        return be16 count ++ pieces.flatten)
      (writeTable write) (fun as => as.length < 65536 ∧ ∀ a ∈ as, Fits a) (List.Forall₂ R) := by
  intro input short out rest
  simp only [relocator_bind_eq_ok, relocator_pure_eq_ok, reading_eq_ok, u16_eq_ok]
  constructor
  · rintro ⟨count, middle, rfl, pieces, _, loop, rfl, rfl⟩
    rw [List.length_append] at short
    obtain ⟨as, as', counted, fit, related, rfl, rfl⟩ := (rewrites.loop (by omega)).mp loop
    rw [List.length_range] at counted
    have bound := count.toNat_lt
    refine ⟨as, as', ⟨by omega, fit⟩, related, ?_, ?_⟩
    · rw [writeTable, counted, UInt16.ofNat_toNat, List.append_assoc]
    · rw [writeTable, ← related.length_eq, counted, UInt16.ofNat_toNat, List.flatMap_def]
  · rintro ⟨as, as', ⟨few, fit⟩, related, rfl, rfl⟩
    have counted : as.length = (List.range (UInt16.ofNat as.length).toNat).length := by
      rw [List.length_range, UInt16.toNat_ofNat']
      omega
    rw [writeTable, List.append_assoc, List.length_append] at short
    refine ⟨UInt16.ofNat as.length, as.flatMap write ++ rest, List.append_assoc _ _ _,
      as'.map write, rest, (rewrites.loop (by omega)).mpr ⟨as, as', counted, fit, related, rfl, rfl⟩,
      ?_, rfl⟩
    rw [writeTable, ← related.length_eq, List.flatMap_def]

namespace Range

/-- The range between where the map sends its ends, cut to 16 bits. -/
def MovedTo (map : OffsetMap) (r r' : Range) : Prop :=
  ∃ start stop, map.Sends r.start.toNat start ∧ map.Sends r.stop stop ∧
    r' = ⟨UInt16.ofNat start, UInt16.ofNat (stop - start), r.slot⟩

theorem rewrites_relocateRange (name : String) (map : OffsetMap) (limit : Nat) :
    Rewrites limit (relocateRange name map) write (fun _ => True) (MovedTo map) := by
  intro input _ out rest
  unfold relocateRange
  constructor
  · intro ran
    obtain ⟨start, _, readStart, ran⟩ := relocator_bind_eq_ok.mp ran
    obtain ⟨length, _, readLength, ran⟩ := relocator_bind_eq_ok.mp ran
    obtain ⟨slot, _, readSlot, ran⟩ := relocator_bind_eq_ok.mp ran
    obtain ⟨movedStart, _, foundStart, ran⟩ := relocator_bind_eq_ok.mp ran
    obtain ⟨movedStop, _, foundStop, same⟩ := relocator_bind_eq_ok.mp ran
    obtain ⟨sendsStart, rfl⟩ := lift_eq_ok.mp foundStart
    obtain ⟨sendsStop, rfl⟩ := lift_eq_ok.mp foundStop
    obtain ⟨rfl, rfl⟩ := relocator_pure_eq_ok.mp same
    refine ⟨⟨start, length, slot⟩, _, trivial, ⟨movedStart, movedStop,
      OffsetMap.find_eq_ok.mp sendsStart, OffsetMap.find_eq_ok.mp sendsStop, rfl⟩, ?_, rfl⟩
    rw [u16_eq_ok.mp (reading_eq_ok.mp readStart), u16_eq_ok.mp (reading_eq_ok.mp readLength),
      u16_eq_ok.mp (reading_eq_ok.mp readSlot)]
    simp only [write, List.append_assoc]
  · rintro ⟨⟨start, length, slot⟩, _, -, ⟨movedStart, movedStop, sendsStart, sendsStop, rfl⟩, rfl,
      rfl⟩
    simp only [write, List.append_assoc]
    refine relocator_bind_eq_ok.mpr ⟨start, _, reading_eq_ok.mpr (u16_eq_ok.mpr rfl), ?_⟩
    refine relocator_bind_eq_ok.mpr ⟨length, _, reading_eq_ok.mpr (u16_eq_ok.mpr rfl), ?_⟩
    refine relocator_bind_eq_ok.mpr ⟨slot, _, reading_eq_ok.mpr (u16_eq_ok.mpr rfl), ?_⟩
    refine relocator_bind_eq_ok.mpr
      ⟨movedStart, _, lift_eq_ok.mpr ⟨OffsetMap.find_eq_ok.mpr sendsStart, rfl⟩, ?_⟩
    exact relocator_bind_eq_ok.mpr
      ⟨movedStop, _, lift_eq_ok.mpr ⟨OffsetMap.find_eq_ok.mpr sendsStop, rfl⟩, rfl⟩

end Range

theorem targetShape_eq_some {tag : UInt8} {shape : TargetShape} :
    TargetShape.ofTag? tag = some shape ↔ Target.Announces tag shape := by
  -- The forms that occur at all, each tried with every tag.
  let forms : List TargetShape := [.ranges, .offset, .argument, .fixed 0, .fixed 1, .fixed 2]
  have tried : ∀ form ∈ forms,
      (TargetShape.ofTag? tag = some form ↔ Target.Announces tag form) :=
    Instruction.forall_opcode (P := fun tag => ∀ form ∈ forms,
      (TargetShape.ofTag? tag = some form ↔ Target.Announces tag form)) (by decide +kernel) tag
  have read : ∀ form ∈ TargetShape.ofTag? tag, form ∈ forms :=
    Instruction.forall_opcode (P := fun tag => ∀ form ∈ TargetShape.ofTag? tag, form ∈ forms)
      (by decide +kernel) tag
  constructor
  · intro known
    exact (tried shape (read shape known)).mp known
  · intro announced
    refine (tried shape ?_).mpr announced
    cases shape with
    | fixed size =>
        rcases announced with ⟨-, rfl⟩ | ⟨-, rfl⟩ | ⟨-, rfl⟩ <;> simp [forms]
    | _ => simp [forms]

theorem rewrites_relocateTarget (name : String) (map : OffsetMap) (tag : UInt8) (limit : Nat) :
    Rewrites limit (relocateTarget name map tag) Target.write (Target.Under tag)
      (Target.Changes (Range.MovedTo map) fun o o' => map.find16 o = .ok o') := by
  intro input _ out rest
  have ranges (input : Bytes) :=
    (Range.rewrites_relocateRange name map input.length).table name input (Nat.le_refl _)
  unfold relocateTarget
  constructor
  · intro ran
    cases known : TargetShape.ofTag? tag with
    | none =>
        rw [known] at ran
        cases ran
    | some shape =>
        have announced := targetShape_eq_some.mp known
        rw [known] at ran
        cases shape with
        | ranges =>
            obtain ⟨rs, rs', ⟨few, -⟩, moved, rfl, rfl⟩ := (ranges _ _ _).mp ran
            exact ⟨.ranges rs, .ranges rs', .ranges announced few, .ranges moved, rfl, rfl⟩
        | offset =>
            obtain ⟨o, _, readOffset, ran⟩ := relocator_bind_eq_ok.mp ran
            obtain ⟨o', _, found, same⟩ := relocator_bind_eq_ok.mp ran
            obtain ⟨sends, rfl⟩ := lift_eq_ok.mp found
            obtain ⟨rfl, rfl⟩ := relocator_pure_eq_ok.mp same
            exact ⟨.offset o, .offset o', .offset o announced, .offset sends,
              u16_eq_ok.mp (reading_eq_ok.mp readOffset), rfl⟩
        | argument =>
            obtain ⟨o, _, readOffset, ran⟩ := relocator_bind_eq_ok.mp ran
            obtain ⟨number, _, readNumber, ran⟩ := relocator_bind_eq_ok.mp ran
            obtain ⟨o', _, found, same⟩ := relocator_bind_eq_ok.mp ran
            obtain ⟨sends, rfl⟩ := lift_eq_ok.mp found
            obtain ⟨rfl, rfl⟩ := relocator_pure_eq_ok.mp same
            obtain rfl := u16_eq_ok.mp (reading_eq_ok.mp readOffset)
            obtain rfl := u8_eq_ok.mp (reading_eq_ok.mp readNumber)
            refine ⟨.argument o number, .argument o' number, .argument o number announced,
              .argument number sends, ?_, rfl⟩
            rw [Target.write, List.append_assoc]
            rfl
        | fixed size =>
            obtain ⟨rfl, rfl⟩ := take_eq_ok.mp (reading_eq_ok.mp ran)
            exact ⟨.fixed out, .fixed out, .fixed announced, .fixed out, rfl, rfl⟩
  · rintro ⟨target, target', under, changes, rfl, rfl⟩
    cases changes with
    | @ranges rs rs' moved =>
        cases under with | ranges announced few
        rw [targetShape_eq_some.mpr announced]
        exact (ranges _ _ _).mpr ⟨rs, rs', ⟨few, fun _ _ => trivial⟩, moved, rfl, rfl⟩
    | @offset o o' sends =>
        cases under with | offset _ announced
        rw [targetShape_eq_some.mpr announced]
        refine relocator_bind_eq_ok.mpr ⟨o, rest, reading_eq_ok.mpr (u16_eq_ok.mpr rfl), ?_⟩
        exact relocator_bind_eq_ok.mpr ⟨o', rest, lift_eq_ok.mpr ⟨sends, rfl⟩, rfl⟩
    | @argument o o' number sends =>
        cases under with | argument _ _ announced
        rw [targetShape_eq_some.mpr announced]
        simp only [Target.write, List.append_assoc]
        refine relocator_bind_eq_ok.mpr ⟨o, _, reading_eq_ok.mpr (u16_eq_ok.mpr rfl), ?_⟩
        refine relocator_bind_eq_ok.mpr ⟨number, rest, reading_eq_ok.mpr (u8_eq_ok.mpr rfl), ?_⟩
        exact relocator_bind_eq_ok.mpr ⟨o', rest, lift_eq_ok.mpr ⟨sends, rfl⟩, rfl⟩
    | fixed bytes =>
        cases under with | fixed announced
        rw [targetShape_eq_some.mpr announced]
        exact reading_eq_ok.mpr (take_eq_ok.mpr ⟨rfl, rfl⟩)

/-- An annotation is taken off an input that is not longer than `depth`, and given back with its
ranges and offsets looked up. -/
theorem rewrites_relocateOne (name : String) (map : OffsetMap) (depth : Nat) :
    Rewrites depth (relocateOne name map depth) Item.write Item.Fits
      (Item.Changes (Range.MovedTo map) fun o o' => map.find16 o = .ok o') := by
  have copied := copyProper_within (copyValue_within depth)
  intro input short out rest
  constructor
  · intro ran
    obtain ⟨tag, _, readTag, ran⟩ := relocator_bind_eq_ok.mp ran
    obtain ⟨written, afterTarget, ranTarget, ran⟩ := relocator_bind_eq_ok.mp ran
    obtain ⟨path, afterPath, readPath, ran⟩ := relocator_bind_eq_ok.mp ran
    obtain ⟨proper, _, readProper, same⟩ := relocator_bind_eq_ok.mp ran
    obtain ⟨rfl, rfl⟩ := relocator_pure_eq_ok.mp same
    obtain rfl := u8_eq_ok.mp (reading_eq_ok.mp readTag)
    obtain ⟨target, target', under, changes, rfl, rfl⟩ :=
      (rewrites_relocateTarget name map tag _ _ (Nat.le_refl _) _ _).mp ranTarget
    obtain ⟨isPath, rfl⟩ := copyPath_eq_ok.mp (reading_eq_ok.mp readPath)
    have shorter : afterPath.length ≤ depth := by
      simp only [List.length_cons, List.length_append] at short
      omega
    obtain ⟨isProper, rfl⟩ := (copied afterPath shorter proper _).mp (reading_eq_ok.mp readProper)
    refine ⟨⟨tag, target, path, proper⟩, ⟨tag, target', path, proper⟩, ⟨under, isPath, isProper⟩,
      ⟨rfl, changes, rfl, rfl⟩, ?_, rfl⟩
    simp only [Item.write, List.cons_append, List.append_assoc, id]
  · rintro ⟨⟨_, target, _, _⟩, ⟨tag, target', path, proper⟩, ⟨under, isPath, isProper⟩,
      ⟨rfl, changes, rfl, rfl⟩, rfl, rfl⟩
    simp only [Item.write, List.cons_append, List.append_assoc] at short ⊢
    refine relocator_bind_eq_ok.mpr ⟨tag, _, reading_eq_ok.mpr (u8_eq_ok.mpr rfl), ?_⟩
    refine relocator_bind_eq_ok.mpr ⟨target'.write, path ++ (proper ++ rest),
      (rewrites_relocateTarget name map tag _ _ (Nat.le_refl _) _ _).mpr
        ⟨target, target', under, changes, rfl, rfl⟩, ?_⟩
    refine relocator_bind_eq_ok.mpr ⟨path, proper ++ rest,
      reading_eq_ok.mpr (copyPath_eq_ok.mpr ⟨isPath, rfl⟩), ?_⟩
    have shorter : (proper ++ rest).length ≤ depth := by
      simp only [List.length_cons, List.length_append] at short ⊢
      omega
    exact relocator_bind_eq_ok.mpr ⟨proper, rest,
      reading_eq_ok.mpr ((copied _ shorter proper rest).mpr ⟨isProper, rfl⟩), rfl⟩

/-- A table is moved exactly if it reads as a list of items whose ranges and offsets can all be
looked up. -/
theorem relocateTable_eq_ok {name : String} {map : OffsetMap} {info moved : Bytes} :
    relocateTable name map info = .ok moved ↔ ∃ items items', Reads info items ∧
      List.Forall₂ (Item.Changes (Range.MovedTo map) fun o o' => map.find16 o = .ok o') items items' ∧
      moved = writeTable Item.write items' := by
  have table := (rewrites_relocateOne name map info.length).table name info (Nat.le_refl _)
  constructor
  · intro ok
    obtain ⟨⟨out, rest⟩, ran, same⟩ := Sequencing.bind_eq_ok.mp ok
    obtain rfl := Sequencing.pure_eq_ok.mp same
    obtain ⟨count, middle, readCount, ran⟩ := relocator_bind_eq_ok.mp ran
    obtain ⟨pieces, _, loop, ran⟩ := relocator_bind_eq_ok.mp ran
    obtain ⟨⟨⟩, _, ended, same⟩ := relocator_bind_eq_ok.mp ran
    obtain ⟨rfl, rfl⟩ := relocator_pure_eq_ok.mp same
    obtain ⟨rfl, rfl⟩ := atEnd_eq_ok.mp (reading_eq_ok.mp ended)
    obtain ⟨items, items', ⟨few, fit⟩, changes, split, written⟩ := (table _ _).mp
      (relocator_bind_eq_ok.mpr ⟨count, middle, readCount,
        relocator_bind_eq_ok.mpr ⟨pieces, [], loop, rfl⟩⟩)
    exact ⟨items, items', ⟨few, fit, split.trans (List.append_nil _)⟩, changes, written⟩
  · rintro ⟨items, items', ⟨few, fit, split⟩, changes, rfl⟩
    have ran := (table _ []).mpr
      ⟨items, items', ⟨few, fit⟩, changes, split.trans (List.append_nil _).symm, rfl⟩
    obtain ⟨count, middle, readCount, ran⟩ := relocator_bind_eq_ok.mp ran
    obtain ⟨pieces, _, loop, same⟩ := relocator_bind_eq_ok.mp ran
    obtain ⟨written, rfl⟩ := relocator_pure_eq_ok.mp same
    rw [← written]
    refine Sequencing.bind_eq_ok.mpr ⟨(be16 count ++ pieces.flatten, []), ?_, rfl⟩
    refine relocator_bind_eq_ok.mpr ⟨count, middle, readCount, ?_⟩
    refine relocator_bind_eq_ok.mpr ⟨pieces, [], loop, ?_⟩
    exact relocator_bind_eq_ok.mpr ⟨(), [], reading_eq_ok.mpr (atEnd_eq_ok.mpr ⟨rfl, rfl⟩), rfl⟩

theorem Target.Changes.length_eq {R : Range → Range → Prop} {S : UInt16 → UInt16 → Prop}
    {target target' : Target} (changes : target.Changes R S target') :
    target'.write.length = target.write.length := by
  cases changes with
  | ranges changes =>
      have six : ∀ r : Range, r.write.length = 6 := fun r => rfl
      simp [write, writeTable, List.length_flatMap, six, changes.length_eq]
  | offset => rfl
  | argument => rfl
  | fixed => rfl

theorem Item.Changes.length_eq {R : Range → Range → Prop} {S : UInt16 → UInt16 → Prop}
    {item item' : Item} (changes : item.Changes R S item') :
    item'.write.length = item.write.length := by
  simp only [write, List.length_cons, List.length_append, changes.target.length_eq, changes.path,
    changes.proper]

theorem length_relocateTable {name : String} {map : OffsetMap} {info moved : Bytes}
    (ok : relocateTable name map info = .ok moved) : moved.length = info.length := by
  obtain ⟨items, items', ⟨-, -, rfl⟩, changes, rfl⟩ := relocateTable_eq_ok.mp ok
  simp only [writeTable, List.length_append, length_be16, Nat.add_left_cancel_iff]
  clear ok
  induction changes with
  | nil => rfl
  | cons first _ ih => simp only [List.flatMap_cons, List.length_append, first.length_eq, ih]

/-! ## Maps that keep the order -/

namespace Range

/-- The range between where the map sends its ends, of the same slot. -/
structure Moves (map : OffsetMap) (r r' : Range) : Prop where
  start : map.Sends r.start.toNat r'.start.toNat
  stop : map.Sends r.stop r'.stop
  slot : r'.slot = r.slot

end Range

/-- The same item but for its ranges and offsets, which go where the map sends them. -/
def Item.Moves (map : OffsetMap) : Item → Item → Prop :=
  Item.Changes (Range.Moves map) fun o o' => map.Sends o.toNat o'.toNat

section Rising

variable {map : OffsetMap}
  (rising : ∀ {o o' m m' : Nat}, map.Sends o m → map.Sends o' m' → o < o' → m < m')
  (shrinks : map.Shrinks) (narrow : ∀ o m, map.Sends o m → o ≤ 65535)
include rising shrinks narrow

/-- The ends of a range keep their order, so nothing is lost where they are cut to 16 bits. -/
theorem Range.movedTo_eq_moves : Range.MovedTo map = Range.Moves map := by
  funext r r'
  apply propext
  constructor
  · rintro ⟨start, stop, sendsStart, sendsStop, rfl⟩
    have shorter := shrinks _ _ sendsStart
    have shorter' := shrinks _ _ sendsStop
    have inside := narrow _ _ sendsStop
    have bound := r.start.toNat_lt
    have forward : start ≤ stop := by
      rcases Nat.eq_zero_or_pos r.length.toNat with empty | positive
      · rw [Range.stop, empty, Nat.add_zero] at sendsStop
        exact Nat.le_of_eq (Option.some.inj (sendsStart.symm.trans sendsStop))
      · exact Nat.le_of_lt (rising sendsStart sendsStop (Nat.lt_add_of_pos_right positive))
    have startFits : (UInt16.ofNat start).toNat = start := by
      rw [UInt16.toNat_ofNat']
      omega
    have stopFits : start + (UInt16.ofNat (stop - start)).toNat = stop := by
      rw [UInt16.toNat_ofNat']
      omega
    refine ⟨?_, ?_, rfl⟩
    · rw [startFits]
      exact sendsStart
    · show map.Sends r.stop ((UInt16.ofNat start).toNat + (UInt16.ofNat (stop - start)).toNat)
      rw [startFits, stopFits]
      exact sendsStop
  · intro moves
    obtain ⟨start, length, slot⟩ := r'
    obtain ⟨sendsStart, sendsStop, rfl⟩ := moves
    refine ⟨start.toNat, _, sendsStart, sendsStop, ?_⟩
    rw [Range.stop, Nat.add_sub_cancel_left, UInt16.ofNat_toNat, UInt16.ofNat_toNat]

theorem Range.exists_moves_iff {r : Range} : (∃ r', Range.Moves map r r') ↔
    (∃ m, map.Sends r.start.toNat m) ∧ ∃ m, map.Sends r.stop m := by
  rw [← Range.movedTo_eq_moves rising shrinks narrow]
  constructor
  · rintro ⟨_, start, stop, sendsStart, sendsStop, -⟩
    exact ⟨⟨start, sendsStart⟩, stop, sendsStop⟩
  · rintro ⟨⟨start, sendsStart⟩, stop, sendsStop⟩
    exact ⟨_, start, stop, sendsStart, sendsStop, rfl⟩

theorem Item.exists_moves_iff {item : Item} : (∃ item', Item.Moves map item item') ↔
    ∀ o ∈ item.target.offsets, ∃ m, map.Sends o m := by
  have sixteen (o : UInt16) :
      (∃ o' : UInt16, map.Sends o.toNat o'.toNat) ↔ ∃ m, map.Sends o.toNat m := by
    constructor
    · rintro ⟨o', sends⟩
      exact ⟨_, sends⟩
    · rintro ⟨m, sends⟩
      have shorter := shrinks _ _ sends
      have bound := o.toNat_lt
      refine ⟨UInt16.ofNat m, ?_⟩
      rwa [UInt16.toNat_ofNat', Nat.mod_eq_of_lt (by omega)]
  obtain ⟨tag, target, path, proper⟩ := item
  have onlyTarget : (∃ item', Item.Moves map ⟨tag, target, path, proper⟩ item') ↔
      ∃ target', target.Changes (Range.Moves map) (fun o o' => map.Sends o.toNat o'.toNat) target' := by
    constructor
    · rintro ⟨item', changes⟩
      exact ⟨_, changes.target⟩
    · rintro ⟨target', changes⟩
      exact ⟨⟨tag, target', path, proper⟩, rfl, changes, rfl, rfl⟩
  rw [onlyTarget]
  cases target with
  | ranges rs =>
      have rounds := @Sequencing.exists_rounds_iff _ _ (Range.Moves map) rs
      simp only [Range.exists_moves_iff rising shrinks narrow] at rounds
      constructor
      · rintro ⟨_, changes⟩
        cases changes with | ranges changes
        exact Target.forall_offsets_ranges.mpr (rounds.mp ⟨_, changes⟩)
      · intro known
        obtain ⟨rs', changes⟩ := rounds.mpr (Target.forall_offsets_ranges.mp known)
        exact ⟨_, .ranges changes⟩
  | offset o =>
      rw [Target.offsets, List.forall_mem_singleton, ← sixteen]
      constructor
      · rintro ⟨_, changes⟩
        cases changes with | offset sends
        exact ⟨_, sends⟩
      · rintro ⟨o', sends⟩
        exact ⟨_, .offset sends⟩
  | argument o number =>
      rw [Target.offsets, List.forall_mem_singleton, ← sixteen]
      constructor
      · rintro ⟨_, changes⟩
        cases changes with | argument _ sends
        exact ⟨_, sends⟩
      · rintro ⟨o', sends⟩
        exact ⟨_, .argument number sends⟩
  | fixed bytes =>
      constructor
      · rintro -
        exact fun o held => absurd held List.not_mem_nil
      · rintro -
        exact ⟨_, .fixed bytes⟩

end Rising

/-- An item whose offsets the map fixes is moved to itself. -/
theorem Item.moves_self {map : OffsetMap} {item : Item}
    (fixes : ∀ o ∈ item.target.offsets, map.Sends o o) : Item.Moves map item item := by
  refine ⟨rfl, ?_, rfl, rfl⟩
  obtain ⟨tag, target, path, proper⟩ := item
  cases target with
  | ranges rs =>
      refine .ranges (List.forall₂_same.mpr fun r held => ?_)
      obtain ⟨start, stop⟩ := Target.forall_offsets_ranges.mp fixes r held
      exact ⟨start, stop, rfl⟩
  | offset o => exact .offset (fixes _ List.mem_cons_self)
  | argument o number => exact .argument number (fixes _ List.mem_cons_self)
  | fixed bytes => exact .fixed bytes

/-- Along a map that keeps the order of offsets, sends none towards the end and knows 16-bit
offsets only, a table is moved exactly if it reads as a list of items all of whose offsets the
map knows. What comes out is the table of the same items with each end of a range and each
offset where the map sends it, and so has the same length. If the map fixes all the offsets, the
table comes out unchanged. -/
theorem relocateTable_moves_items {map : OffsetMap}
    (rising : ∀ {o o' m m' : Nat}, map.Sends o m → map.Sends o' m' → o < o' → m < m')
    (shrinks : map.Shrinks) (narrow : ∀ o m, map.Sends o m → o ≤ 65535) (name : String)
    (info : Bytes) :
    (∀ moved, relocateTable name map info = .ok moved ↔ ∃ items items', Reads info items ∧
      List.Forall₂ (Item.Moves map) items items' ∧ moved = writeTable Item.write items') ∧
    ((∃ moved, relocateTable name map info = .ok moved) ↔ ∃ items, Reads info items ∧
      ∀ item ∈ items, ∀ o ∈ item.target.offsets, ∃ m, map.Sends o m) ∧
    (∀ moved, relocateTable name map info = .ok moved → moved.length = info.length) ∧
    (∀ items, Reads info items → (∀ item ∈ items, ∀ o ∈ item.target.offsets, map.Sends o o) →
      relocateTable name map info = .ok info) := by
  have ranges := Range.movedTo_eq_moves rising shrinks narrow
  have offsets : (fun o o' => map.find16 o = .ok o') =
      fun o o' : UInt16 => map.Sends o.toNat o'.toNat := by
    funext o o'
    exact propext shrinks.find16_eq_ok
  have moves (moved : Bytes) : relocateTable name map info = .ok moved ↔ ∃ items items',
      Reads info items ∧ List.Forall₂ (Item.Moves map) items items' ∧
        moved = writeTable Item.write items' := by
    rw [relocateTable_eq_ok, ranges, offsets]
    rfl
  refine ⟨moves, ?_, fun moved ok => length_relocateTable ok, fun items reads fixes => ?_⟩
  · have known (items : List Item) : (∃ items', List.Forall₂ (Item.Moves map) items items') ↔
        ∀ item ∈ items, ∀ o ∈ item.target.offsets, ∃ m, map.Sends o m := by
      rw [Sequencing.exists_rounds_iff]
      exact forall₂_congr fun item _ => Item.exists_moves_iff rising shrinks narrow
    simp only [moves, ← known]
    constructor
    · rintro ⟨_, items, items', reads, rounds, -⟩
      exact ⟨items, reads, items', rounds⟩
    · rintro ⟨items, reads, items', rounds⟩
      exact ⟨_, items, items', reads, rounds, rfl⟩
  · have rounds : List.Forall₂ (Item.Moves map) items items :=
      List.forall₂_same.mpr fun item held => Item.moves_self (fixes item held)
    exact (moves info).mpr ⟨items, items, reads, rounds, reads.2.2⟩

/-- Two ranges, one of them over a call that has become shorter, and behind them an offset whose
annotation has an array of annotations for a value. -/
theorem relocateTable_moves_items_nested :
    let code : Bytes := [0xBA, 0, 1, 0, 0, 0x57, 0xB1]
    let after : List Placed := [⟨0, .call Opcode.invokeStatic 9⟩, ⟨5, .plain 0x57 []⟩,
      ⟨6, .plain 0xB1 []⟩]
    let info : Bytes := [0, 2,
      0x40, 0, 2, 0, 0, 0, 5, 0, 2, 0, 5, 0, 2, 0, 1, 1, 3, 0, 0, 9, 0, 0,
      0x47, 0, 5, 6, 0, 0, 9, 0, 1, 0, 10, 0x5B, 0, 1, 0x40, 0, 9, 0, 0]
    let moved : Bytes := [0, 2,
      0x40, 0, 2, 0, 0, 0, 3, 0, 2, 0, 3, 0, 2, 0, 1, 1, 3, 0, 0, 9, 0, 0,
      0x47, 0, 3, 6, 0, 0, 9, 0, 1, 0, 10, 0x5B, 0, 1, 0x40, 0, 9, 0, 0]
    relocateTable "RuntimeVisibleTypeAnnotations" (layOut after code.length) info = .ok moved ∧
      moved.length = info.length := by
  intro code after info moved
  have decoded : decode code = .ok [⟨0, .dynamicCall 1⟩, ⟨5, .plain 0x57 []⟩, ⟨6, .plain 0xB1 []⟩] := by
    decide +kernel
  have replaced : List.Forall₂ Placed.Replaced [⟨0, .dynamicCall 1⟩, ⟨5, .plain 0x57 []⟩,
      ⟨6, .plain 0xB1 []⟩] after :=
    .cons (.call 0 1 9) (.cons (.kept _) (.cons (.kept _) .nil))
  have carries := carries_layOut decoded replaced
  have lands := (sends_layOut decoded replaced).1
  have sends0 := (lands 0 0).mpr (by decide)
  have sends5 := (lands 5 3).mpr (by decide)
  have sends7 := (lands 7 5).mpr (by decide)
  have narrow (o m : Nat) (sends : (layOut after code.length).Sends o m) : o ≤ 65535 :=
    Nat.le_trans (carries.within o m sends) (by decide)
  let bare : Bytes := [0, 9, 0, 0]
  let nesting : Bytes := [0, 9, 0, 1, 0, 10, 0x5B, 0, 1, 0x40, 0, 9, 0, 0]
  have proper : IsProper IsValue bare :=
    ⟨[0, 9], _, rfl, ⟨[], by decide, fun _ held => absurd held List.not_mem_nil, rfl⟩, rfl⟩
  have valued : IsValue [0x5B, 0, 1, 0x40, 0, 9, 0, 0] :=
    @IsValue.array [[0x40, 0, 9, 0, 0]] (by decide)
      (List.forall_mem_singleton.mpr (isValue_of_isProper proper))
  have nested : IsProper IsValue nesting :=
    ⟨[0, 9], _, rfl, ⟨[[0, 10, 0x5B, 0, 1, 0x40, 0, 9, 0, 0]], by decide,
      List.forall_mem_singleton.mpr ⟨by decide, valued⟩, rfl⟩, rfl⟩
  let items : List Item := [⟨0x40, .ranges [⟨0, 5, 2⟩, ⟨5, 2, 1⟩], [1, 3, 0], bare⟩,
    ⟨0x47, .argument 5 6, [0], nesting⟩]
  have reads : Reads info items := by
    refine ⟨by decide, List.forall_mem_cons.mpr ⟨⟨?_, ⟨1, [3, 0], rfl, rfl⟩, proper⟩,
      List.forall_mem_singleton.mpr ⟨?_, ⟨0, [], rfl, rfl⟩, nested⟩⟩, by decide⟩
    · exact .ranges (by decide) (by decide)
    · exact .argument 5 6 (by decide)
  obtain ⟨moves, -, sameLength, -⟩ := relocateTable_moves_items
    (fun sends sends' => (carries.ordered sends sends').mp) carries.shrinks narrow
    "RuntimeVisibleTypeAnnotations" info
  have ok := (moves moved).mpr ⟨items, [⟨0x40, .ranges [⟨0, 3, 2⟩, ⟨3, 2, 1⟩], [1, 3, 0], bare⟩,
      ⟨0x47, .argument 3 6, [0], nesting⟩], reads,
    .cons ⟨rfl, .ranges (.cons ⟨sends0, sends5, rfl⟩ (.cons ⟨sends5, sends7, rfl⟩ .nil)), rfl, rfl⟩
      (.cons ⟨rfl, .argument 6 sends5, rfl, rfl⟩ .nil), by decide⟩
  exact ⟨ok, sameLength moved ok⟩

end TypeAnnotation

end Downlevel
